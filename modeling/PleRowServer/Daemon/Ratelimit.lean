/-
rowserverd.c, the rate limiter in front of the log: `ratelimit_take` and
the threads that call it.

A call reads the clock before it takes the lock, so by the time it is in
the locked section its reading may be older than the one the limiter
holds, and the elapsed time negative. `sinceMs` is the source's: seconds
and nanoseconds apart, the latter divided towards zero.

Numbers are plain here. No step of `since_ms` leaves an int64 for a clock
that counts its nanoseconds in one (`sinceMs_int64`), and before 2^63
calls neither does the count of lines dropped (`Reach.dropped_lt`).
-/
import PleRowServer.Base.Lts
import PleRowServer.Daemon.Recharge
import Mathlib.Algebra.Order.BigOperators.Group.List
import Mathlib.Data.List.Chain

namespace PleRowServer.Daemon

open Base

-- =============================================================== readings

/-- A reading of the monotonic clock. -/
structure Reading where
  time : Timespec
  nsec : 0 ≤ time.nsec ∧ time.nsec < 10 ^ 9
deriving DecidableEq

/-- A reading in nanoseconds. -/
def Reading.ns (r : Reading) : Int := r.time.sec * 10 ^ 9 + r.time.nsec

/-- `since_ms`. -/
def sinceMs (last now : Timespec) : Int :=
  (now.sec - last.sec) * 1000 + (now.nsec - last.nsec).tdiv 1000000

/-- Division towards zero is off by less than one, either way. -/
theorem tdiv_million (d : Int) :
    d < (d.tdiv 1000000 + 1) * 1000000 ∧ (d.tdiv 1000000 - 1) * 1000000 < d ∧
      (0 ≤ d → d.tdiv 1000000 * 1000000 ≤ d) ∧
      (d ≤ 0 → d ≤ d.tdiv 1000000 * 1000000) := by
  rcases Int.le_total 0 d with hd | hd
  · rw [Int.tdiv_eq_ediv_of_nonneg hd]
    omega
  · have hneg : d.tdiv 1000000 = -((-d) / 1000000) := by
      rw [← Int.tdiv_eq_ediv_of_nonneg (by omega), Int.neg_tdiv, Int.neg_neg]
    rw [hneg]
    omega

/-- A second by the limiter's count is more than 999 ms. -/
theorem sinceMs_spaced {a b : Reading}
    (h : 1000 ≤ sinceMs a.time b.time) : a.ns + 999 * 10 ^ 6 < b.ns := by
  obtain ⟨-, hlo, -, -⟩ := tdiv_million (b.time.nsec - a.time.nsec)
  unfold sinceMs at h
  unfold Reading.ns
  omega

/-- A whole second is a second by the limiter's count. -/
theorem sinceMs_second {a b : Reading} (h : a.ns + 10 ^ 9 ≤ b.ns) :
    1000 ≤ sinceMs a.time b.time := by
  have ha := a.nsec
  have hb := b.nsec
  obtain ⟨hhi, -, hpos, hneg⟩ :=
    tdiv_million (b.time.nsec - a.time.nsec)
  unfold Reading.ns at h
  unfold sinceMs
  omega

/-- A number an int64_t holds. -/
abbrev Int64Fits (n : Int) : Prop :=
  -((2 ^ 63 : Nat) : Int) ≤ n ∧ n < (2 ^ 63 : Nat)

/-- What `since_ms` is computed from, and it: the seconds, the
milliseconds they are, and the sum. -/
theorem sinceMs_int64 {a b : Reading} (ha : 0 ≤ a.ns ∧ Int64Fits a.ns)
    (hb : 0 ≤ b.ns ∧ Int64Fits b.ns) :
    Int64Fits (b.time.sec - a.time.sec) ∧
      Int64Fits ((b.time.sec - a.time.sec) * 1000) ∧
      Int64Fits (b.time.nsec - a.time.nsec) ∧
      Int64Fits (sinceMs a.time b.time) := by
  have hna := a.nsec
  have hnb := b.nsec
  obtain ⟨hhi, hlo, -, -⟩ := tdiv_million (b.time.nsec - a.time.nsec)
  unfold Reading.ns Int64Fits at *
  unfold sinceMs
  omega

-- ================================================================ limiter

/-- `struct ratelimit`, its lock aside. -/
structure Ratelimit where
  last : Reading
  dropped : Nat
  primed : Bool

/-- `RATELIMIT_INIT`. -/
def RATELIMIT_INIT : Ratelimit := ⟨⟨⟨0, 0⟩, by decide⟩, 0, false⟩

/-- The locked section of `ratelimit_take`, `now` read before it. -/
def ratelimitTake (rl : Ratelimit) (now : Reading) : Int × Ratelimit :=
  if rl.primed ∧ sinceMs rl.last.time now.time < 1000 then
    (-1, { rl with dropped := rl.dropped + 1 })
  else (rl.dropped, { last := now, dropped := 0, primed := true })

/-- What one call does: it is dropped and counted, or let through with
the count. -/
theorem ratelimitTake_cases (rl : Ratelimit) (now : Reading) :
    (rl.primed = true ∧ sinceMs rl.last.time now.time < 1000 ∧
      ratelimitTake rl now
        = (-1, { rl with dropped := rl.dropped + 1 })) ∨
    ((rl.primed = true → 1000 ≤ sinceMs rl.last.time now.time) ∧
      ratelimitTake rl now = ((rl.dropped : Int), ⟨now, 0, true⟩)) := by
  unfold ratelimitTake
  split
  case isTrue h => exact .inl ⟨h.1, h.2, rfl⟩
  case isFalse h => exact .inr ⟨fun hp => by
    by_contra hlt
    exact h ⟨hp, not_le.mp hlt⟩, rfl⟩

-- ================================================================ threads

/-- One limiter and the threads that call it. -/
structure Limited where
  limiter : Ratelimit := RATELIMIT_INIT
  /-- the reading of each thread on its way to the lock -/
  held : Nat → Option Reading := fun _ => none
  /-- the calls so far in the order they had the lock: reading, answer -/
  calls : List (Reading × Int) := []

/-- What thread `t` does next. -/
inductive Limit
  | read (t : Nat) (now : Reading)
  | take (t : Nat)

def limitStep (s : Limited) : Limit → Option Limited
  | .read t now =>
      match s.held t with
      | none => some { s with
          held := fun u => if u = t then some now else s.held u }
      | some _ => none
  | .take t =>
      match s.held t with
      | none => none
      | some now =>
          let (answer, rl) := ratelimitTake s.limiter now
          some
            { limiter := rl
              held := fun u => if u = t then none else s.held u
              calls := s.calls ++ [(now, answer)] }

def limited : Lts Limited Limit := ⟨{}, limitStep⟩

-- =================================================================== runs

/-- The readings of the calls let through, in order. -/
def passed (calls : List (Reading × Int)) : List Reading :=
  (calls.filter fun c => decide (0 ≤ c.2)).map Prod.fst

/-- The calls answered -1. -/
def refused (calls : List (Reading × Int)) : Nat :=
  calls.countP fun c => c.2 == -1

/-- The lines the calls let through were told of. -/
def told (calls : List (Reading × Int)) : Int :=
  ((calls.map Prod.snd).filter fun a => decide (0 ≤ a)).sum

/-- A call dropped came less than a second after the last let through
before it. -/
def Prompt (calls : List (Reading × Int)) : Prop :=
  ∀ before now answer after, calls = before ++ (now, answer) :: after →
    ∀ r, (passed before).getLast? = some r → r.ns + 10 ^ 9 ≤ now.ns →
      answer ≠ -1

/-- What holds between any two steps. -/
structure Counted (s : Limited) : Prop where
  count : (refused s.calls : Int) = told s.calls + s.limiter.dropped
  last : (passed s.calls).getLast?
    = if s.limiter.primed then some s.limiter.last else none
  spaced : (passed s.calls).IsChain fun a b => a.ns + 999 * 10 ^ 6 < b.ns
  prompt : Prompt s.calls

section Snoc

variable {calls : List (Reading × Int)} {now : Reading} {n : Nat}

theorem passed_dropped : passed (calls ++ [(now, -1)]) = passed calls := by
  simp [passed]

theorem passed_taken :
    passed (calls ++ [(now, (n : Int))]) = passed calls ++ [now] := by
  simp [passed]

/-- One more call. -/
theorem Prompt.snoc {answer : Int} (h : Prompt calls)
    (hnew : ∀ r, (passed calls).getLast? = some r →
      r.ns + 10 ^ 9 ≤ now.ns → answer ≠ -1) :
    Prompt (calls ++ [(now, answer)]) := by
  intro before now' answer' after heq r hr hns
  rcases List.eq_nil_or_concat after with rfl | ⟨after, x, rfl⟩
  · obtain ⟨rfl, hlast⟩ := List.append_inj' heq rfl
    obtain ⟨rfl, rfl⟩ : now = now' ∧ answer = answer' := by
      simpa using hlast
    exact hnew r hr hns
  · have heq : calls ++ [(now, answer)]
        = (before ++ (now', answer') :: after) ++ [x] := by
      simpa using heq
    obtain ⟨rfl, -⟩ := List.append_inj' heq rfl
    exact h before now' answer' after rfl r hr hns

end Snoc

/-- The locked section of any call keeps the counts. -/
theorem Counted.take {s : Limited} (h : Counted s) (now : Reading)
    (held : Nat → Option Reading) :
    Counted ⟨(ratelimitTake s.limiter now).2, held,
      s.calls ++ [(now, (ratelimitTake s.limiter now).1)]⟩ := by
  rcases ratelimitTake_cases s.limiter now with
    ⟨hprimed, hshort, heq⟩ | ⟨hlong, heq⟩ <;> rw [heq]
  · refine ⟨?_, ?_, ?_, h.prompt.snoc fun r hr hns => ?_⟩
    · have := h.count
      simp only [refused, told, List.countP_append, List.map_append,
        List.filter_append, List.sum_append] at this ⊢
      simp
      omega
    · rw [passed_dropped]
      exact h.last
    · rw [passed_dropped]
      exact h.spaced
    · rw [h.last, if_pos hprimed] at hr
      obtain rfl := Option.some.inj hr
      have := sinceMs_second hns
      omega
  · refine ⟨?_, ?_, ?_, h.prompt.snoc fun r hr hns => ?_⟩
    · have := h.count
      simp only [refused, told, List.countP_append, List.map_append,
        List.filter_append, List.sum_append] at this ⊢
      have hne : ((s.limiter.dropped : Int) == -1) = false := by
        simp only [beq_eq_false_iff_ne]
        omega
      simp [hne]
      omega
    · rw [passed_taken]
      simp
    · rw [passed_taken]
      refine List.isChain_append.mpr
        ⟨h.spaced, List.isChain_singleton now, ?_⟩
      intro r hr b hb
      obtain rfl : now = b := by simpa using hb
      rw [h.last] at hr
      cases hp : s.limiter.primed with
      | false => simp [hp] at hr
      | true =>
          obtain rfl : s.limiter.last = r := by simpa [hp] using hr
          exact sinceMs_spaced (hlong hp)
    · show (s.limiter.dropped : Int) ≠ -1
      omega

theorem Reach.counted {s : Limited} (h : limited.Reach s) : Counted s := by
  refine h.invariant ⟨rfl, rfl, .nil, ?_⟩ ?_
  · intro before now answer after heq
    simp [limited] at heq
  intro s a s' hs hstep
  cases a with
  | read t now =>
      simp only [limited, limitStep] at hstep
      split at hstep
      · obtain rfl := Option.some.inj hstep
        exact ⟨hs.count, hs.last, hs.spaced, hs.prompt⟩
      · cases hstep
  | take t =>
      simp only [limited, limitStep] at hstep
      split at hstep
      · cases hstep
      · obtain rfl := Option.some.inj hstep
        exact hs.take _ _

/-- Every line it holds a count of was a call. -/
theorem Reach.dropped_lt {s : Limited} (h : limited.Reach s)
    (hcalls : s.calls.length < 2 ^ 63) : Int64Fits s.limiter.dropped := by
  have htold : 0 ≤ told s.calls := by
    refine List.sum_nonneg fun a ha => ?_
    exact of_decide_eq_true (List.mem_filter.mp ha).2
  have hle : refused s.calls ≤ s.calls.length := List.countP_le_length
  have := (Reach.counted h).count
  unfold Int64Fits
  omega

/-- However its callers interleave, the limiter counts every line it
drops until it tells of them, lets calls through more than 999 ms apart,
and never drops one a second after the last let through. -/
theorem ratelimit_counts {s : Limited} (h : limited.Reach s) :
    (refused s.calls : Int) = told s.calls + s.limiter.dropped ∧
      (passed s.calls).IsChain (fun a b => a.ns + 999 * 10 ^ 6 < b.ns) ∧
      Prompt s.calls :=
  have hc := Reach.counted h
  ⟨hc.count, hc.spaced, hc.prompt⟩

/-- `n` thousandths of a second after the clock began. -/
def millis (n : Fin 1000) : Reading where
  time := ⟨0, n * 1000000⟩
  nsec := by
    show 0 ≤ (n : Int) * 1000000 ∧ (n : Int) * 1000000 < 10 ^ 9
    omega

/-- Two threads read the clock one way round and get the lock the
other. -/
def overtaken : List Limit :=
  [.read 0 (millis 1), .read 1 (millis 2), .take 1, .take 0]

theorem ratelimit_counts_overtaken :
    ∃ s, limited.run {} overtaken = some s ∧ refused s.calls = 1 ∧
      (refused s.calls : Int) = told s.calls + s.limiter.dropped ∧
      (passed s.calls).IsChain (fun a b => a.ns + 999 * 10 ^ 6 < b.ns) ∧
      Prompt s.calls :=
  have hrun : limited.run {} overtaken = some _ := rfl
  ⟨_, hrun, by decide, ratelimit_counts (Lts.Reach.init.of_run hrun)⟩

end PleRowServer.Daemon
