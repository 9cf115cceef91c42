/-
RECHARGE requests on any number of connections over one table: who holds
`sweeping`, which pages are cold, and what a second request gets.

# The view of one connection

What a connection has done so far says how far its request has come and
which pages it has dropped and not touched since (`View`). `View.Ok`
names what may be done at each point; that serve_conn's program never
does anything else is one `Safe` proof, made without the other
connections (`serveRecharge_safe`).

# The shared state

The flag is set exactly while some view holds it, no two do, and a cold
page is cold in the view of the one that does (`Shared`). An action that
is permitted in its own view preserves this, so the invariant looks at
actions and never at the program.

A state counts as cold every page dropped and not touched again by the
sweeps themselves; a gather that faults one in only makes it fewer.
-/
import PleRowServer.Base.Lts
import PleRowServer.Daemon.SweepReport
import Mathlib.Data.Set.Basic
import Mathlib.Logic.Function.Basic

namespace PleRowServer.Daemon

open Base

-- ================================================================= views

/-- How far the answer to a request has come. -/
inductive Phase
  /-- in range, the flag not yet tried -/
  | fresh
  /-- out of range -/
  | refused
  /-- the flag was another's -/
  | busy
  /-- between taking and releasing the flag -/
  | held
  /-- the flag released, the answer to come -/
  | swept
  | answered
deriving DecidableEq

/-- What a connection's own calls say of it. -/
structure View where
  phase : Phase
  cold : Set Nat

/-- The pages that `len` bytes from `off` on reach into. -/
def pagesOf (s : Server) (off len : Nat) : Set Nat :=
  { q | off / s.pageSize ≤ q ∧ q * s.pageSize < off + len }

/-- The slice size a request asks for is over the limit. -/
def OutOfRange (arg : UInt16) : Prop :=
  sliceMib arg.toUInt32 > RECHARGE_MAX_SLICE_MIB

instance (arg : UInt16) : Decidable (OutOfRange arg) :=
  inferInstanceAs (Decidable (_ > _))

/-- The slice size a request asks for, in bytes. -/
def sliceBytes (arg : UInt16) : Nat := sliceMib arg.toUInt32 * 2 ^ 20

/-- A job that has done nothing. -/
def View.start (arg : UInt16) : View :=
  ⟨if OutOfRange arg then .refused else .fresh, ∅⟩

/-- The view after one more call. -/
def View.next (s : Server) (g : View) : (a : Call) → Reply a → View
  | .exchange, (set : Bool) =>
      { g with phase := if set then .busy else .held }
  | .release, _ => { g with phase := .swept }
  | .madvise off len .dontneed, (ok : Bool) =>
      if ok then { g with cold := g.cold ∪ pagesOf s off len } else g
  | .load a, _ => { g with cold := g.cold \ {a / s.pageSize} }
  | .answer _ _, _ => { g with phase := .answered }
  | _, _ => g

/-- What a connection may do where it stands. -/
def View.Ok (s : Server) (slice : Nat) (g : View) : Call → Prop
  | .exchange => g.phase = .fresh
  | .release => g.phase = .held ∧ g.cold = ∅
  | .madvise off len .dontneed =>
      g.phase = .held ∧ g.cold = ∅ ∧ ∃ k, (off, len) = sliceAt s slice k
  | .answer st rep =>
      g.phase = .refused ∧ st = ST_BAD_PARAM ∧ rep = none ∨
        g.phase = .busy ∧ st = ST_BUSY ∧ rep = none ∨ g.phase = .swept
  | _ => g.phase = .held

-- ====================================================== one connection

section Thread

variable {s : Server} {slice : Nat}

/-- From `g` to `g'` inside a sweep, no page that starts in `[lo, hi)`
being cold at the end. -/
structure Warms (s : Server) (lo hi : Nat) (g g' : View) : Prop where
  held : g'.phase = .held
  warm : ∀ q ∈ g'.cold,
    q ∈ g.cold ∧ ¬ (lo ≤ q * s.pageSize ∧ q * s.pageSize < hi)

/-- Nothing is warmed by touching nothing. -/
theorem Warms.none {lo hi : Nat} {g : View} (hg : g.phase = .held)
    (hle : hi ≤ lo) : Warms s lo hi g g :=
  ⟨hg, fun _ hq => ⟨hq, by omega⟩⟩

/-- Two stretches that cover a range warm it. -/
theorem Warms.trans {lo hi a b c d : Nat} {g g' g'' : View}
    (h : Warms s a b g g') (h' : Warms s c d g' g'')
    (hcover : ∀ x, lo ≤ x → x < hi → a ≤ x ∧ x < b ∨ c ≤ x ∧ x < d) :
    Warms s lo hi g g'' := by
  refine ⟨h'.held, fun q hq => ?_⟩
  obtain ⟨hq', hout'⟩ := h'.warm q hq
  obtain ⟨hq, hout⟩ := h.warm q hq'
  exact ⟨hq, fun hin => (hcover _ hin.1 hin.2).elim hout hout'⟩

/-- A load warms the page it is in. -/
theorem Warms.load {a : Nat} {g : View} {r : UInt8} (hg : g.phase = .held)
    (ha : s.pageSize ∣ a) (hps : 0 < s.pageSize) :
    Warms s a (a + s.pageSize) g (g.next s (.load a) r) := by
  refine ⟨hg, fun q hq => ⟨hq.1, fun hin => hq.2 ?_⟩⟩
  obtain ⟨m, rfl⟩ := ha
  show q = s.pageSize * m / s.pageSize
  rw [Nat.mul_div_cancel_left _ hps]
  rw [Nat.mul_comm q] at hin
  apply le_antisymm
  · have h := hin.2
    rw [← Nat.mul_succ] at h
    exact Nat.lt_succ_iff.mp (Nat.lt_of_mul_lt_mul_left h)
  · exact Nat.le_of_mul_le_mul_left hin.1 hps

/-- The loop that counts pages leaves the sweep where it is. -/
theorem residentLoop_safe :
    ∀ (rounds off resident : Nat) {g : View}, g.phase = .held →
      Prog.Safe (View.Ok s slice) (View.next s) (fun _ g' => g' = g)
        (residentLoop s rounds off resident) g := by
  intro rounds
  induction rounds with
  | zero => intro off resident g _; exact rfl
  | succ rounds ih =>
      intro off resident g hg
      unfold residentLoop
      by_cases hoff : off < s.map.length
      · rw [if_pos hoff]
        apply Prog.safe_bind.mpr
        refine ⟨hg, fun vec => ?_⟩
        cases vec with
        | none => exact rfl
        | some vec => exact ih _ _ hg
      · rw [if_neg hoff]
        exact rfl

/-- `resident_pages` leaves the sweep where it is. -/
theorem residentPages_safe {g : View} (hg : g.phase = .held) :
    Prog.Safe (View.Ok s slice) (View.next s) (fun _ g' => g' = g)
      (residentPages s) g := by
  unfold residentPages
  apply Prog.safe_bind.mpr
  refine ⟨hg, fun _ => Prog.safe_bind.mpr ?_⟩
  apply (residentLoop_safe _ _ _ hg).mono
  intro n g' h
  rw [h]
  exact Prog.safe_bind.mpr ⟨hg, fun _ => rfl⟩

/-- Touching the pages of a chunk warms it to its end. -/
theorem touchPages_safe (hps : 0 < s.pageSize) {pos chunk : Nat}
    (hpos : s.pageSize ∣ pos) :
    ∀ (rounds p : Nat) {g : View}, chunk - p ≤ rounds → s.pageSize ∣ p →
      g.phase = .held →
      Prog.Safe (View.Ok s slice) (View.next s)
        (fun _ g' => Warms s (pos + p) (pos + chunk) g g')
        (touchPages s pos chunk rounds p) g := by
  intro rounds
  induction rounds with
  | zero => intro p g hle _ hg; exact Warms.none hg (by omega)
  | succ rounds ih =>
      intro p g hle hp hg
      unfold touchPages
      by_cases hlt : p < chunk
      · rw [if_pos hlt]
        apply Prog.safe_bind.mpr
        refine ⟨hg, fun r => ?_⟩
        have hload := Warms.load (r := r) hg (Nat.dvd_add hpos hp) hps
        apply (ih (p + s.pageSize) (by omega) (Nat.dvd_add hp dvd_rfl)
          hload.held).mono
        intro _ g' h
        exact hload.trans h (by omega)
      · rw [if_neg hlt]
        exact Warms.none hg (by omega)

/-- Touching chunk after chunk warms a range to its end. -/
theorem touchChunks_safe (hps : 0 < s.pageSize)
    (hdvd : s.pageSize ∣ WARM_CHUNK) {stop : Nat} :
    ∀ (rounds pos : Nat) {g : View}, stop - pos ≤ rounds →
      s.pageSize ∣ pos → g.phase = .held →
      Prog.Safe (View.Ok s slice) (View.next s)
        (fun _ g' => Warms s pos stop g g')
        (touchChunks s stop rounds pos) g := by
  intro rounds
  induction rounds with
  | zero => intro pos g hle _ hg; exact Warms.none hg (by omega)
  | succ rounds ih =>
      intro pos g hle hpos hg
      unfold touchChunks
      by_cases hlt : pos < stop
      · rw [if_pos hlt]
        have hchunk : Prog.Safe (View.Ok s slice) (View.next s)
            (fun _ g' => Warms s pos stop g g') (do
              touchPages s pos (min (stop - pos) WARM_CHUNK)
                (min (stop - pos) WARM_CHUNK) 0
              touchChunks s stop rounds (pos + WARM_CHUNK)) g := by
          apply Prog.safe_bind.mpr
          apply (touchPages_safe hps hpos _ 0 (by omega) (dvd_zero _)
            hg).mono
          intro _ g' h
          apply (ih (pos + WARM_CHUNK) (by unfold WARM_CHUNK; omega)
            (Nat.dvd_add hpos hdvd) h.held).mono
          intro _ g'' h'
          exact h.trans h' (by omega)
        simp only
        by_cases hnext : pos + WARM_CHUNK < stop
        · rw [if_pos hnext]
          exact Prog.safe_bind.mpr ⟨hg, fun _ => hchunk⟩
        · rw [if_neg hnext]
          exact hchunk
      · rw [if_neg hlt]
        exact Warms.none hg (by omega)

/-- `touch_range` warms the range. -/
theorem touchRange_safe (hps : 0 < s.pageSize)
    (hdvd : s.pageSize ∣ WARM_CHUNK) {off len : Nat}
    (hoff : s.pageSize ∣ off) {g : View} (hg : g.phase = .held) :
    Prog.Safe (View.Ok s slice) (View.next s)
      (fun _ g' => Warms s off (off + len) g g') (touchRange s off len)
      g := by
  unfold touchRange
  by_cases hlen : len = 0
  · rw [if_pos hlen]
    exact Warms.none hg (by omega)
  · rw [if_neg hlen]
    apply Prog.safe_bind.mpr
    refine ⟨hg, fun _ => Prog.safe_bind.mpr ⟨hg, fun _ => ?_⟩⟩
    apply Prog.safe_bind.mpr
    apply (touchChunks_safe hps hdvd _ _ (by omega) hoff hg).mono
    intro _ g' h
    exact Prog.safe_bind.mpr ⟨h.held, fun _ => h⟩

/-- The loop drops a slice only when nothing is cold, and leaves nothing
cold however it ends. -/
theorem sweepLoop_safe (hps : 0 < s.pageSize)
    (hdvd : s.pageSize ∣ WARM_CHUNK) (hslice : s.pageSize ∣ slice)
    {t0 : Timespec} :
    ∀ (rounds k : Nat) {off : Nat} {rep : RechargeReport} {g : View},
      off = k * slice → g.phase = .held → g.cold = ∅ →
      Prog.Safe (View.Ok s slice) (View.next s)
        (fun _ g' => g'.phase = .held ∧ g'.cold = ∅)
        (sweepLoop s t0 slice rounds off rep) g := by
  intro rounds
  induction rounds with
  | zero => intro k off rep g _ hg hcold; exact ⟨hg, hcold⟩
  | succ rounds ih =>
      intro k off rep g hoff hg hcold
      subst hoff
      unfold sweepLoop
      by_cases hlt : k * slice < s.map.length
      · rw [if_pos hlt]
        apply Prog.safe_bind.mpr
        refine ⟨hg, fun t => ?_⟩
        show Prog.Safe _ _ _ (if elapsedBetween t0 t ≥ _ then _ else _) g
        by_cases hlate : elapsedBetween t0 t ≥ RECHARGE_MAX_SECS * 1000
        · rw [if_pos hlate]
          exact ⟨hg, hcold⟩
        rw [if_neg hlate]
        apply Prog.safe_bind.mpr
        refine ⟨⟨hg, hcold, k, rfl⟩, fun ok => ?_⟩
        cases ok with
        | false => exact ⟨hg, hcold⟩
        | true =>
            -- the slice is cold now; each way on touches it
            have hoff := hslice.mul_left k
            let dropped := g.next s (.madvise (k * slice)
              (min (s.map.length - k * slice) slice) .dontneed) true
            have hdropped : dropped.phase = .held := hg
            have htouched : ∀ g', Warms s (k * slice) (k * slice
                + min (s.map.length - k * slice) slice) dropped g' →
                g'.cold = ∅ := by
              intro g' h
              apply Set.eq_empty_of_forall_notMem
              intro q hq
              obtain ⟨hmem, hout⟩ := h.warm q hq
              have hpage : q ∈ pagesOf s (k * slice)
                  (min (s.map.length - k * slice) slice) := by
                rcases hmem with hmem | hmem
                · rw [hcold] at hmem
                  exact absurd hmem (Set.notMem_empty q)
                · exact hmem
              obtain ⟨m, hm⟩ := hoff
              apply hout
              refine ⟨?_, hpage.2⟩
              have hle := hpage.1
              rw [hm, Nat.mul_div_cancel_left _ hps] at hle
              rw [hm, Nat.mul_comm q]
              exact Nat.mul_le_mul_left _ hle
            apply Prog.safe_bind.mpr
            refine ⟨hg, ?_⟩
            intro (err : Nat)
            show Prog.Safe _ _ _ (if err ≠ 0 then _ else _) _
            by_cases herr : err ≠ 0
            · rw [if_pos herr]
              apply Prog.safe_bind.mpr
              apply (touchRange_safe hps hdvd hoff hdropped).mono
              intro _ g' h
              exact ⟨h.held, htouched g' h⟩
            · rw [if_neg herr]
              apply Prog.safe_bind.mpr
              apply (touchRange_safe hps hdvd hoff hdropped).mono
              intro _ g' h
              exact ih (k + 1) (Nat.succ_mul k slice).symm h.held
                (htouched g' h)
      · rw [if_neg hlt]
        exact ⟨hg, hcold⟩

/-- A sweep has at most one cold slice. -/
theorem sweep_safe (hps : s.pageSize ∣ 2 ^ 20) {mib : Nat} {g : View}
    (hg : g.phase = .held) (hcold : g.cold = ∅) :
    Prog.Safe (View.Ok s (mib * 2 ^ 20)) (View.next s)
      (fun _ g' => g'.phase = .swept) (sweep s mib) g := by
  have hpos : 0 < s.pageSize := Nat.pos_of_dvd_of_pos hps (by decide)
  have hdvd : s.pageSize ∣ WARM_CHUNK := hps.trans ⟨64, rfl⟩
  unfold sweep
  apply Prog.safe_bind.mpr
  refine ⟨hg, fun t0 => Prog.safe_bind.mpr ?_⟩
  apply (residentPages_safe hg).mono
  intro before g₁ h₁
  subst h₁
  apply Prog.safe_bind.mpr
  apply (sweepLoop_safe hpos hdvd (hps.mul_left mib) _ 0
    (Nat.zero_mul _).symm hg hcold).mono
  intro out g₂ h₂
  apply Prog.safe_bind.mpr
  apply (residentPages_safe h₂.1).mono
  intro after g₃ h₃
  subst h₃
  apply Prog.safe_bind.mpr
  refine ⟨h₂.1, fun ms => Prog.safe_bind.mpr ?_⟩
  exact ⟨h₂, fun _ => rfl⟩

/-- Whatever it is answered, serve_conn's RECHARGE does only what its
view permits, and ends with its answer. -/
theorem serveRecharge_safe (hps : s.pageSize ∣ 2 ^ 20) (arg : UInt16) :
    Prog.Safe (View.Ok s (sliceBytes arg)) (View.next s)
      (fun _ g => g.phase = .answered) (serveRecharge s arg)
      (View.start arg) := by
  unfold serveRecharge rechargeMap sliceBytes
  by_cases hout : OutOfRange arg
  · have hstart : (View.start arg).phase = .refused := if_pos hout
    rw [if_pos (show sliceMib _ > _ from hout)]
    exact ⟨.inl ⟨hstart, rfl, rfl⟩, fun _ => rfl⟩
  · have hstart : (View.start arg).phase = .fresh := if_neg hout
    rw [if_neg (show ¬ sliceMib _ > _ from hout)]
    refine ⟨hstart, fun set => ?_⟩
    cases set with
    | true => exact ⟨.inr (.inl ⟨rfl, rfl, rfl⟩), fun _ => rfl⟩
    | false =>
        have hheld : ((View.start arg).next s .exchange false).phase
            = .held := rfl
        apply Prog.safe_bind.mpr
        show Prog.Safe _ _ _ (sweep s (sliceMib arg.toUInt32) >>= _) _
        apply Prog.safe_bind.mpr
        apply (sweep_safe hps hheld rfl).mono
        intro out g h
        exact ⟨.inr (.inr h), fun _ => rfl⟩

end Thread

-- =============================================================== machine

/-- A RECHARGE in the hands of a connection: what is left to do, and
what was done. -/
structure Job where
  arg : UInt16
  todo : Thread Unit
  log : Log

structure Sweeps where
  /-- `sweeping` -/
  sweeping : Bool
  /-- the pages dropped and not touched again -/
  cold : Set Nat
  jobs : Nat → Option Job

/-- A connection reads a RECHARGE, or goes on with the one it has. -/
inductive SweepAct
  | request (c : Nat) (arg : UInt16)
  | perform (c : Nat) (answers : ∀ a, Reply a)

namespace Sweeps

/-- What a call is answered: the exchange by the flag, the rest by the
kernel as it likes. -/
def reply (sweeping : Bool) (answers : ∀ a, Reply a) : ∀ a, Reply a
  | .exchange => sweeping
  | a => answers a

/-- The flag after a call. -/
def flagAfter (sweeping : Bool) : Call → Bool
  | .exchange => true
  | .release => false
  | _ => sweeping

/-- The cold pages after a call; a madvise that fails drops nothing. -/
def coldAfter (s : Server) (cold : Set Nat) : (a : Call) → Reply a → Set Nat
  | .madvise off len .dontneed, (ok : Bool) =>
      if ok then cold ∪ pagesOf s off len else cold
  | .load a, _ => cold \ {a / s.pageSize}
  | _, _ => cold

/-- Job `j` put in the hands of connection `c`. -/
def put (jobs : Nat → Option Job) (c : Nat) (j : Job) : Nat → Option Job :=
  Function.update jobs c (some j)

def step (s : Server) (σ : Sweeps) : SweepAct → Option Sweeps
  | .request c arg =>
      let jobs := put σ.jobs c ⟨arg, serveRecharge s arg, []⟩
      match σ.jobs c with
      | none => some { σ with jobs }
      | some ⟨_, .ret _, _⟩ => some { σ with jobs }
      | some ⟨_, .act _ _, _⟩ => none
  | .perform c answers =>
      match σ.jobs c with
      | some ⟨arg, .act a k, log⟩ =>
          let r := reply σ.sweeping answers a
          some
            { sweeping := flagAfter σ.sweeping a
              cold := coldAfter s σ.cold a r
              jobs := put σ.jobs c ⟨arg, k r, log ++ [⟨a, r⟩]⟩ }
      | _ => none

end Sweeps

/-- Any number of connections, none with a request at first. -/
def sweeps (s : Server) : Lts Sweeps SweepAct :=
  ⟨⟨false, ∅, fun _ => none⟩, Sweeps.step s⟩

-- ============================================================= invariant

section Machine

variable {s : Server}

/-- The view of a connection: its calls since the request. -/
def Job.view (s : Server) (j : Job) : View :=
  j.log.foldl (fun g d => g.next s d.1 d.2) (View.start j.arg)

/-- The view of connection `c`; one without a request is done. -/
def Sweeps.view (s : Server) (σ : Sweeps) (c : Nat) : View :=
  ((σ.jobs c).map (Job.view s)).getD ⟨.answered, ∅⟩

/-- The flag and the cold pages, in terms of the views. -/
structure Shared (sweeping : Bool) (cold : Set Nat) (view : Nat → View) :
    Prop where
  flag : sweeping = true ↔ ∃ c, (view c).phase = .held
  one : ∀ c d, (view c).phase = .held → (view d).phase = .held → c = d
  cold : ∀ q ∈ cold, ∃ c, (view c).phase = .held ∧ q ∈ (view c).cold

variable {sweeping : Bool} {cold cold' : Set Nat} {view : Nat → View}

/-- An action that neither takes nor gives up the flag. -/
theorem Shared.keep (h : Shared sweeping cold view) {c : Nat} {g : View}
    (hheld : g.phase = .held ↔ (view c).phase = .held)
    (hcold : ∀ q ∈ cold', g.phase = .held ∧ q ∈ g.cold ∨
      q ∈ cold ∧ ((view c).phase = .held → q ∈ (view c).cold →
        q ∈ g.cold)) :
    Shared sweeping cold' (Function.update view c g) := by
  have hphase : ∀ d, (Function.update view c g d).phase = .held
      ↔ (view d).phase = .held := by
    intro d
    by_cases hd : d = c
    · rw [hd, Function.update_self]
      exact hheld
    · rw [Function.update_of_ne hd]
  refine ⟨?_, ?_, fun q hq => ?_⟩
  · simp only [hphase]
    exact h.flag
  · simp only [hphase]
    exact h.one
  · rcases hcold q hq with hin | ⟨hq, himp⟩
    · exact ⟨c, by rw [Function.update_self]; exact hin⟩
    · obtain ⟨d, hd, hqd⟩ := h.cold q hq
      refine ⟨d, (hphase d).mpr hd, ?_⟩
      by_cases hdc : d = c
      · rw [hdc, Function.update_self]
        exact himp (hdc ▸ hd) (hdc ▸ hqd)
      · rw [Function.update_of_ne hdc]
        exact hqd

/-- An action its view permits keeps the shared state. -/
theorem Shared.act (h : Shared sweeping cold view) {c slice : Nat}
    (answers : ∀ a, Reply a) {a : Call} (hok : (view c).Ok s slice a) :
    Shared (Sweeps.flagAfter sweeping a)
      (Sweeps.coldAfter s cold a (Sweeps.reply sweeping answers a))
      (Function.update view c
        ((view c).next s a (Sweeps.reply sweeping answers a))) := by
  -- an action that changes neither the flag nor what is cold
  have hquiet : ∀ g : View, (g.phase = .held ↔ (view c).phase = .held) →
      g.cold = (view c).cold →
      Shared sweeping cold (Function.update view c g) :=
    fun g hg hcold => h.keep hg fun q hq => .inr ⟨hq, fun _ hqc => by
      rwa [hcold]⟩
  cases a with
  | exchange =>
      have hfresh : (view c).phase = .fresh := hok
      have hnot : (view c).phase ≠ .held := by rw [hfresh]; decide
      cases hset : sweeping with
      | true =>
          rw [hset] at hquiet
          exact hquiet _ ⟨fun hb => (by cases hb), fun hb => absurd hb hnot⟩ rfl
      | false =>
          -- nobody holds the flag, so the only holder is this one
          have hfree : ∀ d, (view d).phase ≠ .held := fun d hd => by
            have := h.flag.mpr ⟨d, hd⟩
            rw [hset] at this
            cases this
          have hother : ∀ d g, (Function.update view c g d).phase = .held →
              d = c := by
            intro d g hd
            by_contra hdc
            rw [Function.update_of_ne hdc] at hd
            exact hfree d hd
          refine ⟨⟨fun _ => ⟨c, ?_⟩, fun _ => rfl⟩, ?_, fun q hq => ?_⟩
          · rw [Function.update_self]
            rfl
          · intro d e hd he
            rw [hother d _ hd, hother e _ he]
          · obtain ⟨d, hd, -⟩ := h.cold q hq
            exact absurd hd (hfree d)
  | release =>
      obtain ⟨hheld, hempty⟩ := hok
      have hnone : ∀ d g, g.phase = .swept →
          (Function.update view c g d).phase ≠ .held := by
        intro d g hg hd
        by_cases hdc : d = c
        · rw [hdc, Function.update_self, hg] at hd
          cases hd
        · rw [Function.update_of_ne hdc] at hd
          exact hdc (h.one d c hd hheld)
      refine ⟨⟨fun hb => (by cases hb), fun hb => ?_⟩, ?_, fun q hq => ?_⟩
      · obtain ⟨d, hd⟩ := hb
        exact absurd hd (hnone d _ rfl)
      · intro d e hd _
        exact absurd hd (hnone d _ rfl)
      · obtain ⟨d, hd, hqd⟩ := h.cold q hq
        rw [h.one d c hd hheld, hempty] at hqd
        exact absurd hqd (Set.notMem_empty q)
  | load a =>
      have hheld : (view c).phase = .held := hok
      exact h.keep Iff.rfl fun q hq =>
        .inr ⟨hq.1, fun _ hqc => ⟨hqc, hq.2⟩⟩
  | madvise off len advice =>
      cases advice with
      | dontneed =>
          obtain ⟨hheld, -, -⟩ := hok
          show Shared sweeping (Sweeps.coldAfter s cold
            (.madvise off len .dontneed) (answers _))
              (Function.update view c ((view c).next s
                (.madvise off len .dontneed) (answers _)))
          generalize answers (.madvise off len .dontneed) = ok
          cases ok with
          | false => exact hquiet _ Iff.rfl rfl
          | true =>
              refine h.keep Iff.rfl fun q hq => ?_
              rcases hq with hq | hq
              · exact .inr ⟨hq, fun _ hqc => .inl hqc⟩
              · exact .inl ⟨hheld, .inr hq⟩
      | _ => exact hquiet _ Iff.rfl rfl
  | answer st rep =>
      have hnot : (view c).phase ≠ .held := by
        rcases hok with ⟨hp, -⟩ | ⟨hp, -⟩ | hp
        all_goals
          rw [hp]
          decide
      exact hquiet _ ⟨fun hb => (by cases hb), fun hb => absurd hb hnot⟩ rfl
  | _ => exact hquiet _ Iff.rfl rfl

/-- What the log of a request is at each point. -/
def Logged (arg : UInt16) (log : Log) : Phase → Prop
  | .fresh => ¬ OutOfRange arg ∧ log = []
  | .refused => OutOfRange arg ∧ log = []
  | .busy => ¬ OutOfRange arg ∧ log = [⟨.exchange, true⟩]
  | .held => ¬ OutOfRange arg ∧
      ∃ rest, log = ⟨.exchange, false⟩ :: rest ∧ ⟨.release, ()⟩ ∉ rest
  | .swept => ¬ OutOfRange arg ∧
      ∃ rest, log = ⟨.exchange, false⟩ :: rest ∧ ⟨.release, ()⟩ ∈ rest
  | .answered =>
      OutOfRange arg ∧ log = [⟨.answer ST_BAD_PARAM none, ()⟩] ∨
      ¬ OutOfRange arg ∧
        (log = [⟨.exchange, true⟩, ⟨.answer ST_BUSY none, ()⟩] ∨
          ∃ rest, log = ⟨.exchange, false⟩ :: rest ∧
            ⟨.release, ()⟩ ∈ rest)

/-- A job that has done nothing has logged nothing. -/
theorem Logged.start (arg : UInt16) :
    Logged arg [] (View.start arg).phase := by
  unfold View.start
  by_cases hout : OutOfRange arg
  · rw [if_pos hout]
    exact ⟨hout, rfl⟩
  · rw [if_neg hout]
    exact ⟨hout, rfl⟩

/-- One call keeps the log in step with the view. -/
theorem Logged.snoc {arg : UInt16} {log : Log} {g : View} {slice : Nat}
    {a : Call} {r : Reply a} (h : Logged arg log g.phase)
    (hok : g.Ok s slice a) :
    Logged arg (log ++ [⟨a, r⟩]) (g.next s a r).phase := by
  -- a call in the middle of a sweep
  have hsweep : ∀ p : Phase, p = .held → g.phase = .held →
      a ≠ .release →
      Logged arg (log ++ [⟨a, r⟩]) p := by
    intro p hp hg hne
    rw [hg] at h
    obtain ⟨hin, rest, rfl, hno⟩ := h
    rw [hp]
    refine ⟨hin, rest ++ [⟨a, r⟩], rfl, fun hmem => ?_⟩
    rcases List.mem_append.mp hmem with hmem | hmem
    · exact hno hmem
    · exact hne (congrArg Sigma.fst (List.mem_singleton.mp hmem)).symm
  cases a with
  | exchange =>
      rw [show g.phase = .fresh from hok] at h
      obtain ⟨hin, rfl⟩ := h
      cases r with
      | true => exact ⟨hin, rfl⟩
      | false => exact ⟨hin, [], rfl, List.not_mem_nil⟩
  | release =>
      rw [hok.1] at h
      obtain ⟨hin, rest, rfl, -⟩ := h
      exact ⟨hin, rest ++ [⟨.release, r⟩], rfl,
        List.mem_append_right _ (List.mem_singleton_self _)⟩
  | answer st rep =>
      rcases hok with ⟨hp, rfl, rfl⟩ | ⟨hp, rfl, rfl⟩ | hp
      · rw [hp] at h
        obtain ⟨hout, rfl⟩ := h
        exact .inl ⟨hout, rfl⟩
      · rw [hp] at h
        obtain ⟨hin, rfl⟩ := h
        exact .inr ⟨hin, .inl rfl⟩
      · rw [hp] at h
        obtain ⟨hin, rest, rfl, hmem⟩ := h
        exact .inr ⟨hin, .inr ⟨rest ++ [⟨.answer st rep, r⟩], rfl,
          List.mem_append_left _ hmem⟩⟩
  | madvise off len advice =>
      cases advice with
      | dontneed =>
          obtain ⟨hheld, -⟩ := hok
          cases r <;> exact hsweep _ hheld hheld (by simp)
      | _ => exact hsweep _ hok hok (by simp)
  | _ => exact hsweep _ hok hok (by simp)

/-- What one connection keeps to, whatever the others do. -/
structure Job.Good (s : Server) (j : Job) : Prop where
  safe : Prog.Safe (View.Ok s (sliceBytes j.arg)) (View.next s)
    (fun _ g => g.phase = .answered) j.todo (j.view s)
  logged : Logged j.arg j.log (j.view s).phase
  /-- what it has cold is in one slice -/
  slice : ∃ k, (j.view s).cold ⊆ pagesOf s (sliceAt s (sliceBytes j.arg) k).1
    (sliceAt s (sliceBytes j.arg) k).2

/-- A call moves the job's view on. -/
theorem Job.view_snoc {j : Job} {a : Call} {r : Reply a}
    {todo : Thread Unit} :
    Job.view s ⟨j.arg, todo, j.log ++ [⟨a, r⟩]⟩
      = (j.view s).next s a r := by
  unfold Job.view
  rw [List.foldl_append]
  rfl

/-- A job begins well. -/
theorem Job.good_start (hps : s.pageSize ∣ 2 ^ 20) (arg : UInt16) :
    Job.Good s ⟨arg, serveRecharge s arg, []⟩ :=
  ⟨serveRecharge_safe hps arg, Logged.start arg, 0, Set.empty_subset _⟩

/-- A job stays good over the call it makes next. -/
theorem Job.Good.act {arg : UInt16} {a : Call} {k : Reply a → Thread Unit}
    {log : Log} (h : Job.Good s ⟨arg, .act a k, log⟩) (r : Reply a) :
    (Job.view s ⟨arg, .act a k, log⟩).Ok s
        (sliceBytes arg) a ∧
      Job.Good s ⟨arg, k r, log ++ [⟨a, r⟩]⟩ := by
  obtain ⟨hok, hnext⟩ := h.safe
  have hview : Job.view s ⟨arg, k r, log ++ [⟨a, r⟩]⟩
      = (Job.view s ⟨arg, .act a k, log⟩).next s a r :=
    Job.view_snoc (j := ⟨arg, .act a k, log⟩)
  refine ⟨hok, ?_, ?_, ?_⟩
  · rw [hview]
    exact hnext r
  · rw [hview]
    exact h.logged.snoc hok
  · rw [hview]
    obtain ⟨n, hn⟩ := h.slice
    cases a with
    | madvise off len advice =>
        cases advice with
        | dontneed =>
            cases r with
            | false => exact ⟨n, hn⟩
            | true =>
                -- nothing was cold, so what is cold is this slice
                obtain ⟨-, hempty, m, hm⟩ := hok
                refine ⟨m, fun q hq => ?_⟩
                rw [← hm]
                rcases hq with hq | hq
                · rw [hempty] at hq
                  exact absurd hq (Set.notMem_empty q)
                · exact hq
        | _ => exact ⟨n, hn⟩
    | load at_ => exact ⟨n, fun q hq => hn hq.1⟩
    | _ => exact ⟨n, hn⟩

structure Sweeps.Inv (s : Server) (σ : Sweeps) : Prop where
  jobs : ∀ c j, σ.jobs c = some j → Job.Good s j
  shared : Shared σ.sweeping σ.cold (σ.view s)

/-- The view of a connection is that of its job. -/
theorem Sweeps.view_some {σ : Sweeps} {c : Nat} {j : Job}
    (h : σ.jobs c = some j) : σ.view s c = j.view s := by
  unfold Sweeps.view
  rw [h]
  rfl

/-- A job put there is seen there. -/
theorem Sweeps.view_put (σ : Sweeps) (sweeping : Bool) (cold : Set Nat)
    (c : Nat) (j : Job) :
    Sweeps.view s ⟨sweeping, cold, put σ.jobs c j⟩
      = Function.update (σ.view s) c (j.view s) := by
  funext d
  show ((Function.update σ.jobs c (some j) d).map _).getD _ = _
  by_cases hd : d = c
  · rw [hd, Function.update_self, Function.update_self]
    rfl
  · rw [Function.update_of_ne hd, Function.update_of_ne hd]
    rfl

/-- Jobs stay good while a good one is put among them. -/
theorem Sweeps.good_put {σ : Sweeps} {c : Nat} {j : Job}
    (h : ∀ c j, σ.jobs c = some j → Job.Good s j) (hj : Job.Good s j) :
    ∀ d i, put σ.jobs c j d = some i → Job.Good s i := by
  intro d i hi
  by_cases hd : d = c
  · rw [hd, put, Function.update_self] at hi
    exact Option.some.inj hi ▸ hj
  · rw [put, Function.update_of_ne hd] at hi
    exact h d i hi

/-- A connection free to take a request is not in the middle of one. -/
theorem Sweeps.Inv.request {σ : Sweeps} (h : σ.Inv s)
    (hps : s.pageSize ∣ 2 ^ 20) {c : Nat} (arg : UInt16)
    (hfree : (σ.view s c).phase = .answered) :
    Sweeps.Inv s ⟨σ.sweeping, σ.cold,
      put σ.jobs c ⟨arg, serveRecharge s arg, []⟩⟩ := by
  refine ⟨good_put h.jobs (Job.good_start hps arg), ?_⟩
  rw [view_put]
  have hnot : (σ.view s c).phase ≠ .held := by
    rw [hfree]
    decide
  have hstart : (View.start arg).phase ≠ .held := by
    unfold View.start
    by_cases hout : OutOfRange arg
    · rw [if_pos hout]
      decide
    · rw [if_neg hout]
      decide
  exact h.shared.keep ⟨fun hb => absurd hb hstart, fun hb => absurd hb hnot⟩
    fun q hq => .inr ⟨hq, fun hb => absurd hb hnot⟩

/-- What a step is. -/
theorem Sweeps.step_cases {σ σ' : Sweeps} {act : SweepAct}
    (h : Sweeps.step s σ act = some σ') :
    (∃ c arg, act = .request c arg ∧
      (σ.jobs c = none ∨ ∃ old u log, σ.jobs c = some ⟨old, .ret u, log⟩) ∧
      σ' = ⟨σ.sweeping, σ.cold,
        put σ.jobs c ⟨arg, serveRecharge s arg, []⟩⟩) ∨
    ∃ c answers arg a k log, act = .perform c answers ∧
      σ.jobs c = some ⟨arg, .act a k, log⟩ ∧
      σ' = ⟨flagAfter σ.sweeping a,
        coldAfter s σ.cold a (reply σ.sweeping answers a),
        put σ.jobs c ⟨arg, k (reply σ.sweeping answers a),
          log ++ [⟨a, reply σ.sweeping answers a⟩]⟩⟩ := by
  cases act with
  | request c arg =>
      left
      cases hjob : σ.jobs c with
      | none =>
          simp only [Sweeps.step, hjob] at h
          exact ⟨c, arg, rfl, .inl hjob, (Option.some.inj h).symm⟩
      | some j =>
          obtain ⟨old, todo, log⟩ := j
          cases todo with
          | ret u =>
              simp only [Sweeps.step, hjob] at h
              exact ⟨c, arg, rfl, .inr ⟨old, u, log, hjob⟩,
                (Option.some.inj h).symm⟩
          | act a k =>
              simp only [Sweeps.step, hjob] at h
              cases h
  | perform c answers =>
      right
      cases hjob : σ.jobs c with
      | none =>
          simp only [Sweeps.step, hjob] at h
          cases h
      | some j =>
          obtain ⟨arg, todo, log⟩ := j
          cases todo with
          | ret u =>
              simp only [Sweeps.step, hjob] at h
              cases h
          | act a k =>
              simp only [Sweeps.step, hjob] at h
              exact ⟨c, answers, arg, a, k, log, rfl, hjob,
                (Option.some.inj h).symm⟩

/-- No step breaks the invariant. -/
theorem Sweeps.step_inv {σ σ' : Sweeps} {act : SweepAct}
    (hps : s.pageSize ∣ 2 ^ 20) (h : σ.Inv s)
    (hstep : Sweeps.step s σ act = some σ') : σ'.Inv s := by
  rcases step_cases hstep with
    ⟨c, arg, -, hfree, rfl⟩ | ⟨c, answers, arg, a, k, log, -, hjob, rfl⟩
  · apply h.request hps
    rcases hfree with hnone | ⟨old, u, log, hjob⟩
    · unfold Sweeps.view
      rw [hnone]
      rfl
    · rw [view_some hjob]
      exact (h.jobs c _ hjob).safe
  · obtain ⟨hok, hgood⟩ := (h.jobs c _ hjob).act
      (reply σ.sweeping answers a)
    rw [← view_some hjob] at hok
    refine ⟨good_put h.jobs hgood, ?_⟩
    have hview : Job.view s ⟨arg, k (reply σ.sweeping answers a),
          log ++ [⟨a, reply σ.sweeping answers a⟩]⟩
        = (Job.view s ⟨arg, .act a k, log⟩).next s a
          (reply σ.sweeping answers a) :=
      Job.view_snoc (j := ⟨arg, .act a k, log⟩)
    rw [view_put, hview, ← view_some hjob]
    exact h.shared.act answers hok

/-- The invariant holds in every state reached. -/
theorem Sweeps.reach_inv {σ : Sweeps} (hps : s.pageSize ∣ 2 ^ 20)
    (h : (sweeps s).Reach σ) : σ.Inv s := by
  refine h.invariant ⟨?_, ?_⟩ fun _ _ _ hi hstep => step_inv hps hi hstep
  · intro c j hj
    cases hj
  · refine ⟨⟨fun hb => (by cases hb), fun hb => ?_⟩, fun c d hc => ?_,
      fun q hq => absurd hq (Set.notMem_empty q)⟩
    · obtain ⟨c, hc⟩ := hb
      cases hc
    · cases hc

-- ============================================================ discipline

/-- Outside a sweep one call is left, or none. -/
def Phase.Only (a : Call) : Phase → Prop
  | .fresh => a = .exchange
  | .refused => a = .answer ST_BAD_PARAM none
  | .busy => a = .answer ST_BUSY none
  | .answered => False
  | _ => True

/-- What may be called depends on the phase. -/
theorem View.Ok.only {g : View} {slice : Nat} {a : Call}
    (h : g.Ok s slice a) : g.phase.Only a := by
  -- what only a sweep may do
  have hsweep : g.phase = .held → g.phase.Only a := fun hg => by
    rw [hg]
    exact trivial
  cases a with
  | exchange =>
      rw [show g.phase = .fresh from h]
      rfl
  | release => exact hsweep h.1
  | answer st rep =>
      rcases h with ⟨hp, rfl, rfl⟩ | ⟨hp, rfl, rfl⟩ | hp
      · rw [hp]
        rfl
      · rw [hp]
        rfl
      · rw [hp]
        exact trivial
  | madvise off len advice =>
      cases advice with
      | dontneed => exact hsweep h.1
      | _ => exact hsweep h
  | _ => exact hsweep h

/-- A job that is not done goes on with a call of its phase. -/
theorem Job.Good.next {j : Job} (h : Job.Good s j) :
    (j.view s).phase ≠ .answered →
      ∃ a k, j.todo = .act a k ∧ (j.view s).phase.Only a := by
  intro hne
  obtain ⟨arg, todo, log⟩ := j
  cases todo with
  | ret u => exact absurd h.safe hne
  | act a k => exact ⟨a, k, rfl, h.safe.1.only⟩

/-- A job that is done has nothing left. -/
theorem Job.Good.over {j : Job} (h : Job.Good s j)
    (hp : (j.view s).phase = .answered) : j.todo = .ret () := by
  obtain ⟨arg, todo, log⟩ := j
  cases todo with
  | ret u => rfl
  | act a k =>
      have := h.safe.1.only
      rw [hp] at this
      exact this.elim

/-- Connection `c` is between taking and releasing the flag. -/
def Sweeping (σ : Sweeps) (c : Nat) : Prop :=
  ∃ j, σ.jobs c = some j ∧ ⟨.exchange, false⟩ ∈ j.log ∧
    ⟨.release, ()⟩ ∉ j.log

/-- A job has the sweep from its exchange to its release. -/
theorem Job.Good.held_iff {j : Job} (h : Job.Good s j) :
    (j.view s).phase = .held ↔
      ⟨.exchange, false⟩ ∈ j.log ∧ ⟨.release, ()⟩ ∉ j.log := by
  have hlog := h.logged
  generalize (j.view s).phase = p at hlog
  constructor
  · intro hp
    rw [hp] at hlog
    obtain ⟨-, rest, heq, hno⟩ := hlog
    rw [heq]
    exact ⟨List.mem_cons_self, fun hmem =>
      (List.mem_cons.mp hmem).elim (fun hb => by cases hb) hno⟩
  · intro hin
    obtain ⟨htook, hno⟩ := hin
    cases p with
    | held => rfl
    | fresh | refused =>
        rw [hlog.2] at htook
        exact absurd htook List.not_mem_nil
    | busy =>
        rw [hlog.2] at htook
        cases List.mem_singleton.mp htook
    | swept =>
        obtain ⟨-, rest, heq, hmem⟩ := hlog
        rw [heq] at hno
        exact absurd (List.mem_cons_of_mem _ hmem) hno
    | answered =>
        rcases hlog with ⟨-, heq⟩ | ⟨-, heq | ⟨rest, heq, hmem⟩⟩
        · rw [heq] at htook
          cases List.mem_singleton.mp htook
        · rw [heq] at htook
          rcases List.mem_cons.mp htook with hb | hb
          · cases hb
          · cases List.mem_singleton.mp hb
        · rw [heq] at hno
          exact absurd (List.mem_cons_of_mem _ hmem) hno

/-- It is seen in the log who is sweeping. -/
theorem Sweeps.Inv.sweeping_iff {σ : Sweeps} (h : σ.Inv s) {c : Nat} :
    Sweeping σ c ↔ (σ.view s c).phase = .held := by
  constructor
  · intro hs
    obtain ⟨j, hj, hin⟩ := hs
    rw [view_some hj]
    exact (h.jobs c j hj).held_iff.mpr hin
  · intro hheld
    cases hj : σ.jobs c with
    | none =>
        unfold Sweeps.view at hheld
        rw [hj] at hheld
        cases hheld
    | some j =>
        rw [view_some hj] at hheld
        exact ⟨j, hj, (h.jobs c j hj).held_iff.mp hheld⟩

/-- What holds of the table and of every connection at every moment. -/
structure Disciplined (s : Server) (σ : Sweeps) : Prop where
  /-- what is cold lies in one slice of at most 4096 MiB -/
  cold : ∃ mib k, mib ≤ RECHARGE_MAX_SLICE_MIB ∧
    σ.cold ⊆ pagesOf s (sliceAt s (mib * 2 ^ 20) k).1
      (sliceAt s (mib * 2 ^ 20) k).2
  one : ∀ c d, Sweeping σ c → Sweeping σ d → c = d
  /-- an exchange takes the flag exactly when no sweep has it -/
  tried : ∀ c j answers, σ.jobs c = some j → ¬ OutOfRange j.arg →
    j.log = [] → ∃ σ' j', Sweeps.step s σ (.perform c answers) = some σ' ∧
      σ'.jobs c = some j' ∧
      ((∃ d, Sweeping σ d) → j'.log = [⟨.exchange, true⟩]) ∧
      ((¬ ∃ d, Sweeping σ d) → j'.log = [⟨.exchange, false⟩] ∧
        Sweeping σ' c)
  /-- one that found it taken answers 7 and does nothing else -/
  busy : ∀ c j, σ.jobs c = some j → j.log.head? = some ⟨.exchange, true⟩ →
    (j.log = [⟨.exchange, true⟩] ∧
      ∃ k, j.todo = .act (.answer ST_BUSY none) k) ∨
    (j.log = [⟨.exchange, true⟩, ⟨.answer ST_BUSY none, ()⟩] ∧
      j.todo = .ret ())
  /-- one out of range answers 6 and does nothing else -/
  refused : ∀ c j, σ.jobs c = some j → OutOfRange j.arg →
    (j.log = [] ∧ ∃ k, j.todo = .act (.answer ST_BAD_PARAM none) k) ∨
    (j.log = [⟨.answer ST_BAD_PARAM none, ()⟩] ∧ j.todo = .ret ())
  /-- no way out of a request keeps the flag -/
  ended : ∀ c j, σ.jobs c = some j → j.todo = .ret () → ¬ Sweeping σ c

/-- A job that found another sweep answers that, and is over. -/
theorem Job.Good.busy {j : Job} (h : Job.Good s j)
    (hhead : j.log.head? = some ⟨.exchange, true⟩) :
    (j.log = [⟨.exchange, true⟩] ∧
      ∃ k, j.todo = .act (.answer ST_BUSY none) k) ∨
    (j.log = [⟨.exchange, true⟩, ⟨.answer ST_BUSY none, ()⟩] ∧
      j.todo = .ret ()) := by
  have hlog := h.logged
  have hnext := h.next
  have hover := h.over
  generalize (j.view s).phase = p at hlog hnext hover
  cases p with
  | fresh | refused =>
      rw [hlog.2] at hhead
      cases hhead
  | busy =>
      obtain ⟨a, k, htodo, ha⟩ := hnext (by decide)
      obtain rfl : a = .answer ST_BUSY none := ha
      exact .inl ⟨hlog.2, k, htodo⟩
  | held | swept =>
      obtain ⟨-, rest, heq, -⟩ := hlog
      rw [heq] at hhead
      cases hhead
  | answered =>
      rcases hlog with ⟨-, heq⟩ | ⟨-, heq | ⟨rest, heq, -⟩⟩
      · rw [heq] at hhead
        cases hhead
      · exact .inr ⟨heq, hover rfl⟩
      · rw [heq] at hhead
        cases hhead

/-- A job with a slice out of range answers that, and is over. -/
theorem Job.Good.refused {j : Job} (h : Job.Good s j)
    (hout : OutOfRange j.arg) :
    (j.log = [] ∧ ∃ k, j.todo = .act (.answer ST_BAD_PARAM none) k) ∨
    (j.log = [⟨.answer ST_BAD_PARAM none, ()⟩] ∧ j.todo = .ret ()) := by
  have hlog := h.logged
  have hnext := h.next
  have hover := h.over
  generalize (j.view s).phase = p at hlog hnext hover
  cases p with
  | refused =>
      obtain ⟨a, k, htodo, ha⟩ := hnext (by decide)
      obtain rfl : a = .answer ST_BAD_PARAM none := ha
      exact .inl ⟨hlog.2, k, htodo⟩
  | answered =>
      rcases hlog with ⟨-, heq⟩ | ⟨hin, -⟩
      · exact .inr ⟨heq, hover rfl⟩
      · exact absurd hout hin
  | _ => exact absurd hout hlog.1

/-- A request in range that has done nothing yet tries the flag next. -/
theorem Job.Good.fresh {j : Job} (h : Job.Good s j)
    (hin : ¬ OutOfRange j.arg) (hnil : j.log = []) :
    ∃ k, j.todo = .act .exchange k := by
  have hphase : (j.view s).phase = .fresh := by
    unfold Job.view
    rw [hnil]
    exact if_neg hin
  obtain ⟨a, k, htodo, ha⟩ := h.next (by rw [hphase]; decide)
  rw [hphase] at ha
  obtain rfl : a = .exchange := ha
  exact ⟨k, htodo⟩

/-- Over every interleaving of RECHARGE requests, whatever the clock and
the kernel answer: one slice is cold at most, one sweep runs at most,
and every other request is turned away without touching the table. -/
theorem sweeps_disciplined (s : Server) (hps : s.pageSize ∣ 2 ^ 20)
    {σ : Sweeps} (h : (sweeps s).Reach σ) : Disciplined s σ := by
  have hinv := Sweeps.reach_inv hps h
  refine ⟨?_, fun c d hc hd => ?_, fun c j answers hj hin hnil => ?_,
    fun c j hj hhead => (hinv.jobs c j hj).busy hhead,
    fun c j hj hout => (hinv.jobs c j hj).refused hout,
    fun c j hj hret hs => ?_⟩
  · by_cases hheld : ∃ c, Sweeping σ c
    · obtain ⟨c, hc⟩ := hheld
      obtain ⟨j, hj, -⟩ := id hc
      have hphase := hinv.sweeping_iff.mp hc
      have hgood := hinv.jobs c j hj
      obtain ⟨k, hk⟩ := hgood.slice
      have hrange : ¬ OutOfRange j.arg := by
        have hlog := hgood.logged
        rw [← Sweeps.view_some hj, hphase] at hlog
        exact hlog.1
      refine ⟨sliceMib j.arg.toUInt32, k, Nat.not_lt.mp hrange,
        fun q hq => hk ?_⟩
      obtain ⟨d, hd, hqd⟩ := hinv.shared.cold q hq
      rwa [hinv.shared.one d c hd hphase, Sweeps.view_some hj] at hqd
    · refine ⟨0, 0, Nat.zero_le _, fun q hq => ?_⟩
      obtain ⟨c, hc, -⟩ := hinv.shared.cold q hq
      exact absurd ⟨c, hinv.sweeping_iff.mpr hc⟩ hheld
  · exact hinv.shared.one c d (hinv.sweeping_iff.mp hc)
      (hinv.sweeping_iff.mp hd)
  · obtain ⟨k, htodo⟩ := (hinv.jobs c j hj).fresh hin hnil
    obtain ⟨arg, todo, log⟩ := j
    obtain rfl : todo = _ := htodo
    obtain rfl : log = [] := hnil
    have hflag : σ.sweeping = true ↔ ∃ d, Sweeping σ d := by
      rw [hinv.shared.flag]
      exact exists_congr fun d => hinv.sweeping_iff.symm
    have hself := Function.update_self c
      (some (⟨arg, k σ.sweeping, [⟨.exchange, σ.sweeping⟩]⟩ : Job)) σ.jobs
    have hstep : Sweeps.step s σ (.perform c answers)
        = some ⟨true, σ.cold, Sweeps.put σ.jobs c
            ⟨arg, k σ.sweeping, [⟨.exchange, σ.sweeping⟩]⟩⟩ := by
      simp only [Sweeps.step, hj]
      rfl
    refine ⟨_, _, hstep, hself, fun hheld => ?_, fun hfree => ?_⟩
    · rw [hflag.mpr hheld]
    · have hset : σ.sweeping = false := by
        cases hset : σ.sweeping with
        | false => rfl
        | true => exact absurd (hflag.mp hset) hfree
      refine ⟨by rw [hset], _, hself, ?_, ?_⟩
      · rw [hset]
        exact List.mem_singleton_self _
      · intro hmem
        cases List.mem_singleton.mp hmem
  · have hphase := hinv.sweeping_iff.mp hs
    have hsafe := (hinv.jobs c j hj).safe
    rw [hret, ← Sweeps.view_some hj] at hsafe
    rw [show (σ.view s c).phase = .answered from hsafe] at hphase
    cases hphase

/-- A half of one byte. -/
def oneByte : Server :=
  { map := [7], pageSize := 4096, baseRow := 0, rowCount := 1, base32 := 0
    rows32 := 1, maxRows := 1, threads := 1 }

/-- A request, and another before the first is through. -/
def twoRequests : List SweepAct :=
  [.request 0 0, .request 1 0, .perform 0 willing, .perform 1 willing]

theorem sweeps_disciplined_twoRequests :
    ∃ σ, (sweeps oneByte).run (sweeps oneByte).init twoRequests = some σ ∧
      Disciplined oneByte σ := by
  have hruns : ((sweeps oneByte).run (sweeps oneByte).init
      twoRequests).isSome = true := rfl
  obtain ⟨σ, hσ⟩ := Option.isSome_iff_exists.mp hruns
  exact ⟨σ, hσ, sweeps_disciplined oneByte ⟨256, rfl⟩
    (Lts.Reach.of_run .init hσ)⟩

end Machine

end PleRowServer.Daemon
