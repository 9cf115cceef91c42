/-
bench/kv_sizing.py: the block accounting and the search for the longest
context that fits the pool.

A quotient is a float before `math.ceil` sees it. `Rounding` stands for
the rounding in between; all that is used of it is that it keeps order
and zero, so the results hold of exact division and of doubles alike. A
context whose quotient has no double is one Python raises on.
-/
import Mathlib.Data.Int.ConditionallyCompleteOrder
import Mathlib.Data.Rat.Floor
import Mathlib.Data.PNat.Basic
import Mathlib.Order.Interval.Finset.Nat
import Mathlib.Tactic.Linarith
import Mathlib.Tactic.Positivity
import Mathlib.Tactic.Ring
import Mathlib.Tactic.FieldSimp

namespace PleRowServer.Bench

def BLOCK_BYTES : Nat := 45260800
def BLOCK_TOKENS : Nat := 3200
def MAMBA_GROUPS : Nat := 4
def GIB : Nat := 2 ^ 30

-- ============================================================ accounting

/-- How the quotient of two integers becomes a float. -/
structure Rounding where
  fl : ℚ → ℚ
  mono : Monotone fl
  zero : fl 0 = 0

/-- No rounding at all. -/
def Rounding.exact : Rounding := ⟨id, monotone_id, rfl⟩

/-- `math.ceil(a / b)`. -/
def Rounding.ceilDiv (r : Rounding) (a b : Nat) : Int := ⌈r.fl (a / b)⌉

/-- `live_overhead`. -/
def liveOverhead (specTokens : Nat) : Int :=
  MAMBA_GROUPS * (2 + specTokens) + 1

/-- `retained_blocks`. -/
def retainedBlocks (r : Rounding) (ctx : Nat) (interval : ℕ+) : Int :=
  let attn := r.ceilDiv ctx BLOCK_TOKENS
  let mamba := MAMBA_GROUPS * r.ceilDiv ctx interval
  attn + mamba

/-- `blocks_needed`. -/
def blocksNeeded (r : Rounding) (sessions ctx : Nat) (interval : ℕ+)
    (running specTokens : Nat) : Int :=
  sessions * retainedBlocks r ctx interval
    + running * liveOverhead specTokens

/-- `int(x)`. -/
def truncate (x : ℚ) : Int := if 0 ≤ x then ⌊x⌋ else ⌈x⌉

/-- `pool_blocks`. -/
def poolBlocks (kvGib : ℚ) : Int := truncate (kvGib * GIB) / BLOCK_BYTES

section Accounting

variable {r : Rounding} {a b c d : Nat}

/-- A rounded quotient is no less than nothing. -/
theorem Rounding.ceilDiv_nonneg : 0 ≤ r.ceilDiv a b := by
  have h : r.fl 0 ≤ r.fl (a / b) := r.mono (by positivity)
  rw [r.zero] at h
  exact Int.ceil_nonneg h

/-- `ceilDiv` grows with what is divided. -/
theorem Rounding.ceilDiv_mono (h : a ≤ b) :
    r.ceilDiv a c ≤ r.ceilDiv b c := by
  refine Int.ceil_mono (r.mono ?_)
  gcongr

/-- `ceilDiv` shrinks as the divisor grows. -/
theorem Rounding.ceilDiv_anti (hc : 0 < c) (h : c ≤ d) :
    r.ceilDiv a d ≤ r.ceilDiv a c := by
  refine Int.ceil_mono (r.mono ?_)
  gcongr

variable {interval interval' : ℕ+}

/-- No session retains less than nothing. -/
theorem retainedBlocks_nonneg : 0 ≤ retainedBlocks r a interval := by
  have hattn : 0 ≤ r.ceilDiv a BLOCK_TOKENS := r.ceilDiv_nonneg
  have hmamba : 0 ≤ r.ceilDiv a interval := r.ceilDiv_nonneg
  unfold retainedBlocks
  positivity

/-- A longer conversation retains no fewer blocks. -/
theorem retainedBlocks_mono (h : a ≤ b) :
    retainedBlocks r a interval ≤ retainedBlocks r b interval := by
  have hattn : r.ceilDiv a BLOCK_TOKENS ≤ r.ceilDiv b BLOCK_TOKENS :=
    r.ceilDiv_mono h
  have hmamba : r.ceilDiv a interval ≤ r.ceilDiv b interval :=
    r.ceilDiv_mono h
  unfold retainedBlocks
  simp only
  gcongr

/-- A longer interval retains no more blocks. -/
theorem retainedBlocks_anti (h : interval ≤ interval') :
    retainedBlocks r a interval' ≤ retainedBlocks r a interval := by
  have hmamba : r.ceilDiv a interval' ≤ r.ceilDiv a interval :=
    r.ceilDiv_anti interval.pos h
  unfold retainedBlocks
  simp only
  gcongr

end Accounting

/-- `blocks_needed` grows with the context, the sessions and the running
requests, and shrinks with the interval. -/
structure Monotonic (r : Rounding) : Prop where
  context : ∀ {sessions running specTokens : Nat} {interval : ℕ+},
    Monotone fun ctx => blocksNeeded r sessions ctx interval running specTokens
  sessions : ∀ {ctx running specTokens : Nat} {interval : ℕ+},
    Monotone fun sessions =>
      blocksNeeded r sessions ctx interval running specTokens
  running : ∀ {sessions ctx specTokens : Nat} {interval : ℕ+},
    Monotone fun running =>
      blocksNeeded r sessions ctx interval running specTokens
  interval : ∀ {sessions ctx running specTokens : Nat},
    Antitone fun interval =>
      blocksNeeded r sessions ctx interval running specTokens

/-- What all sessions need together is as monotonic as what one needs. -/
theorem blocksNeeded_monotonic (r : Rounding) : Monotonic r where
  context := by
    intro sessions running specTokens interval a b h
    have : retainedBlocks r a interval ≤ retainedBlocks r b interval :=
      retainedBlocks_mono h
    simp only [blocksNeeded]
    gcongr
  sessions := by
    intro ctx running specTokens interval a b h
    have : 0 ≤ retainedBlocks r ctx interval := retainedBlocks_nonneg
    simp only [blocksNeeded]
    gcongr
  running := by
    intro sessions ctx specTokens interval a b h
    have : 0 ≤ liveOverhead specTokens := by
      unfold liveOverhead
      positivity
    simp only [blocksNeeded]
    gcongr
  interval := by
    intro sessions ctx running specTokens a b h
    have := retainedBlocks_anti (r := r) (a := ctx) h
    simp only [blocksNeeded]
    gcongr

-- ================================================================ search

/-- `while lo < hi` of main's search. -/
def bisect (fits : Nat → Bool) (lo hi : Nat) : Nat :=
  if lo < hi then
    let mid := (lo + hi + 1) / 2
    if fits mid then bisect fits mid hi else bisect fits lo (mid - 1)
  else lo
termination_by hi - lo

/-- The search ends on the last value that fits, and on the first value
if not even that one does. -/
theorem bisect_spec {fits : Nat → Bool}
    (hanti : ∀ a b, a ≤ b → fits b = true → fits a = true) {lo hi : Nat}
    (hle : lo ≤ hi) :
    lo ≤ bisect fits lo hi ∧ bisect fits lo hi ≤ hi ∧
      (fits lo = true → fits (bisect fits lo hi) = true) ∧
      (fits lo = false → bisect fits lo hi = lo) ∧
      ∀ c ≤ hi, fits c = true → c ≤ max lo (bisect fits lo hi) := by
  fun_induction bisect fits lo hi with
  | case1 lo hi hlt mid hmid ih =>
      obtain ⟨hlo, hhi, hfit, -, hmax⟩ := ih (by omega)
      have hfirst := hanti lo mid (by omega) hmid
      refine ⟨by omega, hhi, fun _ => hfit hmid, fun hno => ?_,
        fun c hc h => ?_⟩
      · rw [hfirst] at hno
        cases hno
      · have := hmax c hc h
        omega
  | case2 lo hi hlt mid hmid ih =>
      obtain ⟨hlo, hhi, hfit, hnone, hmax⟩ := ih (by omega)
      refine ⟨hlo, by omega, hfit, hnone, fun c hc h => ?_⟩
      refine hmax c ?_ h
      by_contra hlarge
      exact hmid (hanti mid c (by omega) h)
  | case3 lo hi hge =>
      exact ⟨le_rfl, hle, fun h => h, fun _ => rfl, fun c hc _ => by omega⟩

/-- The context fits the pool of 28 GiB. -/
def fits28 (r : Rounding) (sessions running specTokens : Nat)
    (interval : ℕ+) (ctx : Nat) : Bool :=
  decide (blocksNeeded r sessions ctx interval running specTokens
    ≤ poolBlocks 28)

/-- What main prints under "max ctx @28". -/
def maxCtx (r : Rounding) (sessions running specTokens : Nat)
    (interval : ℕ+) : Nat :=
  bisect (fits28 r sessions running specTokens interval) 1000 262144

/-- `c` is the longest context from 1000 to 262144 that fits. -/
structure Longest (fits : Nat → Bool) (c : Nat) : Prop where
  fit : fits c = true
  least : 1000 ≤ c
  most : c ≤ 262144
  longest : ∀ d, 1000 ≤ d → d ≤ 262144 → fits d = true → d ≤ c

/-- What fits leaves room for less. -/
theorem fits28_anti (r : Rounding) (sessions running specTokens : Nat)
    (interval : ℕ+) {a b : Nat} (h : a ≤ b)
    (hb : fits28 r sessions running specTokens interval b = true) :
    fits28 r sessions running specTokens interval a = true := by
  simp only [fits28, decide_eq_true_eq] at hb ⊢
  exact ((blocksNeeded_monotonic r).context h).trans hb

/-- The search is exact if and only if the shortest context fits. -/
theorem maxCtx_iff (r : Rounding) (sessions running specTokens : Nat)
    (interval : ℕ+) :
    Longest (fits28 r sessions running specTokens interval)
        (maxCtx r sessions running specTokens interval)
      ↔ fits28 r sessions running specTokens interval 1000 = true := by
  have hanti : ∀ a b, a ≤ b →
      fits28 r sessions running specTokens interval b = true →
      fits28 r sessions running specTokens interval a = true :=
    fun _ _ => fits28_anti r sessions running specTokens interval
  obtain ⟨hlo, hhi, hfit, -, hmax⟩ := bisect_spec hanti
    (show 1000 ≤ 262144 by omega)
  constructor
  · intro h
    exact hanti 1000 _ h.least h.fit
  · intro h
    refine ⟨hfit h, hlo, hhi, fun d _ hd hfits => ?_⟩
    have := hmax d hd hfits
    unfold maxCtx
    omega

/-- What may be reported: the longest context that fits, or none where
not even the shortest one does. -/
def Reportable (fits : Nat → Bool) : Option Nat → Prop
  | some c => Longest fits c
  | none => fits 1000 = false

/-- What main reports for an interval: always a figure. -/
def reported (r : Rounding) (sessions running specTokens : Nat)
    (interval : ℕ+) : Option Nat :=
  some (maxCtx r sessions running specTokens interval)

/-- The accounting is monotone, and the figure printed is the longest
context that fits exactly where the shortest one does. -/
theorem kv_sized (r : Rounding) (sessions running specTokens : Nat)
    (interval : ℕ+) :
    Monotonic r ∧
      (Reportable (fits28 r sessions running specTokens interval)
          (reported r sessions running specTokens interval)
        ↔ blocksNeeded r sessions 1000 interval running specTokens
          ≤ poolBlocks 28) := by
  refine ⟨blocksNeeded_monotonic r, ?_⟩
  refine (maxCtx_iff r sessions running specTokens interval).trans ?_
  simp only [fits28, decide_eq_true_eq]

/-- 200 sessions do not fit at any length, and 1000 tokens are reported
for them. -/
theorem kv_oversold :
    reported .exact 200 8 3 3200 = some 1000 ∧
      ¬ Reportable (fits28 .exact 200 8 3 3200)
        (reported .exact 200 8 3 3200) := by
  have hceil : Rounding.exact.ceilDiv 1000 3200 = 1 := by
    unfold Rounding.ceilDiv Rounding.exact
    rw [Int.ceil_eq_iff]
    norm_num
  have hneed : blocksNeeded .exact 200 1000 3200 8 3 = 1168 := by
    have hint : ((3200 : ℕ+) : Nat) = 3200 := rfl
    simp only [blocksNeeded, retainedBlocks, liveOverhead, BLOCK_TOKENS,
      MAMBA_GROUPS, hint, hceil]
    norm_num
  have hpool : poolBlocks 28 = 664 := by
    have hbytes : (28 : ℚ) * GIB = (30064771072 : Int) := by
      norm_num [GIB]
    unfold poolBlocks truncate
    rw [hbytes, Int.floor_intCast, Int.ceil_intCast, ite_self]
    rfl
  have hnone : fits28 .exact 200 8 3 3200 1000 = false := by
    simp only [fits28, hneed, hpool]
    decide
  obtain ⟨-, -, -, hfirst, -⟩ := bisect_spec
    (fun _ _ => fits28_anti .exact 200 8 3 3200)
    (show 1000 ≤ 262144 by omega)
  refine ⟨congrArg some (hfirst hnone), fun h => ?_⟩
  have := (maxCtx_iff _ _ _ _ _).mp h
  rw [hnone] at this
  cases this

end PleRowServer.Bench
