/-
What one RECHARGE sweep does and what it reports, for every way the
clock, madvise and posix_fadvise can answer.

# The shape of a sweep

A complete run of the loop is a sequence of whole rounds (a clock
reading in time, a drop, an eviction, a touch) and at most one broken
one at its end. `Swept` is that grammar, indexed by the slice the run
starts at and the one it ends at; `sweepLoop_swept` finds it in every
run. Order, completeness and the counters are then inductions over the
grammar and never look at the program again.
-/
import PleRowServer.Daemon.Recharge
import Mathlib.Order.Basic
import Mathlib.Data.Finset.Card
import Mathlib.Data.Finset.Range
import Mathlib.Tactic.Ring

namespace PleRowServer.Daemon

open Base

-- ================================================================ pages

/-- Pages of `ps` bytes that `n` bytes from a page boundary reach. -/
def pagesIn (ps n : Nat) : Nat := (n + ps - 1) / ps

/-- A page is counted if it begins within the bytes. -/
theorem lt_pagesIn {ps n q : Nat} (hps : 0 < ps) :
    q < pagesIn ps n ↔ q * ps < n := by
  unfold pagesIn
  rw [Nat.lt_iff_add_one_le, Nat.le_div_iff_mul_le hps, Nat.succ_mul]
  omega

/-- A page less of bytes is a page less. -/
theorem pagesIn_step {ps n : Nat} (hps : 0 < ps) (hn : 0 < n) :
    pagesIn ps n = pagesIn ps (n - ps) + 1 := by
  apply eq_of_forall_lt_iff
  intro q
  cases q with
  | zero =>
      rw [lt_pagesIn hps]
      omega
  | succ q =>
      rw [lt_pagesIn hps, Nat.succ_lt_succ_iff, lt_pagesIn hps, Nat.succ_mul]
      omega

/-- Whole pages of bytes are as many pages more. -/
theorem pagesIn_add {ps n : Nat} (hps : 0 < ps) (k : Nat) :
    pagesIn ps (k * ps + n) = k + pagesIn ps n := by
  induction k with
  | zero => rw [Nat.zero_mul, Nat.zero_add, Nat.zero_add]
  | succ k ih =>
      rw [Nat.succ_mul, pagesIn_step hps (by omega)]
      rw [show k * ps + ps + n - ps = k * ps + n by omega, ih]
      omega

/-- Nothing has no pages. -/
theorem pagesIn_zero {ps : Nat} (hps : 0 < ps) : pagesIn ps 0 = 0 := by
  unfold pagesIn
  rw [Nat.zero_add]
  exact Nat.div_eq_of_lt (by omega)

-- ================================================================ traces

/-- What a thread did. -/
abbrev Log := List (Did Call Reply)

/-- The address of a load. -/
def loadAt : Did Call Reply → Option Nat
  | ⟨.load a, _⟩ => some a
  | _ => none

/-- The addresses loaded, in order. -/
def loads (tr : Log) : List Nat := tr.filterMap loadAt

/-- The slice an attempt to drop is about. -/
def dropAt : Did Call Reply → Option (Nat × Nat)
  | ⟨.madvise off len .dontneed, _⟩ => some (off, len)
  | _ => none

/-- The slices the kernel was asked to drop, in order. -/
def drops (tr : Log) : List (Nat × Nat) := tr.filterMap dropAt

/-- The slice of a successful eviction. -/
def evictAt : Did Call Reply → Option (Nat × Nat)
  | ⟨.fadvise off len, (err : Nat)⟩ => if err = 0 then some (off, len) else none
  | _ => none

/-- The slices evicted, in order. -/
def evictions (tr : Log) : List (Nat × Nat) := tr.filterMap evictAt

/-- Loads are made in order. -/
theorem loads_append (a b : Log) : loads (a ++ b) = loads a ++ loads b :=
  List.filterMap_append

/-- Drops are made in order. -/
theorem drops_append (a b : Log) : drops (a ++ b) = drops a ++ drops b :=
  List.filterMap_append

/-- Evictions are made in order. -/
theorem evictions_append (a b : Log) :
    evictions (a ++ b) = evictions a ++ evictions b :=
  List.filterMap_append

/-- Neither drops nor evicts anything. -/
def Inert (d : Did Call Reply) : Prop := dropAt d = none ∧ evictAt d = none

/-- Inert calls drop nothing. -/
theorem Inert.drops {tr : Log} (h : ∀ d ∈ tr, Inert d) : drops tr = [] :=
  List.filterMap_eq_nil_iff.mpr fun d hd => (h d hd).1

/-- Inert calls evict nothing. -/
theorem Inert.evictions {tr : Log} (h : ∀ d ∈ tr, Inert d) :
    evictions tr = [] :=
  List.filterMap_eq_nil_iff.mpr fun d hd => (h d hd).2

-- ================================================================= touch

section Touch

variable {s : Server}

/-- The pages of a chunk are loaded one by one, and nothing else is done.
-/
theorem touchPages_does (hps : 0 < s.pageSize) (pos chunk : Nat) :
    ∀ (rounds p : Nat) {tr : Log} {u : Unit}, chunk - p ≤ rounds →
      Prog.Does (touchPages s pos chunk rounds p) tr u →
      loads tr = (List.range (pagesIn s.pageSize (chunk - p))).map
          (fun k => pos + p + k * s.pageSize) ∧
        ∀ d ∈ tr, Inert d := by
  intro rounds
  induction rounds with
  | zero =>
      intro p tr u hle h
      have hzero : chunk - p = 0 := by omega
      obtain ⟨rfl, -⟩ := Prog.does_pure.mp h
      rw [hzero, pagesIn_zero hps]
      exact ⟨rfl, by simp⟩
  | succ rounds ih =>
      intro p tr u hle h
      unfold touchPages at h
      by_cases hp : p < chunk
      · rw [if_pos hp] at h
        obtain ⟨a, b, r, rfl, ha, hb⟩ := Prog.does_bind.mp h
        rw [Prog.does_perform.mp ha]
        obtain ⟨hl, hi⟩ := ih (p + s.pageSize) (by omega) hb
        refine ⟨?_, ?_⟩
        · show (pos + p) :: loads b = _
          rw [hl, pagesIn_step (n := chunk - p) hps (by omega),
            show chunk - p - s.pageSize = chunk - (p + s.pageSize) by omega,
            List.range_succ_eq_map, List.map_cons, List.map_map]
          refine congrArg₂ _ (by omega) (List.map_congr_left fun k _ => ?_)
          simp only [Function.comp_apply, Nat.succ_mul]
          omega
        · intro d hd
          rcases List.mem_cons.mp hd with rfl | hd
          · exact ⟨rfl, rfl⟩
          · exact hi d hd
      · rw [if_neg hp] at h
        have hzero : chunk - p = 0 := by omega
        obtain ⟨rfl, -⟩ := Prog.does_pure.mp h
        rw [hzero, pagesIn_zero hps]
        exact ⟨rfl, by simp⟩

/-- The pages of a range are loaded chunk by chunk, and nothing else is
done. -/
theorem touchChunks_does (hps : 0 < s.pageSize)
    (hdvd : s.pageSize ∣ WARM_CHUNK) (stop : Nat) :
    ∀ (rounds pos : Nat) {tr : Log} {u : Unit}, stop - pos ≤ rounds →
      Prog.Does (touchChunks s stop rounds pos) tr u →
      loads tr = (List.range (pagesIn s.pageSize (stop - pos))).map
          (fun k => pos + k * s.pageSize) ∧
        ∀ d ∈ tr, Inert d := by
  intro rounds
  induction rounds with
  | zero =>
      intro pos tr u hle h
      have hzero : stop - pos = 0 := by omega
      obtain ⟨rfl, -⟩ := Prog.does_pure.mp h
      rw [hzero, pagesIn_zero hps]
      exact ⟨rfl, by simp⟩
  | succ rounds ih =>
      intro pos tr u hle h
      unfold touchChunks at h
      by_cases hpos : pos < stop
      · rw [if_pos hpos] at h
        -- the chunk itself and what is left, whatever advice comes first
        have hchunk : ∀ {t : Log} {v : Unit},
            Prog.Does (do
              touchPages s pos (min (stop - pos) WARM_CHUNK)
                (min (stop - pos) WARM_CHUNK) 0
              touchChunks s stop rounds (pos + WARM_CHUNK)) t v →
            loads t = (List.range (pagesIn s.pageSize (stop - pos))).map
                (fun k => pos + k * s.pageSize) ∧ ∀ d ∈ t, Inert d := by
          intro t v ht
          obtain ⟨a, b, x, rfl, ha, hb⟩ := Prog.does_bind.mp ht
          obtain ⟨hla, hia⟩ := touchPages_does hps pos _ _ 0 (by omega) ha
          obtain ⟨hlb, hib⟩ := ih (pos + WARM_CHUNK)
            (by unfold WARM_CHUNK; omega) hb
          refine ⟨?_, fun d hd => ?_⟩
          · rw [loads_append, hla, hlb, Nat.sub_zero]
            obtain ⟨m, hm⟩ := hdvd
            by_cases hlast : stop - pos ≤ WARM_CHUNK
            · rw [Nat.min_eq_left hlast,
                show stop - (pos + WARM_CHUNK) = 0 by omega,
                pagesIn_zero hps]
              simp
            · have hsplit : stop - pos
                  = m * s.pageSize + (stop - (pos + WARM_CHUNK)) := by
                rw [Nat.mul_comm m, ← hm]
                omega
              have hfull : pagesIn s.pageSize WARM_CHUNK = m := by
                have h := pagesIn_add (n := 0) hps m
                rw [Nat.add_zero, pagesIn_zero hps, Nat.add_zero,
                  Nat.mul_comm, ← hm] at h
                exact h
              rw [Nat.min_eq_right (by omega), hsplit, pagesIn_add hps,
                hfull, List.range_add, List.map_append, List.map_map]
              congr 1
              refine List.map_congr_left fun k _ => ?_
              simp only [Function.comp_apply, Nat.add_mul, hm]
              rw [Nat.mul_comm s.pageSize m]
              omega
          · rcases List.mem_append.mp hd with hd | hd
            · exact hia d hd
            · exact hib d hd
        simp only at h
        by_cases hnext : pos + WARM_CHUNK < stop
        · rw [if_pos hnext] at h
          obtain ⟨a, b, x, rfl, ha, hb⟩ := Prog.does_bind.mp h
          rw [Prog.does_perform.mp ha]
          obtain ⟨hl, hi⟩ := hchunk hb
          refine ⟨hl, fun d hd => ?_⟩
          rcases List.mem_cons.mp hd with rfl | hd
          · exact ⟨rfl, rfl⟩
          · exact hi d hd
        · rw [if_neg hnext] at h
          exact hchunk h
      · rw [if_neg hpos] at h
        have hzero : stop - pos = 0 := by omega
        obtain ⟨rfl, -⟩ := Prog.does_pure.mp h
        rw [hzero, pagesIn_zero hps]
        exact ⟨rfl, by simp⟩

/-- What touch_range does to a range: one load in each of its pages, in
order, and the hint put back at the end. -/
structure Touches (s : Server) (off len : Nat) (tr : Log) : Prop where
  loads : loads tr = (List.range (pagesIn s.pageSize len)).map
    fun k => off + k * s.pageSize
  inert : ∀ d ∈ tr, Inert d
  random : ∃ r front, tr = front ++ [⟨.madvise off len .random, r⟩]

/-- `touch_range` touches them all. -/
theorem touchRange_does (hps : 0 < s.pageSize)
    (hdvd : s.pageSize ∣ WARM_CHUNK) {off len : Nat} (hlen : 0 < len)
    {tr : Log} {u : Unit} (h : Prog.Does (touchRange s off len) tr u) :
    Touches s off len tr := by
  unfold touchRange at h
  rw [if_neg (by omega)] at h
  obtain ⟨a, b, r, rfl, ha, hb⟩ := Prog.does_bind.mp h
  obtain ⟨a', c, r', rfl, ha', hc⟩ := Prog.does_bind.mp hb
  obtain ⟨d, e, u', rfl, hd, he⟩ := Prog.does_bind.mp hc
  obtain ⟨e', z, r'', rfl, he', hz⟩ := Prog.does_bind.mp he
  obtain ⟨rfl, -⟩ := Prog.does_pure.mp hz
  rw [Prog.does_perform.mp ha, Prog.does_perform.mp ha',
    Prog.does_perform.mp he', List.append_nil]
  obtain ⟨hl, hi⟩ := touchChunks_does hps hdvd _ _ off (by omega) hd
  rw [Nat.add_sub_cancel_left] at hl
  refine ⟨?_, ?_, r'', _, by rw [← List.append_assoc, ← List.append_assoc]⟩
  · rw [loads_append, loads_append, loads_append, hl]
    show [] ++ ([] ++ (_ ++ [])) = _
    rw [List.append_nil, List.nil_append, List.nil_append]
  · intro x hx
    simp only [List.mem_append, List.mem_singleton] at hx
    rcases hx with rfl | rfl | hx | rfl
    · exact ⟨rfl, rfl⟩
    · exact ⟨rfl, rfl⟩
    · exact hi x hx
    · exact ⟨rfl, rfl⟩

end Touch

-- ================================================================ slices

/-- What the mapping, the page size and the slice size are like when a
sweep runs. -/
structure Sliced (s : Server) (slice : Nat) : Prop where
  page : 0 < s.pageSize
  chunk : s.pageSize ∣ WARM_CHUNK
  aligned : s.pageSize ∣ slice
  big : 2 ^ 20 ≤ slice
  small : s.map.length < 2 ^ 40

/-- Where slice `k` lies. -/
def sliceAt (s : Server) (slice k : Nat) : Nat × Nat :=
  (k * slice, min (s.map.length - k * slice) slice)

/-- The clock was read. -/
def read (t : Timespec) : Did Call Reply := ⟨.clock, t⟩

/-- Slice `k` was to be dropped. -/
def drop (s : Server) (slice k : Nat) (ok : Bool) : Did Call Reply :=
  ⟨.madvise (sliceAt s slice k).1 (sliceAt s slice k).2 .dontneed, ok⟩

/-- Slice `k` was to be evicted. -/
def evict (s : Server) (slice k : Nat) (err : Nat) : Did Call Reply :=
  ⟨.fadvise (sliceAt s slice k).1 (sliceAt s slice k).2, err⟩

/-- The runs of the sweep loop from slice `k`, which end before slice
`k'`. -/
inductive Swept (s : Server) (t0 : Timespec) (slice : Nat) :
    Nat → Log → UInt32 → Nat → Prop
  /-- no slice is left -/
  | finished {k : Nat} : s.map.length ≤ k * slice →
      Swept s t0 slice k [] ST_OK k
  /-- out of time -/
  | late {k : Nat} {t : Timespec} : k * slice < s.map.length →
      RECHARGE_MAX_SECS * 1000 ≤ elapsedBetween t0 t →
      Swept s t0 slice k [read t] ST_OK k
  /-- the drop failed -/
  | kept {k : Nat} {t : Timespec} : k * slice < s.map.length →
      Swept s t0 slice k [read t, drop s slice k false] ST_INTERNAL k
  /-- the eviction failed -/
  | stuck {k err : Nat} {t : Timespec} {touch : Log} :
      k * slice < s.map.length → err ≠ 0 →
      Touches s (sliceAt s slice k).1 (sliceAt s slice k).2 touch →
      Swept s t0 slice k
        ([read t, drop s slice k true, evict s slice k err] ++ touch)
        ST_INTERNAL k
  /-- a whole round -/
  | round {k k' : Nat} {t : Timespec} {touch tr : Log} {st : UInt32} :
      k * slice < s.map.length →
      Touches s (sliceAt s slice k).1 (sliceAt s slice k).2 touch →
      Swept s t0 slice (k + 1) tr st k' →
      Swept s t0 slice k
        ([read t, drop s slice k true, evict s slice k 0] ++ touch ++ tr)
        st k'

section Sweep

variable {s : Server} {t0 : Timespec} {slice : Nat}

/-- The pages of the slices before `k + 1` are those before `k` and
those of slice `k`. -/
theorem pagesIn_slice (hf : Sliced s slice) {k : Nat}
    (hk : k * slice < s.map.length) :
    pagesIn s.pageSize (min s.map.length ((k + 1) * slice))
      = pagesIn s.pageSize (min s.map.length (k * slice))
        + pagesIn s.pageSize (sliceAt s slice k).2 := by
  obtain ⟨m, hm⟩ := hf.aligned
  have hwhole : k * slice = (k * m) * s.pageSize := by rw [hm]; ring
  have hsplit : min s.map.length ((k + 1) * slice)
      = (k * m) * s.pageSize + (sliceAt s slice k).2 := by
    show _ = _ + min (s.map.length - k * slice) slice
    rw [← hwhole, Nat.succ_mul]
    omega
  have hbefore : pagesIn s.pageSize (k * slice) = k * m := by
    have h := pagesIn_add (n := 0) hf.page (k * m)
    rwa [Nat.add_zero, pagesIn_zero hf.page, Nat.add_zero, ← hwhole] at h
  rw [hsplit, pagesIn_add hf.page, Nat.min_eq_right hk.le, hbefore]

/-- There are no more pages than bytes. -/
theorem pagesIn_le {ps n : Nat} (hps : 0 < ps) : pagesIn ps n ≤ n := by
  by_contra hlt
  have h := (lt_pagesIn hps).mp (Nat.not_le.mp hlt)
  have := Nat.le_mul_of_pos_right n hps
  omega

/-- The time that has passed is one reading of the clock. -/
theorem elapsedMs_does {since : Timespec} {tr : Log} {ms : Nat}
    (h : Prog.Does (elapsedMs since) tr ms) :
    ∃ t, tr = [read t] ∧ ms = elapsedBetween since t := by
  obtain ⟨a, b, t, rfl, ha, hb⟩ := Prog.does_bind.mp h
  obtain ⟨rfl, rfl⟩ := Prog.does_pure.mp hb
  rw [Prog.does_perform.mp ha]
  exact ⟨t, rfl, rfl⟩

/-- Every run of the loop is such a run, and counts the slices and pages
behind it. -/
theorem sweepLoop_swept (hf : Sliced s slice) :
    ∀ (rounds k : Nat) {off : Nat} {rep rep' : RechargeReport} {tr : Log}
      {st : UInt32}, off = k * slice → s.map.length - k * slice ≤ rounds →
      rep.slicesDone.toNat = k →
      rep.pagesRecharged.toNat
        = pagesIn s.pageSize (min s.map.length (k * slice)) →
      Prog.Does (sweepLoop s t0 slice rounds off rep) tr (st, rep') →
      ∃ k', Swept s t0 slice k tr st k' ∧ rep'.slicesDone.toNat = k' ∧
        rep'.pagesRecharged.toNat
          = pagesIn s.pageSize (min s.map.length (k' * slice)) ∧
        rep'.slicesTotal = rep.slicesTotal := by
  intro rounds
  induction rounds with
  | zero =>
      intro k off rep rep' tr st hoff hle hdone hpages h
      obtain ⟨rfl, heq⟩ := Prog.does_pure.mp h
      cases heq
      exact ⟨k, .finished (by omega), hdone, hpages, rfl⟩
  | succ rounds ih =>
      intro k off rep rep' tr st hoff hle hdone hpages h
      subst hoff
      unfold sweepLoop at h
      by_cases hk : k * slice < s.map.length
      · rw [if_pos hk] at h
        have hlen : 0 < (sliceAt s slice k).2 := by
          have := hf.big
          show 0 < min _ _
          omega
        obtain ⟨a, b, ms, rfl, ha, hb⟩ := Prog.does_bind.mp h
        obtain ⟨t, rfl, rfl⟩ := elapsedMs_does ha
        by_cases hlate : elapsedBetween t0 t ≥ RECHARGE_MAX_SECS * 1000
        · rw [if_pos hlate] at hb
          obtain ⟨rfl, heq⟩ := Prog.does_pure.mp hb
          cases heq
          exact ⟨k, .late hk hlate, hdone, hpages, rfl⟩
        rw [if_neg hlate] at hb
        obtain ⟨c, d, ok, rfl, hc, hd⟩ := Prog.does_bind.mp hb
        rw [Prog.does_perform.mp hc]
        cases ok with
        | false =>
            obtain ⟨rfl, heq⟩ := Prog.does_pure.mp hd
            cases heq
            exact ⟨k, .kept hk, hdone, hpages, rfl⟩
        | true =>
            obtain ⟨e, f, err, rfl, he, hf'⟩ := Prog.does_bind.mp hd
            rw [Prog.does_perform.mp he]
            by_cases herr : (err : Nat) ≠ 0
            · rw [if_pos herr] at hf'
              obtain ⟨touch, z, u, rfl, htouch, hz⟩ :=
                Prog.does_bind.mp hf'
              obtain ⟨rfl, heq⟩ := Prog.does_pure.mp hz
              cases heq
              have ht := touchRange_does hf.page hf.chunk hlen htouch
              refine ⟨k, ?_, hdone, hpages, rfl⟩
              rw [List.append_nil]
              exact .stuck hk herr ht
            · rw [if_neg herr] at hf'
              obtain ⟨touch, z, u, rfl, htouch, hz⟩ :=
                Prog.does_bind.mp hf'
              have ht := touchRange_does hf.page hf.chunk hlen htouch
              have hbig := hf.big
              have hsmall := hf.small
              have hk20 : k < 2 ^ 20 := by
                by_contra hge
                have := Nat.mul_le_mul (Nat.not_lt.mp hge) hbig
                omega
              have hpage := pagesIn_slice hf hk
              have hbound := (pagesIn_le (n := min s.map.length
                ((k + 1) * slice)) hf.page).trans (Nat.min_le_left _ _)
              have hnew : k * slice + slice = (k + 1) * slice :=
                (Nat.succ_mul k slice).symm
              have hd₁ : (rep.slicesDone + 1).toNat = k + 1 := by
                rw [UInt32.toNat_add, hdone]
                show (k + 1) % 2 ^ 32 = _
                omega
              have hp₁ : (rep.pagesRecharged + UInt64.ofNat
                  (pagesIn s.pageSize (sliceAt s slice k).2)).toNat
                    = pagesIn s.pageSize
                        (min s.map.length ((k + 1) * slice)) := by
                rw [UInt64.toNat_add, hpages, hpage, UInt64.toNat_ofNat']
                rw [hpage] at hbound
                omega
              obtain ⟨k', hs, hd', hp', htot⟩ := ih (k + 1) hnew
                (by rw [Nat.succ_mul]; omega) hd₁ hp₁ hz
              obtain rfl : err = 0 := not_not.mp herr
              refine ⟨k', ?_, hd', hp', htot⟩
              show Swept s t0 slice k ([read t, drop s slice k true,
                evict s slice k 0] ++ (touch ++ z)) st k'
              rw [← List.append_assoc]
              exact .round hk ht hs
      · rw [if_neg hk] at h
        obtain ⟨rfl, heq⟩ := Prog.does_pure.mp h
        cases heq
        exact ⟨k, .finished (by omega), hdone, hpages, rfl⟩

/-- The slices the mapping divides into. -/
def slicesOf (s : Server) (slice : Nat) : Nat := pagesIn slice s.map.length

/-- A slice is counted if it begins within the map. -/
theorem lt_slicesOf (hf : Sliced s slice) {k : Nat} :
    k < slicesOf s slice ↔ k * slice < s.map.length :=
  lt_pagesIn (by have := hf.big; omega)

/-- A run goes forward. -/
theorem Swept.le {k k' : Nat} {tr : Log} {st : UInt32}
    (h : Swept s t0 slice k tr st k') : k ≤ k' := by
  induction h with
  | round _ _ _ ih => exact Nat.le_of_succ_le ih
  | _ => exact le_rfl

/-- A sweep goes over slices of the mapping only. -/
theorem Swept.le_slicesOf (hf : Sliced s slice) {k k' : Nat} {tr : Log}
    {st : UInt32} (h : Swept s t0 slice k tr st k')
    (hk : k ≤ slicesOf s slice) : k' ≤ slicesOf s slice := by
  induction h with
  | round hlt _ _ ih => exact ih ((lt_slicesOf hf).mpr hlt)
  | _ => exact hk

-- ================================================================ order

/-- The slices a run asks the kernel to drop are consecutive ones of the
mapping. -/
theorem Swept.drops (hf : Sliced s slice) {k k' : Nat} {tr : Log}
    {st : UInt32} (h : Swept s t0 slice k tr st k') :
    ∃ n, drops tr = (List.range n).map (fun i => sliceAt s slice (k + i)) ∧
      ∀ i < n, k + i < slicesOf s slice := by
  induction h with
  | finished _ => exact ⟨0, rfl, fun i hi => absurd hi (by omega)⟩
  | late _ _ => exact ⟨0, rfl, fun i hi => absurd hi (by omega)⟩
  | kept hk =>
      refine ⟨1, rfl, fun i hi => ?_⟩
      obtain rfl : i = 0 := by omega
      exact (lt_slicesOf hf).mpr hk
  | stuck hk _ ht =>
      refine ⟨1, ?_, fun i hi => ?_⟩
      · rw [drops_append, Inert.drops ht.inert]
        rfl
      · obtain rfl : i = 0 := by omega
        exact (lt_slicesOf hf).mpr hk
  | round hk ht _ ih =>
      obtain ⟨n, hn, hlt⟩ := ih
      refine ⟨n + 1, ?_, fun i hi => ?_⟩
      · rw [drops_append, drops_append, Inert.drops ht.inert, hn,
          List.append_nil, List.range_succ_eq_map, List.map_cons,
          List.map_map]
        refine congrArg₂ _ rfl (List.map_congr_left fun i _ => ?_)
        show sliceAt s slice _ = sliceAt s slice _
        congr 1
        omega
      · cases i with
        | zero => exact (lt_slicesOf hf).mpr hk
        | succ i =>
            have := hlt i (by omega)
            omega

/-- The slices it evicts are those it counts. -/
theorem Swept.evictions {k k' : Nat} {tr : Log} {st : UInt32}
    (h : Swept s t0 slice k tr st k') :
    evictions tr
      = (List.range (k' - k)).map fun i => sliceAt s slice (k + i) := by
  induction h with
  | finished _ => rw [Nat.sub_self]; rfl
  | late _ _ => rw [Nat.sub_self]; rfl
  | kept _ => rw [Nat.sub_self]; rfl
  | @stuck k err t touch hk herr ht =>
      have hnone : Daemon.evictions [read t, drop s slice k true,
          evict s slice k err] = [] := by
        show List.filterMap evictAt [evict s slice k err] = []
        rw [List.filterMap_cons_none
          (show evictAt (evict s slice k err) = none from if_neg herr)]
        rfl
      rw [evictions_append, hnone, Inert.evictions ht.inert, Nat.sub_self]
      rfl
  | @round k k' t touch tr st hk ht h ih =>
      have hle := h.le
      rw [evictions_append, evictions_append, Inert.evictions ht.inert, ih,
        List.append_nil, show k' - k = k' - (k + 1) + 1 by omega,
        List.range_succ_eq_map, List.map_cons, List.map_map]
      refine congrArg₂ _ rfl (List.map_congr_left fun i _ => ?_)
      show sliceAt s slice _ = sliceAt s slice _
      congr 1
      omega

-- =============================================================== warmth

/-- Every byte of the range shares a page with a load. -/
def Paged (s : Server) (off len : Nat) (tr : Log) : Prop :=
  ∀ p, off ≤ p → p < off + len →
    ∃ a ∈ loads tr, a / s.pageSize = p / s.pageSize

/-- Behind every drop that succeeded, and before the next one, each page
of the range is loaded and then its hint put back. -/
def Warmed (s : Server) (tr : Log) : Prop :=
  ∀ before off len after,
    tr = before ++ ⟨.madvise off len .dontneed, true⟩ :: after →
    ∃ mid r rest, after = mid ++ ⟨.madvise off len .random, r⟩ :: rest ∧
      drops mid = [] ∧ Paged s off len mid

/-- The range was dropped, then evicted, then loaded page by page and
its hint put back. -/
def Completed (s : Server) (tr : Log) (off len : Nat) : Prop :=
  ∃ a b c r d, tr = a ++ ⟨.madvise off len .dontneed, true⟩ :: b
      ++ ⟨.fadvise off len, (0 : Nat)⟩ :: c
      ++ ⟨.madvise off len .random, r⟩ :: d ∧
    Paged s off len c

/-- A touch of a range that starts on a page boundary loads all of it
before it puts the hint back. -/
theorem Touches.paged {off len : Nat} {tr : Log}
    (h : Touches s off len tr) (hps : 0 < s.pageSize)
    (hoff : s.pageSize ∣ off) :
    ∃ r front, tr = front ++ [⟨.madvise off len .random, r⟩] ∧
      drops front = [] ∧ Paged s off len front := by
  obtain ⟨r, front, rfl⟩ := h.random
  have hinert : ∀ d ∈ front, Inert d := fun d hd =>
    h.inert d (List.mem_append_left _ hd)
  have hloads := h.loads
  rw [loads_append] at hloads
  refine ⟨r, front, rfl, Inert.drops hinert, fun p hlo hhi => ?_⟩
  obtain ⟨m, hm⟩ := hoff
  obtain ⟨x, rfl⟩ := Nat.exists_eq_add_of_le hlo
  refine ⟨off + x / s.pageSize * s.pageSize, ?_, ?_⟩
  · have hmem : off + x / s.pageSize * s.pageSize
        ∈ (List.range (pagesIn s.pageSize len)).map
          fun k => off + k * s.pageSize := by
      apply List.mem_map_of_mem
      rw [List.mem_range, lt_pagesIn hps]
      have := Nat.div_mul_le_self x s.pageSize
      omega
    rw [← hloads] at hmem
    exact (List.mem_append.mp hmem).resolve_right (List.not_mem_nil)
  · rw [hm, Nat.mul_add_div hps, Nat.mul_add_div hps,
      Nat.mul_div_cancel _ hps]

/-- Nothing is left cold where nothing was dropped. -/
theorem Warmed.inert {tr : Log} (h : ∀ d ∈ tr, Inert d) : Warmed s tr := by
  intro before off len after heq
  have hd := h ⟨.madvise off len .dontneed, true⟩ (by rw [heq]; simp)
  cases hd.1

/-- Warmth of a run is warmth of its parts, as no part ends on a drop. -/
theorem Warmed.append {a b : Log} (ha : Warmed s a) (hb : Warmed s b) :
    Warmed s (a ++ b) := by
  intro before off len after heq
  rcases List.append_eq_append_iff.mp heq with ⟨c, -, hc⟩ | ⟨c, hc, hcb⟩
  · exact hb c off len after hc
  · cases c with
    | nil => exact hb [] off len after hcb.symm
    | cons d c =>
        obtain ⟨rfl, rfl⟩ := List.cons.inj hcb
        obtain ⟨mid, r, rest, rfl, hmid⟩ := ha before off len c hc
        exact ⟨mid, r, rest ++ b, by simp, hmid⟩

/-- A drop at the head of a run that touches its range next. -/
theorem Warmed.touched {off len : Nat} {front touch : Log}
    (hfront : ∀ d ∈ front, dropAt d = none)
    (ht : Touches s off len touch) (hps : 0 < s.pageSize)
    (hoff : s.pageSize ∣ off) :
    Warmed s (⟨.madvise off len .dontneed, true⟩ :: (front ++ touch)) := by
  have hnone : ∀ d ∈ front ++ touch, dropAt d = none := by
    intro d hd
    rcases List.mem_append.mp hd with hd | hd
    · exact hfront d hd
    · exact (ht.inert d hd).1
  intro before off' len' after heq
  cases before with
  | cons x before =>
      obtain ⟨rfl, hrest⟩ := List.cons.inj heq
      have := hnone ⟨.madvise off' len' .dontneed, true⟩
        (by rw [hrest]; simp)
      cases this
  | nil =>
      obtain ⟨hd, rfl⟩ := List.cons.inj heq
      cases hd
      obtain ⟨r, mid, rfl, hmid, hpaged⟩ := ht.paged hps hoff
      refine ⟨front ++ mid, r, [], by simp, ?_, ?_⟩
      · rw [drops_append, hmid, List.append_nil]
        exact List.filterMap_eq_nil_iff.mpr fun d hd =>
          hnone d (List.mem_append_left _ hd)
      · intro p hlo hhi
        obtain ⟨a, ha, hq⟩ := hpaged p hlo hhi
        refine ⟨a, ?_, hq⟩
        rw [loads_append]
        exact List.mem_append_right _ ha

/-- What was completed stays so, whatever is done before and after. -/
theorem Completed.within {off len : Nat} {tr : Log}
    (h : Completed s tr off len) (front back : Log) :
    Completed s (front ++ tr ++ back) off len := by
  obtain ⟨a, b, c, r, d, rfl, hpaged⟩ := h
  exact ⟨front ++ a, b, c, r, d ++ back, by simp, hpaged⟩

/-- Slices start on page boundaries. -/
theorem Sliced.dvd_start (hf : Sliced s slice) (k : Nat) :
    s.pageSize ∣ (sliceAt s slice k).1 :=
  hf.aligned.mul_left k

/-- A sweep leaves nothing cold. -/
theorem Swept.warmed (hf : Sliced s slice) {k k' : Nat} {tr : Log}
    {st : UInt32} (h : Swept s t0 slice k tr st k') : Warmed s tr := by
  have hread : ∀ t, Warmed s [read t] := fun t =>
    Warmed.inert fun d hd => by
      rw [List.mem_singleton.mp hd]
      exact ⟨rfl, rfl⟩
  -- a drop, an eviction however it went, a touch
  have htouched : ∀ (k err : Nat) {touch : Log},
      Touches s (sliceAt s slice k).1 (sliceAt s slice k).2 touch →
      Warmed s (drop s slice k true :: ([evict s slice k err] ++ touch)) := by
    intro k err touch ht
    refine Warmed.touched (fun d hd => ?_) ht hf.page (hf.dvd_start k)
    rw [List.mem_singleton.mp hd]
    rfl
  induction h with
  | finished _ => exact Warmed.inert (by simp)
  | late _ _ => exact hread _
  | @kept k t hk =>
      apply (hread t).append
      intro before off len after heq
      cases before with
      | nil => cases heq
      | cons x before =>
          obtain ⟨-, hrest⟩ := List.cons.inj heq
          cases before <;> cases hrest
  | @stuck k err t touch hk _ ht => exact (hread t).append (htouched k err ht)
  | @round k k' t touch tr st hk ht _ ih =>
      exact ((hread t).append (htouched k 0 ht)).append ih

/-- A sweep completes each slice that it counts. -/
theorem Swept.completed (hf : Sliced s slice) {k k' : Nat} {tr : Log}
    {st : UInt32} (h : Swept s t0 slice k tr st k') {j : Nat} (hkj : k ≤ j)
    (hj : j < k') :
    Completed s tr (sliceAt s slice j).1 (sliceAt s slice j).2 := by
  induction h with
  | @round k k' t touch tr st hk ht _ ih =>
      by_cases hjk : j = k
      · obtain ⟨r, front, rfl, -, hpaged⟩ :=
          ht.paged hf.page (hf.dvd_start k)
        rw [hjk]
        exact ⟨[read t], [], front, r, tr, by simp [drop, evict], hpaged⟩
      · obtain ⟨a, b, c, r, d, rfl, hpaged⟩ := ih (by omega) hj
        exact ⟨[read t, drop s slice k true, evict s slice k 0] ++ touch ++ a,
          b, c, r, d, by simp only [List.append_assoc, List.cons_append],
          hpaged⟩
  | _ => omega

/-- A slice that was completed was evicted. -/
theorem Completed.mem_evictions {off len : Nat} {tr : Log}
    (h : Completed s tr off len) : (off, len) ∈ Daemon.evictions tr := by
  obtain ⟨a, b, c, r, d, rfl, -⟩ := h
  have hev : evictAt ⟨.fadvise off len, (0 : Nat)⟩ = some (off, len) :=
    rfl
  simp only [evictions_append, List.append_assoc]
  show _ ∈ _ ++ (_ ++ (List.filterMap evictAt (_ :: c) ++ _))
  rw [List.filterMap_cons_some hev]
  simp

/-- A run that ends well before the last slice saw the limit pass. -/
theorem Swept.late_read {k k' : Nat} {tr : Log} {st : UInt32}
    (h : Swept s t0 slice k tr st k') (hst : st = ST_OK)
    (hk' : k' * slice < s.map.length) :
    ∃ t, read t ∈ tr ∧ RECHARGE_MAX_SECS * 1000 ≤ elapsedBetween t0 t := by
  induction h with
  | finished hk => omega
  | @late k t _ ht => exact ⟨t, List.mem_singleton_self _, ht⟩
  | kept _ => cases hst
  | stuck _ _ _ => cases hst
  | round _ _ _ ih =>
      obtain ⟨t, hmem, ht⟩ := ih hst hk'
      exact ⟨t, List.mem_append_right _ hmem, ht⟩

end Sweep

-- ============================================================ the report

section Report

variable {s : Server}

/-- The loop that counts pages is inert. -/
theorem residentLoop_does :
    ∀ (rounds off resident : Nat) {tr : Log} {n : Option Nat},
      Prog.Does (residentLoop s rounds off resident) tr n →
      ∀ d ∈ tr, Inert d := by
  intro rounds
  induction rounds with
  | zero =>
      intro off resident tr n h
      obtain ⟨rfl, -⟩ := Prog.does_pure.mp h
      simp
  | succ rounds ih =>
      intro off resident tr n h
      unfold residentLoop at h
      by_cases hoff : off < s.map.length
      · rw [if_pos hoff] at h
        obtain ⟨a, b, vec, rfl, ha, hb⟩ := Prog.does_bind.mp h
        rw [Prog.does_perform.mp ha]
        have hb' : ∀ d ∈ b, Inert d := by
          cases vec with
          | none =>
              obtain ⟨rfl, -⟩ := Prog.does_pure.mp hb
              simp
          | some vec => exact ih _ _ hb
        intro d hd
        rcases List.mem_cons.mp hd with rfl | hd
        · exact ⟨rfl, rfl⟩
        · exact hb' d hd
      · rw [if_neg hoff] at h
        obtain ⟨rfl, -⟩ := Prog.does_pure.mp h
        simp

/-- `resident_pages` is inert. -/
theorem residentPages_does {tr : Log} {n : Nat}
    (h : Prog.Does (residentPages s) tr n) : ∀ d ∈ tr, Inert d := by
  obtain ⟨a, b, u, rfl, ha, hb⟩ := Prog.does_bind.mp h
  obtain ⟨c, e, m, rfl, hc, he⟩ := Prog.does_bind.mp hb
  obtain ⟨f, z, v, rfl, hf, hz⟩ := Prog.does_bind.mp he
  obtain ⟨rfl, -⟩ := Prog.does_pure.mp hz
  rw [Prog.does_perform.mp ha, Prog.does_perform.mp hf]
  intro d hd
  simp only [List.mem_append, List.mem_singleton, List.append_nil] at hd
  rcases hd with rfl | hd | rfl
  · exact ⟨rfl, rfl⟩
  · exact residentLoop_does _ _ _ hc d hd
  · exact ⟨rfl, rfl⟩

/-- A sweep is a clock reading, a run of the loop from slice 0, and
what surrounds them, which drops nothing. -/
theorem sweep_swept {mib : Nat} (hf : Sliced s (mib * 2 ^ 20))
    (htotal : slicesOf s (mib * 2 ^ 20) < 2 ^ 32) {tr : Log} {st : UInt32}
    {rep : RechargeReport}
    (h : Prog.Does (sweep s mib) tr (st, rep)) :
    ∃ t0 a mid b, tr = read t0 :: (a ++ mid ++ b) ∧ (∀ d ∈ a, Inert d) ∧
      (∀ d ∈ b, Inert d) ∧
      Swept s t0 (mib * 2 ^ 20) 0 mid st rep.slicesDone.toNat ∧
      rep.pagesRecharged.toNat = pagesIn s.pageSize
        (min s.map.length (rep.slicesDone.toNat * (mib * 2 ^ 20))) ∧
      rep.slicesTotal.toNat = slicesOf s (mib * 2 ^ 20) := by
  obtain ⟨c, e, t0, rfl, hc, he⟩ := Prog.does_bind.mp h
  obtain ⟨a, e, before, rfl, ha, he⟩ := Prog.does_bind.mp he
  obtain ⟨mid, e, out, rfl, hmid, he⟩ := Prog.does_bind.mp he
  obtain ⟨st', rep'⟩ := out
  obtain ⟨b, e, after, rfl, hb, he⟩ := Prog.does_bind.mp he
  obtain ⟨d, e, ms, rfl, hd, he⟩ := Prog.does_bind.mp he
  obtain ⟨f, e, u, rfl, hf', he⟩ := Prog.does_bind.mp he
  obtain ⟨rfl, heq⟩ := Prog.does_pure.mp he
  cases heq
  obtain ⟨t, rfl, -⟩ := elapsedMs_does hd
  rw [Prog.does_perform.mp hc, Prog.does_perform.mp hf']
  have hnone : pagesIn s.pageSize (min s.map.length (0 * (mib * 2 ^ 20)))
      = 0 := by
    rw [Nat.zero_mul, Nat.min_zero, pagesIn_zero hf.page]
  obtain ⟨k', hs, hdone, hpages, htot⟩ := sweepLoop_swept hf _ 0
    (Nat.zero_mul _).symm (Nat.sub_le _ _) rfl (by exact hnone.symm) hmid
  subst hdone
  refine ⟨t0, a, mid, b ++ ([read t] ++ [⟨.release, u⟩]), by simp [read],
    residentPages_does ha, fun x hx => ?_, hs, hpages, ?_⟩
  · rcases List.mem_append.mp hx with hx | hx
    · exact residentPages_does hb x hx
    · simp only [List.mem_append, List.mem_singleton] at hx
      rcases hx with rfl | rfl <;> exact ⟨rfl, rfl⟩
  · show rep'.slicesTotal.toNat = _
    rw [htot]
    exact UInt32.toNat_ofNat_of_lt' htotal

/-- The ranges follow one another from `off` on, none of them empty or
past the mapping. -/
def Consecutive (s : Server) : Nat → List (Nat × Nat) → Prop
  | _, [] => True
  | off, r :: rest =>
      r.1 = off ∧ 0 < r.2 ∧ r.1 + r.2 ≤ s.map.length ∧
        Consecutive s (r.1 + r.2) rest

/-- Slices follow one another. -/
theorem consecutive_slices {slice : Nat} (hf : Sliced s slice) :
    ∀ (n k : Nat), (∀ i < n, k + i < slicesOf s slice) →
      Consecutive s (k * slice)
        ((List.range n).map fun i => sliceAt s slice (k + i)) := by
  intro n
  induction n with
  | zero => intro k _; exact trivial
  | succ n ih =>
      intro k hlt
      have hk : k * slice < s.map.length :=
        (lt_slicesOf hf).mp (hlt 0 (by omega))
      have hbig := hf.big
      have htail : (List.map (fun i => sliceAt s slice (k + i))
          ((List.range n).map Nat.succ))
          = (List.range n).map fun i => sliceAt s slice (k + 1 + i) := by
        rw [List.map_map]
        refine List.map_congr_left fun i _ => ?_
        show sliceAt s slice (k + (i + 1)) = _
        congr 1
        omega
      rw [List.range_succ_eq_map, List.map_cons, htail, Nat.add_zero]
      refine ⟨rfl, ?_, ?_, ?_⟩
      · show 0 < min _ _
        omega
      · show k * slice + min _ _ ≤ _
        omega
      · cases n with
        | zero => exact trivial
        | succ n =>
            -- a slice with another behind it is a whole one
            have hnext : (k + 1) * slice < s.map.length :=
              (lt_slicesOf hf).mp (hlt 1 (by omega))
            have hend : k * slice + min (s.map.length - k * slice) slice
                = (k + 1) * slice := by
              rw [Nat.succ_mul] at hnext ⊢
              omega
            show Consecutive s (k * slice + min _ _) _
            rw [hend]
            exact ih (k + 1) fun i hi => by
              have := hlt (i + 1) (by omega)
              omega

/-- Page `q` of the mapping lies in slice `k`. -/
def Lies (s : Server) (slice k q : Nat) : Prop :=
  (sliceAt s slice k).1 ≤ q * s.pageSize ∧
    q * s.pageSize < (sliceAt s slice k).1 + (sliceAt s slice k).2

/-- A page of the mapping lies in the slice its first byte divides to. -/
theorem lies_iff {slice : Nat} (hf : Sliced s slice) {k q : Nat}
    (hq : q < pagesIn s.pageSize s.map.length) :
    Lies s slice k q ↔ q * s.pageSize / slice = k := by
  have hlt := (lt_pagesIn hf.page).mp hq
  have hbig := hf.big
  unfold Lies
  show k * slice ≤ _ ∧ _ < k * slice + min (s.map.length - k * slice) slice
    ↔ _
  rw [Nat.div_eq_iff (by omega)]
  omega

open Classical in
/-- What a sweep that ended with status `st` has done and counted. -/
structure Reported (s : Server) (slice : Nat) (tr : Log) (st : UInt32)
    (rep : RechargeReport) : Prop where
  /-- slice after slice is dropped, from the first on -/
  visits : ∃ n, drops tr = (List.range n).map (sliceAt s slice)
  order : Consecutive s 0 (drops tr)
  warm : Warmed s tr
  total : rep.slicesTotal.toNat = (s.map.length + slice - 1) / slice
  done : ((Finset.range rep.slicesTotal.toNat).filter fun k =>
      Completed s tr (sliceAt s slice k).1 (sliceAt s slice k).2).card
    = rep.slicesDone.toNat
  pages : ((Finset.range (pagesIn s.pageSize s.map.length)).filter fun q =>
      ∃ k < rep.slicesTotal.toNat, Lies s slice k q ∧
        Completed s tr (sliceAt s slice k).1 (sliceAt s slice k).2).card
    = rep.pagesRecharged.toNat
  /-- it stops early only where it saw the limit pass -/
  late : st = ST_OK → rep.slicesDone < rep.slicesTotal →
    ∃ t0 t rest, tr = ⟨.exchange, false⟩ :: read t0 :: rest ∧
      read t ∈ rest ∧ RECHARGE_MAX_SECS * 1000 ≤ elapsedBetween t0 t
  whole : st = ST_OK → rep.slicesDone = rep.slicesTotal →
    rep.pagesRecharged.toNat = pagesIn s.pageSize s.map.length

open Classical in
/-- No more slices are done than there are. -/
theorem Reported.done_le {s : Server} {slice : Nat} {tr : Log}
    {st : UInt32} {rep : RechargeReport} (h : Reported s slice tr st rep) :
    rep.slicesDone.toNat ≤ rep.slicesTotal.toNat := by
  rw [← h.done]
  exact (Finset.card_filter_le _ _).trans_eq (Finset.card_range _)

/-- What the argument of a request makes of the slice size. -/
theorem sliced_of_arg {arg : UInt32}
    (hmap : s.map.length ≤ (2 ^ 32 - 1) * 160)
    (hpage : ∃ j, 12 ≤ j ∧ j ≤ 20 ∧ s.pageSize = 2 ^ j) :
    Sliced s (sliceMib arg * 2 ^ 20) := by
  obtain ⟨j, hlo, hhi, hj⟩ := hpage
  have hmib : 1 ≤ sliceMib arg := by
    unfold sliceMib
    by_cases harg : arg = 0
    · rw [if_pos harg]
      decide
    · rw [if_neg harg]
      exact Nat.one_le_iff_ne_zero.mpr fun h =>
        harg (UInt32.toNat_inj.mp h)
  refine ⟨?_, ?_, ?_, ?_, by omega⟩
  · rw [hj]
    exact Nat.two_pow_pos j
  · rw [hj]
    exact (pow_dvd_pow 2 hhi).trans ⟨64, rfl⟩
  · rw [hj]
    exact (pow_dvd_pow 2 hhi).mul_left _
  · omega

/-- The slices a run from slice 0 completes are those it counts. -/
theorem Swept.completed_iff {t0 : Timespec} {slice k' : Nat}
    (hf : Sliced s slice) {tr front back : Log} {st : UInt32}
    (h : Swept s t0 slice 0 tr st k') (hfront : ∀ d ∈ front, Inert d)
    (hback : ∀ d ∈ back, Inert d) {k : Nat} :
    Completed s (front ++ tr ++ back) (sliceAt s slice k).1
      (sliceAt s slice k).2 ↔ k < k' := by
  constructor
  · intro hc
    have hmem := hc.mem_evictions
    rw [evictions_append, evictions_append, Inert.evictions hfront,
      Inert.evictions hback, h.evictions, List.nil_append, List.append_nil,
      Nat.sub_zero] at hmem
    obtain ⟨i, hi, heq⟩ := List.mem_map.mp hmem
    have hstart : (0 + i) * slice = k * slice := congrArg Prod.fst heq
    have hbig := hf.big
    have := Nat.eq_of_mul_eq_mul_right (by omega) hstart
    have := List.mem_range.mp hi
    omega
  · intro hk
    exact (h.completed hf (Nat.zero_le k) hk).within front back

/-- The numbers below two bounds. -/
theorem card_lt_range {n m : Nat} {p : Nat → Prop} {_ : DecidablePred p}
    (hp : ∀ k < n, p k ↔ k < m) :
    ((Finset.range n).filter p).card = min n m := by
  have heq : (Finset.range n).filter p = Finset.range (min n m) := by
    apply Finset.ext
    intro k
    rw [Finset.mem_filter, Finset.mem_range, Finset.mem_range]
    constructor
    · intro h
      have := (hp k h.1).mp h.2
      omega
    · intro h
      exact ⟨by omega, (hp k (by omega)).mpr (by omega)⟩
  rw [heq, Finset.card_range]

/-- The fewer bytes have the fewer pages. -/
theorem pagesIn_min {ps : Nat} (hps : 0 < ps) (m n : Nat) :
    pagesIn ps (min m n) = min (pagesIn ps m) (pagesIn ps n) := by
  apply eq_of_forall_lt_iff
  intro q
  rw [lt_pagesIn hps, lt_min_iff, lt_min_iff, lt_pagesIn hps,
    lt_pagesIn hps]

/-- The report of a run from slice 0, between stretches that neither
drop nor evict. -/
theorem Swept.reported {t0 : Timespec} {slice : Nat} (hf : Sliced s slice)
    {a tr b : Log} {st : UInt32} {rep : RechargeReport}
    (hs : Swept s t0 slice 0 tr st rep.slicesDone.toNat)
    (ha : ∀ d ∈ a, Inert d) (hb : ∀ d ∈ b, Inert d)
    (hpages : rep.pagesRecharged.toNat
      = pagesIn s.pageSize (min s.map.length (rep.slicesDone.toNat * slice)))
    (htotal : rep.slicesTotal.toNat = slicesOf s slice) :
    Reported s slice (⟨.exchange, false⟩ :: read t0 :: (a ++ tr ++ b)) st
      rep := by
  have hfront : ∀ d ∈ (⟨.exchange, false⟩ :: read t0 :: a : Log),
      Inert d := by
    intro d hd
    rcases List.mem_cons.mp hd with rfl | hd
    · exact ⟨rfl, rfl⟩
    rcases List.mem_cons.mp hd with rfl | hd
    · exact ⟨rfl, rfl⟩
    · exact ha d hd
  have hdrops : Daemon.drops
      (⟨.exchange, false⟩ :: read t0 :: (a ++ tr ++ b))
        = Daemon.drops tr := by
    show Daemon.drops (⟨.exchange, false⟩ :: read t0 :: a ++ tr ++ b) = _
    rw [drops_append, drops_append, Inert.drops hfront, Inert.drops hb,
      List.nil_append, List.append_nil]
  have hdone := hs.le_slicesOf hf (Nat.zero_le _)
  have hcompleted : ∀ k, Completed s
      (⟨.exchange, false⟩ :: read t0 :: (a ++ tr ++ b))
      (sliceAt s slice k).1 (sliceAt s slice k).2
        ↔ k < rep.slicesDone.toNat :=
    fun k => hs.completed_iff hf hfront hb
  have hslice : 0 < slice := by
    have := hf.big
    omega
  obtain ⟨n, hn, hlt⟩ := hs.drops hf
  refine ⟨⟨n, ?_⟩, ?_, ?_, htotal, ?_, ?_, fun hok hless => ?_,
    fun hok heq => ?_⟩
  · rw [hdrops, hn]
    exact List.map_congr_left fun i _ => by rw [Nat.zero_add]
  · rw [hdrops, hn]
    have h := consecutive_slices hf n 0 hlt
    rwa [Nat.zero_mul] at h
  · show Warmed s (⟨.exchange, false⟩ :: read t0 :: a ++ tr ++ b)
    exact ((Warmed.inert hfront).append (hs.warmed hf)).append
      (Warmed.inert hb)
  · rw [card_lt_range fun k _ => hcompleted k, htotal]
    exact Nat.min_eq_right hdone
  · -- a page is counted where its slice is one of those completed
    have hq : ∀ q < pagesIn s.pageSize s.map.length,
        (∃ k < rep.slicesTotal.toNat, Lies s slice k q ∧
          Completed s (⟨.exchange, false⟩ :: read t0 :: (a ++ tr ++ b))
            (sliceAt s slice k).1 (sliceAt s slice k).2)
        ↔ q < pagesIn s.pageSize (rep.slicesDone.toNat * slice) := by
      intro q hq
      rw [lt_pagesIn hf.page, ← Nat.div_lt_iff_lt_mul hslice]
      constructor
      · intro h
        obtain ⟨k, -, hlies, hc⟩ := h
        rw [(lies_iff hf hq).mp hlies]
        exact (hcompleted k).mp hc
      · intro h
        exact ⟨_, by omega, (lies_iff hf hq).mpr rfl, (hcompleted _).mpr h⟩
    rw [card_lt_range hq, hpages, pagesIn_min hf.page]
  · have hmore : rep.slicesDone.toNat * slice < s.map.length := by
      apply (lt_slicesOf hf).mp
      rw [← htotal]
      exact hless
    obtain ⟨t, hmem, ht⟩ := hs.late_read hok hmore
    exact ⟨t0, t, _, rfl, by simp [hmem], ht⟩
  · have hall : s.map.length ≤ rep.slicesDone.toNat * slice := by
      by_contra hmore
      have := (lt_slicesOf hf).mpr (Nat.not_le.mp hmore)
      rw [heq, htotal] at this
      exact lt_irrefl _ this
    rw [hpages, Nat.min_eq_left hall]

/-- A RECHARGE is turned down before a sweep or is one. -/
theorem rechargeMap_does {s : Server} {arg : UInt32} {tr : Log}
    {st : UInt32} {out : Option RechargeReport}
    (h : Prog.Does (rechargeMap s arg) tr (st, out)) :
    out = none ∧ (sliceMib arg > RECHARGE_MAX_SLICE_MIB ∨
        tr = [⟨.exchange, true⟩]) ∨
      ∃ mid rep, tr = ⟨.exchange, false⟩ :: mid ∧ out = some rep ∧
        Prog.Does (sweep s (sliceMib arg)) mid (st, rep) := by
  unfold rechargeMap at h
  by_cases hbig : sliceMib arg > RECHARGE_MAX_SLICE_MIB
  · rw [if_pos hbig] at h
    obtain ⟨-, heq⟩ := Prog.does_pure.mp h
    cases heq
    exact .inl ⟨rfl, .inl hbig⟩
  rw [if_neg hbig] at h
  obtain ⟨x, y, busy, rfl, hx, hy⟩ := Prog.does_bind.mp h
  rw [Prog.does_perform.mp hx]
  cases busy with
  | true =>
      obtain ⟨rfl, heq⟩ := Prog.does_pure.mp hy
      cases heq
      exact .inl ⟨rfl, .inr rfl⟩
  | false =>
      obtain ⟨mid, z, ⟨st', rep⟩, rfl, hsweep, hz⟩ := Prog.does_bind.mp hy
      obtain ⟨rfl, heq⟩ := Prog.does_pure.mp hz
      cases heq
      rw [List.append_nil]
      exact .inr ⟨mid, rep, rfl, rfl, hsweep⟩

/-- The slices of a half the daemon takes can be counted. -/
theorem slicesOf_lt {s : Server} {slice : Nat} (hf : Sliced s slice)
    (hmap : s.map.length ≤ (2 ^ 32 - 1) * 160) :
    slicesOf s slice < 2 ^ 32 := by
  have hcount : slicesOf s slice ≤ 2 ^ 20 := by
    by_contra hlt
    have h20 := (lt_slicesOf hf).mp (Nat.not_le.mp hlt)
    have := Nat.mul_le_mul_left (2 ^ 20) hf.big
    omega
  omega

/-- Whatever the clock reads and the kernel answers, a sweep that has
started leaves no slice it dropped cold, and its report counts what it
completed. -/
theorem recharge_reported (s : Server) (arg : UInt32)
    (hmap : s.map.length ≤ (2 ^ 32 - 1) * 160)
    (hpage : ∃ j, 12 ≤ j ∧ j ≤ 20 ∧ s.pageSize = 2 ^ j) {tr : Log}
    {st : UInt32} {rep : RechargeReport}
    (h : Prog.Does (rechargeMap s arg) tr (st, some rep)) :
    Reported s (sliceMib arg * 2 ^ 20) tr st rep := by
  have hf : Sliced s (sliceMib arg * 2 ^ 20) := sliced_of_arg hmap hpage
  rcases rechargeMap_does h with ⟨hno, -⟩ | ⟨mid, rep', rfl, heq, hsweep⟩
  · cases hno
  · cases heq
    obtain ⟨t0, a, mid, b, rfl, ha, hb, hs, hpages, htotal⟩ :=
      sweep_swept hf (slicesOf_lt hf hmap) hsweep
    exact hs.reported hf ha hb hpages htotal

/-- A kernel that does what it is asked, and a clock that stands. -/
def willing : ∀ c : Call, Reply c
  | .exchange => false
  | .clock => (⟨0, 0⟩ : Timespec)
  | .mincore _ _ => some [(1 : UInt8)]
  | .madvise _ _ _ => true
  | .fadvise _ _ => (0 : Nat)
  | .load _ => (7 : UInt8)
  | .release | .lock | .unlock | .answer _ _ => ()

/-- No round of a sweep breaks off over that kernel. -/
theorem Swept.willing {s : Server} {t0 : Timespec} {slice k k' : Nat}
    {tr : Log} {st : UInt32} (h : Swept s t0 slice k tr st k')
    (hw : ∀ d ∈ tr, d.2 = willing d.1) : st = ST_OK := by
  induction h with
  | finished _ => rfl
  | late _ _ => rfl
  | @kept k t _ =>
      have hdrop := hw (drop s slice k false) (by simp)
      cases hdrop
  | @stuck k err t touch _ herr _ =>
      have hevict := hw (evict s slice k err) (by simp)
      exact absurd hevict herr
  | round _ _ _ ih => exact ih fun d hd => hw d (by simp [hd])

/-- Over it a sweep of any half ends well. -/
theorem recharge_willing {s : Server} {arg : UInt32}
    (hmap : s.map.length ≤ (2 ^ 32 - 1) * 160)
    (hpage : ∃ j, 12 ≤ j ∧ j ≤ 20 ∧ s.pageSize = 2 ^ j)
    (harg : sliceMib arg ≤ RECHARGE_MAX_SLICE_MIB) :
    ∃ tr rep, Prog.Does (rechargeMap s arg) tr (ST_OK, some rep) ∧
      ∀ d ∈ tr, d.2 = willing d.1 := by
  have hrun := Prog.does_runWith willing (rechargeMap s arg)
  have hw := Prog.runWith_answers willing (rechargeMap s arg)
  generalize (rechargeMap s arg).runWith willing = run at hrun hw
  obtain ⟨tr, st, out⟩ := run
  dsimp only at hrun hw
  rcases rechargeMap_does hrun with ⟨-, hbig | hbusy⟩ |
    ⟨mid, rep, htr, hout, hsweep⟩
  · exact absurd hbig (not_lt.mpr harg)
  · have hset := hw ⟨.exchange, true⟩ (by simp [hbusy])
    cases hset
  · have hf : Sliced s (sliceMib arg * 2 ^ 20) := sliced_of_arg hmap hpage
    obtain ⟨t0, a, round, b, rfl, -, -, hs, -, -⟩ :=
      sweep_swept hf (slicesOf_lt hf hmap) hsweep
    obtain rfl : st = ST_OK := hs.willing fun d hd =>
      hw d (by simp [htr, hd])
    exact ⟨tr, rep, by rw [← hout]; exact hrun, hw⟩

/-- A half of three slices of 1 MiB, the last of them short: 514 pages,
and the last of these short, too. -/
def threeSlices : Server where
  map := List.replicate (2 ^ 21 + 5000) 7
  pageSize := 4096
  baseRow := 0
  rowCount := 13138
  base32 := 0
  rows32 := 13138
  maxRows := 1
  threads := 1

theorem threeSlices_length : threeSlices.map.length = 2 ^ 21 + 5000 :=
  List.length_replicate

theorem recharge_reported_threeSlices :
    ∃ tr rep, Prog.Does (rechargeMap threeSlices 1) tr (ST_OK, some rep) ∧
      Reported threeSlices (sliceMib 1 * 2 ^ 20) tr ST_OK rep ∧
      rep.slicesTotal = 3 ∧ rep.slicesDone = 3 ∧
      rep.pagesRecharged.toNat = 514 := by
  have hmap : threeSlices.map.length ≤ (2 ^ 32 - 1) * 160 := by
    rw [threeSlices_length]
    decide
  have hpage : ∃ j, 12 ≤ j ∧ j ≤ 20 ∧ threeSlices.pageSize = 2 ^ j :=
    ⟨12, by decide, by decide, rfl⟩
  obtain ⟨tr, rep, hdoes, hw⟩ :=
    recharge_willing hmap hpage (show sliceMib 1 ≤ _ by decide)
  have hrep := recharge_reported threeSlices 1 hmap hpage hdoes
  have htotal : rep.slicesTotal = 3 := by
    apply UInt32.toNat_inj.mp
    rw [hrep.total, threeSlices_length]
    decide
  -- the clock stands, so the limit never passes
  have hall : rep.slicesDone = rep.slicesTotal := by
    by_contra hne
    have hless : rep.slicesDone < rep.slicesTotal :=
      UInt32.lt_iff_toNat_lt.mpr (lt_of_le_of_ne hrep.done_le
        fun h => hne (UInt32.toNat_inj.mp h))
    obtain ⟨t0, t, rest, rfl, hmem, hlate⟩ := hrep.late rfl hless
    have h0 := hw (read t0) (by simp)
    have ht := hw (read t) (by simp [hmem])
    obtain rfl : t0 = ⟨0, 0⟩ := h0
    obtain rfl : t = ⟨0, 0⟩ := ht
    revert hlate
    decide
  refine ⟨tr, rep, hdoes, hrep, htotal, hall.trans htotal, ?_⟩
  rw [hrep.whole rfl hall, threeSlices_length]
  decide

end Report

end PleRowServer.Daemon
