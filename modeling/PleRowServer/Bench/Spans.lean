/-
bench/trace_summary.py and bench/trace_gaps.py: the two sweeps over the
GPU spans of a trace. The one adds up the time covered, the other merges
the spans and lists the holes between them; both sort by start and keep
a running end.

# One sweep

The busy time is the length of what the other script merges
(`unionLoop_eq`), so everything is a statement about `mergeLoop`: what it
returns is `Separated`, covers the same instants, and spans the same
stretch. Times are of any ordered field here; the length of a set of
instants is taken over the reals.
-/
import Mathlib.Data.Prod.Lex
import Mathlib.Data.List.Sort
import Mathlib.Algebra.Order.Field.Basic
import Mathlib.Algebra.BigOperators.Group.List.Basic
import Mathlib.MeasureTheory.Measure.Lebesgue.Basic

namespace PleRowServer.Bench

variable {α : Type} [LinearOrder α]

/-- The start and the end of a span. -/
abbrev Span (α : Type) := α × α

/-- `spans.sort()`: tuples, in lexicographic order. -/
def sortSpans (spans : List (Span α)) : List (Span α) :=
  spans.mergeSort fun a b => decide (toLex a ≤ toLex b)

-- ================================================================= model

section Model

variable [Field α]

/-- The loop of `union_duration`, the current span being `(cs, ce)`. -/
def unionLoop : List (Span α) → α → α → α → α
  | [], total, cs, ce => total + (ce - cs)
  | (s, e) :: rest, total, cs, ce =>
      if ce < s then unionLoop rest (total + (ce - cs)) s e
      else unionLoop rest total cs (max ce e)

/-- `union_duration`. -/
def unionDuration (spans : List (Span α)) : α :=
  match sortSpans spans with
  | [] => 0
  | (s, e) :: rest => unionLoop rest 0 s e

/-- The loop that merges, the current span being `(cs, ce)`: what it
appends from here on. -/
def mergeLoop : List (Span α) → α → α → List (Span α)
  | [], cs, ce => [(cs, ce)]
  | (s, e) :: rest, cs, ce =>
      if ce < s then (cs, ce) :: mergeLoop rest s e
      else mergeLoop rest cs (max ce e)

/-- `merged`. -/
def merged (spans : List (Span α)) : List (Span α) :=
  match sortSpans spans with
  | [] => []
  | (s, e) :: rest => mergeLoop rest s e

/-- The holes of at least `minGap` between neighbours. -/
def gapsOf (minGap : α) : List (Span α) → List (Span α)
  | a :: b :: rest =>
      if minGap ≤ b.1 - a.2 then (a.2, b.1) :: gapsOf minGap (b :: rest)
      else gapsOf minGap (b :: rest)
  | _ => []

/-- `gaps`. -/
def traceGaps (minGap : α) (spans : List (Span α)) : List (Span α) :=
  gapsOf minGap (merged spans)

/-- The end of the last span, `merged[-1][1]`. -/
def endOf : Span α → List (Span α) → α
  | a, [] => a.2
  | _, b :: rest => endOf b rest

/-- `wall`, from the first start to the last end of what was merged. -/
def wall (spans : List (Span α)) : α :=
  match merged spans with
  | [] => 0
  | a :: rest => endOf a rest - a.1

/-- The time some spans take, one after the other. -/
def totalTime (spans : List (Span α)) : α :=
  (spans.map fun s => s.2 - s.1).sum

end Model

-- =============================================================== sorting

/-- The spans start one after the other. -/
def ByStart (spans : List (Span α)) : Prop :=
  spans.Pairwise fun a b => a.1 ≤ b.1

theorem sortSpans_perm (spans : List (Span α)) :
    (sortSpans spans).Perm spans := List.mergeSort_perm _ _

theorem sortSpans_sorted (spans : List (Span α)) :
    (sortSpans spans).Pairwise fun a b => toLex a ≤ toLex b := by
  have hsorted : (sortSpans spans).Pairwise fun a b =>
      decide (toLex a ≤ toLex b) = true := by
    refine List.pairwise_mergeSort (fun a b c hab hbc => ?_)
      (fun a b => ?_) spans
    · simp only [decide_eq_true_eq] at *
      exact hab.trans hbc
    · simp only [Bool.or_eq_true, decide_eq_true_eq]
      exact le_total _ _
  exact hsorted.imp fun h => of_decide_eq_true h

theorem sortSpans_byStart (spans : List (Span α)) :
    ByStart (sortSpans spans) := by
  refine (sortSpans_sorted spans).imp fun {a b} h => ?_
  rcases Prod.Lex.toLex_le_toLex.mp h with h | h
  · exact h.le
  · exact h.1.le

/-- Sorting forgets the order the spans came in. -/
theorem sortSpans_of_perm {spans spans' : List (Span α)}
    (h : spans.Perm spans') : sortSpans spans = sortSpans spans' := by
  have hperm := (sortSpans_perm spans).trans
    (h.trans (sortSpans_perm spans').symm)
  refine hperm.eq_of_pairwise (fun a b _ _ hab hba => ?_)
    (sortSpans_sorted spans) (sortSpans_sorted spans')
  exact toLex.injective (le_antisymm hab hba)

-- =============================================================== merging

/-- Some span covers the instant. -/
def Covered (spans : List (Span α)) (t : α) : Prop :=
  ∃ s ∈ spans, s.1 ≤ t ∧ t ≤ s.2

/-- Spans that end no earlier than they start. -/
def Proper (spans : List (Span α)) : Prop := ∀ s ∈ spans, s.1 ≤ s.2

/-- Proper spans with a hole after each but the last. -/
structure Separated (spans : List (Span α)) : Prop where
  proper : Proper spans
  apart : spans.Pairwise fun a b => a.2 < b.1

section Merge

theorem mergeLoop_ne_nil (rest : List (Span α)) (cs ce : α) :
    mergeLoop rest cs ce ≠ [] := by
  fun_induction mergeLoop rest cs ce with
  | case1 cs ce => simp
  | case2 s e rest cs ce hlt ih => simp
  | case3 s e rest cs ce hge ih => exact ih

/-- Merging covers what the spans cover and keeps what is left apart. -/
theorem mergeLoop_spec (rest : List (Span α)) (cs ce : α)
    (hc : cs ≤ ce) (hsort : ByStart ((cs, ce) :: rest))
    (hproper : Proper rest) :
    Separated (mergeLoop rest cs ce) ∧
      (∀ t, Covered (mergeLoop rest cs ce) t
        ↔ Covered ((cs, ce) :: rest) t) ∧
      (∀ s ∈ mergeLoop rest cs ce, cs ≤ s.1) := by
  fun_induction mergeLoop rest cs ce with
  | case1 cs ce =>
      refine ⟨⟨?_, List.pairwise_singleton _ _⟩, fun t => Iff.rfl, ?_⟩
      · intro s hs
        rw [List.mem_singleton.mp hs]
        exact hc
      · intro s hs
        rw [List.mem_singleton.mp hs]
  | case2 s e rest cs ce hlt ih =>
      obtain ⟨-, htail⟩ := List.pairwise_cons.mp hsort
      obtain ⟨hsep, hcov, hge⟩ := ih (hproper (s, e) (by simp)) htail
        fun x hx => hproper x (by simp [hx])
      refine ⟨⟨?_, List.pairwise_cons.mpr ⟨fun x hx => ?_, hsep.apart⟩⟩,
        fun t => ?_, fun x hx => ?_⟩
      · intro x hx
        rcases List.mem_cons.mp hx with rfl | hx
        · exact hc
        · exact hsep.proper x hx
      · exact hlt.trans_le (hge x hx)
      · have := hcov t
        unfold Covered at this ⊢
        simp only [List.mem_cons, exists_eq_or_imp] at this ⊢
        rw [this]
      · rcases List.mem_cons.mp hx with rfl | hx
        · exact le_rfl
        · exact (hc.trans hlt.le).trans (hge x hx)
  | case3 s e rest cs ce hge ih =>
      obtain ⟨hhead, htail⟩ := List.pairwise_cons.mp hsort
      obtain ⟨-, htail'⟩ := List.pairwise_cons.mp htail
      obtain ⟨hsep, hcov, hlow⟩ := ih (hc.trans (le_max_left _ _))
        (List.pairwise_cons.mpr ⟨fun x hx => hhead x (by simp [hx]), htail'⟩)
        fun x hx => hproper x (by simp [hx])
      refine ⟨hsep, fun t => (hcov t).trans ?_, hlow⟩
      have hs : cs ≤ s := hhead (s, e) (by simp)
      have hse : s ≤ ce := not_lt.mp hge
      unfold Covered
      simp only [List.mem_cons, exists_eq_or_imp]
      rw [← or_assoc]
      refine or_congr ⟨fun h => ?_, fun h => ?_⟩ Iff.rfl
      · rcases le_max_iff.mp h.2 with h' | h'
        · exact .inl ⟨h.1, h'⟩
        · rcases le_total t ce with h'' | h''
          · exact .inl ⟨h.1, h''⟩
          · exact .inr ⟨hse.trans h'', h'⟩
      · rcases h with h | h
        · exact ⟨h.1, h.2.trans (le_max_left _ _)⟩
        · exact ⟨hs.trans h.1, h.2.trans (le_max_right _ _)⟩

/-- What the merging of some spans is: spans apart, over the same
instants. -/
theorem merged_spec (spans : List (Span α)) (hne : spans ≠ [])
    (hs : Proper spans) :
    ∃ a rest, merged spans = a :: rest ∧ Separated (a :: rest) ∧
      ∀ t, Covered (a :: rest) t ↔ Covered spans t := by
  have hperm := sortSpans_perm spans
  have hby := sortSpans_byStart spans
  unfold merged
  cases hsort : sortSpans spans with
  | nil =>
      rw [hsort] at hperm
      exact absurd hperm.symm.eq_nil hne
  | cons s sorted =>
      rw [hsort] at hperm hby
      have hproper : Proper (s :: sorted) := fun x hx =>
        hs x (hperm.mem_iff.mp hx)
      obtain ⟨hsep, hcov, -⟩ := mergeLoop_spec sorted s.1 s.2
        (hproper s (by simp)) hby fun x hx => hproper x (by simp [hx])
      obtain ⟨a, rest, heq⟩ := List.exists_cons_of_ne_nil
        (mergeLoop_ne_nil sorted s.1 s.2)
      refine ⟨a, rest, heq, heq ▸ hsep, fun t => ?_⟩
      rw [← heq, hcov t]
      exact exists_congr fun x => and_congr_left' hperm.mem_iff

end Merge

section Busy

variable [Field α]

/-- The busy time is the time of the merged spans. -/
theorem unionLoop_eq (rest : List (Span α)) (total cs ce : α) :
    unionLoop rest total cs ce
      = total + totalTime (mergeLoop rest cs ce) := by
  fun_induction unionLoop rest total cs ce with
  | case1 total cs ce => simp [mergeLoop, totalTime]
  | case2 s e rest total cs ce hlt ih =>
      rw [ih, mergeLoop, if_pos hlt]
      simp only [totalTime, List.map_cons, List.sum_cons]
      rw [add_assoc]
  | case3 s e rest total cs ce hge ih => rw [ih, mergeLoop, if_neg hge]

theorem unionDuration_eq (spans : List (Span α)) :
    unionDuration spans = totalTime (merged spans) := by
  unfold unionDuration merged
  split
  case h_1 => simp [totalTime]
  case h_2 => rw [unionLoop_eq, zero_add]

end Busy

-- ================================================================= holes

/-- A maximal stretch between `lo` and `hi` with no instant covered
inside it. -/
structure MaximalHole (covered : α → Prop) (lo hi : α) (g : Span α) :
    Prop where
  proper : g.1 < g.2
  inside : lo ≤ g.1 ∧ g.2 ≤ hi
  idle : ∀ t, g.1 < t → t < g.2 → ¬ covered t
  maximal : ∀ g' : Span α, lo ≤ g'.1 → g'.2 ≤ hi → g'.1 ≤ g.1 →
    g.2 ≤ g'.2 → (∀ t, g'.1 < t → t < g'.2 → ¬ covered t) → g' = g

section Holes

variable {a b g : Span α} {rest : List (Span α)} {t : α}

theorem Separated.tail (h : Separated (a :: rest)) : Separated rest :=
  ⟨fun s hs => h.proper s (by simp [hs]), (List.pairwise_cons.mp h.apart).2⟩

theorem covered_cons :
    Covered (a :: rest) t ↔ a.1 ≤ t ∧ t ≤ a.2 ∨ Covered rest t := by
  simp only [Covered, List.mem_cons, exists_eq_or_imp]

/-- The end of the last span is an instant of it. -/
theorem Separated.covered_end (h : Separated (a :: rest)) :
    Covered (a :: rest) (endOf a rest) := by
  induction rest generalizing a with
  | nil => exact covered_cons.mpr (.inl ⟨h.proper a (by simp), le_rfl⟩)
  | cons b rest ih => exact covered_cons.mpr (.inr (ih h.tail))

/-- Separated spans cover nothing outside their stretch. -/
theorem Separated.bounds (h : Separated (a :: rest))
    (ht : Covered (a :: rest) t) : a.1 ≤ t ∧ t ≤ endOf a rest := by
  induction rest generalizing a t with
  | nil => simpa [Covered, endOf] using ht
  | cons b rest ih =>
      have hab : a.2 < b.1 := (List.pairwise_cons.mp h.apart).1 b (by simp)
      have ha : a.1 ≤ a.2 := h.proper a (by simp)
      rcases covered_cons.mp ht with ht | ht
      · have hb := (ih h.tail h.tail.covered_end).1
        exact ⟨ht.1, (ht.2.trans hab.le).trans hb⟩
      · have := ih h.tail ht
        exact ⟨(ha.trans hab.le).trans this.1, this.2⟩

/-- Between two neighbours nothing is covered. -/
theorem Separated.idle (h : Separated (a :: b :: rest)) (hlo : a.2 < t)
    (hhi : t < b.1) : ¬ Covered (a :: b :: rest) t := by
  intro ht
  rcases covered_cons.mp ht with ht | ht
  · exact absurd ht.2 (not_le.mpr hlo)
  · exact absurd (h.tail.bounds ht).1 (not_le.mpr hhi)

/-- The holes of some separated spans: the first one, and those of the
rest. -/
theorem Separated.hole_iff [DenselyOrdered α]
    (h : Separated (a :: b :: rest)) :
    MaximalHole (Covered (a :: b :: rest)) a.1 (endOf b rest) g
      ↔ g = (a.2, b.1) ∨
        MaximalHole (Covered (b :: rest)) b.1 (endOf b rest) g := by
  have hab : a.2 < b.1 := (List.pairwise_cons.mp h.apart).1 b (by simp)
  have ha : a.1 ≤ a.2 := h.proper a (by simp)
  have hb : b.1 ≤ endOf b rest := (h.tail.bounds h.tail.covered_end).1
  have hca : Covered (a :: b :: rest) a.2 := covered_cons.mpr
    (.inl ⟨ha, le_rfl⟩)
  have hcb : Covered (a :: b :: rest) b.1 := covered_cons.mpr
    (.inr (covered_cons.mpr (.inl ⟨le_rfl, h.proper b (by simp)⟩)))
  -- past `b.1` the first span makes no difference
  have hlater : ∀ t, b.1 < t → Covered (a :: b :: rest) t →
      Covered (b :: rest) t := by
    intro t ht hc
    exact (covered_cons.mp hc).resolve_left fun hc' =>
      absurd (hc'.2.trans_lt hab) (not_lt.mpr ht.le)
  constructor
  · intro hg
    have hge : a.2 ≤ g.1 := by
      by_contra hlt
      have hlt := not_le.mp hlt
      rcases lt_or_ge a.2 g.2 with h2 | h2
      · exact hg.idle a.2 hlt h2 hca
      · obtain ⟨t, ht, ht'⟩ := exists_between hg.proper
        exact hg.idle t ht ht' (covered_cons.mpr
          (.inl ⟨hg.inside.1.trans ht.le, ht'.le.trans h2⟩))
    rcases lt_or_ge g.1 b.1 with hlt | hge'
    · have hle : g.2 ≤ b.1 := by
        by_contra hgt
        exact hg.idle b.1 hlt (not_le.mp hgt) hcb
      exact .inl (hg.maximal (a.2, b.1) ha hb hge hle
        fun t ht ht' => h.idle ht ht').symm
    · refine .inr ⟨hg.proper, ⟨hge', hg.inside.2⟩, fun t ht ht' hc =>
        hg.idle t ht ht' (covered_cons.mpr (.inr hc)), ?_⟩
      intro g' hlo hhi h1 h2 hidle
      refine hg.maximal g' ((ha.trans hab.le).trans hlo) hhi h1 h2 ?_
      intro t ht ht' hc
      exact hidle t ht ht' (hlater t (hlo.trans_lt ht) hc)
  · intro hg
    rcases hg with rfl | hg
    · refine ⟨hab, ⟨ha, hb⟩, fun t ht ht' => h.idle ht ht', ?_⟩
      intro g' _ _ h1 h2 hidle
      refine Prod.ext (le_antisymm h1 ?_) (le_antisymm ?_ h2)
      · by_contra hlt
        exact hidle a.2 (not_le.mp hlt) (hab.trans_le h2) hca
      · by_contra hgt
        exact hidle b.1 (h1.trans_lt hab) (not_le.mp hgt) hcb
    · refine ⟨hg.proper, ⟨(ha.trans hab.le).trans hg.inside.1, hg.inside.2⟩,
        fun t ht ht' hc => hg.idle t ht ht'
          (hlater t (hg.inside.1.trans_lt ht) hc), ?_⟩
      intro g' hlo hhi h1 h2 hidle
      refine hg.maximal g' ?_ hhi h1 h2 fun t ht ht' hc =>
        hidle t ht ht' (covered_cons.mpr (.inr hc))
      by_contra hlt
      exact hidle b.1 (not_le.mp hlt)
        ((hg.inside.1.trans_lt hg.proper).trans_le h2) hcb

/-- One span leaves no hole. -/
theorem Separated.no_hole [DenselyOrdered α] :
    ¬ MaximalHole (Covered [a]) a.1 a.2 g := by
  intro hg
  obtain ⟨t, ht, ht'⟩ := exists_between hg.proper
  exact hg.idle t ht ht' (covered_cons.mpr
    (.inl ⟨hg.inside.1.trans ht.le, ht'.le.trans hg.inside.2⟩))

end Holes

section Gaps

variable [Field α] [IsStrictOrderedRing α] {a b g : Span α}
  {rest : List (Span α)} {minGap : α}

/-- The gaps are the holes that are long enough. -/
theorem Separated.mem_gapsOf (h : Separated (a :: rest)) :
    g ∈ gapsOf minGap (a :: rest)
      ↔ MaximalHole (Covered (a :: rest)) a.1 (endOf a rest) g ∧
        minGap ≤ g.2 - g.1 := by
  induction rest generalizing a with
  | nil =>
      simp only [gapsOf, List.not_mem_nil, false_iff]
      exact fun hg => Separated.no_hole hg.1
  | cons b rest ih =>
      rw [show endOf a (b :: rest) = endOf b rest from rfl, h.hole_iff,
        gapsOf]
      have hih := ih h.tail
      by_cases hlong : minGap ≤ b.1 - a.2
      · rw [if_pos hlong, List.mem_cons, hih]
        constructor
        · intro hg
          rcases hg with rfl | hg
          · exact ⟨.inl rfl, hlong⟩
          · exact ⟨.inr hg.1, hg.2⟩
        · intro hg
          exact hg.1.imp_right fun h' => ⟨h', hg.2⟩
      · rw [if_neg hlong, hih]
        constructor
        · intro hg
          exact ⟨.inr hg.1, hg.2⟩
        · intro hg
          refine ⟨hg.1.resolve_left fun heq => hlong ?_, hg.2⟩
          rw [heq] at hg
          exact hg.2

omit [IsStrictOrderedRing α] in
/-- The gaps come one after the other. -/
theorem Separated.gapsOf_ordered (minGap : α)
    (h : Separated (a :: rest)) :
    (gapsOf minGap (a :: rest)).Pairwise (fun g g' => g.2 ≤ g'.1) ∧
      ∀ g ∈ gapsOf minGap (a :: rest), a.2 ≤ g.1 ∧ g.1 < g.2 := by
  induction rest generalizing a with
  | nil => simp [gapsOf]
  | cons b rest ih =>
      obtain ⟨hord, hlow⟩ := ih h.tail
      have hab : a.2 < b.1 := (List.pairwise_cons.mp h.apart).1 b (by simp)
      have hb : b.1 ≤ b.2 := h.proper b (by simp)
      have hrest : ∀ g ∈ gapsOf minGap (b :: rest), a.2 ≤ g.1 ∧ g.1 < g.2 :=
        fun g hg => ⟨(hab.le.trans hb).trans (hlow g hg).1, (hlow g hg).2⟩
      rw [gapsOf]
      split
      · refine ⟨List.pairwise_cons.mpr ⟨fun g hg =>
          hb.trans (hlow g hg).1, hord⟩, fun g hg => ?_⟩
        rcases List.mem_cons.mp hg with rfl | hg
        · exact ⟨le_rfl, hab⟩
        · exact hrest g hg
      · exact ⟨hord, hrest⟩

/-- The spans and the holes between them make up the stretch. -/
theorem Separated.partition (h : Separated (a :: rest)) :
    totalTime (a :: rest) + totalTime (gapsOf 0 (a :: rest))
      = endOf a rest - a.1 := by
  induction rest generalizing a with
  | nil => simp [totalTime, gapsOf, endOf]
  | cons b rest ih =>
      have hab : a.2 < b.1 := (List.pairwise_cons.mp h.apart).1 b (by simp)
      have := ih h.tail
      rw [gapsOf, if_pos (sub_nonneg.mpr hab.le)]
      simp only [totalTime, List.map_cons, List.sum_cons, endOf] at this ⊢
      linear_combination this

end Gaps

-- =============================================================== measure

section Measure

open MeasureTheory

variable {l : List (Span ℝ)}

theorem setOf_covered_cons (a : Span ℝ) (l : List (Span ℝ)) :
    {t | Covered (a :: l) t} = Set.Icc a.1 a.2 ∪ {t | Covered l t} := by
  ext t
  exact covered_cons

theorem measurableSet_covered (l : List (Span ℝ)) :
    MeasurableSet {t | Covered l t} := by
  induction l with
  | nil => simp [Covered]
  | cons a l ih =>
      rw [setOf_covered_cons]
      exact measurableSet_Icc.union ih

/-- Separated spans take as much time as their lengths add up to. -/
theorem Separated.volume (h : Separated l) :
    volume {t | Covered l t} = ENNReal.ofReal (totalTime l) ∧
      0 ≤ totalTime l := by
  induction l with
  | nil => simp [Covered, totalTime]
  | cons a l ih =>
      obtain ⟨hvol, hnonneg⟩ := ih h.tail
      have ha : 0 ≤ a.2 - a.1 := sub_nonneg.mpr (h.proper a (by simp))
      have hdis : Disjoint (Set.Icc a.1 a.2) {t | Covered l t} := by
        refine Set.disjoint_left.mpr fun t ht hc => ?_
        obtain ⟨s, hs, hst⟩ := hc
        have := (List.pairwise_cons.mp h.apart).1 s hs
        exact absurd (ht.2.trans_lt this) (not_lt.mpr hst.1)
      have htotal : totalTime (a :: l) = a.2 - a.1 + totalTime l := by
        simp [totalTime]
      rw [setOf_covered_cons, measure_union hdis (measurableSet_covered l),
        Real.volume_Icc, hvol, htotal, ENNReal.ofReal_add ha hnonneg]
      exact ⟨rfl, add_nonneg ha hnonneg⟩

end Measure

-- ================================================================ result

section Result

variable {a : Span α} {rest spans : List (Span α)}

/-- Separated spans start at the first start and end at the last end of
the spans they cover. -/
theorem Separated.stretch (h : Separated (a :: rest)) (hs : Proper spans)
    (hcov : ∀ t, Covered (a :: rest) t ↔ Covered spans t) :
    IsLeast {t | ∃ s ∈ spans, s.1 = t} a.1 ∧
      IsGreatest {t | ∃ s ∈ spans, s.2 = t} (endOf a rest) := by
  have hstart : ∀ s ∈ spans, a.1 ≤ s.1 := fun s hmem =>
    (h.bounds ((hcov s.1).mpr ⟨s, hmem, le_rfl, hs s hmem⟩)).1
  have hend : ∀ s ∈ spans, s.2 ≤ endOf a rest := fun s hmem =>
    (h.bounds ((hcov s.2).mpr ⟨s, hmem, hs s hmem, le_rfl⟩)).2
  constructor
  · obtain ⟨s, hmem, hle, -⟩ := (hcov a.1).mp
      ⟨a, by simp, le_rfl, h.proper a (by simp)⟩
    refine ⟨⟨s, hmem, le_antisymm hle (hstart s hmem)⟩, ?_⟩
    intro t ⟨s', hmem', ht⟩
    exact ht ▸ hstart s' hmem'
  · obtain ⟨s, hmem, -, hle⟩ := (hcov _).mp h.covered_end
    refine ⟨⟨s, hmem, le_antisymm (hend s hmem) hle⟩, ?_⟩
    intro t ⟨s', hmem', ht⟩
    exact ht ▸ hend s' hmem'

/-- Both sweeps sort first. -/
theorem merged_perm {spans' : List (Span α)} (h : spans.Perm spans') :
    merged spans' = merged spans := by
  unfold merged
  rw [sortSpans_of_perm h]

theorem unionDuration_perm [Field α] {spans' : List (Span α)}
    (h : spans.Perm spans') : unionDuration spans' = unionDuration spans := by
  rw [unionDuration_eq, unionDuration_eq, merged_perm h]

end Result

/-- The two sweeps over the spans of a trace. The one returns the length
of what some span covers; the other lists, from the first start to the
last end, the maximal holes of at least the threshold, in order. Together
they make up the wall time, and the order of the spans makes no
difference. -/
theorem busy_and_idle (spans : List (Span ℝ)) (hne : spans ≠ [])
    (hs : Proper spans) :
    ∃ lo hi, IsLeast {t | ∃ s ∈ spans, s.1 = t} lo ∧
      IsGreatest {t | ∃ s ∈ spans, s.2 = t} hi ∧
      (MeasureTheory.volume {t | Covered spans t}
          = ENNReal.ofReal (unionDuration spans) ∧
        0 ≤ unionDuration spans) ∧
      (∀ minGap, 0 ≤ minGap →
        (∀ g, g ∈ traceGaps minGap spans
          ↔ MaximalHole (Covered spans) lo hi g ∧ minGap ≤ g.2 - g.1) ∧
        (traceGaps minGap spans).Pairwise fun g g' =>
          g.1 < g'.1 ∧ g.2 ≤ g'.1) ∧
      (unionDuration spans + totalTime (traceGaps 0 spans) = wall spans ∧
        wall spans = hi - lo) ∧
      ∀ spans', spans.Perm spans' →
        unionDuration spans' = unionDuration spans ∧
          wall spans' = wall spans ∧
          ∀ minGap, traceGaps minGap spans' = traceGaps minGap spans := by
  obtain ⟨a, rest, heq, hsep, hcov⟩ := merged_spec spans hne hs
  obtain ⟨hlo, hhi⟩ := hsep.stretch hs hcov
  have hcov' : Covered (a :: rest) = Covered spans :=
    funext fun t => propext (hcov t)
  have hwall : wall spans = endOf a rest - a.1 := by
    unfold wall
    rw [heq]
  refine ⟨a.1, endOf a rest, hlo, hhi, ?_, fun minGap _ => ⟨fun g => ?_, ?_⟩,
    ⟨?_, hwall⟩, fun spans' hperm => ⟨unionDuration_perm hperm, ?_,
      fun minGap => ?_⟩⟩
  · rw [unionDuration_eq, heq, ← hcov']
    exact hsep.volume
  · rw [traceGaps, heq, hsep.mem_gapsOf, hcov']
  · rw [traceGaps, heq]
    obtain ⟨hord, hlow⟩ := hsep.gapsOf_ordered minGap
    refine hord.imp_of_mem fun {g g'} hg _ hgg => ⟨?_, hgg⟩
    exact (hlow g hg).2.trans_le hgg
  · rw [unionDuration_eq, traceGaps, heq, hwall]
    exact hsep.partition
  · rw [wall, wall, merged_perm hperm]
  · rw [traceGaps, traceGaps, merged_perm hperm]

/-- Two spans from one start, and one after a hole. -/
theorem busy_and_idle_hole :
    unionDuration ([(3, 4), (0, 2), (0, 1)] : List (Span ℝ))
        + totalTime (traceGaps 0 ([(3, 4), (0, 2), (0, 1)] : List (Span ℝ)))
      = wall ([(3, 4), (0, 2), (0, 1)] : List (Span ℝ)) := by
  obtain ⟨lo, hi, -, -, -, -, hsum, -⟩ := busy_and_idle
    ([(3, 4), (0, 2), (0, 1)] : List (Span ℝ)) (by simp) (by
      intro s hmem
      simp only [List.mem_cons, List.not_mem_nil, or_false] at hmem
      rcases hmem with rfl | rfl | rfl <;> norm_num)
  exact hsum.1

end PleRowServer.Bench
