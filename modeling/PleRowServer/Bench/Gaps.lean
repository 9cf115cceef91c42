/-
bench/trace_gaps.py, the second half: which host spans were open while
the GPU was idle. The host spans are taken by start, and one cursor into
the gaps moves forward only; each span is charged what it covers of the
gaps from the cursor on.

# The cursor

A gap is dropped for good once it ends before the span at hand starts,
and every later span starts later still: `Cursor` says so, and a dropped
gap overlaps none of the spans to come.
-/
import Mathlib.Data.List.TakeWhile
import PleRowServer.Bench.Spans

namespace PleRowServer.Bench

variable {α β : Type} [LinearOrder α]

/-- The start, the end and the name of a host span. -/
abbrev HostSpan (α β : Type) := α × α × β

/-- `host.sort()`. -/
def sortHost [LinearOrder β] (host : List (HostSpan α β)) :
    List (HostSpan α β) :=
  host.mergeSort fun a b =>
    decide (toLex (a.1, toLex a.2) ≤ toLex (b.1, toLex b.2))

-- ================================================================= model

section Model

variable [Field α] [LinearOrder β]

/-- What a span covers of a gap. -/
def overlap (hs he : α) (gap : Span α) : α :=
  max 0 (min he gap.2 - max hs gap.1)

/-- The inner loop, over the gaps from the cursor on. -/
def coverLoop (hs he : α) : List (Span α) → α → α
  | gap :: left, covered =>
      if gap.1 < he then coverLoop hs he left (covered + overlap hs he gap)
      else covered
  | [], covered => covered

/-- `blame` and `hits`, which default to nothing. -/
structure Blame (α β : Type) where
  blame : β → α
  hits : β → Nat

/-- One more span of the name, and what it covers. -/
def Blame.charge (b : Blame α β) (name : β) (covered : α) : Blame α β where
  blame n := if n = name then b.blame n + covered else b.blame n
  hits n := if n = name then b.hits n + 1 else b.hits n

/-- The loop over the host spans; `left` are the gaps from `gi` on. -/
def attribLoop : List (HostSpan α β) → List (Span α) → Blame α β →
    Blame α β
  | [], _, b => b
  | (hs, he, name) :: host, left, b =>
      let left := left.dropWhile fun gap => decide (gap.2 < hs)
      let covered := coverLoop hs he left 0
      attribLoop host left (if 0 < covered then b.charge name covered else b)

/-- What the script accumulates per name. -/
def attribution (host : List (HostSpan α β)) (gaps : List (Span α)) :
    Blame α β :=
  attribLoop (sortHost host) gaps ⟨fun _ => 0, fun _ => 0⟩

end Model

-- ================================================================ naive

section Naive

variable [Field α] [DecidableEq β]

/-- What a host span covers of all the gaps. -/
def overlaps (gaps : List (Span α)) (h : HostSpan α β) : α :=
  (gaps.map (overlap h.1 h.2.1)).sum

/-- The host spans of one name. -/
def named (name : β) (host : List (HostSpan α β)) : List (HostSpan α β) :=
  host.filter fun h => decide (h.2.2 = name)

end Naive

-- =============================================================== sorting

section Sorting

variable [LinearOrder β]

theorem sortHost_perm (host : List (HostSpan α β)) :
    (sortHost host).Perm host := List.mergeSort_perm _ _

/-- The host spans are taken by start. -/
theorem sortHost_byStart (host : List (HostSpan α β)) :
    (sortHost host).Pairwise fun a b => a.1 ≤ b.1 := by
  have hsorted : (sortHost host).Pairwise fun a b =>
      decide (toLex (a.1, toLex a.2) ≤ toLex (b.1, toLex b.2)) = true := by
    refine List.pairwise_mergeSort (fun a b c hab hbc => ?_)
      (fun a b => ?_) host
    · simp only [decide_eq_true_eq] at *
      exact hab.trans hbc
    · simp only [Bool.or_eq_true, decide_eq_true_eq]
      exact le_total _ _
  refine hsorted.imp fun {a b} h => ?_
  rcases Prod.Lex.toLex_le_toLex.mp (of_decide_eq_true h) with h | h
  · exact h.le
  · exact h.1.le

end Sorting

-- =============================================================== overlap

/-- Gaps in order: the next one starts where the last has ended. -/
def InOrder (gaps : List (Span α)) : Prop :=
  gaps.Pairwise fun g g' => g.2 ≤ g'.1

/-- The gaps the script finds are in order. -/
theorem traceGaps_inOrder [Field α] (minGap : α) (spans : List (Span α))
    (hs : Proper spans) :
    Proper (traceGaps minGap spans) ∧ InOrder (traceGaps minGap spans) := by
  by_cases hne : spans = []
  · rw [hne]
    simp [traceGaps, merged, sortSpans, gapsOf, Proper, InOrder]
  · obtain ⟨a, rest, heq, hsep, -⟩ := merged_spec spans hne hs
    obtain ⟨hord, hlow⟩ := hsep.gapsOf_ordered minGap
    rw [traceGaps, heq]
    exact ⟨fun g hg => (hlow g hg).2.le, hord⟩

section Overlap

variable [Field α] [IsStrictOrderedRing α] {hs he : α} {gap : Span α}

theorem overlap_before (hgap : gap.2 ≤ hs) : overlap hs he gap = 0 := by
  refine max_eq_left (sub_nonpos.mpr ?_)
  exact (min_le_right _ _).trans (hgap.trans (le_max_left _ _))

theorem overlap_after (hgap : he ≤ gap.1) : overlap hs he gap = 0 := by
  refine max_eq_left (sub_nonpos.mpr ?_)
  exact (min_le_left _ _).trans (hgap.trans (le_max_right _ _))

/-- The inner loop stops at the first gap the span does not reach, and
reaches none after it. -/
theorem coverLoop_eq (left : List (Span α)) (covered : α)
    (hproper : Proper left) (hord : InOrder left) :
    coverLoop hs he left covered
      = covered + (left.map (overlap hs he)).sum := by
  fun_induction coverLoop hs he left covered with
  | case1 gap left covered hlt ih =>
      rw [ih (fun g hg => hproper g (by simp [hg]))
        (List.pairwise_cons.mp hord).2, List.map_cons, List.sum_cons,
        add_assoc]
  | case2 gap left covered hge =>
      have hle : he ≤ gap.1 := not_lt.mp hge
      have hzero : ∀ x ∈ (gap :: left).map (overlap hs he), x = 0 := by
        intro x hx
        obtain ⟨g, hg, rfl⟩ := List.mem_map.mp hx
        rcases List.mem_cons.mp hg with rfl | hg
        · exact overlap_after hle
        · have := (List.pairwise_cons.mp hord).1 g hg
          exact overlap_after
            ((hle.trans (hproper gap (by simp))).trans this)
      rw [List.sum_eq_zero hzero, add_zero]
  | case3 covered => simp

theorem overlaps_nonneg (gaps : List (Span α)) (h : HostSpan α β) :
    0 ≤ overlaps gaps h := by
  refine List.sum_nonneg fun x hx => ?_
  obtain ⟨g, -, rfl⟩ := List.mem_map.mp hx
  exact le_max_left _ _

end Overlap

-- ================================================================ cursor

section Cursor

variable {gaps left : List (Span α)} {h : HostSpan α β}
  {host : List (HostSpan α β)}

/-- The gaps before the cursor end before any span to come starts. -/
structure Cursor (gaps left : List (Span α))
    (host : List (HostSpan α β)) : Prop where
  passed : ∃ skipped, gaps = skipped ++ left ∧
    ∀ g ∈ skipped, ∀ h ∈ host, g.2 < h.1

theorem Cursor.tail (hc : Cursor gaps left (h :: host)) :
    Cursor gaps left host := by
  obtain ⟨skipped, heq, hlt⟩ := hc.passed
  exact ⟨skipped, heq, fun g hg h' hh => hlt g hg h' (by simp [hh])⟩

/-- What the cursor passes at a span stays out of reach: the spans to
come start no earlier. -/
theorem Cursor.advance (hc : Cursor gaps left (h :: host))
    (hsort : ∀ h' ∈ host, h.1 ≤ h'.1) :
    Cursor gaps (left.dropWhile fun gap => decide (gap.2 < h.1))
      (h :: host) := by
  obtain ⟨skipped, heq, hlt⟩ := hc.passed
  refine ⟨skipped ++ left.takeWhile fun gap => decide (gap.2 < h.1), ?_, ?_⟩
  · rw [List.append_assoc, List.takeWhile_append_dropWhile, heq]
  · intro g hg h' hh
    rcases List.mem_append.mp hg with hg | hg
    · exact hlt g hg h' hh
    · have hgap : g.2 < h.1 :=
        of_decide_eq_true (List.mem_takeWhile_imp hg :)
      rcases List.mem_cons.mp hh with rfl | hh
      · exact hgap
      · exact hgap.trans_le (hsort h' hh)

theorem Cursor.sublist (hc : Cursor gaps left host) :
    left.Sublist gaps := by
  obtain ⟨skipped, heq, -⟩ := hc.passed
  exact heq ▸ List.sublist_append_right skipped left

/-- From the cursor on the span at hand covers what it covers of all the
gaps. -/
theorem Cursor.overlaps_eq [Field α] [IsStrictOrderedRing α]
    (hc : Cursor gaps left (h :: host)) :
    (left.map (overlap h.1 h.2.1)).sum = overlaps gaps h := by
  obtain ⟨skipped, heq, hlt⟩ := hc.passed
  have hzero : ∀ x ∈ skipped.map (overlap h.1 h.2.1), x = 0 := by
    intro x hx
    obtain ⟨g, hg, rfl⟩ := List.mem_map.mp hx
    exact overlap_before (hlt g hg h (by simp)).le
  rw [overlaps, heq, List.map_append, List.sum_append,
    List.sum_eq_zero hzero, zero_add]

end Cursor

-- ================================================================= blame

section Run

variable [Field α] [IsStrictOrderedRing α] [LinearOrder β]
  {gaps left : List (Span α)}

/-- What a name has been charged grows by what its spans cover. -/
theorem attribLoop_spec (hproper : Proper gaps) (hord : InOrder gaps)
    (host : List (HostSpan α β)) (left : List (Span α)) (b : Blame α β)
    (hsort : host.Pairwise fun a b => a.1 ≤ b.1)
    (hcursor : Cursor gaps left host) (name : β) :
    (attribLoop host left b).blame name = b.blame name +
        ((named name host).map (overlaps gaps)).sum ∧
      (attribLoop host left b).hits name = b.hits name +
        (named name host).countP fun h => decide (0 < overlaps gaps h) := by
  induction host generalizing left b with
  | nil => simp [attribLoop, named]
  | cons h host ih =>
      obtain ⟨hs, he, n⟩ := h
      obtain ⟨hfirst, hrest⟩ := List.pairwise_cons.mp hsort
      have hadv := hcursor.advance hfirst
      have hsub := hadv.sublist
      have hcover : coverLoop hs he
          (left.dropWhile fun gap => decide (gap.2 < hs)) 0
          = overlaps gaps (hs, he, n) := by
        rw [coverLoop_eq _ 0 (fun g hg => hproper g (hsub.subset hg))
          (hord.sublist hsub), zero_add]
        exact hadv.overlaps_eq
      obtain ⟨hblame, hhits⟩ := ih _ (if 0 < overlaps gaps (hs, he, n)
        then b.charge n (overlaps gaps (hs, he, n)) else b) hrest hadv.tail
      rw [attribLoop, hcover, hblame, hhits]
      by_cases hname : n = name
      · have hnamed : named name ((hs, he, n) :: host)
            = (hs, he, n) :: named name host :=
          List.filter_cons_of_pos (decide_eq_true hname)
        rw [hnamed, List.map_cons, List.sum_cons, List.countP_cons]
        by_cases hpos : 0 < overlaps gaps (hs, he, n)
        · rw [if_pos hpos, if_pos (decide_eq_true hpos)]
          simp only [Blame.charge, if_pos hname.symm]
          exact ⟨by rw [add_assoc], by omega⟩
        · have hzero : overlaps gaps (hs, he, n) = 0 :=
            le_antisymm (not_lt.mp hpos) (overlaps_nonneg _ _)
          rw [if_neg hpos, hzero, zero_add]
          exact ⟨rfl, by simp⟩
      · have hnamed : named name ((hs, he, n) :: host) = named name host :=
          List.filter_cons_of_neg (by simpa using hname)
        rw [hnamed]
        split
        · simp only [Blame.charge, if_neg (Ne.symm hname), and_self]
        · exact ⟨rfl, rfl⟩

/-- The one pass with its one cursor charges each name with what its
spans cover of all the gaps, and counts those that cover any of them. -/
theorem attribution_naive (host : List (HostSpan α β))
    (gaps : List (Span α)) (hproper : Proper gaps) (hord : InOrder gaps)
    (name : β) :
    (attribution host gaps).blame name
        = ((named name host).map (overlaps gaps)).sum ∧
      (attribution host gaps).hits name
        = (named name host).countP fun h => decide (0 < overlaps gaps h) := by
  obtain ⟨hblame, hhits⟩ := attribLoop_spec hproper hord (sortHost host) gaps
    ⟨fun _ => 0, fun _ => 0⟩ (sortHost_byStart host)
    ⟨[], rfl, by simp⟩ name
  have hperm : (named name (sortHost host)).Perm (named name host) :=
    (sortHost_perm host).filter _
  rw [attribution, hblame, hhits, (hperm.map _).sum_eq, hperm.countP_eq]
  exact ⟨zero_add _, zero_add _⟩

end Run

/-- A span that outlasts the one inside it, over the two gaps of a
trace. -/
theorem attribution_naive_nested :
    let gaps := traceGaps (1 : ℚ) [(0, 1), (3, 5), (8, 9)]
    gaps = [(1, 3), (5, 8)] ∧
      (attribution [((0 : ℚ), 10, 0), (1, 2, 1), (6, 9, 1)] gaps).blame 1
        = 1 + 2 := by
  intro gaps
  have hgaps : gaps = [(1, 3), (5, 8)] := by
    have hsort : sortSpans [((0 : ℚ), 1), (3, 5), (8, 9)]
        = [(0, 1), (3, 5), (8, 9)] :=
      List.mergeSort_of_pairwise (by decide +kernel)
    show traceGaps (1 : ℚ) _ = _
    rw [traceGaps, merged, hsort]
    decide +kernel
  obtain ⟨hproper, hord⟩ := traceGaps_inOrder (1 : ℚ)
    [(0, 1), (3, 5), (8, 9)] (by simp [Proper]; norm_num)
  refine ⟨hgaps, ?_⟩
  rw [(attribution_naive [((0 : ℚ), 10, 0), (1, 2, 1), (6, 9, 1)] gaps
    hproper hord 1).1, hgaps]
  norm_num [named, overlaps, overlap]

end PleRowServer.Bench
