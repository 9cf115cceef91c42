/-
How a gather's ids are split over the peers. The positions each peer
owns are disjoint because the ranges tile the table, so the number of
positions routed equals the number of ids exactly when every id has an
owner: comparing two counts is all `gather_cpu` does to find a bad id.
-/
import PleRowServer.Client.ExchangeSpec

namespace PleRowServer.Client

open Base Wire

variable {env : Env} {geo : PeerId → Geometry} {w w' : World env}
  {ids : List Int} {is : List PeerId} {i j : PeerId} {e : Exn}

-- =============================================================== tiling

/-- The positions of the ids in a range. -/
def Geometry.owned (g : Geometry) (ids : List Int) : List Nat :=
  (List.range ids.length).filter fun j =>
    decide ((g.baseRow : Int) ≤ ids.getD j 0 ∧
      ids.getD j 0 < g.baseRow + g.rowCount)

/-- A peer's share is told from what it said of its range. -/
theorem owned_eq {p : Peer} {g : Geometry} (h : p.geometry = g)
    (ids : List Int) : RemoteTable.owned p ids = g.owned ids := by
  subst h
  rfl

/-- A peer owns the positions of the ids in its range. -/
theorem Geometry.mem_owned {g : Geometry} {p : Nat} :
    p ∈ g.owned ids ↔ p < ids.length ∧ (g.baseRow : Int) ≤ ids.getD p 0 ∧
      ids.getD p 0 < g.baseRow + g.rowCount := by
  simp [Geometry.owned]

/-- A peer owns each position once. -/
theorem Geometry.nodup_owned (g : Geometry) (ids : List Int) :
    (g.owned ids).Nodup := List.nodup_range.filter _

/-- The ranges of `is` tile the rows from `a` to `b`. -/
def Tiled (geo : PeerId → Geometry) : List PeerId → Nat → Nat → Prop
  | [], a, b => a = b
  | i :: is, a, b =>
      (geo i).baseRow = a ∧ Tiled geo is (a + (geo i).rowCount) b

/-- Ranges one after the other only go up. -/
theorem Tiled.le {a b : Nat} (h : Tiled geo is a b) : a ≤ b := by
  induction is generalizing a with
  | nil => exact (show a = b from h).le
  | cons i is ih => exact (Nat.le_add_right a _).trans (ih h.2)

/-- Where a tiled stretch ends is settled by where it starts. -/
theorem Tiled.end_unique {a b b' : Nat} (h : Tiled geo is a b)
    (h' : Tiled geo is a b') : b = b' := by
  induction is generalizing a with
  | nil => exact (show a = b from h).symm.trans h'
  | cons i is ih => exact ih h.2 h'.2

/-- Each of the ranges that tile a stretch lies within it. -/
theorem Tiled.ge_of_mem {a b : Nat} (h : Tiled geo is a b) (hi : i ∈ is) :
    a ≤ (geo i).baseRow ∧ (geo i).baseRow + (geo i).rowCount ≤ b := by
  induction is generalizing a with
  | nil => cases hi
  | cons j is ih =>
      obtain ⟨hj, hrest⟩ := h
      rcases List.mem_cons.mp hi with rfl | hi
      · exact ⟨hj.ge, by rw [hj]; exact hrest.le⟩
      · have := ih hrest hi
        exact ⟨by omega, this.2⟩

/-- Every row of a tiled stretch has an owner. -/
theorem Tiled.cover {a b r : Nat} (h : Tiled geo is a b) (ha : a ≤ r)
    (hb : r < b) : ∃ i ∈ is, (geo i).baseRow ≤ r ∧
      r < (geo i).baseRow + (geo i).rowCount := by
  induction is generalizing a with
  | nil => exact absurd (h.le) (by have : a = b := h; omega)
  | cons i is ih =>
      obtain ⟨hi, hrest⟩ := h
      by_cases hr : r < a + (geo i).rowCount
      · exact ⟨i, by simp, by omega, by omega⟩
      · obtain ⟨j, hj, hrow⟩ := ih hrest (by omega)
        exact ⟨j, by simp [hj], hrow⟩

/-- No position is owned twice. -/
theorem Tiled.disjoint {a b : Nat} (h : Tiled geo is a b)
    (ids : List Int) : is.Pairwise fun i j =>
      List.Disjoint ((geo i).owned ids) ((geo j).owned ids) := by
  induction is generalizing a with
  | nil => exact .nil
  | cons i is ih =>
      obtain ⟨hi, hrest⟩ := h
      refine .cons (fun j hj p hp hp' => ?_) (ih hrest)
      have hlow := (hrest.ge_of_mem hj).1
      have hp := Geometry.mem_owned.mp hp
      have hp' := Geometry.mem_owned.mp hp'
      omega

/-- The positions routed, each once. -/
def routed (geo : PeerId → Geometry) (ids : List Int)
    (is : List PeerId) : List Nat :=
  (is.map fun i => (geo i).owned ids).flatten

/-- What is routed is routed to some peer. -/
theorem mem_routed {p : Nat} :
    p ∈ routed geo ids is ↔ ∃ i ∈ is, p ∈ (geo i).owned ids := by
  simp [routed]

/-- What is routed is routed to one peer only. -/
theorem Tiled.nodup_routed {a b : Nat} (h : Tiled geo is a b)
    (ids : List Int) : (routed geo ids is).Nodup := by
  refine List.nodup_flatten.mpr ⟨?_, List.pairwise_map.mpr (h.disjoint ids)⟩
  intro l hl
  obtain ⟨i, -, rfl⟩ := List.mem_map.mp hl
  exact (geo i).nodup_owned ids

/-- As many positions routed as there are ids: every position is. -/
theorem Tiled.routed_all {a b : Nat} (h : Tiled geo is a b)
    (hlen : (routed geo ids is).length = ids.length) {p : Nat}
    (hp : p < ids.length) : p ∈ routed geo ids is := by
  have hsub : routed geo ids is ⊆ List.range ids.length := by
    intro q hq
    obtain ⟨i, -, hq⟩ := mem_routed.mp hq
    exact List.mem_range.mpr (Geometry.mem_owned.mp hq).1
  have hperm := (List.subperm_of_subset (h.nodup_routed ids)
    hsub).perm_of_length_le (by simp [hlen])
  exact hperm.mem_iff.mpr (List.mem_range.mpr hp)

/-- Ids of the table are all routed. -/
theorem Tiled.length_routed {b : Nat} (h : Tiled geo is 0 b)
    (hids : ∀ id ∈ ids, 0 ≤ id ∧ id < b) :
    (routed geo ids is).length = ids.length := by
  have hperm : (routed geo ids is).Perm (List.range ids.length) := by
    refine (List.perm_ext_iff_of_nodup (h.nodup_routed ids)
      List.nodup_range).mpr fun p => ?_
    rw [mem_routed, List.mem_range]
    constructor
    · rintro ⟨i, -, hp⟩
      exact (Geometry.mem_owned.mp hp).1
    · intro hp
      have hmem : ids.getD p 0 ∈ ids := by
        simp only [List.getD, List.getElem?_eq_getElem hp]
        exact List.getElem_mem hp
      obtain ⟨hlo, hhi⟩ := hids _ hmem
      obtain ⟨i, hi, hrow⟩ := h.cover (Nat.zero_le (ids.getD p 0).toNat)
        (by omega)
      exact ⟨i, hi, Geometry.mem_owned.mpr ⟨hp, by omega, by omega⟩⟩
  rw [hperm.length_eq, List.length_range]

-- =========================================================== partition

/-- The same state with other selections recorded. -/
def World.withSel (w : World env) (sel : List (List Nat)) : World env :=
  { w with table := { w.table with sel := sel } }

/-- What `_partition` does to a table whose selections have a place for
every peer. -/
theorem partitionLoop_spec (ids : List Int) :
    ∀ (is : List PeerId) (pre : List (List Nat)) (n : Nat) (w : World env),
      (∀ i ∈ is, (w.heap i).geometry = geo i) →
      (∃ post, w.table.sel = pre ++ post ∧ post.length = is.length) →
      Runs (RemoteTable.partitionLoop ids is pre.length n) w
        (fun r w' => r = n + (routed geo ids is).length ∧
          w' = w.withSel (pre ++ is.map fun i => (geo i).owned ids) ∧
          ∀ i ∈ is, (((geo i).owned ids).length : Int) ≤ w.table.maxRows)
        (fun e w' => (∃ a b c, e = .overMaxRows a b c) ∧
          (∃ sel, sel.length = w.table.sel.length ∧ ∃ he,
            w' = (w.withSel sel).push (.raised e) he) ∧
          ∃ i ∈ is, w.table.maxRows < ((geo i).owned ids).length) := by
  intro is
  induction is with
  | nil =>
      rintro pre n w - ⟨post, hsel, hlen⟩
      obtain rfl := List.length_eq_zero_iff.mp hlen
      refine ⟨by simp [routed], ?_, by simp⟩
      simp only [List.append_nil] at hsel
      simp [World.withSel, ← hsel]
  | cons i is ih =>
      rintro pre n w hgeo ⟨post, hsel, hlen⟩
      unfold RemoteTable.partitionLoop
      simp only [runs_bind, runs_peer, runs_self,
        owned_eq (hgeo i (by simp))]
      split
      case isTrue hover =>
        simp only [runs_bind, runs_self, runs_raise]
        exact ⟨⟨_, _, _, rfl⟩, ⟨w.table.sel, rfl, _, rfl⟩, i, by simp, hover⟩
      case isFalse hfit =>
        obtain ⟨s, post, rfl⟩ := List.exists_of_length_succ post hlen
        simp only [runs_bind]
        have hset : w.table.sel.set pre.length ((geo i).owned ids)
            = (pre ++ [(geo i).owned ids]) ++ post := by
          rw [hsel]
          simp
        have := ih (pre ++ [(geo i).owned ids])
          (n + ((geo i).owned ids).length)
          (w.withSel (w.table.sel.set pre.length ((geo i).owned ids)))
          (fun j hj => hgeo j (by simp [hj]))
          ⟨post, hset, by simpa using hlen⟩
        rw [List.length_append, List.length_singleton] at this
        refine this.mono ?_ ?_
        · rintro r w' ⟨rfl, rfl, hmax⟩
          refine ⟨?_, ?_, ?_⟩
          · simp [routed, Nat.add_assoc]
          · simp [World.withSel]
          · intro j hj
            rcases List.mem_cons.mp hj with rfl | hj
            · exact not_lt.mp hfit
            · exact hmax j hj
        · rintro e w' ⟨he, ⟨sel, hlen', hp, rfl⟩, j, hj, hover⟩
          refine ⟨he, ⟨sel, ?_, hp, rfl⟩, j, by simp [hj], hover⟩
          rw [hlen']
          simp [World.withSel]

end PleRowServer.Client
