/-
Gathers that are not run. `_partition` goes through all peers before a
byte is sent, so ids that are no rows of the table, and shares that are
over max_rows, are found out while nothing but the selections of the
table has changed.
-/
import PleRowServer.Client.CallSpec

namespace PleRowServer.Client

open Base Wire

variable {env : Env} {geo : PeerId → Geometry} {w v w' : World env}
  {T : ℚ} {ids : List Int} {is : List PeerId} {e : Exn} {t : RemoteTable}
  {b p : Nat}

-- =============================================================== refusals

/-- A gather of `ids` may not be run on the table. -/
def Barred (geo : PeerId → Geometry) (ids : List Int) (t : RemoteTable) :
    Prop :=
  (∃ i ∈ t.peers, t.maxRows < ((geo i).owned ids).length) ∨
    ∃ id ∈ ids, ¬ (0 ≤ id ∧ id < t.rowsTotal)

/-- The positions of the ids that are no rows of a table of `total`. -/
def unroutable (total : Nat) (ids : List Int) : List Nat :=
  (List.range ids.length).filter fun p =>
    ¬ (0 ≤ ids.getD p 0 ∧ ids.getD p 0 < total)

/-- The error of such a gather: a ValueError if some share is too large,
else an IndexError with the number of ids that are no rows, the first of
them and its position. -/
def Refusal (geo : PeerId → Geometry) (ids : List Int) (t : RemoteTable)
    (e : Exn) : Prop :=
  (∃ i ∈ t.peers, t.maxRows < ((geo i).owned ids).length) ∧
      e.cls = .value ∨
    (∀ i ∈ t.peers, ((geo i).owned ids).length ≤ t.maxRows) ∧
      e = .unroutable (unroutable t.rowsTotal ids).length t.rowsTotal
        (ids.getD ((unroutable t.rowsTotal ids).headD 0) 0)
        ((unroutable t.rowsTotal ids).headD 0)

/-- A refusal is an Exception. -/
theorem Refusal.isException (h : Refusal geo ids t e) :
    e.isException = true := by
  rcases h with ⟨-, hv⟩ | ⟨-, rfl⟩
  · unfold Exn.isException
    rw [hv]
  · rfl

/-- The positions routed are those of the table's rows. -/
theorem Tiled.mem_routed_iff (h : Tiled geo is 0 b) (hp : p < ids.length) :
    p ∈ routed geo ids is ↔ 0 ≤ ids.getD p 0 ∧ ids.getD p 0 < b := by
  rw [mem_routed]
  constructor
  · intro ⟨i, hi, hmem⟩
    obtain ⟨-, hlo, hhi⟩ := Geometry.mem_owned.mp hmem
    have := (h.ge_of_mem hi).2
    omega
  · intro ⟨hlo, hhi⟩
    obtain ⟨i, hi, hrow⟩ := h.cover (Nat.zero_le (ids.getD p 0).toNat)
      (by omega)
    exact ⟨i, hi, Geometry.mem_owned.mpr ⟨hp, by omega, by omega⟩⟩

/-- The positions `_raise_unroutable` finds missing. -/
theorem Tiled.missing (h : Tiled geo is 0 b) :
    (List.range ids.length).filter (fun p => p ∉ routed geo ids is)
      = unroutable b ids := by
  refine List.filter_congr fun p hp => ?_
  rw [decide_eq_decide, h.mem_routed_iff (List.mem_range.mp hp)]

/-- If every id is routed, every id is a row of the table. -/
theorem Tiled.rows_of_routed (h : Tiled geo is 0 b)
    (hlen : (routed geo ids is).length = ids.length) :
    ∀ id ∈ ids, 0 ≤ id ∧ id < b := by
  intro id hid
  obtain ⟨p, hp, rfl⟩ := List.mem_iff_getElem.mp hid
  have := (h.mem_routed_iff hp).mp (h.routed_all hlen hp)
  rwa [List.getD, List.getElem?_eq_getElem hp] at this

-- =========================================================== barred gathers

/-- What a refused gather leaves: the mark of the call, the error, and
the selections. -/
def Barring (w : World env) (e : Exn) (w' : World env) : Prop :=
  ∃ sel he, sel.length = w.table.sel.length ∧
    w' = (w.called.withSel sel).push (.raised e) he

/-- A barred gather is refused under the lock. -/
theorem gatherLocked_barred (hs : Sound geo T w)
    (hb : Barred geo ids w.table) :
    Runs (RemoteTable.gatherLocked ids) w (fun _ _ => False)
      (fun e w' => Refusal geo ids w.table e ∧ Barring w e w') := by
  unfold RemoteTable.gatherLocked RemoteTable.partition
  simp only [runs_bind, runs_mark, runs_self]
  have hpart := partitionLoop_spec ids w.table.peers [] 0 w.called
    hs.geometry ⟨w.table.sel, rfl, hs.sel⟩
  refine hpart.mono ?_ ?_
  case refine_2 =>
    intro e w' h
    obtain ⟨⟨a, b, c, rfl⟩, ⟨sel, hlen, he, rfl⟩, i, hi, hover⟩ := h
    exact ⟨.inl ⟨⟨i, hi, hover⟩, rfl⟩, sel, he, hlen, rfl⟩
  intro n w₁ h
  obtain ⟨rfl, rfl, hmax⟩ := h
  rw [List.nil_append, Nat.zero_add]
  have hroute : (routed geo ids w.table.peers).length ≠ ids.length := by
    intro hlen
    rcases hb with ⟨i, hi, hover⟩ | ⟨id, hid, hout⟩
    · exact absurd (hmax i hi) (not_le.mpr hover)
    · exact hout (hs.tiled.rows_of_routed hlen id hid)
  rw [if_pos hroute]
  unfold RemoteTable.raiseUnroutable
  simp only [runs_bind, runs_self, runs_raise]
  refine ⟨.inr ⟨hmax, ?_⟩, _, _, ?_, rfl⟩
  · have hmiss : _ = unroutable w.table.rowsTotal ids := hs.tiled.missing
    unfold routed at hmiss
    rw [show (w.called.withSel (w.table.peers.map fun i =>
      (geo i).owned ids)).table.sel = w.table.peers.map fun i =>
        (geo i).owned ids from rfl, hmiss]
    rfl
  · rw [List.length_map, hs.sel]

/-- A barred gather is refused by `gather_cpu`, which has grown its
staging at most. -/
theorem gatherCpu_barred (hs : Sound geo T w) (hf : w.table.failed = none)
    (hids : ids ≠ []) (hb : Barred geo ids w.table) :
    Runs (RemoteTable.gatherCpu ids) w (fun _ _ => False)
      (fun e w' => Refusal geo ids w.table e ∧ ∃ out v,
        Entered w out ids.length v ∧ Barring v e w') := by
  unfold RemoteTable.gatherCpu RemoteTable.gatherEnter
  simp only [runs_bind]
  refine Runs.mono (stagingFor_spec ids.length (E := fun _ _ => False)) ?_
    (fun _ _ h => h.elim)
  intro out v hv
  simp only [hids, if_false, runs_bind]
  have hset : v.table.maxRows = w.table.maxRows ∧
      v.table.rowsTotal = w.table.rowsTotal ∧
      v.table.peers = w.table.peers :=
    ⟨setup_maxRows hv.setup, setup_rowsTotal hv.setup, setup_peers hv.setup⟩
  refine Runs.mono checkUsable_spec ?_ ?_
  case refine_2 =>
    intro e w' h
    obtain ⟨⟨why, hmark, -⟩, -⟩ := h
    rw [hv.failed, hf] at hmark
    cases hmark
  intro _ v' h
  obtain ⟨rfl, -⟩ := h
  simp only [runs_pure]
  have hb' : Barred geo ids v'.table := by
    unfold Barred at hb ⊢
    rw [hset.1, hset.2.1, hset.2.2]
    exact hb
  refine (gatherLocked_barred (hv.sound hs) hb').mono (fun _ _ h => h.elim) ?_
  intro e w' h
  refine ⟨?_, out, v', hv, h.2⟩
  have href := h.1
  unfold Refusal at href ⊢
  rw [hset.1, hset.2.1, hset.2.2] at href
  exact href

end PleRowServer.Client
