/-
The split assertion is exact: the sort and running sum of `_check_split`
accept a list of ranges precisely when every row of the table has one
owner and no other row has any, whatever order the peers are configured
in. What `_partition` returns on a table that passed follows.
-/
import PleRowServer.Client.Usage

namespace PleRowServer.Client

open Base Wire
open RemoteTable (Config initial)

variable {env : Env} {geo : PeerId → Geometry} {w w' : World env}
  {T : ℚ} {i j : PeerId} {is : List PeerId} {a b : Nat} {r : Int}
  {ids : List Int}

-- ============================================================ ownership

/-- The global row `r` lies in the range `g`. -/
def Geometry.Owns (g : Geometry) (r : Int) : Prop :=
  (g.baseRow : Int) ≤ r ∧ r < g.baseRow + g.rowCount

instance (g : Geometry) (r : Int) : Decidable (g.Owns r) :=
  inferInstanceAs (Decidable (_ ∧ _))

theorem Geometry.mem_owned_iff {g : Geometry} {p : Nat} :
    p ∈ g.owned ids ↔ p < ids.length ∧ g.Owns (ids.getD p 0) :=
  Geometry.mem_owned

/-- Every row from `a` up to `b` belongs to exactly one peer of `is`, and
no other row belongs to any. -/
structure Partitioned (geo : PeerId → Geometry) (is : List PeerId)
    (a b : Int) : Prop where
  inside : ∀ r, a ≤ r → r < b → ∃! i, i ∈ is ∧ (geo i).Owns r
  outside : ∀ r, r < a ∨ b ≤ r → ∀ i ∈ is, ¬ (geo i).Owns r

/-- Which peers own which rows does not depend on their order. -/
theorem Partitioned.perm {is' : List PeerId} (h : is.Perm is')
    {a b : Int} (hp : Partitioned geo is a b) : Partitioned geo is' a b := by
  refine ⟨fun r ha hb => ?_, fun r hr i hi => ?_⟩
  · have := hp.inside r ha hb
    simpa only [h.mem_iff] using this
  · exact hp.outside r hr i (h.mem_iff.mpr hi)

/-- Which peers own which rows does not depend on the ranges of other
peers. -/
theorem Partitioned.congr {geo' : PeerId → Geometry} {a b : Int}
    (h : ∀ i ∈ is, geo i = geo' i) (hp : Partitioned geo is a b) :
    Partitioned geo' is a b := by
  refine ⟨fun r ha hb => ?_, fun r hr i hi => ?_⟩
  · obtain ⟨i, ⟨hi, ho⟩, hu⟩ := hp.inside r ha hb
    refine ⟨i, ⟨hi, by rw [← h i hi]; exact ho⟩, fun j hj => ?_⟩
    exact hu j ⟨hj.1, by rw [h j hj.1]; exact hj.2⟩
  · rw [← h i hi]
    exact hp.outside r hr i hi

/-- A row in the range of a peer lies in the stretch the peers tile. -/
theorem Tiled.inside_of_owns (h : Tiled geo is a b) (hi : i ∈ is)
    (ho : (geo i).Owns r) : (a : Int) ≤ r ∧ r < b := by
  have := h.ge_of_mem hi
  obtain ⟨hlo, hhi⟩ := ho
  omega

/-- Two peers of a tiling that own the same row are the same. -/
theorem Tiled.owner_unique (hnd : is.Nodup) (h : Tiled geo is a b)
    (hi : i ∈ is) (hj : j ∈ is) (hri : (geo i).Owns r)
    (hrj : (geo j).Owns r) : i = j := by
  induction is generalizing a with
  | nil => cases hi
  | cons k is ih =>
      obtain ⟨hk, hrest⟩ := h
      obtain ⟨hnk, hnd⟩ := List.nodup_cons.mp hnd
      -- a later peer's rows start where the first one's end
      have hlater : ∀ x ∈ is, (geo x).Owns r → ¬ (geo k).Owns r := by
        intro x hx hrx hrk
        have hin := hrest.inside_of_owns hx hrx
        obtain ⟨-, hhi⟩ := hrk
        push_cast at hin
        omega
      rcases List.mem_cons.mp hi with rfl | hi'
      · rcases List.mem_cons.mp hj with rfl | hj'
        · rfl
        · exact absurd hri (hlater j hj' hrj)
      · rcases List.mem_cons.mp hj with rfl | hj'
        · exact absurd hrj (hlater i hi' hri)
        · exact ih hnd hrest hi' hj'

/-- A tiling covers each of its rows once and nothing else. -/
theorem Tiled.partitioned (hnd : is.Nodup) (h : Tiled geo is a b) :
    Partitioned geo is a b := by
  refine ⟨fun r ha hb => ?_, fun r hr i hi ho => ?_⟩
  · obtain ⟨i, hi, hlo, hhi⟩ := h.cover (r := r.toNat) (by omega) (by omega)
    have ho : (geo i).Owns r := ⟨by omega, by omega⟩
    refine ⟨i, ⟨hi, ho⟩, ?_⟩
    intro j hj
    exact h.owner_unique hnd hj.1 hi hj.2 ho
  · have := h.inside_of_owns hi ho
    omega

/-- Sorted ranges that cover each row from `a` to `b` once tile it: the
row `a` belongs to the first range, which therefore starts there, and
the rest cover what it leaves. -/
theorem Partitioned.tiled :
    ∀ (is : List PeerId) (a b : Nat), a ≤ b → is.Nodup →
      is.Pairwise (fun i j => (geo i).baseRow ≤ (geo j).baseRow) →
      (∀ i ∈ is, 0 < (geo i).rowCount) → Partitioned geo is a b →
      Tiled geo is a b := by
  intro is
  induction is with
  | nil =>
      intro a b hab _ _ _ h
      by_contra hne
      have hlt : (a : Int) < b := by
        have : a ≠ b := hne
        omega
      obtain ⟨i, ⟨hi, -⟩, -⟩ := h.inside a le_rfl hlt
      cases hi
  | cons i is ih =>
      intro a b hab hnd hsorted hpos h
      obtain ⟨hni, hnd⟩ := List.nodup_cons.mp hnd
      obtain ⟨hfirst, hsorted⟩ := List.pairwise_cons.mp hsorted
      have hcount := hpos i (by simp)
      -- a row of the first range is a row of the table
      have hin : ∀ r : Int, (geo i).Owns r → (a : Int) ≤ r ∧ r < b := by
        intro r hr
        by_contra hout
        exact h.outside r (by omega) i (by simp) hr
      have hlow := hin (geo i).baseRow ⟨le_rfl, by omega⟩
      have hhigh := hin ((geo i).baseRow + (geo i).rowCount - 1)
        ⟨by omega, by omega⟩
      have hbase : (geo i).baseRow = a := by
        obtain ⟨j, ⟨hj, hjlo, -⟩, -⟩ := h.inside a le_rfl (by omega)
        rcases List.mem_cons.mp hj with rfl | hj
        · omega
        · have := hfirst j hj
          omega
      refine ⟨hbase, ih (a + (geo i).rowCount) b (by omega) hnd hsorted
        (fun j hj => hpos j (by simp [hj])) ⟨fun r ha hb => ?_, ?_⟩⟩
      · obtain ⟨j, ⟨hj, ho⟩, huniq⟩ := h.inside r (by omega) hb
        rcases List.mem_cons.mp hj with rfl | hj
        · obtain ⟨-, hhi⟩ := ho
          push_cast at ha
          omega
        · exact ⟨j, ⟨hj, ho⟩, fun k hk => huniq k ⟨by simp [hk.1], hk.2⟩⟩
      · intro r hr j hj ho
        by_cases hir : (geo i).Owns r
        · obtain ⟨hlo, hhi⟩ := hin r hir
          obtain ⟨k, -, huniq⟩ := h.inside r hlo hhi
          have hik := huniq i ⟨by simp, hir⟩
          have hjk := huniq j ⟨by simp [hj], ho⟩
          rw [← hjk] at hik
          exact hni (hik ▸ hj)
        · refine h.outside r ?_ j (by simp [hj]) ho
          unfold Geometry.Owns at hir
          push_cast at hr
          omega

-- ============================================================= admission

namespace RemoteTable

/-- `__init__` from the answers on: every peer's answer is applied in
configured order and the split is checked. -/
def recordAll (answers : PeerId → Stat) : M env Unit := do
  forEach (fun i => applyStat i (answers i)) (← self).peers
  checkSplit

end RemoteTable

/-- What a table accepts of its peers' answers. -/
structure Admissible (cfg : Config) (answers : PeerId → Stat) : Prop where
  rowBytes : ∀ i < cfg.peers.length, (answers i).rowBytes = cfg.rowBytes
  rowCount : ∀ i < cfg.peers.length, 0 < (answers i).rowCount
  rows : Partitioned (fun i => (answers i).geometry)
    (List.range cfg.peers.length) 0 cfg.rowsTotal

/-- Applying the answers of distinct peers. -/
theorem applyAll_spec (answers : PeerId → Stat) :
    ∀ (is : List PeerId) (w : World env),
      Runs (forEach (fun i => RemoteTable.applyStat i (answers i)) is) w
        (fun _ w' => w'.table = w.table ∧
          (∀ i, i ∈ is → w'.ranges i = (answers i).geometry) ∧
          (∀ i, i ∉ is → w'.heap i = w.heap i) ∧
          ∀ i ∈ is, (answers i).rowBytes = w.table.rowBytes ∧
            0 < (answers i).rowCount)
        (fun _ _ => ¬ ∀ i ∈ is, (answers i).rowBytes = w.table.rowBytes ∧
          0 < (answers i).rowCount) := by
  intro is
  induction is with
  | nil =>
      intro w
      exact ⟨rfl, by simp, fun _ _ => rfl, by simp⟩
  | cons i is ih =>
      intro w
      refine Runs.bind applyStat_spec ?_ ?_
      · intro _ v hv
        obtain ⟨rfl, hok⟩ := hv
        refine (ih _).mono ?_ ?_
        · intro _ w' hw
          obtain ⟨ht, hin, hout, hall⟩ := hw
          refine ⟨ht, fun j hj => ?_, fun j hj => ?_, fun j hj => ?_⟩
          · by_cases hjs : j ∈ is
            · exact hin j hjs
            · obtain rfl : j = i := (List.mem_cons.mp hj).resolve_right hjs
              unfold World.ranges
              rw [hout j hjs, World.setPeer_self]
              rfl
          · obtain ⟨hji, hjs⟩ := not_or.mp (List.mem_cons.not.mp hj)
            rw [hout j hjs, World.setPeer_ne _ hji]
          · rcases List.mem_cons.mp hj with rfl | hj
            · exact hok
            · exact hall j hj
        · intro e w' hnot hall
          exact hnot fun j hj => hall j (by simp [hj])
      · intro e w' hnot hall
        exact hnot (hall i (by simp))

/-- The answers are admitted exactly when they are admissible. -/
theorem recordAll_iff (env : Env) (cfg : Config) (answers : PeerId → Stat) :
    (∃ w, RemoteTable.recordAll answers (initial env cfg) = .ok () w) ↔
      Admissible cfg answers := by
  have hpeers : (initial env cfg).table.peers
      = List.range cfg.peers.length := rfl
  have hspec : Runs (RemoteTable.recordAll answers) (initial env cfg)
      (fun _ _ => Admissible cfg answers)
      (fun _ _ => ¬ Admissible cfg answers) := by
    unfold RemoteTable.recordAll
    simp only [runs_bind, runs_self]
    refine (applyAll_spec answers _ (initial env cfg)).mono ?_ ?_
    · intro _ w hw
      obtain ⟨ht, hin, -, hall⟩ := hw
      have htab : w.table.peers = List.range cfg.peers.length := by
        rw [ht]
        rfl
      have htotal : w.table.rowsTotal = cfg.rowsTotal := by
        rw [ht]
        rfl
      have hperm : w.sorted.Perm (List.range cfg.peers.length) := by
        unfold World.sorted
        rw [htab]
        exact List.perm_insertionSort _ _
      have hnd : w.sorted.Nodup := hperm.nodup_iff.mpr List.nodup_range
      have hmem : ∀ i, i ∈ w.sorted ↔ i < cfg.peers.length := by
        intro i
        rw [hperm.mem_iff, List.mem_range]
      have hall : ∀ i < cfg.peers.length,
          (answers i).rowBytes = cfg.rowBytes ∧ 0 < (answers i).rowCount :=
        fun i hi => hall i (by rw [hpeers]; exact List.mem_range.mpr hi)
      -- the ranges recorded for the peers are those they answered with
      have hgeo : ∀ i ∈ w.sorted, w.ranges i = (answers i).geometry :=
        fun i hi => hin i (by
          rw [hpeers, List.mem_range, ← hmem]
          exact hi)
      have hsort : w.sorted.Pairwise fun i j =>
          (w.ranges i).baseRow ≤ (w.ranges j).baseRow :=
        List.pairwise_insertionSort _ _
      refine checkSplit_spec.mono ?_ ?_
      · intro _ w' hw'
        obtain ⟨-, htiled⟩ := hw'
        rw [htotal] at htiled
        refine ⟨fun i hi => (hall i hi).1, fun i hi => (hall i hi).2, ?_⟩
        exact ((htiled.partitioned hnd).congr hgeo).perm hperm
      · intro e w' hnot hadm
        rw [htotal] at hnot
        refine hnot (Partitioned.tiled w.sorted 0 cfg.rowsTotal
          (Nat.zero_le _) hnd hsort ?_ ?_)
        · intro i hi
          rw [hgeo i hi]
          exact hadm.rowCount i ((hmem i).mp hi)
        · exact (hadm.rows.perm hperm.symm).congr fun i hi => (hgeo i hi).symm
    · intro e w hnot hadm
      refine hnot fun i hi => ?_
      have hi : i < cfg.peers.length := List.mem_range.mp hi
      exact ⟨hadm.rowBytes i hi, hadm.rowCount i hi⟩
  unfold Runs at hspec
  cases hrun : RemoteTable.recordAll answers (initial env cfg) with
  | ok a w =>
      rw [hrun] at hspec
      exact ⟨fun _ => hspec, fun _ => ⟨w, rfl⟩⟩
  | error e w =>
      rw [hrun] at hspec
      refine ⟨fun h => ?_, fun h => absurd h hspec⟩
      obtain ⟨w', hw'⟩ := h
      cases hw'

/-- The answers a constructed table was built from: each is what its peer
said to the one STAT on its connection, and together they are ones that
are admitted. -/
theorem Constructed.admitted {w₀ : World env} (h : Constructed env cfg w₀) :
    ∃ answers : PeerId → Stat,
      (∃ w, RemoteTable.recordAll answers (initial env cfg) = .ok () w) ∧
      ∀ i < cfg.peers.length, w₀.ranges i = (answers i).geometry ∧
        ∃ x, (w₀.line w₀.ranges i).done = [x] ∧ opOf x.req = OP_STAT ∧
          statGeometry x.ans = (answers i).geometry := by
  obtain ⟨hg, -, -, hstated, ps, r, hperm, htable⟩ := h.spec
  have hpeers : w₀.table.peers = ps := by rw [htable]
  have hmem : ∀ i, i ∈ w₀.table.peers ↔ i < cfg.peers.length := by
    intro i
    rw [hpeers, hperm.mem_iff, List.mem_range]
  let answers : PeerId → Stat := fun i =>
    { peer := "", baseRow := (w₀.heap i).baseRow
      rowCount := (w₀.heap i).rowCount, rowBytes := (w₀.heap i).rowBytes
      residentPages := 0, servedRequests := 0 }
  have hgeo : ∀ i, (answers i).geometry = w₀.ranges i := fun _ => rfl
  refine ⟨answers, (recordAll_iff env cfg answers).mpr ⟨?_, ?_, ?_⟩, ?_⟩
  · intro i hi
    have hbytes := hg.sound.rowBytes i ((hmem i).mpr hi)
    rw [htable] at hbytes
    exact hbytes
  · intro i hi
    exact Nat.pos_of_ne_zero (hstated i ((hmem i).mpr hi)).1
  · have hrows := hg.sound.tiled.partitioned hg.sound.nodup
    rw [hpeers, htable] at hrows
    exact hrows.perm hperm
  · intro i hi
    exact ⟨rfl, (hstated i ((hmem i).mpr hi)).2⟩

-- ============================================================= partition

/-- The selections `_partition` records for `ids` and the number it
returns, on a table whose peers serve the ranges `geo`. -/
structure Routes (geo : PeerId → Geometry) (ids : List Int)
    (t : RemoteTable) (sel : List (List Nat)) (n : Nat) : Prop where
  length : sel.length = t.peers.length
  disjoint : sel.Pairwise List.Disjoint
  ascending : ∀ l ∈ sel, l.Pairwise (· < ·)
  /-- a list holds the positions of its peer's ids -/
  owned : ∀ s ∈ t.peers.zip sel, ∀ p, p ∈ s.2 ↔
    p < ids.length ∧ (geo s.1).Owns (ids.getD p 0)
  /-- a position of a row of the table is in its one owner's list -/
  owner : ∀ p < ids.length, 0 ≤ ids.getD p 0 →
    ids.getD p 0 < t.rowsTotal → ∃! s, s ∈ t.peers.zip sel ∧ p ∈ s.2
  /-- all ids are routed when all are rows of the table -/
  total : n = ids.length ↔ ∀ id ∈ ids, 0 ≤ id ∧ id < t.rowsTotal

theorem Geometry.owned_ascending (g : Geometry) (ids : List Int) :
    (g.owned ids).Pairwise (· < ·) := by
  unfold Geometry.owned
  exact List.pairwise_lt_range.filter _

/-- A list paired with its image. -/
theorem mem_zip_map {α β : Type} {f : α → β} {l : List α} {x : α × β} :
    x ∈ l.zip (l.map f) ↔ x.1 ∈ l ∧ x.2 = f x.1 := by
  induction l with
  | nil => simp
  | cons a l ih =>
      rw [List.map_cons, List.zip_cons_cons, List.mem_cons, ih]
      constructor
      · intro h
        rcases h with rfl | h
        · exact ⟨by simp, rfl⟩
        · exact ⟨by simp [h.1], h.2⟩
      · intro h
        obtain ⟨hx, hf⟩ := h
        rcases List.mem_cons.mp hx with hxa | hx
        · left
          rw [Prod.ext_iff]
          exact ⟨hxa, by rw [hf, hxa]⟩
        · exact .inr ⟨hx, hf⟩

/-- The lists of owned positions route every id of a sound table. -/
theorem Sound.routes (h : Sound geo T w) (ids : List Int) :
    Routes geo ids w.table (w.table.peers.map fun i => (geo i).owned ids)
      (routed geo ids w.table.peers).length where
  length := by simp
  disjoint := List.pairwise_map.mpr (h.tiled.disjoint ids)
  ascending l hl := by
    obtain ⟨i, -, rfl⟩ := List.mem_map.mp hl
    exact (geo i).owned_ascending ids
  owned s hs p := by
    obtain ⟨-, hs⟩ := mem_zip_map.mp hs
    rw [hs]
    exact Geometry.mem_owned_iff
  owner p hp hlo hhi := by
    obtain ⟨i, ⟨hi, ho⟩, huniq⟩ :=
      (h.tiled.partitioned h.nodup).inside _ (by exact hlo) hhi
    refine ⟨(i, (geo i).owned ids), ⟨mem_zip_map.mpr ⟨hi, rfl⟩,
      Geometry.mem_owned_iff.mpr ⟨hp, ho⟩⟩, ?_⟩
    intro s hs
    obtain ⟨hs, hps⟩ := hs
    obtain ⟨hmem, hlist⟩ := mem_zip_map.mp hs
    rw [hlist] at hps
    have hsi := huniq s.1 ⟨hmem, (Geometry.mem_owned_iff.mp hps).2⟩
    rw [Prod.ext_iff]
    exact ⟨hsi, by rw [hlist, hsi]⟩
  total := by
    refine ⟨fun hn id hid => ?_, h.tiled.length_routed⟩
    obtain ⟨p, hp, rfl⟩ := List.getElem_of_mem hid
    obtain ⟨i, hi, hpo⟩ := mem_routed.mp (h.tiled.routed_all hn hp)
    obtain ⟨-, ho⟩ := Geometry.mem_owned_iff.mp hpo
    rw [List.getD, List.getElem?_eq_getElem hp] at ho
    have hin := h.tiled.inside_of_owns hi ho
    simpa using hin

/-- `_partition` on a sound table: it routes the ids, or some peer's
share is over `max_rows`. -/
theorem partition_spec (h : Sound geo T w) (ids : List Int) :
    Runs (RemoteTable.partition ids) w
      (fun n w' => ∃ sel, w' = w.withSel sel ∧ Routes geo ids w.table sel n)
      (fun _ _ => ∃ i ∈ w.table.peers,
        w.table.maxRows < ((geo i).owned ids).length) := by
  unfold RemoteTable.partition
  simp only [runs_bind, runs_self]
  refine (partitionLoop_spec ids w.table.peers [] 0 w
    h.geometry ⟨w.table.sel, by simp, h.sel⟩).mono ?_ ?_
  · intro n w' hw
    obtain ⟨rfl, rfl, -⟩ := hw
    rw [List.nil_append, Nat.zero_add]
    exact ⟨_, rfl, h.routes ids⟩
  · intro e w' hw
    exact hw.2.2

/-- Construction admits exactly the answers that tile the table, and
every table constructed has been built from such; on one, at any time
between its calls, `_partition` sends each id to its one owner and counts
them all exactly when they are all rows of the table. -/
theorem split_exact (env : Env) (cfg : Config) :
    (∀ answers : PeerId → Stat,
      (∃ w, RemoteTable.recordAll answers (initial env cfg) = .ok () w) ↔
        Admissible cfg answers) ∧
    (∀ w₀ : World env, Constructed env cfg w₀ → ∃ answers : PeerId → Stat,
      (∃ w, RemoteTable.recordAll answers (initial env cfg) = .ok () w) ∧
      ∀ i < cfg.peers.length, w₀.ranges i = (answers i).geometry ∧
        ∃ x, (w₀.line w₀.ranges i).done = [x] ∧ opOf x.req = OP_STAT ∧
          statGeometry x.ans = (answers i).geometry) ∧
    ∀ w₀ w : World env, Constructed env cfg w₀ →
      Used Outcome.Ordinary w₀ w → ∀ ids,
      Runs (RemoteTable.partition ids) w
        (fun n w' => ∃ sel, w' = w.withSel sel ∧
          Routes w₀.ranges ids w.table sel n)
        (fun _ _ => ∃ i ∈ w.table.peers,
          w.table.maxRows < ((w₀.ranges i).owned ids).length) := by
  refine ⟨recordAll_iff env cfg, fun w₀ hc => hc.admitted,
    fun w₀ w hc hu ids => ?_⟩
  exact partition_spec (hu.good hc).1.sound ids

theorem split_exact_pair :
    (∃ w, RemoteTable.recordAll (fun i => ⟨"", i, 1, 160, 0, 0⟩)
      (initial pairEnv pairConfig) = .ok () w) ∧
    (∃ answers : PeerId → Stat,
      (∃ w, RemoteTable.recordAll answers (initial pairEnv pairConfig)
        = .ok () w) ∧
      ∀ i < 2, paired.ranges i = (answers i).geometry ∧
        ∃ x, (paired.line paired.ranges i).done = [x] ∧
          opOf x.req = OP_STAT ∧
          statGeometry x.ans = (answers i).geometry) ∧
    ∀ ids, Runs (RemoteTable.partition ids) paired
      (fun n w' => ∃ sel, w' = paired.withSel sel ∧
        Routes paired.ranges ids paired.table sel n)
      (fun _ _ => ∃ i ∈ paired.table.peers,
        paired.table.maxRows < ((paired.ranges i).owned ids).length) := by
  obtain ⟨-, hrecorded, hparts⟩ := split_exact pairEnv pairConfig
  have hret : Returns (RemoteTable.recordAll fun i => ⟨"", i, 1, 160, 0, 0⟩)
      (initial pairEnv pairConfig) = true := by
    decide +kernel
  obtain ⟨_, hx⟩ := Returns.run hret
  exact ⟨⟨_, hx⟩, hrecorded paired paired_constructed,
    hparts paired paired paired_constructed .refl⟩

end PleRowServer.Client
