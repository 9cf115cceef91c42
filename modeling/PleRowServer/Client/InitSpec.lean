/-
What construction leaves behind. `__init__` connects every peer, asks it
for its range and checks the split; a table that comes out of it is
`Good` for the ranges it recorded, so every result about calls on a good
table is one about calls on a constructed one.

The geometry a peer's line is judged by is fixed before the peer is
asked: every statement here holds for any `geo`, and the last one is
used at the ranges the table ends up with.
-/
import PleRowServer.Client.InfoSpec
import PleRowServer.Client.Honest

namespace PleRowServer.Client

open Base Wire
open RemoteTable (Config initial)

variable {env : Env} {geo : PeerId → Geometry} {w w' w'' : World env}
  {T D : ℚ} {i j : PeerId} {e : Exn} {is : List PeerId} {cfg : Config}

-- ============================================================= the split

/-- The ranges a state records. -/
def World.ranges (w : World env) (i : PeerId) : Geometry :=
  (w.heap i).geometry

/-- The loop of `_check_split` passes exactly the lists that tile the
rows from where it starts. -/
theorem splitLoop_spec :
    ∀ (is : List PeerId) (a : Nat) (w : World env),
      Runs (RemoteTable.splitLoop is a) w
        (fun b w' => w' = w ∧ Tiled w.ranges is a b)
        (fun _ _ => ∀ b, ¬ Tiled w.ranges is a b) := by
  intro is
  induction is with
  | nil =>
      intro a w
      exact ⟨rfl, rfl⟩
  | cons i is ih =>
      intro a w
      unfold RemoteTable.splitLoop
      simp only [runs_bind, runs_peer]
      split
      case isTrue hne =>
        simp only [runs_bind, runs_raise]
        intro b ht
        exact hne ht.1
      case isFalse heq =>
        have heq : (w.heap i).baseRow = a := not_not.mp heq
        refine (ih (a + (w.heap i).rowCount) w).mono ?_ ?_
        · intro b w' hw
          exact ⟨hw.1, heq, hw.2⟩
        · intro e w' hnot b ht
          exact hnot b ht.2

/-- The peers in the order `_check_split` leaves them in. -/
def World.sorted (w : World env) : List PeerId :=
  w.table.peers.insertionSort fun i j =>
    (w.heap i).baseRow ≤ (w.heap j).baseRow

/-- `_check_split` passes exactly when the sorted ranges tile the
table. -/
theorem checkSplit_spec :
    Runs RemoteTable.checkSplit w
      (fun _ w' => w' = { w with table := { w.table with
          peers := w.sorted } } ∧ Tiled w.ranges w.sorted 0 w.table.rowsTotal)
      (fun _ _ => ¬ Tiled w.ranges w.sorted 0 w.table.rowsTotal) := by
  unfold RemoteTable.checkSplit
  simp only [runs_bind, runs_get, runs_modifySelf]
  refine (splitLoop_spec w.sorted 0 { w with table := { w.table with
    peers := w.sorted } }).mono ?_ ?_
  · intro b w' hw
    obtain ⟨rfl, ht⟩ := hw
    split
    case isTrue hne =>
      simp only [runs_raise]
      intro ht'
      exact hne (ht.end_unique ht')
    case isFalse heq =>
      have heq : b = w.table.rowsTotal := not_not.mp heq
      exact ⟨rfl, heq ▸ ht⟩
  · intro e w' hnot
    exact hnot w.table.rowsTotal

-- ============================================================== enrolling

/-- What `_apply_stat` records of an answer. -/
def Peer.applied (p : Peer) (st : Stat) : Peer :=
  { p with
    baseRow := st.baseRow
    rowCount := st.rowCount
    rowBytes := st.rowBytes
    residentPages := st.residentPages
    servedRequests := st.servedRequests }

@[simp] theorem Peer.applied_geometry (p : Peer) (st : Stat) :
    (p.applied st).geometry = st.geometry := rfl

/-- `_apply_stat` passes exactly the answers with the table's row size
and at least one row; it records the answer either way. -/
theorem applyStat_spec {st : Stat} :
    Runs (RemoteTable.applyStat i st) w
      (fun _ w' => w' = w.setPeer i ((w.heap i).applied st) ∧
        st.rowBytes = w.table.rowBytes ∧ 0 < st.rowCount)
      (fun _ _ => ¬ (st.rowBytes = w.table.rowBytes ∧ 0 < st.rowCount)) := by
  unfold RemoteTable.applyStat
  simp only [runs_bind, runs_modifyPeer, runs_peer, runs_self]
  show Runs _ (w.setPeer i ((w.heap i).applied st)) _ _
  rw [World.setPeer_self]
  by_cases hrb : st.rowBytes = w.table.rowBytes
  · rw [if_neg (by exact not_not.mpr hrb)]
    by_cases hrc : st.rowCount = 0
    · rw [if_pos (by exact hrc)]
      simp only [runs_raise]
      omega
    · rw [if_neg (by exact hrc)]
      exact ⟨rfl, hrb, Nat.pos_of_ne_zero hrc⟩
  · rw [if_pos (by exact hrb)]
    simp only [runs_bind, runs_raise]
    intro h
    exact hrb h.1

/-- All that was said on the peer's connection so far is one STAT, and
it reported the range recorded. -/
def Stated (geo : PeerId → Geometry) (i : PeerId) (w : World env) : Prop :=
  ∃ x, (w.line geo i).done = [x] ∧ opOf x.req = OP_STAT ∧
    statGeometry x.ans = (w.heap i).geometry

/-- A construction under way: the peers of `pool` are enrolled. -/
structure Enrolling (geo : PeerId → Geometry) (cfg : Config)
    (pool : List PeerId) (w : World env) : Prop where
  table : w.table = { (initial env cfg).table with reqId := w.table.reqId }
  linked : ∀ i, Linked geo cfg.timeout i w
  idle : ∀ i, (w.line geo i).phase = .idle
  owed : ∀ i, (w.line geo i).answered = false
  deadline : ∀ i, (w.heap i).deadline = none
  cap : ∀ i, (w.heap i).cap = 0
  settled : ∀ i ∈ pool, (w.heap i).sock ≠ none ∧ (w.heap i).pending = none
  recorded : ∀ i ∈ pool, (w.heap i).rowBytes = cfg.rowBytes ∧
    0 < (w.heap i).rowCount
  stated : ∀ i ∈ pool, Stated geo i w

theorem enrolling_initial (geo : PeerId → Geometry) (cfg : Config) :
    Enrolling geo cfg [] (initial env cfg) where
  table := rfl
  linked _ := ⟨rfl, rfl, fun h => absurd rfl h, fun _ => rfl⟩
  idle _ := rfl
  owed _ := rfl
  deadline _ := rfl
  cap _ := rfl
  settled := by simp
  recorded := by simp
  stated := by simp

/-- Enrolling one more peer. -/
theorem enroll_spec {pool : List PeerId} (hT : 0 ≤ cfg.timeout)
    (h : Enrolling geo cfg pool w) :
    Runs (RemoteTable.enroll D i) w
      (fun _ w' => Enrolling geo cfg (i :: pool) w') (fun _ _ => True) := by
  have hTw : w.table.timeout = cfg.timeout := by
    rw [h.table]
    rfl
  unfold RemoteTable.enroll RemoteTable.connect
  refine Runs.bind (connectLoop_spec none hT env.rounds (1 / 2) w le_rfl hTw
    (h.linked i) (h.idle i) (h.owed i)) ?_ (fun _ _ _ => trivial)
  intro _ w₁ hw
  obtain ⟨c, hf⟩ := hw
  have hl₁ : (w₁.draw i).line geo i = { w₁.line geo i with
      ticket := some w₁.nextId } := line_draw w₁ i
  have hon : On geo i c (w₁.draw i) := by
    refine ⟨hf.sock, hf.peer, ?_, ?_⟩ <;> rw [hl₁, hf.line]
  simp only [runs_bind, runs_nextReqId]
  refine Runs.mono (queryStat_spec hon (by rw [hl₁, hf.line])
    (by rw [hl₁, hf.line]; exact h.owed i) (by rw [hl₁]) w₁.nextId_lt) ?_
    (fun _ _ _ => trivial)
  intro st w₂ hw
  obtain ⟨req, ans, hreq, -, hst, hs₂, ⟨a, ha⟩, hl₂, -⟩ := hw
  have hstep : Step {i} w w₂ :=
    hf.step.trans ((Step.draw (S := {i}) w₁ rfl).trans hs₂)
  have hother : ∀ j, j ≠ i → w₂.heap j = w.heap j ∧
      w₂.line geo j = w.line geo j := fun j hj =>
    ⟨hstep.heap (S := {i}) hj, hstep.line (S := {i}) geo hj⟩
  have hline : w₂.line geo i = { w₁.line geo i with
      ticket := none, done := [⟨req, ans⟩] } := by
    rw [hl₂, hl₁, hf.line]
    rfl
  refine Runs.mono applyStat_spec ?_ (fun _ _ _ => trivial)
  intro _ w₃ hw
  obtain ⟨rfl, hrb, hrc⟩ := hw
  have hself : (w₂.setPeer i ((w₂.heap i).applied st)).heap i
      = (w₂.heap i).applied st := World.setPeer_self _ _ _
  have htable : w₂.table = { (initial env cfg).table with
      reqId := w₂.table.reqId } := by
    rw [hstep.table, h.table]
  -- each field for the peer enrolled now, then for the others
  refine ⟨htable, fun j => ?_, fun j => ?_, fun j => ?_, fun j => ?_,
    fun j => ?_, fun j hj => ?_, fun j hj => ?_, fun j hj => ?_⟩
  · by_cases hji : j = i
    · subst hji
      refine ⟨?_, ?_, fun _ => ?_, ?_⟩
      · rw [hself, line_setPeer, hline, hf.line]
        show (w₂.heap j).sock = some c
        rw [ha]
        exact hf.sock
      · rw [line_setPeer, hline, hf.line]
      · rw [hself]
        show (w₂.heap j).timeout = cfg.timeout
        rw [ha]
        exact hf.timeout
      · rw [line_setPeer, hline, hf.line]
        intro hn
        cases hn
    · refine (h.linked j).congr ?_ (hother j hji).2
      rw [World.setPeer_ne _ hji]
      exact (hother j hji).1
  · rw [line_setPeer]
    by_cases hji : j = i
    · subst hji
      rw [hline, hf.line]
    · rw [(hother j hji).2]
      exact h.idle j
  · rw [line_setPeer]
    by_cases hji : j = i
    · subst hji
      rw [hline, hf.line]
      exact h.owed j
    · rw [(hother j hji).2]
      exact h.owed j
  · by_cases hji : j = i
    · subst hji
      rw [hself]
      exact (hstep.kept j).deadline.trans (h.deadline j)
    · rw [World.setPeer_ne _ hji, (hother j hji).1]
      exact h.deadline j
  · by_cases hji : j = i
    · subst hji
      rw [hself]
      exact (hstep.kept j).cap.trans (h.cap j)
    · rw [World.setPeer_ne _ hji, (hother j hji).1]
      exact h.cap j
  · by_cases hji : j = i
    · subst hji
      rw [hself]
      show (w₂.heap j).sock ≠ none ∧ (w₂.heap j).pending = none
      rw [ha]
      refine ⟨?_, rfl⟩
      show (w₁.heap j).sock ≠ none
      rw [hf.sock]
      simp
    · rw [World.setPeer_ne _ hji, (hother j hji).1]
      exact h.settled j ((List.mem_cons.mp hj).resolve_left hji)
  · by_cases hji : j = i
    · subst hji
      rw [hself]
      refine ⟨?_, hrc⟩
      show st.rowBytes = cfg.rowBytes
      rw [hrb, htable]
      rfl
    · rw [World.setPeer_ne _ hji, (hother j hji).1]
      exact h.recorded j ((List.mem_cons.mp hj).resolve_left hji)
  · unfold Stated
    rw [line_setPeer]
    by_cases hji : j = i
    · subst hji
      rw [hself, hline]
      exact ⟨_, rfl, hreq.op, hst.symm⟩
    · rw [World.setPeer_ne _ hji, (hother j hji).1, (hother j hji).2]
      exact h.stated j ((List.mem_cons.mp hj).resolve_left hji)

/-- Enrolling all peers. -/
theorem enrollAll_spec (hT : 0 ≤ cfg.timeout) :
    ∀ (is pool : List PeerId) (w : World env), Enrolling geo cfg pool w →
      Runs (forEach (RemoteTable.enroll D) is) w
        (fun _ w' => Enrolling geo cfg (is.reverse ++ pool) w')
        (fun _ _ => True) := by
  intro is
  induction is with
  | nil =>
      intro pool w h
      exact h
  | cons i is ih =>
      intro pool w h
      refine Runs.bind (enroll_spec hT h) ?_ (fun _ _ _ => trivial)
      intro _ w' hw
      rw [List.reverse_cons, List.append_assoc]
      exact ih (i :: pool) w' hw

-- ========================================================== no timeout set

/-- With a negative socket timeout no connect ever returns. -/
theorem connectLoop_negative :
    ∀ (rounds : Nat) (pause : ℚ) (w : World env), w.table.timeout < 0 →
      Runs (RemoteTable.connectLoop i D rounds pause) w (fun _ _ => False)
        (fun _ _ => True) := by
  have hconnect : ∀ (ct t : ℚ) (w : World env), t < 0 →
      Runs (Peer.connect i ct t) w (fun _ _ => False)
        (fun _ w' => w'.table = w.table) := by
    intro ct t w ht
    unfold Peer.connect createConnection
    simp only [runs_bind, runs_peer]
    split
    case isTrue => simp only [runs_bind, runs_raise]; rfl
    case isFalse =>
      simp only [runs_bind, runs_sysConnect]
      intro r hr
      cases r with
      | ok =>
          simp only [runs_pure]
          rfl
      | fault why => simp only [runs_raise]; rfl
      | interrupt => simp only [runs_raise]; rfl
  intro rounds
  induction rounds with
  | zero =>
      intro pause w _
      exact trivial
  | succ rounds ih =>
      intro pause w ht
      unfold RemoteTable.connectLoop
      simp only [runs_bind, runs_now, runs_self]
      intro t _
      refine Runs.catching ((hconnect _ _ _ ht).mono (fun _ _ h => h.elim)
        (fun _ _ h => h)) ?_ (fun _ _ _ _ => trivial)
      intro e v hv _
      simp only [runs_bind, runs_now]
      intro t' _
      split
      · simp only [runs_bind, runs_peer, runs_raise]
      · rw [runs_bind]
        refine runs_sleep ?_ (fun _ _ _ _ _ _ => trivial)
        intro _
        refine ih _ _ ?_
        show v.table.timeout < 0
        rw [hv]
        exact ht

-- =========================================================== construction

/-- A table that finished construction. The list of addresses is one
`_parse_peers` returns, which is not empty. -/
structure Constructed (env : Env) (cfg : Config) (w : World env) :
    Prop where
  peers : cfg.peers ≠ []
  runs : RemoteTable.init (initial env cfg) = .ok () w

/-- Whatever ranges the peers are judged by, construction that returns
leaves a good table if those are the ranges it recorded. -/
theorem init_spec (geo : PeerId → Geometry) (hpeers : cfg.peers ≠ []) :
    Runs RemoteTable.init (initial env cfg)
      (fun _ w => (∀ i, (w.line geo i).phase = .idle) ∧
        ((∀ i, w.ranges i = geo i) → Good geo cfg.timeout w ∧
        w.table.failed = none ∧ w.table.staging = none ∧
        (∀ i ∈ w.table.peers, (w.heap i).rowCount ≠ 0 ∧ Stated geo i w) ∧
        ∃ ps r, ps.Perm (List.range cfg.peers.length) ∧ w.table =
          { (initial env cfg).table with reqId := r, peers := ps }))
      (fun _ _ => True) := by
  unfold RemoteTable.init
  simp only [runs_bind, runs_self]
  refine Runs.catching (F := fun _ _ => True) ?_ ?_ (fun _ _ _ _ => trivial)
  case refine_2 =>
    intro e v _ _
    simp only [runs_bind, runs_self]
    refine Runs.mono (Q := fun _ _ => True) (E := fun _ _ => True) ?_
      (fun _ _ _ => trivial) (fun _ _ _ => trivial)
    unfold Runs
    split <;> trivial
  simp only [runs_bind, runs_now]
  intro t ht
  set w₀ := (initial env cfg).push (.now t) ht with hw₀
  have h₀ : Enrolling geo cfg [] w₀ := by
    have h : Enrolling geo cfg [] (initial env cfg) :=
      enrolling_initial geo cfg
    have hl : ∀ i, w₀.line geo i = (initial env cfg).line geo i :=
      fun i => line_mute ht trivial i
    refine ⟨h.table, fun i => (h.linked i).congr rfl (hl i), fun i => ?_,
      fun i => ?_, h.deadline, h.cap, by simp, by simp, by simp⟩
    · rw [hl]; exact h.idle i
    · rw [hl]; exact h.owed i
  by_cases hT : 0 ≤ cfg.timeout
  case neg =>
    have hhead : (initial env cfg).table.peers
        = List.range cfg.peers.length := rfl
    cases hn : cfg.peers.length with
    | zero => exact absurd (List.length_eq_zero_iff.mp hn) hpeers
    | succ n =>
        rw [hhead, hn, List.range_succ_eq_map]
        unfold forEach RemoteTable.enroll RemoteTable.connect
        simp only [runs_bind]
        exact (connectLoop_negative _ _ _ (by exact not_le.mp hT)).mono
          (fun _ _ h => h.elim) (fun _ _ _ => trivial)
  case pos =>
    refine (enrollAll_spec hT _ [] w₀ h₀).mono ?_ (fun _ _ _ => trivial)
    intro _ w hw
    rw [List.append_nil] at hw
    refine checkSplit_spec.mono ?_ (fun _ _ _ => trivial)
    intro _ w' hw'
    obtain ⟨rfl, htiled⟩ := hw'
    refine ⟨fun i => hw.idle i, fun hgeo => ?_⟩
    have hperm : w.sorted.Perm (List.range cfg.peers.length) := by
      have hall : w.table.peers = List.range cfg.peers.length := by
        rw [hw.table]
        rfl
      unfold World.sorted
      rw [hall]
      exact List.perm_insertionSort _ _
    have hmem : ∀ i ∈ w.sorted,
        i ∈ (initial env cfg).table.peers.reverse := by
      intro i hi
      rw [List.mem_reverse]
      exact hperm.mem_iff.mp hi
    have hranges : w.ranges = geo := funext hgeo
    refine ⟨⟨⟨?_, ?_, ?_, ?_, hT, fun i _ => hgeo i, fun i hi => ?_,
      fun i => (hw.linked i).congr rfl rfl, fun i hc => ?_, hw.deadline, ?_⟩,
      fun _ i hi => ?_⟩, ?_, ?_, fun i hi => ?_, w.sorted, w.table.reqId,
      hperm, ?_⟩
    · exact hperm.nodup_iff.mpr List.nodup_range
    · rw [hranges] at htiled
      exact htiled
    · show w.table.sel.length = w.sorted.length
      rw [hperm.length_eq, hw.table]
      simp [initial]
    · show w.table.timeout = cfg.timeout
      rw [hw.table]
      rfl
    · show (geo i).rowBytes = w.table.rowBytes
      rw [← hgeo i, hw.table]
      exact (hw.recorded i (hmem i hi)).1
    · exact absurd (hw.cap i) hc
    · show w.table.stagingNp = w.table.staging
      rw [hw.table]
      rfl
    · obtain ⟨hsock, hpend⟩ := hw.settled i (hmem i hi)
      exact ⟨hsock, hw.idle i, hpend⟩
    · show w.table.failed = none
      rw [hw.table]
      rfl
    · show w.table.staging = none
      rw [hw.table]
      rfl
    · have := (hw.recorded i (hmem i hi)).2
      refine ⟨?_, hw.stated i (hmem i hi)⟩
      show (w.heap i).rowCount ≠ 0
      omega
    · show { w.table with peers := w.sorted } = _
      rw [hw.table]

/-- What construction leaves of a table. -/
theorem Constructed.spec (h : Constructed env cfg w) :
    Good w.ranges cfg.timeout w ∧ w.table.failed = none ∧
      w.table.staging = none ∧
      (∀ i ∈ w.table.peers, (w.heap i).rowCount ≠ 0 ∧ Stated w.ranges i w) ∧
      ∃ ps r, ps.Perm (List.range cfg.peers.length) ∧ w.table =
        { (initial env cfg).table with reqId := r, peers := ps } := by
  have hspec := @init_spec env cfg w.ranges h.peers
  unfold Runs at hspec
  rw [h.runs] at hspec
  exact hspec.2 fun _ => rfl

/-- Nothing is outstanding on any connection. -/
theorem Constructed.idle (h : Constructed env cfg w) (i : PeerId) :
    (w.line w.ranges i).phase = .idle := by
  have hspec := @init_spec env cfg w.ranges h.peers
  unfold Runs at hspec
  rw [h.runs] at hspec
  exact hspec.1 i

/-- A constructed table is good for the ranges it recorded. -/
theorem Constructed.good (h : Constructed env cfg w) :
    Good w.ranges cfg.timeout w ∧ w.table.failed = none :=
  ⟨h.spec.1, h.spec.2.1⟩

-- ================================================================ a pair

/-- The state a call that is known to return leaves. -/
def returned {α : Type} (p : M env α) (w : World env) : World env :=
  match p w with
  | .ok _ w' => w'
  | .error _ w' => w'

/-- The call returns. -/
def Returns {α : Type} (p : M env α) (w : World env) : Bool :=
  match p w with
  | .ok _ _ => true
  | .error _ _ => false

theorem Returns.run {α : Type} {p : M env α} (h : Returns p w = true) :
    ∃ x, p w = .ok x (returned p w) := by
  unfold Returns at h
  unfold returned
  split at h
  case h_1 x w' he => exact ⟨x, by rw [he]⟩
  case h_2 => cases h

/-- A table over the pair of servers. -/
def pairConfig : Config where
  peers := [("a", 9000), ("b", 9000)]
  rowsTotal := 2
  rowBytes := 160
  maxRows := 4
  timeout := 30
  connectTimeout := 5
  connectDeadline := 60
  gatherDeadline := 120

/-- That table as it is constructed. -/
def paired : World pairEnv :=
  returned RemoteTable.init (initial pairEnv pairConfig)

theorem paired_constructed : Constructed pairEnv pairConfig paired := by
  have hret : Returns RemoteTable.init (initial pairEnv pairConfig) = true := by
    decide +kernel
  obtain ⟨_, hx⟩ := Returns.run hret
  exact ⟨by decide, hx⟩

end PleRowServer.Client
