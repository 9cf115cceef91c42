/-
How `gather_cpu` fills the request buffers before anything is sent. A
peer's buffers only grow, and `Peer.Roomy` is what every size kept in
`cap` stands for; staging a share may replace the buffers, and touches
nothing else of the peer.
-/
import PleRowServer.Client.Partition

namespace PleRowServer.Client

open Base Wire

variable {env : Env} {geo : PeerId → Geometry} {w w' w'' : World env}
  {ids : List Int} {i j : PeerId} {e : Exn}

-- ============================================================== buffers

/-- The buffers have room for the `cap` rows and ids they were reserved
for. -/
def Peer.Roomy (p : Peer) : Prop :=
  p.cap ≠ 0 → 0 < p.rowBytes ∧ HEADER + 4 * p.cap ≤ p.req.length ∧
    p.cap * p.rowBytes ≤ p.rows.length

/-- The same peer but for its buffers. -/
def Peer.Stocked (p p' : Peer) : Prop :=
  ∃ q r n, p' = { p with req := q, rows := r, cap := n }

/-- A peer left alone is stocked as it was. -/
theorem Peer.Stocked.refl (p : Peer) : p.Stocked p := ⟨_, _, _, rfl⟩

/-- Stocking twice is stocking. -/
theorem Peer.Stocked.trans {p q r : Peer} (h : p.Stocked q)
    (h' : q.Stocked r) : p.Stocked r := by
  obtain ⟨_, _, _, rfl⟩ := h
  obtain ⟨a, b, c, rfl⟩ := h'
  exact ⟨a, b, c, rfl⟩

/-- What no method but `reserve` does leaves buffers roomy. -/
theorem Peer.Roomy.kept {p p' : Peer} (h : p.Roomy) (hk : p.Kept p') :
    p'.Roomy := by
  have hrb : p'.rowBytes = p.rowBytes := congrArg Geometry.rowBytes hk.geometry
  unfold Peer.Roomy
  rw [hk.cap, hk.reqLength, hk.rowsLength, hrb]
  exact h

/-- Work on the buffers of the peers `S`. -/
structure Stocks (S : Set PeerId) (w w' : World env) : Prop where
  hist : w'.hist = w.hist
  table : w'.table = w.table
  bufs : w'.bufs = w.bufs
  heap : ∀ j ∉ S, w'.heap j = w.heap j
  peer : ∀ j, (w.heap j).Stocked (w'.heap j)
  roomy : ∀ j, (w.heap j).Roomy → (w'.heap j).Roomy

section Stocking

variable {S S' : Set PeerId}

/-- Where nothing was done nobody was stocked. -/
theorem Stocks.refl (w : World env) (S : Set PeerId) : Stocks S w w :=
  ⟨rfl, rfl, rfl, fun _ _ => rfl, fun _ => .refl _, fun _ h => h⟩

/-- Stocking some peers twice is stocking them. -/
theorem Stocks.trans (h : Stocks S w w') (h' : Stocks S w' w'') :
    Stocks S w w'' :=
  ⟨h'.hist.trans h.hist, h'.table.trans h.table, h'.bufs.trans h.bufs,
    fun j hj => (h'.heap j hj).trans (h.heap j hj),
    fun j => (h.peer j).trans (h'.peer j),
    fun j hr => h'.roomy j (h.roomy j hr)⟩

/-- More peers may be allowed to be stocked. -/
theorem Stocks.mono (h : Stocks S w w') (hS : S ⊆ S') : Stocks S' w w' :=
  ⟨h.hist, h.table, h.bufs, fun j hj => h.heap j fun h' => hj (hS h'),
    h.peer, h.roomy⟩

/-- Stocking is no entry of the history. -/
theorem Stocks.tr (h : Stocks S w w') : w'.tr = w.tr := by
  unfold World.tr
  rw [h.hist]

/-- Stocking moves no line. -/
theorem Stocks.line (h : Stocks S w w') (j : PeerId) :
    w'.line geo j = w.line geo j := line_of_tr h.tr j

/-- Stocking keeps what the peer told of its range. -/
theorem Stocks.geometry (h : Stocks S w w') (j : PeerId) :
    (w'.heap j).geometry = (w.heap j).geometry := by
  obtain ⟨q, r, n, hj⟩ := h.peer j
  rw [hj]
  rfl

/-- An assignment to one peer's buffers. -/
theorem Stocks.set {q r : List UInt8} {n m : Nat}
    (hr : (w.heap i).Roomy →
      ({ w.heap i with req := q, rows := r, cap := n } : Peer).Roomy) :
    Stocks {i} w ({ w with allocs := m }.setPeer i
      { w.heap i with req := q, rows := r, cap := n }) := by
  refine ⟨rfl, rfl, rfl, fun j hj => World.setPeer_ne _ hj _, fun j => ?_,
    fun j hroom => ?_⟩ <;> by_cases hj : j = i
  · subst hj; rw [World.setPeer_self]; exact ⟨q, r, n, rfl⟩
  · rw [World.setPeer_ne _ hj]; exact .refl _
  · subst hj; rw [World.setPeer_self]; exact hr hroom
  · rw [World.setPeer_ne _ hj]; exact hroom

/-- Stocking leaves every peer linked. -/
theorem Linked.stocks {T : ℚ} (h : Linked geo T j w)
    (hs : Stocks S w w') : Linked geo T j w' := by
  obtain ⟨q, r, n, hj⟩ := hs.peer j
  have hl : w'.line geo j = w.line geo j := hs.line j
  refine ⟨by rw [hj, hl]; exact h.sock, by rw [hl]; exact h.good, ?_, ?_⟩
  · rw [hj]; exact h.timeout
  · rw [hl]; exact h.closed

end Stocking

-- =============================================================== staging

/-- How staging raises: the one error it has, and nothing sent. -/
def Unstaged (S : Set PeerId) (w : World env) (e : Exn) (w' : World env) :
    Prop :=
  e = .castZeros ∧ ∃ v he, Stocks S w v ∧ w' = v.push (.raised e) he

/-- `reserve` makes room for `rows` rows, where a row has a size. -/
theorem reserve_spec {rows : Nat} (hpos : 0 < rows) :
    Runs (Peer.reserve i rows) w
      (fun _ w' => Stocks {i} w w' ∧
        ((w.heap i).Roomy → rows ≤ (w'.heap i).cap))
      (fun e w' => Unstaged {i} w e w' ∧ (w.heap i).rowBytes = 0) := by
  unfold Peer.reserve
  simp only [runs_bind, runs_peer]
  split
  case isTrue hle => exact ⟨.refl w _, fun _ => hle⟩
  case isFalse hlt =>
    set cap := max rows 4096 with hcap
    have hbig : (w.heap i).cap < cap ∧ rows ≤ cap := by omega
    set q : List UInt8 := List.replicate (HEADER + 4 * cap) 0 with hq
    have hfirst : Stocks {i} w
        (w.setPeer i { w.heap i with req := q }) := by
      refine Stocks.set (m := w.allocs) (r := (w.heap i).rows)
        (n := (w.heap i).cap) fun hr hne => ?_
      obtain ⟨hw, -, hrows⟩ := hr hne
      refine ⟨hw, ?_, hrows⟩
      simp only [hq, List.length_replicate]
      omega
    simp only [runs_bind, runs_modifyPeer]
    split
    case isTrue hz =>
      simp only [runs_bind, runs_raise]
      exact ⟨⟨rfl, _, _, hfirst, rfl⟩, hz⟩
    case isFalse hz =>
      simp only [runs_modify]
      have hroomy : ∀ p : Peer, p.rowBytes = (w.heap i).rowBytes →
          p.req = q → p.cap = cap → p.rows = (List.range
            (cap * (w.heap i).rowBytes)).map (env.uninit w.allocs) →
          p.Roomy := by
        intro p hrb hpq hpc hpr _
        rw [hrb, hpq, hpc, hpr, hq]
        simp only [List.length_replicate, List.length_map, List.length_range]
        exact ⟨Nat.pos_of_ne_zero hz, le_rfl, le_rfl⟩
      refine ⟨hfirst.trans (.set fun _ => hroomy _ ?_ ?_ rfl ?_), fun _ => ?_⟩
      · simp
      · simp
      · rfl
      · simp [hbig.2]

/-- `np.copyto` of the ids writes exactly this share's part of the
buffer. -/
theorem copyIds_spec {xs : List Int} (hroom : (w.heap i).Roomy)
    (hcap : xs.length ≤ (w.heap i).cap) (hpos : 0 < xs.length)
    {E : Exn → World env → Prop} :
    Runs (Peer.copyIds i xs) w
      (fun _ w' => Stocks {i} w w' ∧
        (w'.heap i).cap = (w.heap i).cap ∧
        ((w'.heap i).req.drop HEADER).take (4 * xs.length)
          = idBytes xs) E := by
  obtain ⟨-, hreq, -⟩ := hroom (by omega)
  have hlen : (idBytes xs).length = 4 * xs.length := by
    simp [idBytes, List.length_flatMap, Nat.mul_comm]
  unfold Peer.copyIds
  simp only [runs_modifyPeer]
  refine ⟨Stocks.set (m := w.allocs) (r := (w.heap i).rows)
    (n := (w.heap i).cap) fun hr hne => ?_, by simp, ?_⟩
  · obtain ⟨hw, hq, hrows⟩ := hr hne
    refine ⟨hw, ?_, hrows⟩
    rw [length_splice (by omega)]
    exact hq
  · rw [World.setPeer_self, ← hlen]
    exact bytesAt_splice (by omega)

/-- The shares that are not empty. -/
def active (l : List Share) : List Share :=
  l.filter fun s => s.2.length ≠ 0

/-- The shares of the peers that own some of the ids, in table order. -/
def shares (geo : PeerId → Geometry) (ids : List Int) (is : List PeerId) :
    List Share := active (is.map fun i => (i, (geo i).owned ids))

/-- A share is of a peer that owns some of the ids, and is what it owns.
-/
theorem mem_shares {is : List PeerId} {s : Share} :
    s ∈ shares geo ids is
      ↔ s.1 ∈ is ∧ s.2 = (geo s.1).owned ids ∧ s.2 ≠ [] := by
  obtain ⟨i, sel⟩ := s
  simp only [shares, active, List.mem_filter, List.mem_map, Prod.mk.injEq,
    decide_eq_true_eq, ne_eq, List.length_eq_zero_iff]
  constructor
  · rintro ⟨⟨j, hj, rfl, rfl⟩, hne⟩; exact ⟨hj, rfl, hne⟩
  · rintro ⟨hi, rfl, hne⟩; exact ⟨⟨i, hi, rfl, rfl⟩, hne⟩

/-- The peers asked are in table order. -/
theorem shares_sublist (geo : PeerId → Geometry) (ids : List Int)
    (is : List PeerId) : ((shares geo ids is).map Prod.fst).Sublist is := by
  have : ((is.map fun i => (i, (geo i).owned ids)).map Prod.fst) = is := by
    rw [List.map_map]
    exact List.map_id is
  refine (List.filter_sublist.map Prod.fst).trans ?_
  rw [this]

/-- Each peer is asked once. -/
theorem nodup_shares {is : List PeerId} (h : is.Nodup) :
    ((shares geo ids is).map Prod.fst).Nodup :=
  h.sublist (shares_sublist geo ids is)

/-- Staging one share. -/
theorem stageOne_spec {s : Share} (hne : s.2.length ≠ 0)
    (hroom : (w.heap s.1).Roomy) (ids : List Int)
    (hgeo : (w.heap s.1).geometry = geo s.1) :
    Runs (do
        Peer.reserve s.1 s.2.length
        Peer.copyIds s.1 (s.ids ids) : M env Unit) w
      (fun _ w' => Stocks {s.1} w w' ∧ Staged geo ids s w')
      (fun e w' => Unstaged {s.1} w e w' ∧ (geo s.1).rowBytes = 0) := by
  obtain ⟨i, sel⟩ := s
  have hpos : 0 < sel.length := Nat.pos_of_ne_zero hne
  have hlen : (Share.ids (i, sel) ids).length = sel.length := by
    simp [Share.ids]
  have hrb : (w.heap i).rowBytes = (geo i).rowBytes :=
    congrArg Geometry.rowBytes hgeo
  refine Runs.bind (reserve_spec hpos) ?_ ?_
  · rintro _ w₁ ⟨hs₁, hcap⟩
    have hcap : sel.length ≤ (w₁.heap i).cap := hcap hroom
    have hroom₁ := hs₁.roomy i hroom
    refine (copyIds_spec hroom₁ (by rw [hlen]; exact hcap)
      (by rw [hlen]; exact hpos)).mono ?_ (fun _ _ h => h)
    rintro _ w₂ ⟨hs₂, hcap₂, hbytes⟩
    have hs := hs₁.trans hs₂
    have hgeo₂ : (w₂.heap i).geometry = geo i := (hs.geometry i).trans hgeo
    have hrb₂ : (w₂.heap i).rowBytes = (geo i).rowBytes :=
      congrArg Geometry.rowBytes hgeo₂
    obtain ⟨hw, hq, hrows⟩ := hs₂.roomy i hroom₁ (by omega)
    rw [hrb₂] at hw hrows
    rw [hcap₂] at hq hrows
    refine ⟨hs, hgeo₂, hw, hpos, ?_, ?_, ?_⟩
    · exact (Nat.add_le_add_left (Nat.mul_le_mul_left 4 hcap) _).trans hq
    · exact (Nat.mul_le_mul_right _ hcap).trans hrows
    · rw [← hbytes, hlen]
  · rintro e w' ⟨hu, hz⟩
    exact ⟨hu, by rw [← hrb]; exact hz⟩

/-- The loop over the peers stages every share that is not empty. -/
theorem stageLoop_spec :
    ∀ (l : List Share) (w : World env), (l.map Prod.fst).Nodup →
      (∀ s ∈ l, (w.heap s.1).Roomy) →
      (∀ s ∈ l, (w.heap s.1).geometry = geo s.1) →
      Runs (RemoteTable.stageLoop ids l) w
        (fun todo w' => todo = active l ∧ Stocks (peersOf (active l)) w w' ∧
          ∀ s ∈ active l, Staged geo ids s w')
        (fun e w' => Unstaged (peersOf (active l)) w e w' ∧
          ∃ s ∈ active l, (geo s.1).rowBytes = 0) := by
  intro l
  induction l with
  | nil => intro w _ _ _; exact ⟨rfl, .refl w _, by simp [active]⟩
  | cons s rest ih =>
      obtain ⟨i, sel⟩ := s
      intro w hnd hroom hgeo
      obtain ⟨hnot, hnd'⟩ := List.nodup_cons.mp hnd
      unfold RemoteTable.stageLoop
      split
      case isTrue hz =>
        rw [show active ((i, sel) :: rest) = active rest from
          List.filter_cons_of_neg (by simp [hz])]
        exact ih w hnd' (fun s hs => hroom s (by simp [hs]))
          (fun s hs => hgeo s (by simp [hs]))
      case isFalse hne =>
        rw [show active ((i, sel) :: rest) = (i, sel) :: active rest from
          List.filter_cons_of_pos (by simpa using hne)]
        have hrest : peersOf (active rest)
            ⊆ peersOf ((i, sel) :: active rest) :=
          peersOf_mono fun s hs => by simp [hs]
        have hsub : ({i} : Set PeerId)
            ⊆ peersOf ((i, sel) :: active rest) :=
          single_subset (s := (i, sel)) (by simp)
        have hone := stageOne_spec (s := (i, sel)) hne
          (hroom (i, sel) (by simp)) ids (hgeo (i, sel) (by simp))
        simp only [runs_bind] at hone ⊢
        refine hone.mono ?_ ?_
        case refine_2 =>
          rintro e w' ⟨⟨he, v, hv, hs, rfl⟩, hrb⟩
          exact ⟨⟨he, v, hv, hs.mono hsub, rfl⟩, (i, sel), by simp, hrb⟩
        intro _ w₁ hone'
        refine hone'.mono ?_ ?_
        case refine_2 =>
          rintro e w' ⟨⟨he, v, hv, hs, rfl⟩, hrb⟩
          exact ⟨⟨he, v, hv, hs.mono hsub, rfl⟩, (i, sel), by simp, hrb⟩
        rintro _ w₂ ⟨hs₂, hst₂⟩
        refine (ih w₂ hnd'
          (fun s hs => hs₂.roomy _ (hroom s (by simp [hs])))
          (fun s hs => (hs₂.geometry _).trans (hgeo s (by simp [hs])))).mono
          ?_ ?_
        · rintro _ w' ⟨rfl, hs, hst⟩
          have hself : w'.heap i = w₂.heap i := hs.heap i <| by
            rintro ⟨s, hmem, hi⟩
            exact hnot (List.mem_map.mpr
              ⟨s, (List.mem_filter.mp hmem).1, hi⟩)
          refine ⟨rfl, (hs₂.mono hsub).trans (hs.mono hrest), ?_⟩
          intro s hmem
          rcases List.mem_cons.mp hmem with rfl | hmem
          · exact hst₂.kept (by
              rw [show w'.heap (i, sel).1 = _ from hself]; exact .refl _)
          · exact hst s hmem
        · rintro e w' ⟨⟨he, v, hv, hs, rfl⟩, s, hmem, hrb⟩
          exact ⟨⟨he, v, hv, (hs₂.mono hsub).trans (hs.mono hrest), rfl⟩, s,
            by simp [hmem], hrb⟩

end PleRowServer.Client
