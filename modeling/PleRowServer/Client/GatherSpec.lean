/-
What `gather_cpu` does, both exits. When it returns, every peer that
owns some of the ids is answered and its rows are in the staging at its
positions, which together are all positions; when it raises, either
nothing was sent and nothing changed, or the table is marked unless the
error is one `except Exception` does not take.
-/
import PleRowServer.Client.Sound

namespace PleRowServer.Client

open Base Wire

variable {env : Env} {geo : PeerId → Geometry} {w w' w'' : World env}
  {T : ℚ} {ids : List Int} {i : PeerId} {e : Exn} {evs : Trace}
  {S : Set PeerId} {k : Nat} {l : List Share} {m : Nat}

-- ============================================================== scatter

/-- The row a peer's buffer holds for position `p` of its share. -/
def Share.rowAt (s : Share) (rb : Nat) (rows : List UInt8) (p : Nat) :
    List UInt8 := bytesAt rows (s.2.idxOf p * rb) rb

/-- The same state with other contents in staging memory `m`. -/
def World.withBuf (w : World env) (m : Nat) (b : Buf) : World env :=
  { w with bufs := Function.update w.bufs m b }

/-- `rows[sel] = peer.rows[: sel.size]`, for every peer. -/
theorem placeAll_spec {E : Exn → World env → Prop} :
    ∀ (l : List Share) (w : World env),
      l.Pairwise (fun s s' => List.Disjoint s.2 s'.2) →
      Runs (forEach (RemoteTable.place m) l) w
        (fun _ w' => ∃ b, w' = w.withBuf m b ∧
          (∀ s ∈ l, ∀ p ∈ s.2,
            b.row p = s.rowAt w.table.rowBytes (w.heap s.1).rows p) ∧
          ∀ p, (∀ s ∈ l, p ∉ s.2) → b.row p = (w.bufs m).row p) E := by
  intro l
  induction l with
  | nil =>
      intro w _
      refine ⟨w.bufs m, ?_, by simp, fun p _ => rfl⟩
      simp [World.withBuf]
  | cons s l ih =>
      intro w hdis
      obtain ⟨hs, hl⟩ := List.pairwise_cons.mp hdis
      set b := (w.bufs m).scatter s.2 w.table.rowBytes (w.heap s.1).rows
        with hb
      refine Runs.bind (P := fun _ v => v = w.withBuf m b) rfl ?_
        (fun _ _ h => h)
      rintro _ _ rfl
      refine (ih _ hl).mono ?_ (fun _ _ h => h)
      rintro _ _ ⟨b', rfl, hrow, hrest⟩
      refine ⟨b', by simp [World.withBuf], ?_, ?_⟩
      · intro s' hs' p hp
        rcases List.mem_cons.mp hs' with rfl | hs'
        · rw [hrest p fun t ht hpt => hs t ht hp hpt]
          simp [World.withBuf, hb, Buf.scatter, hp, Share.rowAt]
        · exact hrow s' hs' p hp
      · intro p hp
        have hps : p ∉ s.2 := hp s (by simp)
        rw [hrest p fun t ht => hp t (by simp [ht])]
        simp [World.withBuf, hb, Buf.scatter, hps]

section Buffers

variable {b : Buf}

/-- A peer's answer is no matter of the staging. -/
theorem Answered.withBuf {s : Share} (h : Answered geo T k ids s w) :
    Answered geo T k ids s (w.withBuf m b) := h.congr rfl rfl

/-- The staging is no part of what makes a table sound. -/
theorem Sound.withBuf (h : Sound geo T w) : Sound geo T (w.withBuf m b) :=
  h.keep rfl rfl h.handle (fun _ => rfl)
    (fun i => (h.linked i).congr rfl rfl) h.roomy h.deadline

/-- The staging shows in no history. -/
theorem Called.withBuf (h : Called S evs w w') :
    Called S evs w (w'.withBuf m b) :=
  h.quiet rfl (fun _ _ => rfl) rfl rfl

end Buffers

-- ======================================================= the locked half

/-- A table a gather of `ids` may be run on: nothing is outstanding on
any connection it will use, and no peer it has to reconnect is ahead of
one whose flag still stands from an earlier gather. -/
structure Fit (geo : PeerId → Geometry) (ids : List Int) (w : World env) :
    Prop where
  idle : ∀ s ∈ shares geo ids w.table.peers, (w.line geo s.1).phase = .idle
  stale : (shares geo ids w.table.peers).Pairwise fun s s' =>
    (w.heap s.1).sock = none → (w.heap s'.1).answered = false

/-- A table in sync is fit for any gather. -/
theorem Synced.fit (h : Synced geo w) : Fit geo ids w := by
  refine ⟨fun s hs => (h _ (mem_shares.mp hs).1).idle, ?_⟩
  refine List.Pairwise.imp_of_mem ?_
    (List.pairwise_of_forall fun _ _ => trivial)
  intro s s' hs _ _ hn
  exact absurd hn (h _ (mem_shares.mp hs).1).sock

/-- When the deadline of a gather that starts in `w` passes. -/
def World.due (w : World env) : ℚ :=
  env.now w.called.tr + w.table.gatherDeadline

/-- A gather that returned. -/
structure Gathered (geo : PeerId → Geometry) (T : ℚ) (ids : List Int)
    (w w' : World env) : Prop where
  called : ∃ evs, Called (peersOf (shares geo ids w.table.peers)) evs w w' ∧
    Trace.Calm evs ∧
    (drawn evs).length ≤ 6 * (shares geo ids w.table.peers).length
  sound : Sound geo T w'
  failed : w'.table.failed = w.table.failed
  staging : w'.table.staging = w.table.staging
  each : ∀ s ∈ shares geo ids w.table.peers, Answered geo T 3 ids s w'
  cover : ∀ p < ids.length, ∃ s ∈ shares geo ids w.table.peers, p ∈ s.2
  rows : ∃ m, w.table.staging = some m ∧ (∀ n ≠ m, w'.bufs n = w.bufs n) ∧
    ∀ s ∈ shares geo ids w.table.peers, ∀ p ∈ s.2, (w'.bufs m).row p
      = s.rowAt w.table.rowBytes (w'.heap s.1).rows p

/-- What an error leaves of a peer it was raised past. -/
structure Parted (geo : PeerId → Geometry) (e : Exn) (i : PeerId)
    (w : World env) : Prop where
  asked : (w.line geo i).asked.length ≤ 3
  clear : e.isException = true → (w.line geo i).phase ≠ .doubt
  dropped : e.isOS = true → (w.line geo i).answered = false →
    (w.line geo i).conn = none

/-- What a gather that raises keeps, wherever it does. -/
structure Abandoned (geo : PeerId → Geometry) (T : ℚ) (ids : List Int)
    (w : World env) (e : Exn) (w' : World env) : Prop where
  called : ∃ evs, Called (peersOf (shares geo ids w.table.peers)) evs w w' ∧
    Trace.EndsBy e evs ∧
    (drawn evs).length ≤ 6 * (shares geo ids w.table.peers).length
  sound : Sound geo T w'
  staging : w'.table.staging = w.table.staging
  bufs : w'.bufs = w.bufs
  parted : ∀ s ∈ shares geo ids w.table.peers, Parted geo e s.1 w'
  bounded : env.Timely → Enough w.due env.rounds w.called →
    e ≠ .outOfRounds

/-- Raised before anything was sent or staged. -/
structure Declined (geo : PeerId → Geometry) (T : ℚ) (ids : List Int)
    (w : World env) (e : Exn) (w' : World env) : Prop
    extends Abandoned geo T ids w e w' where
  failed : w'.table.failed = w.table.failed
  heap : w'.heap = w.heap
  tr : w'.tr = w.tr ++ [.call, .raised e]
  why : (∃ i ∈ w.table.peers,
      w.table.maxRows < ((geo i).owned ids).length) ∨
    (routed geo ids w.table.peers).length ≠ ids.length

/-- Why the part of a gather whose errors mark the table fails. -/
def Motive (geo : PeerId → Geometry) (T : ℚ) (ids : List Int)
    (w w' : World env) : Prop :=
  w.table.staging = none ∨
    (∃ s ∈ shares geo ids w.table.peers, (geo s.1).rowBytes = 0) ∨
    Reason geo T w.due (shares geo ids w.table.peers) w.called w'

/-- Raised by that part. -/
structure Wrecked (geo : PeerId → Geometry) (T : ℚ) (ids : List Int)
    (w : World env) (e : Exn) (w' : World env) : Prop
    extends Abandoned geo T ids w e w' where
  failed : w'.table.failed
    = if e.isException then some e.report else w.table.failed
  why : Motive geo T ids w w'

section Locked

/-- A peer that answered parts well. -/
theorem Answered.parted {s : Share} (h : Answered geo T 3 ids s w) :
    Parted geo e s.1 w := by
  obtain ⟨c, l, req, ans, -, -, hp, -, hl, -⟩ := h.line
  refine ⟨by rw [hl]; exact hp, fun _ => by rw [hl]; simp, fun _ ha => ?_⟩
  rw [hl] at ha
  cases ha

/-- Whoever an exchange ends on parts well. -/
theorem Ended.parted {D : ℚ} {n : Nat} {todo : List Share}
    (h : Ended geo T D 3 ids todo n w e w') {s : Share} (hs : s ∈ todo) :
    Parted geo e s.1 w' := by
  rcases h.each s hs with ha | ⟨ht, hos, hex⟩
  · exact ha.parted
  · exact ⟨ht.asked, hex, fun he _ => hos he⟩

/-- A peer no request of this call has gone to. -/
theorem parted_called (hidle : (w.line geo i).phase = .idle)
    (hl : w'.line geo i = w.called.line geo i) (he : e.isOS = false) :
    Parted geo e i w' := by
  rw [line_called] at hl
  refine ⟨by rw [hl]; simp [Line.onCall], fun _ => ?_, fun hos => ?_⟩
  · rw [hl]; simp [Line.onCall, hidle]
  · rw [he] at hos; cases hos

/-- The part of a call before its exchange: nothing on the wire yet. -/
structure Opening (geo : PeerId → Geometry) (T : ℚ) (S : Set PeerId)
    (w v : World env) : Prop where
  called : Called S [] w v
  sound : Sound geo T v
  failed : v.table.failed = w.table.failed
  staging : v.table.staging = w.table.staging
  bufs : v.bufs = w.bufs
  peer : ∀ i, (w.heap i).Stocked (v.heap i)

/-- Nothing has passed yet. -/
theorem Opening.tr (h : Opening geo T S w w') : w'.tr = w.called.tr :=
  h.called.tr

/-- In the opening of a gather no line moves. -/
theorem Opening.line (h : Opening geo T S w w') (i : PeerId) :
    w'.line geo i = w.called.line geo i := line_of_tr h.tr i

/-- The selections of a gather are recorded. -/
theorem Opening.selected (h : Sound geo T w) (S : Set PeerId)
    {sel : List (List Nat)} (hlen : sel.length = w.table.sel.length) :
    Opening geo T S w (w.called.withSel sel) where
  called := (Called.refl w S).quiet rfl (fun _ _ => rfl) rfl rfl
  sound := h.called.keep rfl hlen h.handle (fun _ => rfl)
    (fun i => (h.called.linked i).congr rfl rfl) h.roomy h.deadline
  failed := rfl
  staging := rfl
  bufs := rfl
  peer _ := .refl _

/-- Buffers may be provided in the opening of a gather. -/
theorem Opening.stocked (h : Opening geo T S w w')
    (hs : Stocks S w' w'') : Opening geo T S w w'' where
  called := h.called.quiet hs.tr hs.heap (by rw [hs.table])
    (by rw [hs.table])
  sound := h.sound.keep (by rw [hs.table]) (by rw [hs.table])
    (by rw [hs.table]; exact h.sound.handle) hs.geometry
    (fun i => (h.sound.linked i).stocks hs)
    (fun i => hs.roomy i (h.sound.roomy i)) (fun i => by
      obtain ⟨q, r, n, hi⟩ := hs.peer i
      rw [hi]
      exact h.sound.deadline i)
  failed := by rw [hs.table]; exact h.failed
  staging := by rw [hs.table]; exact h.staging
  bufs := hs.bufs.trans h.bufs
  peer i := (h.peer i).trans (hs.peer i)

/-- All there is to see is the error. -/
theorem Opening.raise_tr (h : Opening geo T S w w') (he) :
    (w'.push (.raised e) he).tr = w.tr ++ [.call, .raised e] := by
  rw [World.push_tr, h.tr]
  exact List.append_assoc _ _ _

/-- Raised before the exchange. -/
theorem Opening.raise (h : Opening geo T
      (peersOf (shares geo ids w.table.peers)) w w') (hfit : Fit geo ids w)
    (he) (hos : e.isOS = false) (hne : e ≠ .outOfRounds) :
    Abandoned geo T ids w e (w'.push (.raised e) he) where
  called := ⟨_, h.called.raise e he, ⟨[], rfl, Trace.calm_nil⟩, by simp⟩
  sound := h.sound.moves (.push (S := ∅) he (by intro c hc; cases hc) rfl)
    (by simp)
  staging := h.staging
  bufs := h.bufs
  parted s hs := parted_called (hfit.idle s hs)
    ((line_raise e he s.1).trans (h.line s.1)) hos
  bounded _ _ := hne

/-- The exchange of a gather may start. -/
theorem Opening.primed (h : Opening geo T
      (peersOf (shares geo ids w.table.peers)) w w') (hs : Sound geo T w)
    (hfit : Fit geo ids w)
    (hst : ∀ s ∈ shares geo ids w.table.peers, Staged geo ids s w') :
    Primed geo T ids (shares geo ids w.table.peers) w' where
  nodup := nodup_shares hs.nodup
  nonneg := hs.nonneg
  timeout := h.sound.timeout
  unasked s hmem := by
    have hl : w'.line geo s.1 = (w.line geo s.1).onCall := by
      rw [h.line, line_called]
    refine ⟨⟨h.sound.linked s.1, by rw [hl]; rfl, by rw [hl]; simp [Line.onCall]⟩,
      by rw [hl]; exact hfit.idle s hmem, fun c _ => ?_⟩
    rw [hl]
    exact ⟨by simp [Line.onCall, Line.checked], by simp [Line.onCall]⟩
  staged := hst
  deadline s _ := h.sound.deadline s.1
  stale := hfit.stale.imp fun {s s'} hss hn => by
    obtain ⟨q, r, n, hp⟩ := h.peer s.1
    obtain ⟨q', r', n', hp'⟩ := h.peer s'.1
    rw [hp] at hn
    rw [hp']
    exact hss hn

/-- The exchange of a gather that raised. -/
theorem Opening.ended (h : Opening geo T
      (peersOf (shares geo ids w.table.peers)) w w')
    (he : Ended geo T w.due 3 ids (shares geo ids w.table.peers)
      (6 * (shares geo ids w.table.peers).length) w' e w'') :
    Abandoned geo T ids w e w'' ∧ w''.table.failed = w.table.failed ∧
      Motive geo T ids w w'' := by
  obtain ⟨evs, hm, hends⟩ := he.fail
  have hdrew := he.drew
  have ht : w''.table = _ := hm.table
  refine ⟨⟨⟨evs, h.called.moves hm, hends, ?_⟩, h.sound.moves hm ?_, ?_,
    hm.bufs.trans h.bufs, fun s hs => he.parted hs, fun hty hen =>
      he.bounded hty ?_⟩, ?_, .inr (.inr ?_)⟩
  · unfold Drew at hdrew
    rw [hm.tr, drawn_append, List.length_append] at hdrew
    omega
  · rintro i ⟨s, hs, rfl⟩
    rcases he.each s hs with ha | ⟨htorn, -⟩
    · exact ha.linked
    · exact htorn.linked
  · rw [ht]; exact h.staging
  · have : env.now w'.tr = env.now w.called.tr := by rw [h.tr]
    unfold Enough at hen ⊢
    rw [this]
    exact hen
  · rw [ht]; exact h.failed
  · refine .imp ?_ (.imp_right fun hc => ?_) he.reason
    · rintro ⟨s, hs, hn⟩
      obtain ⟨q, r, n, hp⟩ := h.peer s.1
      rw [hp] at hn
      exact ⟨s, hs, hn⟩
    · exact hc.after ⟨[], by rw [List.append_nil, h.tr]⟩

/-- The part of a gather whose errors mark the table. -/
theorem work_spec (hs : Sound geo T w) (hfit : Fit geo ids w)
    (hne : shares geo ids w.table.peers ≠ [])
    (hcover : ∀ p < ids.length,
      ∃ s ∈ shares geo ids w.table.peers, p ∈ s.2) :
    Runs (do
        let todo ← RemoteTable.stageLoop ids (w.table.peers.zip
          (w.table.peers.map fun i => (geo i).owned ids))
        RemoteTable.exchange todo
        RemoteTable.scatter todo : M env Unit)
      (w.called.withSel (w.table.peers.map fun i => (geo i).owned ids))
      (fun _ w' => Gathered geo T ids w w')
      (fun e w' => Abandoned geo T ids w e w' ∧
        w'.table.failed = w.table.failed ∧ Motive geo T ids w w') := by
  set todo := shares geo ids w.table.peers with htodo
  have hopen : Opening geo T (peersOf todo) w
      (w.called.withSel (w.table.peers.map fun i => (geo i).owned ids)) :=
    .selected hs _ (by rw [List.length_map, hs.sel])
  have hzip : w.table.peers.zip
      (w.table.peers.map fun i => (geo i).owned ids)
      = w.table.peers.map fun i => (i, (geo i).owned ids) :=
    List.map_prod_left_eq_zip.symm
  rw [hzip]
  have hfst : (w.table.peers.map fun i => (i, (geo i).owned ids)).map
      Prod.fst = w.table.peers := by
    rw [List.map_map]
    exact List.map_id _
  have hgeo : ∀ s ∈ w.table.peers.map fun i => (i, (geo i).owned ids),
      (w.heap s.1).geometry = geo s.1 := by
    intro s hmem
    refine hs.geometry s.1 ?_
    have := List.mem_map_of_mem (f := Prod.fst) hmem
    rwa [hfst] at this
  refine Runs.bind (stageLoop_spec _ _ (by rw [hfst]; exact hs.nodup)
    (fun s _ => hopen.sound.roomy s.1) hgeo) ?_ ?_
  case refine_2 =>
    rintro e w' ⟨⟨rfl, v, hv, hstock, rfl⟩, s, hmem, hz⟩
    have hv' := hopen.stocked hstock
    exact ⟨hv'.raise hfit hv rfl (by simp), hv'.failed,
      .inr (.inl ⟨s, hmem, hz⟩)⟩
  rintro _ w₁ ⟨rfl, hstock, hst⟩
  have hopen₁ := hopen.stocked hstock
  refine Runs.bind (exchange_spec (T := T) hne
    (hopen₁.primed hs hfit hst)) ?_ ?_
  case refine_2 =>
    intro e w' he
    refine hopen₁.ended ?_
    have hdue : env.now w₁.tr + w₁.table.gatherDeadline = w.due := by
      rw [hopen₁.tr, setup_gatherDeadline hopen₁.called.setup]
      rfl
    rw [← hdue]
    exact he
  rintro _ w₂ ⟨⟨evs, hm, hcalm⟩, hdrew, hans⟩
  have hcalled := hopen₁.called.moves hm
  have hsound : Sound geo T w₂ := hopen₁.sound.moves hm <| by
    rintro i ⟨s, hmem, rfl⟩
    exact (hans s hmem).linked
  have htab : w₂.table = _ := hm.table
  have hstag : w₂.table.staging = w.table.staging := by
    rw [htab]; exact hopen₁.staging
  have hfailed : w₂.table.failed = w.table.failed := by
    rw [htab]; exact hopen₁.failed
  have hbufs : w₂.bufs = w.bufs := hm.bufs.trans hopen₁.bufs
  have hfew : (drawn evs).length ≤ 6 * todo.length := by
    have hdrew : (drawn w₂.tr).length ≤ (drawn w₁.tr).length
      + 6 * todo.length := hdrew
    rw [hm.tr, drawn_append, List.length_append] at hdrew
    omega
  unfold RemoteTable.scatter
  simp only [runs_bind, runs_self]
  rw [hsound.handle, hstag]
  cases hm' : w.table.staging with
  | none =>
      have hans' : ∀ s ∈ todo, Answered geo T 3 ids s
          (w₂.push (.raised .noStaging) (env.produces_raised w₂.tr _)) :=
        fun s hmem => (hans s hmem).congr rfl (line_raise .noStaging _ s.1)
      simp only [runs_raise]
      refine ⟨⟨⟨_, hcalled.raise _ _, hcalm.endsBy ⟨[], rfl, Trace.calm_nil⟩,
        by simpa using hfew⟩, hsound.moves (.push (S := ∅) _
        (by intro c hc; cases hc) rfl) (by simp), hstag, hbufs,
        fun s hmem => (hans' s hmem).parted, by simp⟩, hfailed, .inl hm'⟩
  | some m =>
      have hdis : todo.Pairwise fun s s' => List.Disjoint s.2 s'.2 := by
        refine List.Pairwise.filter _ (List.pairwise_map.mpr ?_)
        exact hs.tiled.disjoint ids
      refine (placeAll_spec todo w₂ hdis).mono ?_ (fun _ _ hf => hf)
      rintro _ _ ⟨b, rfl, hrow, -⟩
      refine ⟨⟨evs, hcalled.withBuf, hcalm, hfew⟩, hsound.withBuf, hfailed,
        hstag, fun s hmem => (hans s hmem).withBuf, hcover, m, hm', ?_, ?_⟩
      · intro n hn
        rw [← hbufs]
        exact Function.update_of_ne hn b w₂.bufs
      · intro s hmem p hp
        rw [← setup_rowBytes hcalled.setup]
        refine Eq.trans ?_ (hrow s hmem p hp)
        simp [World.withBuf]

/-- Every position routed is in some share. -/
theorem cover_shares (hs : Sound geo T w)
    (hlen : (routed geo ids w.table.peers).length = ids.length) :
    ∀ p < ids.length, ∃ s ∈ shares geo ids w.table.peers, p ∈ s.2 := by
  intro p hp
  obtain ⟨i, hi, hmem⟩ := mem_routed.mp (hs.tiled.routed_all hlen hp)
  exact ⟨(i, (geo i).owned ids), mem_shares.mpr ⟨hi, rfl,
    List.ne_nil_of_mem hmem⟩, hmem⟩

/-- The mark a table is left with. -/
theorem Wrecked.poisoned (h : Abandoned geo T ids w e w')
    (hwhy : Motive geo T ids w w') (hex : e.isException = true) :
    Wrecked geo T ids w e
      { w' with table := { w'.table with failed := some e.report } } where
  called := by
    obtain ⟨evs, hc, hends, hfew⟩ := h.called
    exact ⟨evs, hc.quiet rfl (fun _ _ => rfl) rfl rfl, hends, hfew⟩
  sound := h.sound.keep rfl rfl h.sound.handle (fun _ => rfl)
    (fun i => (h.sound.linked i).congr rfl rfl) h.sound.roomy
    h.sound.deadline
  staging := h.staging
  bufs := h.bufs
  parted s hs := ⟨(h.parted s hs).asked, (h.parted s hs).clear,
    (h.parted s hs).dropped⟩
  bounded := h.bounded
  failed := by simp [hex]
  why := hwhy

/-- `gather_cpu` under the table lock. -/
theorem gatherLocked_spec (hs : Sound geo T w) (hids : ids ≠ [])
    (hfit : Fit geo ids w) :
    Runs (RemoteTable.gatherLocked ids) w
      (fun _ w' => Gathered geo T ids w w')
      (fun e w' => Declined geo T ids w e w' ∨
        Wrecked geo T ids w e w') := by
  unfold RemoteTable.gatherLocked RemoteTable.partition
  simp only [runs_bind, runs_mark, runs_self]
  have hpart := partitionLoop_spec ids w.table.peers [] 0 w.called
    hs.geometry ⟨w.table.sel, rfl, hs.sel⟩
  refine hpart.mono ?_ ?_
  case refine_2 =>
    rintro _ _ ⟨⟨a, b, c, rfl⟩, ⟨sel, hlen, he, rfl⟩, i, hi, hover⟩
    have hopen := Opening.selected hs
      (peersOf (shares geo ids w.table.peers)) hlen
    exact .inl ⟨hopen.raise hfit he rfl (by simp), rfl, rfl,
      hopen.raise_tr he, .inl ⟨i, hi, hover⟩⟩
  rintro _ _ ⟨rfl, rfl, -⟩
  rw [List.nil_append, Nat.zero_add]
  have hopen := Opening.selected hs
    (peersOf (shares geo ids w.table.peers))
    (show (w.table.peers.map fun i => (geo i).owned ids).length
      = w.table.sel.length by rw [List.length_map, hs.sel])
  split
  case isTrue hne =>
    unfold RemoteTable.raiseUnroutable
    simp only [runs_bind, runs_self, runs_raise]
    exact .inl ⟨hopen.raise hfit _ rfl (by simp), rfl, rfl,
      hopen.raise_tr _, .inr hne⟩
  case isFalse heq =>
    have hcover := cover_shares hs (not_not.mp heq)
    have hne : shares geo ids w.table.peers ≠ [] := by
      obtain ⟨s, hmem, -⟩ := hcover 0 (List.length_pos_iff.mpr hids)
      exact List.ne_nil_of_mem hmem
    simp only [runs_bind, runs_self]
    refine Runs.catching (work_spec hs hfit hne hcover) ?_ ?_
    · rintro e w' ⟨hab, -, hwhy⟩ hex
      exact .inr (.poisoned hab hwhy hex)
    · rintro e w' ⟨hab, hfailed, hwhy⟩ hex
      exact .inr ⟨hab, by simp [hex, hfailed], hwhy⟩

end Locked

end PleRowServer.Client
