/-
What an exchange puts on the wire: STAT headers, and to each peer asked
GATHERs for exactly its share, whichever attempt sends them and however
the exchange ends. The proof is an instance of Sites.lean: only the two
sends add to what was sent, and a GATHER is built from the ids staged in
the peer's buffer, which no other place writes.
-/
import PleRowServer.Client.Sites
import PleRowServer.Client.CallSpec
import PleRowServer.Client.Honest

namespace PleRowServer.Client

open Base Wire

variable {env : Env} {geo : PeerId → Geometry} {w w₀ w' : World env}
  {i : PeerId} {D : ℚ} {ids : List Int} {todo : List Share} {e : Exn}
  {P : PeerId → List UInt8 → Prop}

-- ================================================================ posting

/-- The entry hands no bytes to sendall. -/
def Ev.NoSend : Ev → Prop
  | .send .. => False
  | _ => True

/-- Since `w₀` only bytes that `P` permits were handed to a peer's
socket, and the ids staged are those staged then. -/
structure Posted (P : PeerId → List UInt8 → Prop) (w₀ w : World env) :
    Prop where
  length : ∀ i, (w.heap i).req.length = (w₀.heap i).req.length
  staged : ∀ i, (w.heap i).req.drop HEADER = (w₀.heap i).req.drop HEADER
  own : ∀ i c, (w.heap i).sock = some c → c.peer = i
  sent : ∃ evs, w.tr = w₀.tr ++ evs ∧
    ∀ c data r, Ev.send c data r ∈ evs → P c.peer data

namespace Posted

/-- Nothing was sent yet. -/
theorem refl (h : ∀ i c, (w.heap i).sock = some c → c.peer = i) :
    Posted P w w :=
  ⟨fun _ => rfl, fun _ => rfl, h, [], (List.append_nil _).symm, by simp⟩

/-- A send is another request `P` allows. -/
theorem pushSent (h : Posted P w₀ w) {x : Ev} (hx)
    (hp : ∀ c data r, x = .send c data r → P c.peer data) :
    Posted P w₀ (w.push x hx) := by
  obtain ⟨evs, htr, hsent⟩ := h.sent
  refine ⟨h.length, h.staged, h.own, evs ++ [x], ?_, ?_⟩
  · rw [World.push_tr, htr, List.append_assoc]
  · intro c data r hmem
    rcases List.mem_append.mp hmem with hmem | hmem
    · exact hsent c data r hmem
    · exact hp c data r (List.mem_singleton.mp hmem).symm

/-- An entry that sends nothing. -/
theorem push (h : Posted P w₀ w) {x : Ev} (hx) (hn : x.NoSend) :
    Posted P w₀ (w.push x hx) :=
  h.pushSent hx fun c data r he => by rw [he] at hn; exact hn.elim

/-- An assignment to a peer keeps the ids staged and gives it no
other's socket. -/
theorem setPeer (h : Posted P w₀ w) {p : Peer}
    (hlen : p.req.length = (w.heap i).req.length)
    (hids : p.req.drop HEADER = (w.heap i).req.drop HEADER)
    (hown : ∀ c, p.sock = some c → c.peer = i) :
    Posted P w₀ (w.setPeer i p) := by
  refine ⟨fun j => ?_, fun j => ?_, fun j c => ?_, h.sent⟩ <;>
    by_cases hj : j = i
  · subst hj; rw [World.setPeer_self]; exact hlen.trans (h.length j)
  · rw [World.setPeer_ne _ hj]; exact h.length j
  · subst hj; rw [World.setPeer_self]; exact hids.trans (h.staged j)
  · rw [World.setPeer_ne _ hj]; exact h.staged j
  · subst hj; rw [World.setPeer_self]; exact hown c
  · rw [World.setPeer_ne _ hj]; exact h.own j c

section Calls

/-- What raises sends nothing. -/
theorem keepsRaise {α : Type} (e : Exn) :
    Keeps (Posted P w₀) (raise e : M env α) :=
  fun _ h => h.push _ trivial

/-- A look at the clock sends nothing. -/
theorem keepsNow : Keeps (Posted P w₀) (now : M env _) := by
  intro w h
  rw [runs_now]
  exact fun _ ht => h.push ht trivial

/-- A look at the socket sends nothing. -/
theorem keepsSocket (i : PeerId) :
    Keeps (Posted P w₀) (Peer.socket i : M env _) := by
  unfold Peer.socket
  refine .bind (fun _ h => h) fun p => ?_
  split
  · exact .pure _
  · exact keepsRaise _

/-- Setting the timeout before a call sends nothing. -/
theorem keepsArm (i : PeerId) :
    Keeps (Posted P w₀) (Peer.arm i : M env _) := by
  unfold Peer.arm
  refine .bind (fun _ h => h) fun p => .bind ?_ fun b => ?_
  · unfold Peer.budget
    split
    · exact .pure _
    · refine .bind keepsNow fun t => ?_
      exact .guard (fun _ => keepsRaise _) (.pure _)
  · refine .ite (fun _ => ?_) fun _ => .pure _
    refine .bind (keepsSocket i) fun c => .bind ?_ fun _ => ?_
    · exact fun w h => h.push (env.produces_settimeout w.tr c b) trivial
    · exact fun w h => h.setPeer rfl rfl (h.own i)

/-- A read sends nothing. -/
theorem keepsRecv (i : PeerId) (want : Nat) :
    Keeps (Posted P w₀) (Peer.recv i want : M env _) := by
  unfold Peer.recv
  refine .bind (keepsArm i) fun _ => .bind (fun _ h => h) fun p => ?_
  refine .bind (keepsSocket i) fun c => .bind ?_ fun r => ?_
  · intro w h
    rw [runs_sysRecv]
    exact fun _ hr => h.push hr trivial
  · split
    · exact .pure _
    all_goals exact keepsRaise _

/-- A peer's own socket is the only one it sends on. -/
theorem keepsSend {data : List UInt8} (hp : P i data) :
    Keeps (Posted P w₀) (Peer.sendall i data : M env _) := by
  unfold Peer.sendall
  refine .bind (keepsArm i) fun _ w h => ?_
  unfold Peer.socket
  simp only [runs_bind, runs_peer]
  cases hs : (w.heap i).sock with
  | none => exact h.push _ trivial
  | some c =>
      simp only [runs_pure, runs_sysSend]
      intro r hr
      have h' : Posted P w₀ (w.push (.send c data r) hr) := by
        refine h.pushSent hr fun c' data' r' he => ?_
        obtain ⟨rfl, rfl, -⟩ := Ev.send.inj he
        rw [h.own i c hs]
        exact hp
      cases r with
      | all => exact h'
      | fault why n => exact keepsRaise _ _ h'
      | interrupt n => exact keepsRaise _ _ h'

/-- A connect sends nothing. -/
theorem keepsConnect (i : PeerId) (ct timeout : ℚ) :
    Keeps (Posted P w₀) (Peer.connect i ct timeout : M env _) := by
  intro w h
  unfold Peer.connect createConnection
  simp only [runs_bind, runs_peer]
  split
  · exact h.push _ trivial
  simp only [runs_bind, runs_sysConnect]
  intro r hr
  have h' := h.push hr trivial
  cases r with
  | fault why => exact h'.push _ trivial
  | interrupt => exact h'.push _ trivial
  | ok =>
      simp only [runs_pure]
      split
      · exact h'.push _ trivial
      simp only [runs_bind, runs_settimeout, runs_modifyPeer]
      have h₁ := h'.push (env.produces_settimeout _ (w.nextConn i) timeout)
        trivial
      have h₂ := h₁.setPeer (i := i) (p := { w.heap i with
        sock := some (w.nextConn i), timeout := timeout, armed := timeout })
        rfl rfl (by
          intro c hc
          rw [← Option.some.inj hc]
          rfl)
      refine Runs.mono (Q := fun _ v => Posted P w₀ v)
        (E := fun _ v => Posted P w₀ v) ?_ ?_ (fun _ _ hv => hv)
      · unfold getpeername
        simp only [runs_bind, runs_sysPeername]
        intro r hr
        have h₃ := h₂.push hr trivial
        cases r with
        | ok addr => exact h₃
        | error why => exact keepsRaise _ _ h₃
      · intro addr v hv
        exact hv.setPeer rfl rfl (hv.own i)

/-- A sleep sends nothing. -/
theorem keepsSleep (t : ℚ) : Keeps (Posted P w₀) (sleep t : M env _) := by
  intro w h
  refine runs_sleep (fun ht => h.push ht trivial) ?_
  intro r ht e he _ _
  exact (h.push ht trivial).push he trivial

/-- Connects with sleeps in between send nothing. -/
theorem keepsConnectLoop (i : PeerId) :
    ∀ (rounds : Nat) (pause : ℚ), Keeps (Posted P w₀)
      (RemoteTable.connectLoop i D rounds pause : M env _) := by
  intro rounds
  induction rounds with
  | zero => intro pause; exact keepsRaise _
  | succ rounds ih =>
      intro pause
      unfold RemoteTable.connectLoop
      refine .bind keepsNow fun t => .bind (fun _ h => h) fun t' => ?_
      refine Keeps.catching (keepsConnect i _ _) fun e =>
        .bind keepsNow fun u => ?_
      simp only
      refine .ite (fun _ => ?_) fun _ => ?_
      · refine .bind (fun _ h => h) fun p => .bind (keepsRaise _) fun _ => ?_
        exact .bind (keepsSleep _) fun _ => ih _
      · exact .bind (keepsSleep _) fun _ => ih _

/-- A close sends nothing. -/
theorem keepsClose (i : PeerId) (abort : Bool) :
    Keeps (Posted P w₀) (Peer.close i abort : M env _) := by
  intro w h
  unfold Peer.close
  simp only [runs_bind, runs_peer, runs_modifyPeer]
  have h' := h.setPeer (i := i)
    (p := { w.heap i with sock := none, pending := none }) rfl rfl
    (by intro c hc; cases hc)
  cases (w.heap i).sock with
  | none => exact h'
  | some c => exact h'.push (env.produces_close _ c abort) trivial

end Calls

end Posted

-- ============================================================ what is sent

/-- What an exchange sends to peer `i`: a STAT, or a GATHER for the share
the peer was staged. -/
def Permits (ids : List Int) (todo : List Share) (i : PeerId)
    (data : List UInt8) : Prop :=
  Daemon.Known data ∧ (opOf data = OP_STAT ∧ countOf data = 0 ∨
    ∃ s ∈ todo, s.1 = i ∧ Request ids s data)

/-- A server knows a packed header. -/
theorem packRequest_known {op id count : Nat} {hdr : List UInt8}
    (h : Peer.packRequest op 0 id count = some hdr) (more : List UInt8) :
    Daemon.Known (hdr ++ more) := by
  have hlen : hdr.length = 16 := length_of_pack h
  have hf := fieldsAt_of_pack h
  simp only [fieldsAt, Code.width, Nat.zero_add, Nat.reduceAdd,
    List.cons.injEq, and_true] at hf
  obtain ⟨hm, hv, -⟩ := hf
  refine ⟨?_, ?_⟩
  · rw [natAt_append_left (by omega)]; exact hm
  · rw [natAt_append_left (by omega)]; exact hv

/-- `send_bare` with STAT. -/
theorem Posted.keepsStat (i : PeerId) (id : Nat) :
    Keeps (Posted (Permits ids todo) w₀)
      (Peer.sendBare i OP_STAT id : M env _) := by
  unfold Peer.sendBare
  split
  · exact keepsRaise _
  case h_2 hdr hpack =>
    have hk := packRequest_known hpack []
    have ha := (packRequest_asks hpack
      (show ([] : List UInt8).length = 4 * 0 from rfl)).2
    rw [List.append_nil] at hk ha
    refine .bind (keepsSend ⟨hk, .inl ⟨ha.op, ha.count⟩⟩) fun _ => ?_
    exact fun w h => h.setPeer rfl rfl (h.own i)

/-- `send_gather` for a share staged. -/
theorem Posted.keepsGather {s : Share} (hs : s ∈ todo)
    (hst : Staged geo ids s w₀) (id : Nat) :
    Keeps (Posted (Permits ids todo) w₀)
      (Peer.sendGather s.1 id s.2.length : M env _) := by
  unfold Peer.sendGather
  split
  · exact keepsRaise _
  case h_2 hdr hpack =>
    intro w h
    have hlen : hdr.length = HEADER := length_of_pack hpack
    have hroom : HEADER + 4 * s.2.length ≤ (w.heap s.1).req.length := by
      rw [h.length]
      exact hst.req
    obtain ⟨hdata, hids⟩ := gather_data hlen hroom
    set req := (w.heap s.1).req with hreq
    have hsplice : Posted (Permits ids todo) w₀ (w.setPeer s.1
        { w.heap s.1 with req := splice req 0 hdr }) := by
      refine h.setPeer (length_splice (Nat.zero_le _)) ?_ (h.own s.1)
      exact drop_splice (by omega) (by omega)
    have hstaged : (req.drop HEADER).take (4 * s.2.length)
        = idBytes (s.ids ids) := by
      rw [hreq, h.staged]
      exact hst.bytes
    have hpermits : Permits ids todo s.1
        ((splice req 0 hdr).take (HEADER + 4 * s.2.length)) := by
      rw [hdata]
      have hasks := (packRequest_asks hpack hids).2
      refine ⟨packRequest_known hpack _, .inr ⟨s, hs, rfl, ?_, ?_⟩⟩
      · rw [hasks.id]; exact hasks
      · rw [hstaged, ← hlen, List.drop_left]
    simp only [runs_bind, runs_modifyPeer, runs_peer, World.setPeer_self]
    refine (keepsSend hpermits _ hsplice).mono ?_ (fun _ _ hv => hv)
    exact fun _ v hv => hv.setPeer rfl rfl (hv.own s.1)

/-- An exchange sends STATs and the GATHERs of its shares only. -/
theorem posted_sites (hst : ∀ s ∈ todo, Staged geo ids s w₀) :
    Sites (Posted (Permits ids todo) w₀)
      (fun _ => Posted (Permits ids todo) w₀) D todo := by
  have hcalls : Calls (Posted (Permits ids todo) w₀)
      (fun _ => Posted (Permits ids todo) w₀) D todo := by
    refine ⟨?_, ?_, ?_, ?_, ?_, ?_, ?_⟩
    · intro w e he h hn
      exact h.push he (by cases e <;> trivial)
    · intro w e he h
      exact h.push he trivial
    · intro w i h
      have hset : Posted (Permits ids todo) w₀
          { w with table := { w.table with reqId := w.nextId } } :=
        ⟨h.length, h.staged, h.own, h.sent⟩
      exact hset.push _ trivial
    · intro w i p _ h hp
      exact h.setPeer (by rw [hp.req]) (by rw [hp.req])
        (by rw [hp.sock]; exact h.own i)
    · intro s _ want
      exact Posted.keepsRecv s.1 want
    · intro s hs id
      exact Posted.keepsGather hs (hst s hs) id
    · intro w t ht cs r hr h _
      exact (h.push ht trivial).push hr trivial
  refine hcalls.sites ?_ ?_ ?_
  · intro s _
    exact Posted.keepsConnectLoop s.1 env.rounds (1 / 2)
  · intro s _ id
    exact Posted.keepsStat s.1 id
  · intro s _
    exact Posted.keepsClose s.1 true

/-- Deadlines are no business of the wire. -/
theorem Posted.deadlines {d : Option ℚ} (h : Posted P w₀ w) :
    Posted P w₀ (RemoteTable.setDeadlines todo d w) := by
  have hheap : ∀ i, ((RemoteTable.setDeadlines todo d w).heap i).sock
      = (w.heap i).sock ∧ ((RemoteTable.setDeadlines todo d w).heap i).req
      = (w.heap i).req := by
    intro i
    unfold RemoteTable.setDeadlines
    by_cases hi : i ∈ todo.map Prod.fst
    · simp only [hi, if_true, and_self]
    · simp only [hi, if_false, and_self]
  refine ⟨fun i => ?_, fun i => ?_, fun i c hc => ?_, h.sent⟩
  · rw [(hheap i).2]; exact h.length i
  · rw [(hheap i).2]; exact h.staged i
  · rw [(hheap i).1] at hc; exact h.own i c hc

/-- `_exchange`. -/
theorem exchange_posted (hst : ∀ s ∈ todo, Staged geo ids s w)
    (hown : ∀ i c, (w.heap i).sock = some c → c.peer = i) :
    Runs (RemoteTable.exchange todo) w
      (fun _ w' => Posted (Permits ids todo) w w')
      (fun _ w' => Posted (Permits ids todo) w w') := by
  unfold RemoteTable.exchange
  simp only [runs_bind, runs_now, runs_self, runs_modify, runs_cleaning]
  intro t ht
  have h₀ : Posted (Permits ids todo) w (w.push (.now t) ht) :=
    (Posted.refl hown).push ht trivial
  refine Runs.mono (Q := fun _ v => Posted (Permits ids todo) w v)
    (E := fun _ v => Posted (Permits ids todo) w v) ?_
    (fun _ _ hv => hv.deadlines) (fun _ _ hv => hv.deadlines)
  exact (posted_sites hst).attempts GATHER_ATTEMPTS todo (fun _ hs => hs) _
    h₀.deadlines

-- ============================================================== a gather

/-- Between `w` and `w'` only what `P` permits was sent. -/
def Sends (P : PeerId → List UInt8 → Prop) (w w' : World env) : Prop :=
  ∃ evs, w'.tr = w.tr ++ evs ∧
    ∀ c data r, Ev.send c data r ∈ evs → P c.peer data

/-- Nothing is sent by doing nothing. -/
theorem Sends.refl (P : PeerId → List UInt8 → Prop) (w : World env) :
    Sends P w w := ⟨[], (List.append_nil _).symm, by simp⟩

/-- Of the state reached only the history counts. -/
theorem Sends.congr {v : World env} (h : Sends P w w') (ht : v.tr = w'.tr) :
    Sends P w v := by
  unfold Sends at h ⊢
  rw [ht]
  exact h

/-- Of the state begun in only the history counts. -/
theorem Sends.after {v : World env} (h : Sends P w w') (ht : w.tr = v.tr) :
    Sends P v w' := by
  unfold Sends at h ⊢
  rw [← ht]
  exact h

/-- An exception sends nothing. -/
theorem Sends.raise (h : Sends P w w') (he) :
    Sends P w (w'.push (.raised e) he) := by
  obtain ⟨evs, htr, hs⟩ := h
  refine ⟨evs ++ [.raised e], ?_, ?_⟩
  · rw [World.push_tr, htr, List.append_assoc]
  · intro c data r hmem
    rcases List.mem_append.mp hmem with hmem | hmem
    · exact hs c data r hmem
    · cases List.mem_singleton.mp hmem

/-- What was posted is what was sent. -/
theorem Posted.sends (h : Posted P w w') : Sends P w w' := h.sent

/-- The rows are placed without a word. -/
theorem scatter_sends {l : List Share} (h : Sends P w₀ w) :
    Runs (RemoteTable.scatter l) w (fun _ w' => Sends P w₀ w')
      (fun _ w' => Sends P w₀ w') := by
  unfold RemoteTable.scatter
  simp only [runs_bind, runs_self]
  cases w.table.stagingNp with
  | none => exact h.raise _
  | some m =>
      refine Runs.forEach (I := fun v => Sends P w₀ v) ?_ w h
      intro s _ v hv
      exact hv.congr rfl

/-- A socket of a sound table leads to the peer that holds it. -/
theorem Sound.own {T : ℚ} (h : Sound geo T w) :
    ∀ i c, (w.heap i).sock = some c → c.peer = i := by
  intro i c hc
  have hl := h.linked i
  exact ((World.traced hl.good).conn c (hl.sock ▸ hc)).1

/-- The locked half of `gather_cpu` sends STATs and the GATHERs of its
shares only. -/
theorem gatherLocked_sends {T : ℚ} (hs : Sound geo T w) :
    Runs (RemoteTable.gatherLocked ids) w
      (fun _ w' => Sends (Permits ids (shares geo ids w.table.peers))
        w.called w')
      (fun _ w' => Sends (Permits ids (shares geo ids w.table.peers))
        w.called w') := by
  set todo := shares geo ids w.table.peers with htodo
  unfold RemoteTable.gatherLocked RemoteTable.partition
  simp only [runs_bind, runs_mark, runs_self]
  have hpart := partitionLoop_spec ids w.table.peers [] 0 w.called
    hs.geometry ⟨w.table.sel, rfl, hs.sel⟩
  refine hpart.mono ?_ ?_
  case refine_2 =>
    intro e w' h
    obtain ⟨-, ⟨sel, -, he, rfl⟩, -⟩ := h
    exact ((Sends.refl _ w.called).congr rfl).raise he
  intro n w₁ h
  obtain ⟨-, rfl, -⟩ := h
  rw [List.nil_append]
  set w₁ := w.called.withSel (w.table.peers.map fun i => (geo i).owned ids)
    with hw₁
  have h₁ : Sends (Permits ids todo) w.called w₁ :=
    (Sends.refl _ w.called).congr rfl
  split
  case isTrue =>
    unfold RemoteTable.raiseUnroutable
    simp only [runs_bind, runs_self, runs_raise]
    exact h₁.raise _
  case isFalse =>
    simp only [runs_bind, runs_self]
    refine Runs.catching (F := fun _ w' =>
      Sends (Permits ids todo) w.called w') ?_ ?_ (fun _ _ hv _ => hv)
    case refine_2 =>
      intro e w' hv _
      exact hv.congr rfl
    have hzip : w.table.peers.zip
        (w.table.peers.map fun i => (geo i).owned ids)
        = w.table.peers.map fun i => (i, (geo i).owned ids) :=
      List.map_prod_left_eq_zip.symm
    have hfst : (w.table.peers.map fun i => (i, (geo i).owned ids)).map
        Prod.fst = w.table.peers := by
      rw [List.map_map]
      exact List.map_id _
    have hgeo : ∀ s ∈ w.table.peers.map fun i => (i, (geo i).owned ids),
        (w.heap s.1).geometry = geo s.1 := by
      intro s hmem
      refine hs.geometry s.1 ?_
      have := List.mem_map_of_mem (f := Prod.fst) hmem
      rwa [hfst] at this
    simp only [runs_bind, runs_self]
    show Runs (RemoteTable.stageLoop ids (w.table.peers.zip
      (w.table.peers.map fun i => (geo i).owned ids))) w₁ _ _
    rw [hzip]
    refine (stageLoop_spec _ w₁ (by rw [hfst]; exact hs.nodup)
      (fun s _ => hs.roomy s.1) hgeo).mono ?_ ?_
    case refine_2 =>
      intro e w' hv
      obtain ⟨⟨-, v, hv, hstock, rfl⟩, -⟩ := hv
      exact (h₁.congr hstock.tr).raise hv
    intro l w₂ hv
    obtain ⟨rfl, hstock, hst⟩ := hv
    have hown : ∀ i c, (w₂.heap i).sock = some c → c.peer = i := by
      intro i c hc
      obtain ⟨q, r, k, hp⟩ := hstock.peer i
      rw [hp] at hc
      exact hs.own i c hc
    have hposted := exchange_posted hst hown
    refine hposted.mono ?_ ?_
    · intro _ w₃ hp
      exact scatter_sends (hp.sends.after hstock.tr)
    · intro e w₃ hp
      exact hp.sends.after hstock.tr

/-- A gather of a usable table that raises has sent STATs and the GATHERs
of its shares only. -/
theorem gatherCpu_sends {T : ℚ} (hs : Sound geo T w) :
    Runs (RemoteTable.gatherCpu ids) w (fun _ _ => True)
      (fun _ w' => w.table.failed = none →
        Sends (Permits ids (shares geo ids w.table.peers)) w.called w') := by
  unfold RemoteTable.gatherCpu RemoteTable.gatherEnter
  simp only [runs_bind]
  refine Runs.mono (stagingFor_spec ids.length (E := fun _ _ => False)) ?_
    (fun _ _ h => h.elim)
  intro out v hv
  split
  case isTrue => trivial
  case isFalse =>
    simp only [runs_bind]
    refine Runs.mono checkUsable_spec ?_ ?_
    case refine_2 =>
      intro e w' h hf
      obtain ⟨⟨why, hmark, -⟩, -⟩ := h
      rw [hv.failed, hf] at hmark
      cases hmark
    intro _ v' h
    obtain ⟨rfl, -⟩ := h
    simp only [runs_pure]
    refine Runs.mono (gatherLocked_sends (hv.sound hs)) (fun _ _ _ => trivial) ?_
    intro e w' h _
    rw [setup_peers hv.setup] at h
    refine h.after ?_
    rw [World.called, World.called, World.push_tr, World.push_tr, hv.tr]

end PleRowServer.Client
