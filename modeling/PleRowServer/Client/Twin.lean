/-
What a gather's course does not depend on.

Two worlds are akin if they differ only in what the client keeps for
itself: marks in the history, the staging, the selections of the last
gather, where allocations count from, and what stands in the peers' row
buffers. They are twins if both or neither have a staging. Of an
environment that answers by what it saw on the wire, twins are told the
same, so everything a gather does with its peers, twins do alike
(`Alike Twin`, by the rules of `Base.Pairs`).
-/
import PleRowServer.Base.Pairs
import PleRowServer.Client.Rejects

namespace PleRowServer.Client

open Base Wire

variable {env : Env} {w v w' v' : World env} {tr tr' : Trace} {e : Ev}
  {i : PeerId} {c : ConnId} {α β α' β' : Type}

-- ==================================================================== wire

/-- The other side has a part in the entry. -/
def Ev.wired : Ev → Bool
  | .call | .drew _ _ | .attempt _ _ | .caught _ _ | .raised _ => false
  | _ => true

/-- A history without the marks the client makes for itself. -/
def wire (tr : Trace) : Trace := tr.filter Ev.wired

/-- A later entry puts nothing before it on the wire. -/
@[simp] theorem wire_append (a b : Trace) : wire (a ++ b) = wire a ++ wire b :=
  List.filter_append ..

/-- A mark of the client's own is not on the wire. -/
theorem wire_mark (h : e.wired = false) (tr : Trace) :
    wire (tr ++ [e]) = wire tr := by
  simp [wire, h]

/-- The environment answers by what it saw on the wire. -/
structure Env.Blind (env : Env) : Prop where
  connect : ∀ tr, env.connect tr = env.connect (wire tr)
  peername : ∀ tr, env.peername tr = env.peername (wire tr)
  send : ∀ tr, env.send tr = env.send (wire tr)
  recv : ∀ tr, env.recv tr = env.recv (wire tr)
  select : ∀ tr, env.select tr = env.select (wire tr)
  sleep : ∀ tr, env.sleep tr = env.sleep (wire tr)
  now : ∀ tr, env.now tr = env.now (wire tr)

/-- Connections are numbered by the wire. -/
theorem bound_wire (tr : Trace) : Trace.bound (wire tr) = Trace.bound tr := by
  induction tr with
  | nil => rfl
  | cons e tr ih =>
      unfold wire at ih ⊢
      cases hw : e.wired with
      | true => rw [List.filter_cons_of_pos hw, Trace.bound, Trace.bound, ih]
      | false =>
          have hnone : e.conn = none := by cases e <;> first | rfl | cases hw
          rw [List.filter_cons_of_neg (by simp [hw]), ih, Trace.bound, hnone]
          exact (Nat.zero_max _).symm

-- =================================================================== twins

/-- The same peer but for what stands in its row buffer. -/
def Peer.Like (p q : Peer) : Prop := ∃ r, q = { p with rows := r }

/-- The worlds differ only in what the client keeps for itself. -/
structure Akin (w v : World env) : Prop where
  wired : wire v.tr = wire w.tr
  heap : ∀ i, (w.heap i).Like (v.heap i)
  setup : v.table.setup = w.table.setup
  reqId : v.table.reqId = w.table.reqId
  failed : v.table.failed = w.table.failed
  sel : v.table.sel.length = w.table.sel.length

/-- The worlds are akin, and the staging of both can be scattered into, or
of neither. -/
structure Twin (w v : World env) : Prop extends Akin w v where
  handle : v.table.stagingNp = none ↔ w.table.stagingNp = none

/-- A world is akin to itself. -/
theorem Akin.refl (w : World env) : Akin w w :=
  ⟨rfl, fun i => ⟨(w.heap i).rows, rfl⟩, rfl, rfl, rfl, rfl⟩

/-- What does not come from a peer's row buffer is the same. -/
theorem Akin.field {β : Type} (h : Akin w v) (f : Peer → β)
    (hf : ∀ p r, f { p with rows := r } = f p) (i : PeerId) :
    f (v.heap i) = f (w.heap i) := by
  obtain ⟨r, hr⟩ := h.heap i
  rw [hr]
  exact hf _ r

/-- Both histories get the same entry. -/
theorem Twin.push (h : Twin w v) (e : Ev) (he he') :
    Twin (w.push e he) (v.push e he') := by
  refine ⟨⟨?_, h.heap, h.setup, h.reqId, h.failed, h.sel⟩, h.handle⟩
  rw [World.push_tr, World.push_tr, wire_append, wire_append, h.wired]

/-- An assignment to a peer on both sides. -/
theorem Twin.setPeer (h : Twin w v) (i : PeerId) {p q : Peer}
    (hpq : p.Like q) : Twin (w.setPeer i p) (v.setPeer i q) := by
  refine ⟨⟨h.wired, fun j => ?_, h.setup, h.reqId, h.failed, h.sel⟩,
    h.handle⟩
  by_cases hj : j = i
  · subst hj
    rw [World.setPeer_self, World.setPeer_self]
    exact hpq
  · rw [World.setPeer_ne _ hj, World.setPeer_ne _ hj]
    exact h.heap j

namespace Twin

/-- Alike on twins, with one result. -/
abbrev Same (m m' : M env α) : Prop := Alike Twin Eq m m'

-- ============================================================== statements

/-- A mark is made on both histories, on the wire or not. -/
theorem mark (e : Ev) (he he') :
    Same (Client.mark e he : M env _) (Client.mark e he') :=
  .update fun _ _ h => h.push e _ _

/-- The same exception on both sides, whatever was to be returned. -/
theorem raise {Q : α → β → Prop} (e : Exn) :
    Alike Twin Q (Client.raise e : M env α) (Client.raise e : M env β) :=
  (mark _ _ _).bindEq fun _ => .throw e

/-- Reading a peer: what is bound is the same but for its row buffer. -/
theorem peer {Q : α → β → Prop} {k : Peer → M env α} {k' : Peer → M env β}
    (i : PeerId) (h : ∀ p r, Alike Twin Q (k p) (k' { p with rows := r })) :
    Alike Twin Q (Client.peer i >>= k) (Client.peer i >>= k') := by
  intro w v hwv
  obtain ⟨r, hr⟩ := hwv.heap i
  have := h (w.heap i) r w v hwv
  rw [← hr] at this
  exact this

theorem modifyPeer {f f' : Peer → Peer} (i : PeerId)
    (h : ∀ p r, (f p).Like (f' { p with rows := r })) :
    Same (Client.modifyPeer i f : M env _) (Client.modifyPeer i f') := by
  refine .update fun w v hwv => hwv.setPeer i ?_
  obtain ⟨r, hr⟩ := hwv.heap i
  rw [hr]
  exact h _ r

/-- Reading the table: its settings. -/
theorem self {Q : α → β → Prop} {k : RemoteTable → M env α}
    {k' : RemoteTable → M env β}
    (h : ∀ t t' : RemoteTable, t'.setup = t.setup → t'.reqId = t.reqId →
      t'.failed = t.failed → Alike Twin Q (k t) (k' t')) :
    Alike Twin Q (RemoteTable.self >>= k) (RemoteTable.self >>= k') :=
  fun w v hwv => h _ _ hwv.setup hwv.reqId hwv.failed w v hwv

/-- Two programs that look at their peers go on from what they see. -/
theorem peerAt {Q : α → β → World env → World env → Prop}
    {E : Exn → World env → World env → Prop} {k : Peer → M env α}
    {k' : Peer → M env β}
    (h : Pair (k (w.heap i)) w (k' (v.heap i)) v Q E) :
    Pair (Client.peer i >>= k) w (Client.peer i >>= k') v Q E := h

/-- Two programs that look at their tables go on from what they see. -/
theorem selfAt {Q : α → β → World env → World env → Prop}
    {E : Exn → World env → World env → Prop} {k : RemoteTable → M env α}
    {k' : RemoteTable → M env β} (h : Pair (k w.table) w (k' v.table) v Q E) :
    Pair (RemoteTable.self >>= k) w (RemoteTable.self >>= k') v Q E := h

section Blind

variable (hb : env.Blind)
include hb

/-- The clock is on the wire, so both read the same. -/
theorem now : Same (Client.now : M env _) Client.now := by
  refine .sample fun w v hwv => ?_
  have : env.now v.tr = env.now w.tr := by rw [hb.now, hwv.wired, ← hb.now]
  refine ⟨this.symm, ?_⟩
  have hpush := hwv.push (.now (env.now w.tr)) (env.produces_now w.tr)
    (this ▸ env.produces_now v.tr)
  simpa only [this] using hpush

/-- `_sleep`: both go to sleep at the same place on the wire and wake to
the same. -/
theorem sleep (t : ℚ) : Same (Client.sleep t : M env _) (Client.sleep t) := by
  unfold Client.sleep
  refine .bindEq (.sample fun w v hwv => ?_) fun r => ?_
  · have : env.sleep v.tr = env.sleep w.tr := by
      rw [hb.sleep, hwv.wired, ← hb.sleep]
    refine ⟨congrFun this.symm t, ?_⟩
    have hpush := hwv.push (.slept t (env.sleep w.tr t))
      (env.produces_slept w.tr t) (this ▸ env.produces_slept v.tr t)
    simpa only [this] using hpush
  · cases r with
    | ok => exact .pure rfl
    | _ => exact raise _

/-- A connection is numbered and answered by the wire. -/
theorem sysConnect (i : PeerId) (addr : Addr) (t : ℚ) :
    Same (Client.sysConnect i addr t : M env _) (Client.sysConnect i addr t) := by
  refine .sample fun w v hwv => ?_
  have hc : v.nextConn i = w.nextConn i := by
    unfold World.nextConn
    rw [← bound_wire v.tr, hwv.wired, bound_wire]
  have hr : env.connect v.tr = env.connect w.tr := by
    rw [hb.connect, hwv.wired, ← hb.connect]
  have hp : env.Produces v.tr (.connect (v.nextConn i) addr t
      (env.connect v.tr (v.nextConn i) addr t)) :=
    env.produces_connect v.tr rfl addr t
  rw [hc, hr] at hp
  refine ⟨by simp only [hc, hr], ?_⟩
  have hpush := hwv.push (.connect (w.nextConn i) addr t
    (env.connect w.tr (w.nextConn i) addr t))
    (env.produces_connect w.tr rfl addr t) hp
  simpa only [hc, hr] using hpush

/-- `getpeername` as the wire has it. -/
theorem sysPeername (c : ConnId) :
    Same (Client.sysPeername c : M env _) (Client.sysPeername c) := by
  refine .sample fun w v hwv => ?_
  have : env.peername v.tr = env.peername w.tr := by
    rw [hb.peername, hwv.wired, ← hb.peername]
  refine ⟨congrFun this.symm c, ?_⟩
  have hpush := hwv.push (.peername c (env.peername w.tr c))
    (env.produces_peername w.tr c) (this ▸ env.produces_peername v.tr c)
  simpa only [this] using hpush

/-- One `recv_into`: the same bytes for both, or the same error. -/
theorem sysRecv (c : ConnId) (want : Nat) :
    Same (Client.sysRecv c want : M env _) (Client.sysRecv c want) := by
  refine .sample fun w v hwv => ?_
  have : env.recv v.tr = env.recv w.tr := by
    rw [hb.recv, hwv.wired, ← hb.recv]
  refine ⟨by simp only [this], ?_⟩
  have hpush := hwv.push (.recv c want ((env.recv w.tr c want).clip want))
    (env.produces_recv w.tr c want) (this ▸ env.produces_recv v.tr c want)
  simpa only [this] using hpush

/-- One `sendall`: the same bytes go out, to the same result. -/
theorem sysSend (c : ConnId) (data : List UInt8) :
    Same (Client.sysSend c data : M env _) (Client.sysSend c data) := by
  refine .sample fun w v hwv => ?_
  have : env.send v.tr = env.send w.tr := by
    rw [hb.send, hwv.wired, ← hb.send]
  refine ⟨by simp only [this], ?_⟩
  have hpush := hwv.push (.send c data (env.send w.tr c data))
    (env.produces_send w.tr c data) (this ▸ env.produces_send v.tr c data)
  simpa only [this] using hpush

/-- One `select`: the same connections are ready for both. -/
theorem sysSelect (cs : List ConnId) (t : ℚ) :
    Same (Client.sysSelect cs t : M env _) (Client.sysSelect cs t) := by
  refine .sample fun w v hwv => ?_
  have : env.select v.tr = env.select w.tr := by
    rw [hb.select, hwv.wired, ← hb.select]
  refine ⟨by simp only [this], ?_⟩
  have hpush := hwv.push (.select cs t ((env.select w.tr cs t).among cs))
    (env.produces_select w.tr cs t) (this ▸ env.produces_select v.tr cs t)
  simpa only [this] using hpush

-- ================================================================ messages

omit hb in
/-- Twins have the same sockets, so both have one or both complain. -/
theorem socket (i : PeerId) : Same (Peer.socket i : M env _) (Peer.socket i) := by
  unfold Peer.socket
  refine peer i fun p r => ?_
  cases p.sock with
  | some c => exact .pure rfl
  | none => exact raise _

omit hb in
/-- `settimeout` is on the wire and asks nothing of either. -/
theorem settimeout (c : ConnId) (t : ℚ) :
    Same (Client.settimeout c t : M env _) (Client.settimeout c t) :=
  mark _ _ _

/-- `_arm`: the timeout comes from fields twins share. -/
theorem arm (i : PeerId) : Same (Peer.arm i : M env _) (Peer.arm i) := by
  unfold Peer.arm
  refine peer i fun p r => .bindEq ?_ fun b => ?_
  · unfold Peer.budget
    dsimp only
    cases p.deadline with
    | none => exact .pure rfl
    | some d =>
        refine .bindEq (now hb) fun t => ?_
        exact .guard (fun _ => raise _) (.pure rfl)
  · refine .ite (fun _ => ?_) fun _ => .pure rfl
    refine .bindEq (socket i) fun c => .bindEq (settimeout c _) fun _ => ?_
    exact modifyPeer i fun p r => ⟨r, rfl⟩

/-- `_Peer.connect`: the new socket is the same and so is what the peer
starts with. -/
theorem connect (i : PeerId) (ct t : ℚ) :
    Same (Peer.connect i ct t : M env _) (Peer.connect i ct t) := by
  unfold Peer.connect
  refine peer i fun p r => .bindEq ?_ fun c => .guard (fun _ => raise _) ?_
  · unfold createConnection
    refine .guard (fun _ => raise _) (.bindEq (sysConnect hb i _ _) fun x => ?_)
    obtain ⟨d, r⟩ := x
    cases r with
    | ok => exact .pure rfl
    | _ => exact raise _
  · refine .bindEq (settimeout c _) fun _ => ?_
    refine .bindEq (modifyPeer i fun p r => ⟨r, rfl⟩) fun _ => ?_
    refine .bindEq ?_ fun addr => modifyPeer i fun p r => ⟨r, rfl⟩
    unfold getpeername
    refine .bindEq (sysPeername hb c) fun r => ?_
    cases r with
    | ok addr => exact .pure rfl
    | error why => exact raise _

omit hb in
/-- `_Peer.close`: the counters are reset alike; the row buffer is not
looked at. -/
theorem close (i : PeerId) (abort : Bool) :
    Same (Peer.close i abort : M env _) (Peer.close i abort) := by
  unfold Peer.close
  refine peer i fun p r => ?_
  refine .bindEq (modifyPeer i fun p r => ⟨r, rfl⟩) fun _ => ?_
  dsimp only
  cases p.sock with
  | none => exact .pure rfl
  | some c => exact mark _ _ _

/-- `_recv_exact`'s step: armed alike, then the same bytes. -/
theorem recv (i : PeerId) (want : Nat) :
    Same (Peer.recv i want : M env _) (Peer.recv i want) := by
  unfold Peer.recv
  refine .bindEq (arm hb i) fun _ => peer i fun p r => ?_
  refine .bindEq (socket i) fun c => .bindEq (sysRecv hb c want) fun g => ?_
  cases g with
  | data bs => exact .pure rfl
  | _ => exact raise _

/-- `_sendall`: armed alike, then the same bytes go out. -/
theorem sendall (i : PeerId) (data : List UInt8) :
    Same (Peer.sendall i data : M env _) (Peer.sendall i data) := by
  unfold Peer.sendall
  refine .bindEq (arm hb i) fun _ => .bindEq (socket i) fun c => ?_
  refine .bindEq (sysSend hb c data) fun r => ?_
  cases r with
  | all => exact .pure rfl
  | _ => exact raise _

/-- `send_bare`: the header is packed from what twins share. -/
theorem sendBare (i : PeerId) (op id : Nat) :
    Same (Peer.sendBare i op id : M env _) (Peer.sendBare i op id) := by
  unfold Peer.sendBare
  cases Peer.packRequest op 0 id 0 with
  | none => exact raise _
  | some hdr =>
      exact .bindEq (sendall hb i hdr) fun _ => modifyPeer i fun p r => ⟨r, rfl⟩

/-- `send_gather`: the ids go out of the request buffer, which twins
share. -/
theorem sendGather (i : PeerId) (id count : Nat) :
    Same (Peer.sendGather i id count : M env _) (Peer.sendGather i id count) := by
  unfold Peer.sendGather
  cases Peer.packRequest OP_GATHER 0 id count with
  | none => exact raise _
  | some hdr =>
      refine .bindEq (modifyPeer i fun p r => ⟨r, rfl⟩) fun _ => ?_
      refine peer i fun p r => .bindEq (sendall hb i _) fun _ => ?_
      exact modifyPeer i fun p r => ⟨r, rfl⟩

/-- `_recv_exact`: as long as bytes are missing, the same step. -/
theorem recvExact (i : PeerId) (want : Nat) :
    Same (Peer.recvExact i want : M env _) (Peer.recvExact i want) := by
  suffices hloop : ∀ (rounds : Nat) (got : List UInt8), Same
      (Peer.recvLoop i want rounds got : M env _)
      (Peer.recvLoop i want rounds got) from hloop want []
  intro rounds
  induction rounds with
  | zero =>
      intro got
      unfold Peer.recvLoop
      exact .ite (fun _ => .pure rfl) fun _ => raise _
  | succ rounds ih =>
      intro got
      unfold Peer.recvLoop
      refine .ite (fun _ => .pure rfl) fun _ => .bindEq (recv hb i _) fun bs => ?_
      refine .ite (fun _ => ?_) fun _ => ih _
      exact peer i fun p r => .bindEq (raise _) fun _ => ih _

/-- `read_header`: the fields are checked against the pending id alone. -/
theorem readHeader (i : PeerId) :
    Same (Peer.readHeader i : M env _) (Peer.readHeader i) := by
  unfold Peer.readHeader
  refine .bindEq (recvExact hb i _) fun hdr => ?_
  split
  · unfold Peer.checkHeader
    refine peer i fun p r => ?_
    refine .guard (fun _ => raise _) (.guard (fun _ => raise _) ?_)
    refine .bindEq (modifyPeer i fun p r => ⟨r, rfl⟩) fun _ => ?_
    exact .guard (fun _ => raise _) (.pure rfl)
  · exact raise _

omit hb in
/-- A complaint that names the peer, or what follows. -/
theorem complain {Q : α → β → Prop} {p : Prop} [Decidable p] {f : Peer → Exn}
    {k : Unit → M env α} {k' : Unit → M env β}
    (hf : ∀ (p : Peer) r, f { p with rows := r } = f p)
    (hk : Alike Twin Q (k ()) (k' ())) :
    Alike Twin Q
      (if p then Client.peer i >>= fun p => Client.raise (f p) >>= k else k ())
      (if p then Client.peer i >>= fun p => Client.raise (f p) >>= k'
        else k' ()) := by
  refine .ite (fun _ => peer i fun p r => ?_) fun _ => hk
  have hsame := hf p r
  simp only [hsame]
  exact .bindEq (raise _) fun _ => hk

/-- `query_stat`: the same record, or the same complaint. -/
theorem queryStat (i : PeerId) (id : Nat) :
    Same (Peer.queryStat i id : M env _) (Peer.queryStat i id) := by
  unfold Peer.queryStat
  refine .bindEq (sendBare hb i _ id) fun _ => ?_
  refine .bindEq (readHeader hb i) fun n => complain (fun _ _ => rfl) ?_
  refine .bindEq (recvExact hb i _) fun body => ?_
  split
  · exact peer i fun p r => .pure rfl
  · exact raise _

/-- `begin_rows`: the header and the counters, before a byte of a row. -/
theorem beginRows (i : PeerId) (count : Nat) :
    Same (Peer.beginRows i count : M env _) (Peer.beginRows i count) := by
  unfold Peer.beginRows
  refine .bindEq (readHeader hb i) fun got => complain (fun _ _ => rfl) ?_
  exact modifyPeer i fun p r => ⟨r, rfl⟩

/-- `pump_rows`: where the row buffer may differ, the same bytes are put.
-/
theorem pumpRows (i : PeerId) :
    Same (Peer.pumpRows i : M env _) (Peer.pumpRows i) := by
  unfold Peer.pumpRows
  refine peer i fun p r => .bindEq (recv hb i _) fun bs => ?_
  refine .guard (fun _ => raise _) ?_
  refine .bindEq (modifyPeer i fun p r => ⟨splice r p.rdGot bs, rfl⟩) fun _ => ?_
  exact peer i fun p r => .pure rfl

/-- `finish_rows`: the same number of steps on both sides. -/
theorem finishRows (i : PeerId) :
    Same (Peer.finishRows i : M env _) (Peer.finishRows i) := by
  unfold Peer.finishRows
  refine peer i fun p r => ?_
  dsimp only
  generalize p.rdWant - p.rdGot = rounds
  induction rounds with
  | zero =>
      unfold Peer.finishLoop
      exact peer i fun p r => .ite (fun _ => raise _) fun _ => .pure rfl
  | succ rounds ih =>
      unfold Peer.finishLoop
      refine peer i fun p r => .ite (fun _ => ?_) fun _ => .pure rfl
      exact .bindEq (pumpRows hb i) fun _ => ih

-- ================================================================ exchange

omit hb in
/-- `_next_req_id`: twins have drawn equally many. -/
theorem nextReqId (i : PeerId) :
    Same (RemoteTable.nextReqId i : M env _) (RemoteTable.nextReqId i) := by
  unfold RemoteTable.nextReqId
  refine .bindEq (.update fun w v hwv => ?_) fun _ => ?_
  · refine ⟨⟨hwv.wired, hwv.heap, hwv.setup, ?_, hwv.failed, hwv.sel⟩,
      hwv.handle⟩
    exact congrArg (fun n => (n + 1) % 2 ^ 32) hwv.reqId
  · refine self fun t t' _ hid _ => ?_
    rw [hid]
    exact .bindEq (mark _ _ _) fun _ => .pure rfl

/-- `PLERemoteTable._connect`, retries and pauses included. -/
theorem connectTo (i : PeerId) (D : ℚ) :
    Same (RemoteTable.connect i D : M env _) (RemoteTable.connect i D) := by
  suffices hloop : ∀ (rounds : Nat) (pause : ℚ), Same
      (RemoteTable.connectLoop i D rounds pause : M env _)
      (RemoteTable.connectLoop i D rounds pause) from hloop env.rounds (1 / 2)
  intro rounds
  induction rounds with
  | zero => intro pause; exact raise _
  | succ rounds ih =>
      intro pause
      unfold RemoteTable.connectLoop
      refine .bindEq (now hb) fun t => self fun s s' hs _ _ => ?_
      have hct : s'.connectTimeout = s.connectTimeout :=
        congrArg (·.connectTimeout) hs
      have ht : s'.timeout = s.timeout := congrArg (·.timeout) hs
      rw [hct, ht]
      refine .catching (connect hb i _ _) fun e => ?_
      refine .bindEq (now hb) fun u => complain (fun _ _ => rfl) ?_
      exact .bindEq (sleep hb _) fun _ => ih _

omit hb in
/-- `_check_range` compares with the range on record, which twins share.
-/
theorem checkRange (i : PeerId) (st : Stat) :
    Same (RemoteTable.checkRange i st : M env _)
      (RemoteTable.checkRange i st) := by
  unfold RemoteTable.checkRange
  refine peer i fun p r => .guard (fun _ => raise _) ?_
  exact modifyPeer i fun p r => ⟨r, rfl⟩

/-- The first pass of an attempt over one peer. -/
theorem ready (D : ℚ) (s : Share) :
    Same (RemoteTable.ready D s : M env _) (RemoteTable.ready D s) := by
  unfold RemoteTable.ready
  refine .bindEq (modifyPeer _ fun p r => ⟨r, rfl⟩) fun _ => ?_
  refine peer _ fun p r => ?_
  dsimp only
  cases p.sock with
  | some c => exact .pure rfl
  | none =>
      refine .bindEq (connectTo hb _ D) fun _ => .bindEq (nextReqId _) fun id => ?_
      exact .bindEq (queryStat hb _ id) fun st => checkRange _ st

/-- The connections that `select` gave back are pumped alike. -/
theorem pumpReady :
    ∀ (cs : List ConnId) (waiting : List (ConnId × PeerId)), Same
      (RemoteTable.pumpReady cs waiting : M env _)
      (RemoteTable.pumpReady cs waiting) := by
  intro cs
  induction cs with
  | nil => intro waiting; exact .pure rfl
  | cons c cs ih =>
      intro waiting
      unfold RemoteTable.pumpReady
      cases waiting.lookup c with
      | none => exact ih waiting
      | some i =>
          refine .bindEq (pumpRows hb i) fun full => ?_
          exact .ite (fun _ => ih _) fun _ => ih _

omit hb in
/-- `_drain`'s own timeout: the same peers are named. -/
theorem drainTimeout (waiting : List (ConnId × PeerId)) (wait : ℚ) :
    Same (RemoteTable.drainTimeout waiting wait : M env _)
      (RemoteTable.drainTimeout waiting wait) := by
  unfold RemoteTable.drainTimeout
  refine .get fun w v hwv => ?_
  have hnames : RemoteTable.waitingNames v.heap waiting
      = RemoteTable.waitingNames w.heap waiting := by
    unfold RemoteTable.waitingNames
    exact congrArg _ (List.map_congr_left fun x _ =>
      hwv.field Peer.name (fun _ _ => rfl) x.2)
  simp only [hnames]
  exact .ite (fun _ => raise _) fun _ => raise _

/-- `_drain`, by its rounds: the same peers are still waited for. -/
theorem drainLoop (D : ℚ) :
    ∀ (rounds : Nat) (waiting : List (ConnId × PeerId)), Same
      (RemoteTable.drainLoop D rounds waiting : M env _)
      (RemoteTable.drainLoop D rounds waiting) := by
  intro rounds
  induction rounds with
  | zero =>
      intro waiting
      unfold RemoteTable.drainLoop
      exact .ite (fun _ => .pure rfl) fun _ => raise _
  | succ rounds ih =>
      intro waiting
      unfold RemoteTable.drainLoop
      refine .ite (fun _ => .pure rfl) fun _ => self fun s s' hs _ _ => ?_
      have ht : s'.timeout = s.timeout := congrArg (·.timeout) hs
      rw [ht]
      refine .bindEq (now hb) fun t => ?_
      refine .ite (fun _ => .bindEq (sysSelect hb _ _) fun r => ?_) fun _ =>
        drainTimeout _ _
      cases r with
      | ready cs =>
          refine .guard (fun _ => drainTimeout _ _) ?_
          exact .bindEq (pumpReady hb cs waiting) fun rest => ih rest
      | _ => exact raise _

/-- The last pass of an attempt. -/
theorem finish (todo : List Share) (D : ℚ) :
    Same (RemoteTable.finish todo D : M env _) (RemoteTable.finish todo D) := by
  unfold RemoteTable.finish
  refine .ite (fun _ => ?_) fun _ => ?_
  · unfold RemoteTable.drain
    refine .get fun w v hwv => ?_
    have hwant := hwv.field Peer.rdWant fun _ _ => rfl
    have hsock := hwv.field Peer.sock fun _ _ => rfl
    have hwaiting : RemoteTable.waitingOf v.heap (todo.map Prod.fst)
        = RemoteTable.waitingOf w.heap (todo.map Prod.fst) := by
      unfold RemoteTable.waitingOf
      exact List.filterMap_congr fun i _ => by rw [hsock]
    simp only [hwaiting, hwant]
    exact drainLoop hb D _ _
  · cases todo with
    | nil => exact raise _
    | cons s todo => exact finishRows hb s.1

/-- One attempt. -/
theorem attempt (n : Nat) (todo : List Share) (D : ℚ) :
    Same (RemoteTable.attempt n todo D : M env _)
      (RemoteTable.attempt n todo D) := by
  unfold RemoteTable.attempt
  refine .bindEq (.forEach fun s _ => ready hb D s) fun _ => ?_
  refine .bindEq (.forEach fun s _ => ?_) fun _ => ?_
  · exact .bindEq (nextReqId s.1) fun id => sendGather hb s.1 id _
  refine .bindEq (.forEach fun s _ => beginRows hb s.1 _) fun _ => ?_
  refine .bindEq (finish hb todo D) fun _ => ?_
  exact .ite (fun _ => .bindEq (now hb) fun _ => .pure rfl) fun _ => .pure rfl

/-- The handler of a failed attempt closes and keeps the same peers. -/
theorem giveUp (n : Nat) (todo : List Share) (D : ℚ) (x : Exn) :
    Same (RemoteTable.giveUp n todo D x : M env _)
      (RemoteTable.giveUp n todo D x) := by
  unfold RemoteTable.giveUp
  refine .bindEq (mark _ _ _) fun _ => .get fun w v hwv => ?_
  have hflags := hwv.field Peer.answered fun _ _ => rfl
  simp only [hflags]
  refine .bindEq (.forEach fun s _ => close s.1 true) fun _ => ?_
  refine .guard (fun _ => raise _) (.bindEq (now hb) fun t => ?_)
  exact .guard (fun _ => raise _) (.pure rfl)

/-- The retry loop, by the attempts left. -/
theorem attempts (D : ℚ) :
    ∀ (left : Nat) (todo : List Share), Same
      (RemoteTable.attempts D left todo : M env _)
      (RemoteTable.attempts D left todo) := by
  intro left
  induction left with
  | zero => intro todo; exact .pure rfl
  | succ left ih =>
      intro todo
      unfold RemoteTable.attempts
      refine .bindEq (mark _ _ _) fun _ => ?_
      refine .catching (attempt hb _ todo D) fun x => ?_
      exact .bindEq (giveUp hb _ todo D x) fun rest => ih rest

omit hb in
/-- The deadlines are set on the same peers. -/
theorem setDeadlines (h : Twin w v) (active : List Share) (d : Option ℚ) :
    Twin (RemoteTable.setDeadlines active d w)
      (RemoteTable.setDeadlines active d v) := by
  refine ⟨⟨h.wired, fun i => ?_, h.setup, h.reqId, h.failed, h.sel⟩,
    h.handle⟩
  obtain ⟨r, hr⟩ := h.heap i
  refine ⟨r, ?_⟩
  simp only [RemoteTable.setDeadlines, hr]
  split
  · rfl
  · rfl

/-- The whole network half. -/
theorem exchange (active : List Share) :
    Same (RemoteTable.exchange active : M env _)
      (RemoteTable.exchange active) := by
  unfold RemoteTable.exchange
  refine .bindEq (now hb) fun t => self fun s s' hs _ _ => ?_
  have hd : s'.gatherDeadline = s.gatherDeadline :=
    congrArg (·.gatherDeadline) hs
  dsimp only
  rw [hd]
  refine .bindEq (.update fun _ _ h => setDeadlines h _ _) fun _ => ?_
  exact .cleaning (attempts hb _ _ active) fun _ _ h => setDeadlines h _ _

end Blind

-- ================================================================= staging

/-- `_Peer.reserve`: both grow to the same capacity, or neither has to. -/
theorem reserve (i : PeerId) (n : Nat) :
    Same (Peer.reserve i n : M env _) (Peer.reserve i n) := by
  unfold Peer.reserve
  refine peer i fun p r => .ite (fun _ => .pure rfl) fun _ => ?_
  refine .bindEq (modifyPeer i fun p r => ⟨r, rfl⟩) fun _ => ?_
  refine .guard (fun _ => raise _) (.update fun w v h => ?_)
  have hnext : Twin { w with allocs := w.allocs + 1 }
      { v with allocs := v.allocs + 1 } :=
    ⟨⟨h.wired, h.heap, h.setup, h.reqId, h.failed, h.sel⟩, h.handle⟩
  refine hnext.setPeer i ?_
  obtain ⟨r', hr⟩ := h.heap i
  rw [hr]
  exact ⟨_, rfl⟩

/-- The shares are staged alike, and the same peers have one. -/
theorem stageLoop (ids : List Int) :
    ∀ l : List Share, Same (RemoteTable.stageLoop ids l : M env _)
      (RemoteTable.stageLoop ids l) := by
  intro l
  induction l with
  | nil => exact .pure rfl
  | cons s l ih =>
      unfold RemoteTable.stageLoop
      refine .ite (fun _ => ih) fun _ => .bindEq (reserve _ _) fun _ => ?_
      refine .bindEq (modifyPeer _ fun p r => ⟨r, rfl⟩) fun _ => ?_
      exact .bindEq ih fun rest => .pure rfl

/-- Scattering, of which only the complaint that there is no staging may
be seen. -/
theorem scatter (active : List Share) :
    Same (RemoteTable.scatter active : M env _)
      (RemoteTable.scatter active) := by
  have hplace : ∀ (m m' : Nat) (w v : World env), Twin w v →
      Pair (forEach (RemoteTable.place m) active) w
        (forEach (RemoteTable.place m') active) v
        (fun a b w' v' => a = b ∧ Twin w' v') fun _ w' v' => Twin w' v' := by
    intro m m'
    induction active with
    | nil => exact fun w v h => ⟨rfl, h⟩
    | cons s active ih =>
        intro w v h
        exact ih _ _ ⟨⟨h.wired, h.heap, h.setup, h.reqId, h.failed, h.sel⟩,
          h.handle⟩
  unfold RemoteTable.scatter
  intro w v h
  refine selfAt ?_
  cases hw : w.table.stagingNp with
  | none =>
      rw [h.handle.mpr hw]
      exact raise _ w v h
  | some m =>
      have hv : v.table.stagingNp ≠ none := fun hn => by
        rw [h.handle.mp hn] at hw
        cases hw
      obtain ⟨m', hv⟩ := Option.ne_none_iff_exists'.mp hv
      rw [hv]
      exact hplace m m' w v h

-- ================================================================= gathers

/-- The selections made so far are the same. -/
theorem partitionLoop (ids : List Int) :
    ∀ (is : List PeerId) (at_ n : Nat) (w v : World env), Twin w v →
      v.table.sel.take at_ = w.table.sel.take at_ →
      w.table.sel.length ≤ at_ + is.length →
      Pair (RemoteTable.partitionLoop ids is at_ n) w
        (RemoteTable.partitionLoop ids is at_ n) v
        (fun k k' w' v' => k = k' ∧ Twin w' v' ∧ v'.table.sel = w'.table.sel)
        fun _ w' v' => Twin w' v' := by
  intro is
  induction is with
  | nil =>
      intro at_ n w v h hsel hlen
      refine ⟨rfl, h, ?_⟩
      rw [List.length_nil, Nat.add_zero] at hlen
      rwa [List.take_of_length_le (h.sel.trans_le hlen),
        List.take_of_length_le hlen] at hsel
  | cons i is ih =>
      intro at_ n w v h hsel hlen
      have howned : RemoteTable.owned (v.heap i) ids
          = RemoteTable.owned (w.heap i) ids :=
        h.field (RemoteTable.owned · ids) (fun _ _ => rfl) i
      have hname := h.field Peer.name (fun _ _ => rfl) i
      have hmax : v.table.maxRows = w.table.maxRows :=
        congrArg (·.maxRows) h.setup
      unfold RemoteTable.partitionLoop
      refine peerAt (selfAt ?_)
      rw [howned, hname, hmax]
      by_cases hover : w.table.maxRows
          < (RemoteTable.owned (w.heap i) ids).length
      case pos =>
        rw [if_pos hover]
        refine selfAt ?_
        rw [hmax]
        exact ⟨rfl, h.push _ _ _⟩
      case neg =>
        rw [if_neg hover]
        refine ih _ _ _ _ ⟨⟨h.wired, h.heap, h.setup, h.reqId,
          h.failed, ?_⟩, h.handle⟩ ?_ ?_
        · simpa using h.sel
        · have hlast : (v.table.sel.set at_
              (RemoteTable.owned (w.heap i) ids))[at_]?
              = (w.table.sel.set at_
                (RemoteTable.owned (w.heap i) ids))[at_]? := by
            rw [List.getElem?_set_self', List.getElem?_set_self']
            by_cases hin : at_ < w.table.sel.length
            · simp [hin, h.sel.symm ▸ hin]
            · simp [not_lt.mp hin, h.sel.symm ▸ not_lt.mp hin]
          show List.take _ (v.table.sel.set _ _)
            = List.take _ (w.table.sel.set _ _)
          rw [List.take_add_one, List.take_add_one, hlast,
            List.take_set_of_le le_rfl, List.take_set_of_le le_rfl, hsel]
        · show (w.table.sel.set _ _).length ≤ _
          rw [List.length_set]
          rw [List.length_cons] at hlen
          omega

/-- The mark an exception leaves is the exception. -/
theorem poison (x : Exn) :
    Same (RemoteTable.poison x : M env α) (RemoteTable.poison x) := by
  unfold RemoteTable.poison
  refine .bindEq (.update fun w v h => ?_) fun _ => .throw x
  exact ⟨⟨h.wired, h.heap, h.setup, h.reqId, rfl, h.sel⟩, h.handle⟩

/-- What a gather does under the lock. -/
theorem gatherLocked (hb : env.Blind) (ids : List Int) (h : Twin w v)
    (hlen : w.table.sel.length = w.table.peers.length) :
    Pair (RemoteTable.gatherLocked ids) w (RemoteTable.gatherLocked ids) v
      (fun _ _ w' v' => Twin w' v') fun _ w' v' => Twin w' v' := by
  have hpart : ∀ w v : World env, Twin w v →
      w.table.sel.length = w.table.peers.length →
      Pair (RemoteTable.partition ids) w (RemoteTable.partition ids) v
        (fun k k' w' v' => k = k' ∧ Twin w' v' ∧ v'.table.sel = w'.table.sel)
        fun _ w' v' => Twin w' v' := by
    intro w v h hlen
    have hpeers : v.table.peers = w.table.peers := setup_peers h.setup
    have hloop := partitionLoop ids w.table.peers 0 0 w v h rfl
      (by rw [Nat.zero_add, hlen])
    refine .of_eq rfl ?_ hloop
    show RemoteTable.partitionLoop ids v.table.peers 0 0 v = _
    rw [hpeers]
  unfold RemoteTable.gatherLocked
  refine Pair.bind (P := fun _ _ w' v' => Twin w' v' ∧
    w'.table.sel.length = w'.table.peers.length) ⟨h.push .call _ _, hlen⟩ ?_
  intro _ _ w v hstart
  refine (hpart w v hstart.1 hstart.2).bind ?_
  intro n n' w v hrouted
  obtain ⟨rfl, h, hsel⟩ := hrouted
  by_cases hn : n ≠ ids.length
  case pos =>
    rw [if_pos hn]
    refine Pair.bind (P := fun _ _ _ _ => False) ?_ fun _ _ _ _ hno => hno.elim
    unfold RemoteTable.raiseUnroutable
    have hrows : v.table.rowsTotal = w.table.rowsTotal :=
      setup_rowsTotal h.setup
    refine selfAt ?_
    rw [hsel, hrows]
    exact ⟨rfl, h.push _ _ _⟩
  case neg =>
    rw [if_neg hn]
    have hpeers : v.table.peers = w.table.peers := setup_peers h.setup
    have hwork : Same (do
        let active ← RemoteTable.stageLoop ids
          (w.table.peers.zip w.table.sel)
        RemoteTable.exchange active
        RemoteTable.scatter active : M env Unit) _ :=
      .bindEq (stageLoop ids _) fun active =>
        .bindEq (exchange hb active) fun _ => scatter active
    refine .of_eq rfl ?_ (((hwork w v h).catching
      (fun x w' v' h _ => poison x w' v' h) fun _ _ _ h _ => h).mono
        (fun _ _ _ _ h => h.2) fun _ _ _ h => h)
    show catching _ (RemoteTable.stageLoop ids
      (v.table.peers.zip v.table.sel) >>= _) _ v = _
    rw [hpeers, hsel]

end Twin

/-- Worlds that hold their output view are twins. -/
theorem Entered.twin {out out' : View} {n : Nat} (h : Entered w out n w')
    (h' : Entered v out' n v') (hwv : Akin w v)
    (hw : w.table.stagingNp = w.table.staging)
    (hv : v.table.stagingNp = v.table.staging) : Twin w' v' where
  wired := by rw [h.tr, h'.tr, hwv.wired]
  heap i := by rw [h.heap, h'.heap]; exact hwv.heap i
  setup := by rw [h.setup, h'.setup, hwv.setup]
  reqId := by rw [h.reqId, h'.reqId, hwv.reqId]
  failed := by rw [h.failed, h'.failed, hwv.failed]
  sel := by rw [h.sel, h'.sel, hwv.sel]
  handle := by simp [h.handle hw, h'.handle hv]

/-- What a gather does. -/
theorem Akin.gatherCpu (hb : env.Blind) (ids : List Int) (h : Akin w v)
    (hw : w.table.stagingNp = w.table.staging)
    (hv : v.table.stagingNp = v.table.staging)
    (hlen : w.table.sel.length = w.table.peers.length) :
    Pair (RemoteTable.gatherCpu ids) w (RemoteTable.gatherCpu ids) v
      (fun out out' w' v' => out'.n = out.n ∧ Akin w' v')
      fun _ w' v' => Akin w' v' := by
  unfold RemoteTable.gatherCpu RemoteTable.gatherEnter
  have henter : Pair (RemoteTable.stagingFor ids.length) w
      (RemoteTable.stagingFor ids.length) v
      (fun out out' w' v' => out'.n = out.n ∧ Twin w' v' ∧
        w'.table.sel.length = w'.table.peers.length)
      fun _ w' v' => Akin w' v' := by
    refine .of_runs (stagingFor_spec _) (stagingFor_spec _) ?_
    intro out out' w' v' hin hin'
    refine ⟨hin'.rows.trans hin.rows.symm, hin.twin hin' h hw hv, ?_⟩
    rw [hin.sel, setup_peers hin.setup]
    exact hlen
  simp only [bind_assoc]
  refine henter.bind fun out out' w' v' hin => ?_
  obtain ⟨hn, htwin, hlen'⟩ := hin
  by_cases hids : ids = []
  case pos =>
    simp only [hids, if_true, pure_bind]
    exact ⟨hn, htwin.toAkin⟩
  case neg =>
    simp only [hids, if_false, bind_assoc, pure_bind]
    have huse : Pair RemoteTable.checkUsable w' RemoteTable.checkUsable v'
        (fun _ _ w' v' => Twin w' v' ∧
          w'.table.sel.length = w'.table.peers.length)
        fun _ w' v' => Akin w' v' := by
      unfold RemoteTable.checkUsable
      refine Twin.selfAt ?_
      rw [htwin.failed]
      cases w'.table.failed with
      | none => exact ⟨htwin, hlen'⟩
      | some why => exact ⟨rfl, (htwin.push _ _ _).toAkin⟩
    refine huse.bind fun _ _ w' v' h => ?_
    refine ((Twin.gatherLocked hb ids h.1 h.2).mono (fun _ _ _ _ h => h)
      fun _ _ _ h => h.toAkin).bind fun _ _ w' v' h => ?_
    exact ⟨hn, h.toAkin⟩

end PleRowServer.Client
