/-
An invariant of everything the client does, from the three places that
touch a socket otherwise than to use it.

`Frames I J` is what is asked for the steps that stay away from the
network: `I` reads nothing of the objects but a peer's socket, what it
is armed with and its deadline, and the deadline of a gather, and an
exception is raised into `J`. `Upkeep I` adds the network: connecting,
arming and closing a peer stay in `I`, which stands any other entry of
the history and any deadline. Then every method and every public call
stays in `I`, whichever way it ends, so `I` holds in every state a
constructed table can reach, interrupted or not.
-/
import PleRowServer.Client.Usage

namespace PleRowServer.Client

open Base Wire
open RemoteTable (Config initial)

variable {env : Env} {w w₀ w' : World env} {cfg : Config} {i : PeerId}
  {I : World env → Prop} {J : Exn → World env → Prop}

/-- The entry neither opens a socket nor sets its timeout. -/
def Ev.Untuned : Ev → Prop
  | .connect .. | .settimeout .. => False
  | _ => True

/-- What an invariant has to stand off the network: what the objects
hold but for that, and an exception. -/
structure Frames (I : World env → Prop) (J : Exn → World env → Prop) :
    Prop where
  frame : ∀ w w', I w → w'.hist = w.hist →
    w'.table.gatherDeadline = w.table.gatherDeadline →
    (∀ i, (w'.heap i).sock = (w.heap i).sock ∧
      (w'.heap i).armed = (w.heap i).armed ∧
      (w'.heap i).deadline = (w.heap i).deadline) → I w'
  raised : ∀ w e, I w → J e (w.push (.raised e) (env.produces_raised w.tr e))

/-- What an invariant has to stand off the network and on it, call by
call. -/
structure Upkeep (I : World env → Prop) : Prop extends
    Frames I fun _ => I where
  push : ∀ w e he, I w → e.Untuned → I (w.push e he)
  connect : ∀ i ct t, Keeps I (Peer.connect i ct t)
  arm : ∀ i, Keeps I (Peer.arm i)
  close : ∀ i abort, Keeps I (Peer.close i abort)

/-- What an invariant has to stand over an exchange too, which gives the
peers a deadline and takes it back. -/
structure Lasting (I : World env → Prop) : Prop extends Upkeep I where
  exchange : ∀ active, Keeps I (RemoteTable.exchange active)

/-- What a call leaves behind either way. -/
theorem Op.takes_keeps {op : Op} {o : Outcome} {Q : World env → Prop}
    (h : Runs op.run w (fun _ => Q) fun _ => Q) (hop : op.Takes w o w') :
    Q w' := by
  obtain ⟨hret, hraise⟩ := Op.takes_spec h
  cases o with
  | returned => exact hret w' hop
  | raised e => exact hraise e w' hop

/-- `gather` does what `gather_cpu` does, and may then find that its `out`
has not the shape. -/
theorem gather_after {P : World env → Prop} {E : Exn → World env → Prop}
    {ids : List Int} {out : Option Nat}
    (h : Runs (RemoteTable.gatherCpu ids) w (fun _ => P) E)
    (hshape : ∀ v, P v →
      E .shape (v.push (.raised .shape) (env.produces_raised v.tr .shape))) :
    Runs (Op.gather ids out).run w (fun _ => P) E := by
  unfold Op.run RemoteTable.gather
  refine Runs.bind (P := fun _ => P) ?_ (fun _ _ hv => hv) fun _ _ hv => hv
  refine h.bind ?_ fun _ _ hv => hv
  intro rows v hv
  simp only [runs_bind, runs_get]
  cases out with
  | none => exact hv
  | some m =>
      simp only
      split
      · simp only [runs_bind, runs_raise]
        exact hshape v hv
      · exact hv

section Reading

variable (hraise : ∀ {α : Type} (e : Exn), Keeps I (Client.raise e : M env α))
  (hgather : ∀ ids, Keeps I (RemoteTable.gatherCpu ids : M env _))
include hraise

/-- The ids of a chunk. -/
theorem arange_keeps (start : Int) (n : Nat) :
    Keeps I (RemoteTable.arange start n : M env _) := by
  unfold RemoteTable.arange
  exact .ite (fun _ => .pure _) fun _ => hraise _

include hgather

/-- `gather` adds a copy to `gather_cpu`. -/
theorem gather_keeps (ids : List Int) (out : Option Nat) :
    Keeps I (RemoteTable.gather ids out : M env _) := by
  unfold RemoteTable.gather
  refine .bind (hgather ids) fun rows => .bind .get fun w => ?_
  split
  · exact .pure _
  · exact .guard (fun _ => hraise _) (.pure _)

/-- `read_rows_contiguous` is one `gather_cpu` after the other. -/
theorem readRows_keeps (start count chunkRows : Int) :
    Keeps I (RemoteTable.readRowsContiguous start count chunkRows
      : M env _) := by
  unfold RemoteTable.readRowsContiguous
  refine .ite (fun _ => .pure _) fun _ => .ite (fun _ => hraise _)
    fun _ => .bind (fun _ hw => hw) fun t => ?_
  generalize ([] : List (List UInt8)) = buf
  suffices hloop : ∀ (step rounds : Nat) (buf : List (List UInt8)),
      Keeps I (RemoteTable.readLoop start count.toNat step rounds buf
        : M env _) from hloop _ _ buf
  intro step rounds
  induction rounds with
  | zero =>
      intro buf
      unfold RemoteTable.readLoop
      exact .ite (fun _ => .pure _) fun _ => hraise _
  | succ rounds ih =>
      intro buf
      unfold RemoteTable.readLoop
      refine .ite (fun _ => .pure _) fun _ => ?_
      refine .bind (arange_keeps hraise _ _) fun ids => ?_
      exact .bind (hgather _) fun rows => .bind .get fun w => ih _

end Reading

namespace Frames

/-- What marks the table leaves it in `I`. -/
theorem poison {α : Type} (h : Frames I fun _ => I) (e : Exn) :
    Keeps I (RemoteTable.poison e : M env α) := by
  unfold RemoteTable.poison
  refine .bind (fun w hw => ?_) fun _ => fun w hw => hw
  exact h.frame w _ hw rfl rfl fun _ => ⟨rfl, rfl, rfl⟩

variable {α : Type} (h : Frames I J)
include h

-- ============================================================= statements

/-- An exception is raised into `J`. -/
theorem raise (e : Exn) : Stays I J (Client.raise e : M env α) :=
  fun w hw => h.raised w e hw

omit h in
/-- Reading a peer. -/
theorem peer (i : PeerId) : Stays I J (Client.peer i : M env _) :=
  fun _ hw => hw

omit h in
/-- Reading the table. -/
theorem self : Stays I J (RemoteTable.self : M env _) := fun _ hw => hw

/-- An assignment to a peer that is about neither its socket nor the
timeouts of it. -/
theorem modifyPeer {f : Peer → Peer}
    (hf : ∀ p : Peer, (f p).sock = p.sock ∧ (f p).armed = p.armed ∧
      (f p).deadline = p.deadline) :
    Stays I J (Client.modifyPeer i f : M env _) := by
  intro w hw
  refine h.frame w _ hw rfl rfl fun j => ?_
  by_cases hj : j = i
  · subst hj
    rw [World.setPeer_self]
    exact hf _
  · rw [World.setPeer_ne _ hj]
    exact ⟨rfl, rfl, rfl⟩

/-- An assignment to the table that leaves the deadline of the gather
alone. -/
theorem modifySelf {f : RemoteTable → RemoteTable}
    (hf : ∀ t : RemoteTable, (f t).gatherDeadline = t.gatherDeadline) :
    Stays I J (RemoteTable.modifySelf f : M env _) :=
  fun w hw => h.frame w _ hw rfl (hf _) fun _ => ⟨rfl, rfl, rfl⟩

/-- A complaint that names the peer, or what follows. -/
theorem complain {c : Prop} [Decidable c] {f : Peer → Exn}
    {k : Unit → M env α} (hk : Stays I J (k ())) :
    Stays I J (if c then Client.peer i >>= fun p => Client.raise (f p) >>= k
      else k ()) :=
  .ite (fun _ => .bind (peer _) fun _ => .bind (h.raise _) fun _ => hk)
    fun _ => hk

-- ============================================================ off the network

/-- Staging: the shares' buffers are grown and the ids copied. -/
theorem stageLoop (ids : List Int) :
    ∀ l : List Share, Stays I J (RemoteTable.stageLoop ids l : M env _) := by
  intro l
  induction l with
  | nil => exact .pure _
  | cons s l ih =>
      unfold RemoteTable.stageLoop
      refine .ite (fun _ => ih) fun _ => .bind ?_ fun _ => .bind ?_ fun _ =>
        .bind ih fun _ => .pure _
      · unfold Peer.reserve
        refine .bind (peer _) fun p => .ite (fun _ => .pure _) fun _ => ?_
        refine .bind (h.modifyPeer fun _ => ⟨rfl, rfl, rfl⟩) fun _ => ?_
        refine .guard (fun _ => h.raise _) fun w hw => ?_
        refine h.frame w _ hw rfl rfl fun j => ?_
        by_cases hj : j = s.1
        · subst hj
          rw [World.setPeer_self]
          exact ⟨rfl, rfl, rfl⟩
        · rw [World.setPeer_ne _ hj]
          exact ⟨rfl, rfl, rfl⟩
      · exact h.modifyPeer fun _ => ⟨rfl, rfl, rfl⟩

/-- `_partition`, one peer's mask after the other. -/
theorem partitionLoop (ids : List Int) :
    ∀ (is : List PeerId) (at_ routed : Nat),
      Stays I J (RemoteTable.partitionLoop ids is at_ routed : M env _) := by
  intro is
  induction is with
  | nil => intro at_ routed; exact .pure _
  | cons i is ih =>
      intro at_ routed
      unfold RemoteTable.partitionLoop
      refine .bind (peer i) fun p => .bind self fun t => ?_
      refine .ite (fun _ => .bind self fun t => .bind (h.raise _) fun _ => ?_)
        fun _ => ?_
      · exact .bind (h.modifySelf fun _ => rfl) fun _ => ih _ _
      · exact .bind (h.modifySelf fun _ => rfl) fun _ => ih _ _

/-- `_raise_unroutable`. -/
theorem raiseUnroutable (ids : List Int) :
    Stays I J (RemoteTable.raiseUnroutable ids : M env _) := by
  unfold RemoteTable.raiseUnroutable
  exact .bind self fun t => h.raise _

/-- `_partition`, and the count of ids that some peer has. -/
theorem partition (ids : List Int) :
    Stays I J (RemoteTable.partition ids : M env _) := by
  unfold RemoteTable.partition
  exact .bind self fun t => h.partitionLoop ids _ _ _

/-- The rows are scattered into the staging. -/
theorem scatter (active : List Share) :
    Stays I J (RemoteTable.scatter active : M env _) := by
  unfold RemoteTable.scatter
  refine .bind self fun t => ?_
  split
  · exact h.raise _
  · exact .forEach fun s _ w hw => h.frame w _ hw rfl rfl
      fun _ => ⟨rfl, rfl, rfl⟩

/-- A marked table raises what it is marked with. -/
theorem checkUsable : Stays I J (RemoteTable.checkUsable : M env _) := by
  unfold RemoteTable.checkUsable
  refine .bind self fun t => ?_
  split
  · exact .pure _
  · exact h.raise _

/-- `_staging_for` grows the staging and what it hands out. -/
theorem stagingFor (n : Nat) :
    Stays I J (RemoteTable.stagingFor n : M env _) := by
  unfold RemoteTable.stagingFor
  refine .bind .get fun w => ?_
  have hgrow : ∀ (f : World env → World env) (out : View),
      (∀ w, (f w).hist = w.hist ∧ (f w).heap = w.heap ∧
        (f w).table.gatherDeadline = w.table.gatherDeadline) →
      Stays I J (do modify f; pure out : M env _) := by
    intro f out hf v hv
    refine h.frame v _ hv (hf v).1 (hf v).2.2 fun i => ?_
    rw [(hf v).2.1]
    exact ⟨rfl, rfl, rfl⟩
  simp only
  split
  · exact hgrow _ _ fun _ => ⟨rfl, rfl, rfl⟩
  · exact .ite (fun _ => hgrow _ _ fun _ => ⟨rfl, rfl, rfl⟩) fun _ => .pure _

end Frames

namespace Upkeep

variable {α : Type} (h : Upkeep I)
include h

-- =============================================================== messages

/-- An entry that is neither a connection nor a timeout set. -/
theorem note {e : Ev} {he} (hn : e.Untuned) :
    Keeps I (Client.mark e he : M env _) :=
  fun w hw => h.push w e (he w.tr) hw hn

/-- `_next_req_id` and the mark that it was drawn. -/
theorem nextReqId (i : PeerId) :
    Keeps I (RemoteTable.nextReqId i : M env _) := by
  unfold RemoteTable.nextReqId
  refine .bind (h.modifySelf fun _ => rfl) fun _ => .bind Frames.self fun t => ?_
  exact .bind (h.note trivial) fun _ => .pure _

/-- `time.monotonic`. -/
theorem now : Keeps I (Client.now : M env _) := by
  intro w hw
  rw [runs_now]
  exact fun t ht => h.push w (.now t) ht hw trivial

/-- `time.sleep`, interrupted or not. -/
theorem sleep (t : ℚ) : Keeps I (Client.sleep t : M env _) := by
  intro w hw
  refine runs_sleep (fun ht => h.push w _ ht hw trivial) ?_
  intro r ht e he _ _
  exact h.push _ _ he (h.push w _ ht hw trivial) trivial

/-- The peer's socket, or the complaint that it has none. -/
theorem socket (i : PeerId) : Keeps I (Peer.socket i : M env _) := by
  unfold Peer.socket
  refine .bind (Frames.peer i) fun p => ?_
  split
  · exact .pure _
  · exact h.raise _

/-- One `recv_into` after `_arm`. -/
theorem recv (i : PeerId) (want : Nat) :
    Keeps I (Peer.recv i want : M env _) := by
  unfold Peer.recv
  refine .bind (h.arm i) fun _ => .bind (Frames.peer i) fun p => ?_
  refine .bind (h.socket i) fun c => .bind ?_ fun r => ?_
  · intro w hw
    rw [runs_sysRecv]
    exact fun r hr => h.push w _ hr hw trivial
  · split
    · exact .pure _
    all_goals exact h.raise _

/-- `_sendall` after `_arm`. -/
theorem sendall (i : PeerId) (data : List UInt8) :
    Keeps I (Peer.sendall i data : M env _) := by
  unfold Peer.sendall
  refine .bind (h.arm i) fun _ => .bind (h.socket i) fun c => ?_
  refine .bind ?_ fun r => ?_
  · intro w hw
    rw [runs_sysSend]
    exact fun r hr => h.push w _ hr hw trivial
  · split
    · exact .pure _
    all_goals exact h.raise _

/-- `send_bare`. -/
theorem sendBare (i : PeerId) (op id : Nat) :
    Keeps I (Peer.sendBare i op id : M env _) := by
  unfold Peer.sendBare
  split
  · exact h.raise _
  · exact .bind (h.sendall i _) fun _ => h.modifyPeer fun _ => ⟨rfl, rfl, rfl⟩

/-- `send_gather`. -/
theorem sendGather (i : PeerId) (id count : Nat) :
    Keeps I (Peer.sendGather i id count : M env _) := by
  unfold Peer.sendGather
  split
  · exact h.raise _
  · refine .bind (h.modifyPeer fun _ => ⟨rfl, rfl, rfl⟩) fun _ => ?_
    refine .bind (Frames.peer i) fun p => .bind (h.sendall i _) fun _ => ?_
    exact h.modifyPeer fun _ => ⟨rfl, rfl, rfl⟩

/-- `_recv_exact`, by the reads it has left. -/
theorem recvExact (i : PeerId) (want : Nat) :
    Keeps I (Peer.recvExact i want : M env _) := by
  unfold Peer.recvExact
  generalize ([] : List UInt8) = got
  suffices hloop : ∀ (rounds : Nat) (got : List UInt8),
      Keeps I (Peer.recvLoop i want rounds got : M env _) from hloop want got
  intro rounds
  induction rounds with
  | zero =>
      intro got
      unfold Peer.recvLoop
      exact .ite (fun _ => .pure _) fun _ => h.raise _
  | succ rounds ih =>
      intro got
      unfold Peer.recvLoop
      refine .ite (fun _ => .pure _) fun _ => .bind (h.recv i _) fun bs => ?_
      exact h.complain (ih _)

/-- `read_header`, and each of its complaints. -/
theorem readHeader (i : PeerId) :
    Keeps I (Peer.readHeader i : M env _) := by
  unfold Peer.readHeader
  refine .bind (h.recvExact i _) fun hdr => ?_
  split
  · unfold Peer.checkHeader
    refine .bind (Frames.peer i) fun p => ?_
    refine .guard (fun _ => h.raise _) ?_
    refine .guard (fun _ => h.raise _) ?_
    refine .bind (h.modifyPeer fun _ => ⟨rfl, rfl, rfl⟩) fun _ => ?_
    exact .guard (fun _ => h.raise _) (.pure _)
  · exact h.raise _

/-- `read_ack`. -/
theorem readAck (i : PeerId) : Keeps I (Peer.readAck i : M env _) := by
  unfold Peer.readAck
  refine .bind (h.readHeader i) fun n => ?_
  refine .ite (fun _ => .bind (Frames.peer i) fun p => h.raise _) fun _ => .pure _

/-- `query_stat`. -/
theorem queryStat (i : PeerId) (id : Nat) :
    Keeps I (Peer.queryStat i id : M env _) := by
  unfold Peer.queryStat
  refine .bind (h.sendBare i _ id) fun _ => .bind (h.readHeader i) fun n => ?_
  refine h.complain (.bind (h.recvExact i _) fun body => ?_)
  split
  · exact .bind (Frames.peer i) fun _ => .pure _
  · exact h.raise _

/-- `begin_rows`. -/
theorem beginRows (i : PeerId) (count : Nat) :
    Keeps I (Peer.beginRows i count : M env _) := by
  unfold Peer.beginRows
  refine .bind (h.readHeader i) fun got => ?_
  exact h.complain (h.modifyPeer fun _ => ⟨rfl, rfl, rfl⟩)

/-- `pump_rows`. -/
theorem pumpRows (i : PeerId) : Keeps I (Peer.pumpRows i : M env _) := by
  unfold Peer.pumpRows
  refine .bind (Frames.peer i) fun p => .bind (h.recv i _) fun bs => ?_
  refine .guard (fun _ => h.raise _) ?_
  refine .bind (h.modifyPeer fun _ => ⟨rfl, rfl, rfl⟩) fun _ => ?_
  exact .bind (Frames.peer i) fun _ => .pure _

/-- `finish_rows`, by the reads it has left. -/
theorem finishRows (i : PeerId) :
    Keeps I (Peer.finishRows i : M env _) := by
  unfold Peer.finishRows
  refine .bind (Frames.peer i) fun p => ?_
  generalize p.rdWant - p.rdGot = rounds
  induction rounds with
  | zero =>
      unfold Peer.finishLoop
      refine .bind (Frames.peer i) fun p => ?_
      exact .ite (fun _ => h.raise _) fun _ => .pure _
  | succ rounds ih =>
      unfold Peer.finishLoop
      refine .bind (Frames.peer i) fun p => ?_
      exact .ite (fun _ => .bind (h.pumpRows i) fun _ => ih) fun _ => .pure _

-- ================================================================ gathers

/-- `PLERemoteTable._connect`: the retries, and the pauses between. -/
theorem connectTo (D : ℚ) (i : PeerId) :
    Keeps I (RemoteTable.connect i D : M env _) := by
  unfold RemoteTable.connect
  generalize (1 / 2 : ℚ) = pause
  suffices hloop : ∀ (rounds : Nat) (pause : ℚ), Keeps I
      (RemoteTable.connectLoop i D rounds pause : M env _) from
    hloop env.rounds pause
  intro rounds
  induction rounds with
  | zero => intro pause; exact h.raise _
  | succ rounds ih =>
      intro pause
      unfold RemoteTable.connectLoop
      refine .bind h.now fun t => .bind Frames.self fun t' => ?_
      refine Keeps.catching (h.connect i _ _) fun e => .bind h.now fun u => ?_
      exact h.complain (.bind (h.sleep _) fun _ => ih _)

/-- `_check_range`. -/
theorem checkRange (i : PeerId) (st : Stat) :
    Keeps I (RemoteTable.checkRange i st : M env _) := by
  unfold RemoteTable.checkRange
  refine .bind (Frames.peer i) fun p => ?_
  exact .guard (fun _ => h.raise _) (h.modifyPeer fun _ => ⟨rfl, rfl, rfl⟩)

/-- The first pass of an attempt over one peer. -/
theorem ready (D : ℚ) (s : Share) :
    Keeps I (RemoteTable.ready D s : M env _) := by
  unfold RemoteTable.ready
  refine .bind (h.modifyPeer fun _ => ⟨rfl, rfl, rfl⟩) fun _ => ?_
  refine .bind (Frames.peer _) fun p => ?_
  split
  · exact .pure _
  · refine .bind (h.connectTo D _) fun _ => .bind (h.nextReqId _) fun id => ?_
    exact .bind (h.queryStat _ id) fun st => h.checkRange _ st

/-- The connections that `select` gave back. -/
theorem pumpReady :
    ∀ (cs : List ConnId) (waiting : List (ConnId × PeerId)),
      Keeps I (RemoteTable.pumpReady cs waiting : M env _) := by
  intro cs
  induction cs with
  | nil => intro waiting; exact .pure _
  | cons c cs ih =>
      intro waiting
      unfold RemoteTable.pumpReady
      split
      · exact ih waiting
      · exact .bind (h.pumpRows _) fun full => .ite (fun _ => ih _)
          fun _ => ih _

/-- `_drain`'s own timeout. -/
theorem drainTimeout (waiting : List (ConnId × PeerId)) (wait : ℚ) :
    Keeps I (RemoteTable.drainTimeout waiting wait : M env _) := by
  unfold RemoteTable.drainTimeout
  exact .bind .get fun _ => .ite (fun _ => h.raise _) fun _ => h.raise _

/-- `_drain`, by its rounds. -/
theorem drainLoop (D : ℚ) :
    ∀ (rounds : Nat) (waiting : List (ConnId × PeerId)),
      Keeps I (RemoteTable.drainLoop D rounds waiting : M env _) := by
  intro rounds
  induction rounds with
  | zero =>
      intro waiting
      unfold RemoteTable.drainLoop
      exact .ite (fun _ => .pure _) fun _ => h.raise _
  | succ rounds ih =>
      intro waiting
      unfold RemoteTable.drainLoop
      refine .ite (fun _ => .pure _) fun _ => ?_
      refine .bind Frames.self fun t => .bind h.now fun now => ?_
      refine .ite (fun _ => .bind ?_ fun r => ?_) fun _ => h.drainTimeout _ _
      · intro w hw
        rw [runs_sysSelect]
        exact fun r hr => h.push w _ hr hw trivial
      · split
        · exact h.raise _
        · exact h.raise _
        · exact h.raise _
        · exact .guard (fun _ => h.drainTimeout _ _)
            (.bind (h.pumpReady _ _) fun left => ih left)

/-- The last pass of an attempt. -/
theorem finish (D : ℚ) (l : List Share) :
    Keeps I (RemoteTable.finish l D : M env _) := by
  unfold RemoteTable.finish
  refine .ite (fun _ => .bind .get fun w => h.drainLoop D _ _) fun _ => ?_
  split
  · exact h.raise _
  · exact h.finishRows _

/-- One attempt. -/
theorem attempt (D : ℚ) (n : Nat) (l : List Share) :
    Keeps I (RemoteTable.attempt n l D : M env _) := by
  unfold RemoteTable.attempt
  refine .bind (.forEach fun s _ => h.ready D s) fun _ => ?_
  refine .bind (.forEach fun s _ => .bind (h.nextReqId _) fun id =>
    h.sendGather _ id _) fun _ => ?_
  refine .bind (.forEach fun s _ => h.beginRows _ _) fun _ => ?_
  refine .bind (h.finish D l) fun _ => ?_
  exact .ite (fun _ => .bind h.now fun _ => .pure _) fun _ => .pure _

/-- The handler of a failed attempt, which only closes. -/
theorem giveUp (k : Nat) (l : List Share) (D : ℚ) (e : Exn) :
    Keeps I (RemoteTable.giveUp k l D e : M env _) := by
  unfold RemoteTable.giveUp
  refine .bind (h.note trivial) fun _ => .bind .get fun w => ?_
  refine .bind (.forEach fun s _ => h.close _ _) fun _ => ?_
  refine .guard (fun _ => h.raise _) (.bind h.now fun t => ?_)
  exact .guard (fun _ => h.raise _) (.pure _)

/-- The retry loop, by the attempts left. -/
theorem attempts (D : ℚ) :
    ∀ (left : Nat) (l : List Share),
      Keeps I (RemoteTable.attempts D left l : M env _) := by
  intro left
  induction left with
  | zero => intro l; exact .pure _
  | succ left ih =>
      intro l
      unfold RemoteTable.attempts
      refine .bind (h.note trivial) fun _ => ?_
      exact Keeps.catching (h.attempt D _ l) fun e =>
        .bind (h.giveUp _ _ D e) fun l => ih l

/-- `_exchange`, if `I` stands the deadlines it sets and takes back. -/
theorem exchange (hd : ∀ w active d, I w →
    I (RemoteTable.setDeadlines active d w)) (active : List Share) :
    Keeps I (RemoteTable.exchange active : M env _) := by
  unfold RemoteTable.exchange
  refine .bind h.now fun t => .bind Frames.self fun t' => .bind ?_ fun _ => ?_
  · exact fun w hw => hd w _ _ hw
  · intro w hw
    rw [runs_cleaning]
    refine (h.attempts _ _ _ w hw).mono ?_ ?_
    · exact fun _ v hv => hd v _ _ hv
    · exact fun _ v hv => hd v _ _ hv

-- =========================================================== construction

/-- `_check_split`, one range after the other. -/
theorem splitLoop :
    ∀ (is : List PeerId) (expect : Nat),
      Keeps I (RemoteTable.splitLoop is expect : M env _) := by
  intro is
  induction is with
  | nil => intro expect; exact .pure _
  | cons i is ih =>
      intro expect
      unfold RemoteTable.splitLoop
      refine .bind (Frames.peer i) fun p => ?_
      exact .guard (fun _ => h.raise _) (ih _)

/-- Construction. -/
theorem init : Keeps I (RemoteTable.init : M env _) := by
  unfold RemoteTable.init
  refine .bind Frames.self fun t => Keeps.catching ?_ fun e => ?_
  · refine .bind h.now fun t' => .bind (.forEach fun i _ => ?_) fun _ => ?_
    · unfold RemoteTable.enroll
      refine .bind (h.connectTo _ i) fun _ => .bind (h.nextReqId i) fun id => ?_
      refine .bind (h.queryStat i id) fun st => ?_
      unfold RemoteTable.applyStat
      refine .bind (h.modifyPeer fun _ => ⟨rfl, rfl, rfl⟩) fun _ => ?_
      refine .bind (Frames.peer i) fun p => .bind Frames.self fun t => ?_
      refine .guard (fun _ => h.raise _) ?_
      exact .ite (fun _ => h.raise _) fun _ => .pure _
    · unfold RemoteTable.checkSplit
      refine .bind .get fun w => .bind (h.modifySelf fun _ => rfl) fun _ => ?_
      refine .bind (h.splitLoop _ _) fun expect => ?_
      exact .ite (fun _ => h.raise _) fun _ => .pure _
  · refine .bind Frames.self fun t => .bind (.forEach fun i _ => h.close i _)
      fun _ => ?_
    exact fun w hw => hw

end Upkeep

namespace Lasting

variable {α : Type} (h : Lasting I)
include h

-- =========================================================== public calls

/-- What `gather_cpu` does under the lock. -/
theorem gatherLocked (ids : List Int) :
    Keeps I (RemoteTable.gatherLocked ids : M env _) := by
  unfold RemoteTable.gatherLocked
  refine .bind (h.note trivial) fun _ => ?_
  refine .bind (h.partition ids) fun n => ?_
  refine .guard (fun _ => h.raiseUnroutable ids) ?_
  refine .bind Frames.self fun t => Keeps.catching ?_ fun e => h.poison e
  refine .bind Frames.self fun t => .bind (h.stageLoop ids _) fun active => ?_
  exact .bind (h.exchange active) fun _ => h.scatter active

/-- `gather_cpu`, the lock included. -/
theorem gatherCpu (ids : List Int) :
    Keeps I (RemoteTable.gatherCpu ids : M env _) := by
  unfold RemoteTable.gatherCpu RemoteTable.gatherEnter
  refine .bind (.bind (h.stagingFor _) fun out => ?_) fun out => ?_
  · exact .ite (fun _ => .pure _) fun _ => .bind h.checkUsable fun _ => .pure _
  · exact .ite (fun _ => .pure _) fun _ => .bind (h.gatherLocked ids)
      fun _ => .pure _

/-- Every public call. -/
theorem call (op : Op) : Keeps I (op.run : M env _) := by
  cases op with
  | gatherCpu ids => exact .bind (h.gatherCpu ids) fun _ => .pure _
  | gather ids out =>
      exact .bind (gather_keeps (fun e => h.raise e) h.gatherCpu ids out)
        fun _ => .pure _
  | readRows start count chunkRows =>
      exact .bind (readRows_keeps (fun e => h.raise e) h.gatherCpu start count
        chunkRows) fun _ => .pure _
  | ping =>
      unfold Op.run RemoteTable.ping
      refine .bind (h.note trivial) fun _ => .bind h.checkUsable fun _ => ?_
      refine .bind Frames.self fun t => Keeps.catching ?_ fun e => h.poison e
      refine .bind (.forEach fun i _ => .bind (h.nextReqId i) fun id =>
        h.sendBare i _ id) fun _ => ?_
      exact .forEach fun i _ => h.readAck i
  | stat =>
      refine .bind ?_ fun _ => .pure _
      unfold RemoteTable.stat
      refine .bind (h.note trivial) fun _ => .bind h.checkUsable fun _ => ?_
      refine .bind Frames.self fun t => .bind (Keeps.catching ?_ fun e => h.poison e)
        fun stats => ?_
      · generalize t.peers = is
        induction is with
        | nil => exact .pure _
        | cons i is ih =>
            unfold RemoteTable.queryAll
            refine .bind (h.nextReqId i) fun id => ?_
            exact .bind (h.queryStat i id) fun st => .bind ih fun _ => .pure _
      · exact .bind (.forEach fun x _ => h.checkRange _ _) fun _ => .pure _
  | close =>
      unfold Op.run RemoteTable.close
      refine .bind (h.note trivial) fun _ => .bind Frames.self fun t => ?_
      exact .bind (.forEach fun i _ => h.close i _) fun _ => h.modifySelf fun _ => rfl

/-- An invariant that lasts holds after a call, whichever way that ended.
-/
theorem takes {op : Op} {o : Outcome} (hw : I w) (hop : op.Takes w o w') :
    I w' :=
  Op.takes_keeps (h.call op w hw) hop

/-- An invariant that lasts holds in every state reached. -/
theorem used {ok : Outcome → Prop} (hc : Constructed env cfg w₀)
    (h₀ : I (initial env cfg)) (hu : Used ok w₀ w) : I w := by
  refine hu.induct (I := I) ?_ fun op o v v' hv hop _ => h.takes hv hop
  have hinit := h.init _ h₀
  unfold Runs at hinit
  rw [hc.runs] at hinit
  exact hinit

end Lasting

end PleRowServer.Client
