/-
An invariant of `_exchange` from the few places where it touches the
world. Whatever attempt and whichever phase they belong to, the calls
that can block are made in a receive, in the send of a request, in the
select of `_drain`, or while a peer is made ready again. `Calls I J` asks
that each of the first three stays in `I` or raises into `J`, and so does
a mark, a drawn request id, and an assignment to a peer that leaves its
socket alone. `Sites I J` adds what is asked of the two places where an
invariant may be given up for a while: making a peer ready, and the
handler of a failed attempt. Then the retry loop stays in `I` or raises
into `J`.

The specifications of the stages say what an exchange achieves. This is
the other kind of statement: what it never does.
-/
import PleRowServer.Client.ExchangeSpec

namespace PleRowServer.Client

open Base Wire

variable {env : Env} {w w' : World env} {i : PeerId} {D : ℚ}
  {todo : List Share} {I : World env → Prop} {J : Exn → World env → Prop}

-- ================================================================= sites

/-- An assignment to a peer that leaves its socket, its range, what is
known of them, and the ids staged alone. -/
structure Peer.Edited (p p' : Peer) : Prop where
  sock : p'.sock = p.sock
  timeout : p'.timeout = p.timeout
  armed : p'.armed = p.armed
  deadline : p'.deadline = p.deadline
  req : p'.req = p.req
  geometry : p'.geometry = p.geometry

/-- A mark, or a reading of the clock. -/
def Ev.Note : Ev → Prop
  | .attempt _ _ | .caught _ _ | .now _ => True
  | _ => False

/-- What an invariant of an exchange with `todo` under the deadline `D`
has to stand while an answer is asked for and read. -/
structure Calls (I : World env → Prop) (J : Exn → World env → Prop) (D : ℚ)
    (todo : List Share) : Prop where
  note : ∀ w e he, I w → e.Note → I (w.push e he)
  raise : ∀ w e he, I w → J e (w.push (.raised e) he)
  draw : ∀ w i, I w → I (w.draw i)
  edit : ∀ w i p, i ∈ peersOf todo → I w → (w.heap i).Edited p →
    I (w.setPeer i p)
  recv : ∀ s ∈ todo, ∀ want, Stays I J (Peer.recv s.1 want)
  gather : ∀ s ∈ todo, ∀ id, Stays I J (Peer.sendGather s.1 id s.2.length)
  select : ∀ w t ht cs r hr, I w → 0 < min w.table.timeout (D - t) →
    I ((w.push (.now t) ht).push
      (.select cs (min w.table.timeout (D - t)) r) hr)

/-- What an invariant has to stand besides when a peer is made ready, and
when an attempt failed. -/
structure Sites (I : World env → Prop) (J : Exn → World env → Prop) (D : ℚ)
    (todo : List Share) : Prop extends Calls I J D todo where
  ready : ∀ s ∈ todo, Stays I J (RemoteTable.ready D s)
  giveUp : ∀ k l e, (∀ s ∈ l, s ∈ todo) → ∀ w, J e w → e.isOS = true →
    Runs (RemoteTable.giveUp k l D e) w
      (fun l' w' => I w' ∧ ∀ s ∈ l', s ∈ todo) J

namespace Calls

variable {α : Type} {s : Share}

section Steps

variable (h : Calls I J D todo)
include h

/-- A mark or a reading of the clock stays in `I`. -/
theorem keepsMark {e : Ev} {he} (hn : e.Note) :
    Stays I J (mark e he : M env _) :=
  fun w hw => h.note w e (he w.tr) hw hn

/-- An exception is raised into `J`. -/
theorem keepsRaise (e : Exn) : Stays I J (Client.raise e : M env α) :=
  fun w hw => h.raise w e (env.produces_raised w.tr e) hw

/-- `time.monotonic`. -/
theorem now : Stays I J (now : M env _) := by
  intro w hw
  rw [runs_now]
  intro t ht
  exact h.note w (.now t) ht hw trivial

/-- `_next_req_id`. -/
theorem nextReqId (i : PeerId) : Stays I J (RemoteTable.nextReqId i : M env _) :=
  fun w hw => h.draw w i hw

/-- An assignment to one of the peers asked, if it is an edit. -/
theorem modifyPeer {f : Peer → Peer} (hi : i ∈ peersOf todo)
    (hf : ∀ p : Peer, p.Edited (f p)) :
    Stays I J (modifyPeer i f : M env _) :=
  fun w hw => h.edit w i (f (w.heap i)) hi hw (hf _)

omit h in
/-- Reading a peer. -/
theorem peer (i : PeerId) : Stays I J (peer i : M env _) := fun _ hw => hw

omit h in
/-- Reading the table. -/
theorem self : Stays I J (RemoteTable.self : M env _) := fun _ hw => hw

/-- A complaint that names the peer, or what follows. -/
theorem complain {c : Prop} [Decidable c] {f : Peer → Exn}
    {k : Unit → M env α} (hk : Stays I J (k ())) :
    Stays I J (if c then Client.peer i >>= fun p => Client.raise (f p) >>= k
      else k ()) :=
  .ite (fun _ => .bind (peer _) fun _ => .bind (h.keepsRaise _) fun _ => hk)
    fun _ => hk

-- ============================================================== messages

/-- `_recv_exact`, by the reads it has left: each is a receive of `Calls`.
-/
theorem recvLoop (hs : s ∈ todo) {want : Nat} :
    ∀ (rounds : Nat) (got : List UInt8),
      Stays I J (Peer.recvLoop s.1 want rounds got : M env _) := by
  intro rounds
  induction rounds with
  | zero =>
      intro got
      unfold Peer.recvLoop
      exact .ite (fun _ => .pure _) fun _ => h.keepsRaise _
  | succ rounds ih =>
      intro got
      unfold Peer.recvLoop
      refine .ite (fun _ => .pure _) fun _ => .bind (h.recv s hs _) ?_
      intro bs
      exact h.complain (ih _)

/-- `_recv_exact` from its start. -/
theorem recvExact (hs : s ∈ todo) (want : Nat) :
    Stays I J (Peer.recvExact s.1 want : M env _) :=
  h.recvLoop hs want []

/-- The checks of `read_header`, which clear the pending id. -/
theorem checkHeader (hi : i ∈ peersOf todo) {magic reqId status count : Nat} :
    Stays I J (Peer.checkHeader i magic reqId status count : M env _) := by
  unfold Peer.checkHeader
  refine .bind (peer _) fun p => ?_
  refine .guard (fun _ => h.keepsRaise _) ?_
  refine .guard (fun _ => h.keepsRaise _) ?_
  refine .bind (h.modifyPeer hi fun p => ⟨rfl, rfl, rfl, rfl, rfl, rfl⟩)
    fun _ => ?_
  exact .guard (fun _ => h.keepsRaise _) (.pure _)

/-- `read_header`. -/
theorem readHeader (hs : s ∈ todo) :
    Stays I J (Peer.readHeader s.1 : M env _) := by
  unfold Peer.readHeader
  refine .bind (h.recvExact hs _) fun hdr => ?_
  split
  · exact h.checkHeader (mem_peersOf hs)
  · exact h.keepsRaise _

/-- `query_stat`, where sending the STAT comes to `I`. -/
theorem queryStat (hs : s ∈ todo) {id : Nat}
    (hstat : Runs (Peer.sendBare s.1 OP_STAT id) w (fun _ w' => I w') J) :
    Runs (Peer.queryStat s.1 id) w (fun _ w' => I w') J := by
  unfold Peer.queryStat
  refine hstat.bind (fun _ v hv => ?_) fun _ _ hv => hv
  refine Stays.bind (h.readHeader hs) (fun n => ?_) v hv
  refine h.complain (.bind (h.recvExact hs _) fun body => ?_)
  split
  · exact .bind (peer _) fun _ => .pure _
  · exact h.keepsRaise _

/-- `begin_rows`: the header, then the counters of the body. -/
theorem beginRows (hs : s ∈ todo) (count : Nat) :
    Stays I J (Peer.beginRows s.1 count : M env _) := by
  unfold Peer.beginRows
  refine .bind (h.readHeader hs) fun got => ?_
  exact h.complain (h.modifyPeer (mem_peersOf hs)
    fun p => ⟨rfl, rfl, rfl, rfl, rfl, rfl⟩)

/-- `pump_rows`: one receive, and an edit of the counters. -/
theorem pumpRows (hs : s ∈ todo) :
    Stays I J (Peer.pumpRows s.1 : M env _) := by
  unfold Peer.pumpRows
  refine .bind (peer _) fun p => .bind (h.recv s hs _) fun bs => ?_
  refine .guard (fun _ => h.keepsRaise _) ?_
  refine .bind (h.modifyPeer (mem_peersOf hs)
    fun p => ⟨rfl, rfl, rfl, rfl, rfl, rfl⟩) fun _ => ?_
  exact .bind (peer _) fun _ => .pure _

/-- `finish_rows`, by the reads it has left. -/
theorem finishLoop (hs : s ∈ todo) :
    ∀ rounds, Stays I J (Peer.finishLoop s.1 rounds : M env _) := by
  intro rounds
  induction rounds with
  | zero =>
      unfold Peer.finishLoop
      refine .bind (peer _) fun p => ?_
      exact .ite (fun _ => h.keepsRaise _) fun _ => .pure _
  | succ rounds ih =>
      unfold Peer.finishLoop
      refine .bind (peer _) fun p => ?_
      refine .ite (fun _ => ?_) fun _ => .pure _
      exact .bind (h.pumpRows hs) fun _ => ih

-- ================================================================ passes

/-- `ready`, where connecting and asking for STAT stay in `I`. -/
theorem ready (hs : s ∈ todo)
    (hconnect : Stays I J (RemoteTable.connect s.1 D : M env _))
    (hstat : ∀ id, Stays I J (Peer.sendBare s.1 OP_STAT id : M env _)) :
    Stays I J (RemoteTable.ready D s : M env _) := by
  have hs' := mem_peersOf hs
  unfold RemoteTable.ready
  refine .bind (h.modifyPeer hs' fun p => ⟨rfl, rfl, rfl, rfl, rfl, rfl⟩)
    fun _ => ?_
  refine .bind (peer _) fun p => ?_
  split
  · exact .pure _
  · refine .bind hconnect fun _ => .bind (h.nextReqId _) fun id => ?_
    have hquery : Stays I J (Peer.queryStat s.1 id : M env _) :=
      fun w hw => h.queryStat hs (hstat id w hw)
    refine hquery.bind fun st => .bind (peer _) fun p => ?_
    refine .guard (fun _ => h.keepsRaise _) ?_
    exact h.modifyPeer hs' fun p => ⟨rfl, rfl, rfl, rfl, rfl, rfl⟩

/-- Asking: an id is drawn and the request sent. -/
theorem ask (hs : s ∈ todo) : Stays I J (RemoteTable.ask s : M env _) :=
  .bind (h.nextReqId _) fun id => h.gather s hs id

/-- A round of `_drain` leaves nobody waiting who was not. -/
theorem pumpReady :
    ∀ (cs : List ConnId) (waiting : List (ConnId × PeerId)) (w : World env),
      I w → (∀ x ∈ waiting, x.2 ∈ peersOf todo) →
      Runs (RemoteTable.pumpReady cs waiting) w
        (fun left w' => I w' ∧ ∀ x ∈ left, x.2 ∈ peersOf todo) J := by
  intro cs
  induction cs with
  | nil => intro waiting w hw hmem; exact ⟨hw, hmem⟩
  | cons c cs ih =>
      intro waiting w hw hmem
      unfold RemoteTable.pumpReady
      split
      case h_1 => exact ih waiting w hw hmem
      case h_2 i hi =>
        obtain ⟨l₁, l₂, hsplit, -⟩ := List.lookup_eq_some_iff.mp hi
        obtain ⟨s, hs, rfl⟩ : i ∈ peersOf todo :=
          hmem (c, i) (by rw [hsplit]; simp)
        refine Runs.bind (h.pumpRows hs w hw) ?_ (fun _ _ hv => hv)
        intro full v hv
        split
        · exact ih _ v hv fun x hx => hmem x (List.mem_filter.mp hx).1
        · exact ih _ v hv hmem

/-- `_drain`'s own timeout names peers and touches none. -/
theorem drainTimeout (waiting : List (ConnId × PeerId)) (wait : ℚ) :
    Stays I J (RemoteTable.drainTimeout waiting wait : M env _) := by
  unfold RemoteTable.drainTimeout
  exact .bind .get fun _ => .ite (fun _ => h.keepsRaise _)
    fun _ => h.keepsRaise _

/-- `_drain`, by its rounds; who is waited for was asked. -/
theorem drainLoop :
    ∀ (rounds : Nat) (waiting : List (ConnId × PeerId)),
      (∀ x ∈ waiting, x.2 ∈ peersOf todo) →
      Stays I J (RemoteTable.drainLoop D rounds waiting : M env _) := by
  intro rounds
  induction rounds with
  | zero =>
      intro waiting _
      unfold RemoteTable.drainLoop
      exact .ite (fun _ => .pure _) fun _ => h.keepsRaise _
  | succ rounds ih =>
      intro waiting hmem w hw
      unfold RemoteTable.drainLoop
      split
      case isTrue => exact hw
      case isFalse =>
        simp only [runs_bind, runs_self, runs_now]
        intro t ht
        split
        case isFalse =>
          exact h.drainTimeout _ _ _ (h.note w (.now t) ht hw trivial)
        case isTrue hpos =>
          simp only [runs_bind, runs_sysSelect]
          intro r hr
          have hv := h.select w t ht _ r hr hw hpos
          cases r with
          | fault why => exact h.keepsRaise _ _ hv
          | beyond => exact h.keepsRaise _ _ hv
          | interrupt => exact h.keepsRaise _ _ hv
          | ready cs =>
              refine Stays.guard (fun _ => h.drainTimeout _ _) ?_ _ hv
              intro u hu
              refine Runs.bind (h.pumpReady cs waiting u hu hmem) ?_
                (fun _ _ hx => hx)
              intro left x hx
              exact ih left hx.2 x hx.1

/-- The last pass over any of the shares asked. -/
theorem finish {l : List Share} (hl : ∀ s ∈ l, s ∈ todo) :
    Stays I J (RemoteTable.finish l D : M env _) := by
  unfold RemoteTable.finish
  refine .ite (fun _ => ?_) fun _ => ?_
  · unfold RemoteTable.drain
    intro w hw
    simp only [runs_bind, runs_get]
    refine h.drainLoop _ _ ?_ w hw
    intro x hx
    obtain ⟨i, hi, hx⟩ := List.mem_filterMap.mp hx
    obtain ⟨c, -, rfl⟩ := Option.map_eq_some_iff.mp hx
    obtain ⟨s, hs, rfl⟩ := List.mem_map.mp hi
    exact mem_peersOf (hl s hs)
  · split
    · exact h.keepsRaise _
    · unfold Peer.finishRows
      exact .bind (peer _) fun _ => h.finishLoop (hl _ (by simp)) _

end Steps

/-- The handler of a failed attempt, where closing stays in `I`: it
returns some of those it was asked about. -/
theorem giveUp (h : Calls I (fun _ => I) D todo)
    (hclose : ∀ s ∈ todo, Keeps I (Peer.close s.1 true : M env _)) (k : Nat)
    {l : List Share} (hl : ∀ s ∈ l, s ∈ todo) (e : Exn) (hw : I w) :
    Runs (RemoteTable.giveUp k l D e) w
      (fun l' w' => I w' ∧ ∀ s ∈ l', s ∈ todo) (fun _ w' => I w') := by
  unfold RemoteTable.giveUp
  simp only [runs_bind, runs_mark, runs_get]
  have hl' : ∀ s ∈ l.filter fun s => !(w.heap s.1).answered, s ∈ todo :=
    fun s hs => hl s (List.mem_filter.mp hs).1
  have hmark := h.note w _ (env.produces_caught w.tr e (l.map Prod.fst)) hw
    trivial
  refine Runs.mono (Stays.forEach (fun s hs => hclose s (hl' s hs)) _ hmark)
    ?_ (fun _ _ hv => hv)
  intro _ v hv
  split
  case isTrue => exact h.raise v _ _ hv
  case isFalse =>
    simp only [runs_bind, runs_now]
    intro t ht
    have hv' := h.note v (.now t) ht hv trivial
    split
    case isTrue => exact h.raise _ _ _ hv'
    case isFalse => exact ⟨hv', hl'⟩

/-- An invariant that stands an error as well, and stands a connect, a
STAT and a close. -/
theorem sites (h : Calls I (fun _ => I) D todo)
    (hconnect : ∀ s ∈ todo, Keeps I (RemoteTable.connect s.1 D : M env _))
    (hstat : ∀ s ∈ todo, ∀ id,
      Keeps I (Peer.sendBare s.1 OP_STAT id : M env _))
    (hclose : ∀ s ∈ todo, Keeps I (Peer.close s.1 true : M env _)) :
    Sites I (fun _ => I) D todo where
  toCalls := h
  ready s hs := h.ready hs (hconnect s hs) (hstat s hs)
  giveUp k _ e hl _ hw _ := h.giveUp hclose k hl e hw

end Calls

-- ============================================================== attempts

namespace Sites

variable (h : Sites I J D todo)
include h

/-- One attempt with some of the shares. -/
theorem attempt (k : Nat) {l : List Share} (hl : ∀ s ∈ l, s ∈ todo) :
    Stays I J (RemoteTable.attempt k l D : M env _) := by
  unfold RemoteTable.attempt
  refine .bind (.forEach fun s hs => h.ready s (hl s hs)) fun _ => ?_
  refine .bind (.forEach fun s hs => h.ask (hl s hs)) fun _ => ?_
  refine .bind (.forEach fun s hs => h.beginRows (hl s hs) _) fun _ => ?_
  refine .bind (h.finish hl) fun _ => ?_
  exact .ite (fun _ => .bind h.now fun _ => .pure _) fun _ => .pure _

/-- The retry loop stays in `I` or raises into `J`. -/
theorem attempts :
    ∀ (left : Nat) (l : List Share), (∀ s ∈ l, s ∈ todo) →
      Stays I J (RemoteTable.attempts D left l : M env _) := by
  intro left
  induction left with
  | zero => intro l _; exact .pure _
  | succ left ih =>
      intro l hl
      unfold RemoteTable.attempts
      refine .bind (h.keepsMark trivial) fun _ => ?_
      refine .catching (h.attempt _ hl) fun e w hw he => ?_
      refine Runs.bind (h.giveUp _ l e hl w hw he) ?_ (fun _ _ hv => hv)
      intro l' v hv
      exact ih l' hv.2 v hv.1

end Sites

end PleRowServer.Client
