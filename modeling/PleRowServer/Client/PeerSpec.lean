/-
What each method of a peer does, to its object and to its line: one
specification per method, both exits, so that no caller ever unfolds
one.

A method that fails may leave the peer's line anywhere inside the
exchange it was in; what it may not do is change the connection, finish
an exchange or break the connection rule. `Slip` says exactly that, and
is the error half of every specification here. Each error half also
names its cause: a fault in the history, or an answer whose complete
header is not that of a success (`Trouble`).
-/
import PleRowServer.Client.Moves

namespace PleRowServer.Client

open Base Wire

variable {env : Env} {geo : PeerId → Geometry} {w w' w'' : World env}
  {i : PeerId} {c : ConnId} {e : Exn}

/-- What a method keeps of its peer, whichever way it ends; `more` is
the GATHER it may have put on the wire. -/
structure Slip (geo : PeerId → Geometry) (i : PeerId)
    (more : List (ConnId × Nat)) (w w' : World env) : Prop where
  sock : (w'.heap i).sock = (w.heap i).sock
  flag : (w'.heap i).answered = (w.heap i).answered
  timeout : (w'.heap i).timeout = (w.heap i).timeout
  conn : (w'.line geo i).conn = (w.line geo i).conn
  open_ : (w'.line geo i).answered = (w.line geo i).answered
  asked : (w'.line geo i).asked = (w.line geo i).asked ∨
    (w'.line geo i).asked = (w.line geo i).asked ++ more
  good : (w'.line geo i).bad = false
  undrawn : drawn w'.tr = drawn w.tr

/-- A method that returned, still inside its exchange. -/
structure Held (geo : PeerId → Geometry) (i : PeerId)
    (w w' : World env) : Prop where
  step : Step {i} w w'
  slip : Slip geo i [] w w'

/-- A method that raised `e`, and why. -/
structure Broke (geo : PeerId → Geometry) (i : PeerId) (e : Exn)
    (more : List (ConnId × Nat)) (w w' : World env) : Prop where
  fail : Fail {i} e w w'
  slip : Slip geo i more w w'
  cause : Trouble geo (w.heap i).timeout (w.heap i).deadline w w'
  bounded : e ≠ .outOfRounds
  clear : e.isOS = true ∨ e.isException = false ∨
    (w'.line geo i).phase ≠ .doubt

section Slips

variable {more : List (ConnId × Nat)}

/-- Where nothing was done nothing has slipped. -/
theorem Slip.refl (h : (w.line geo i).bad = false) : Slip geo i more w w :=
  ⟨rfl, rfl, rfl, rfl, rfl, .inl rfl, h, rfl⟩

/-- A slip after sound work is one of the whole. -/
theorem Slip.trans (h : Slip geo i [] w w') (h' : Slip geo i more w' w'') :
    Slip geo i more w w'' where
  sock := h'.sock.trans h.sock
  flag := h'.flag.trans h.flag
  timeout := h'.timeout.trans h.timeout
  conn := h'.conn.trans h.conn
  open_ := h'.open_.trans h.open_
  asked := by
    have hsame : (w'.line geo i).asked = (w.line geo i).asked := by
      simpa using h.asked
    rw [← hsame]
    exact h'.asked
  good := h'.good
  undrawn := h'.undrawn.trans h.undrawn

/-- Where nothing was done the line is held. -/
theorem Held.refl (h : (w.line geo i).bad = false) : Held geo i w w :=
  ⟨.refl w {i}, .refl h⟩

/-- A line held in both parts is held in the whole. -/
theorem Held.trans (h : Held geo i w w') (h' : Held geo i w' w'') :
    Held geo i w w'' :=
  ⟨h.step.trans h'.step, h.slip.trans h'.slip⟩

/-- A failure after steps that held is a failure of the whole. -/
theorem Held.broke (h : Held geo i w w') (h' : Broke geo i e more w' w'') :
    Broke geo i e more w w'' where
  fail := h.step.fail h'.fail
  slip := h.slip.trans h'.slip
  cause := by
    have := h'.cause
    rw [h.slip.timeout, (h.step.kept i).deadline] at this
    exact this.after h.step.grows
  bounded := h'.bounded
  clear := h'.clear

/-- An assignment to attributes of the peer that no line shows. -/
theorem Held.setPeer {p : Peer} (hg : (w.line geo i).bad = false)
    (hp : (w.heap i).Kept p) (hs : p.sock = (w.heap i).sock)
    (hf : p.answered = (w.heap i).answered)
    (ht : p.timeout = (w.heap i).timeout) : Held geo i w (w.setPeer i p) :=
  ⟨.setPeer hp rfl, by simp [hs], by simp [hf], by simp [ht], rfl, rfl,
    .inl rfl, hg, rfl⟩

/-- An exception moves no line. -/
@[simp] theorem line_raise (e : Exn) (he) (j : PeerId) :
    (w.push (.raised e) he).line geo j = w.line geo j :=
  line_of_mute (g := geo j) (i := j) w.tr (by simp [Ev.Mute])

/-- A field of a peer moves no line. -/
@[simp] theorem line_setPeer (p : Peer) (j : PeerId) :
    (w.setPeer i p).line geo j = w.line geo j := rfl

/-- `raise` after steps that held and left the cause behind. -/
theorem Held.raise (h : Held geo i w w')
    (hc : Trouble geo (w.heap i).timeout (w.heap i).deadline w w')
    (he : e ≠ .outOfRounds) (hclear : e.isOS = true ∨
      e.isException = false ∨ (w'.line geo i).phase ≠ .doubt) :
    Broke geo i e more w
      (w'.push (.raised e) (env.produces_raised w'.tr e)) where
  fail := h.step.fail (.raise w' {i} e)
  slip := h.slip.trans ⟨rfl, rfl, rfl, by simp, by simp, .inl (by simp),
    by simpa using h.slip.good, by simp⟩
  cause := hc.before h.step.grows (List.prefix_append _ _)
  bounded := he
  clear := by simpa using hclear

end Slips

-- ====================================================== on a connection

/-- The peer's open socket is its line's connection. -/
structure On (geo : PeerId → Geometry) (i : PeerId) (c : ConnId)
    (w : World env) : Prop where
  sock : (w.heap i).sock = some c
  peer : c.peer = i
  conn : (w.line geo i).conn = some c
  good : (w.line geo i).bad = false

/-- A connection that is held is still in use. -/
theorem On.held (h : On geo i c w) (h' : Held geo i w w') :
    On geo i c w' :=
  ⟨h'.slip.sock.trans h.sock, h.peer, h'.slip.conn.trans h.conn,
    h'.slip.good⟩

/-- The same object but for the socket timeout last set. -/
def Peer.Armed (p p' : Peer) : Prop := ∃ a, p' = { p with armed := a }

/-- A peer left alone is armed as it was. -/
theorem Peer.Armed.refl (p : Peer) : p.Armed p := ⟨_, rfl⟩

/-- Arming twice is arming. -/
theorem Peer.Armed.trans {p q r : Peer} (h : p.Armed q) (h' : q.Armed r) :
    p.Armed r := by
  obtain ⟨a, rfl⟩ := h
  obtain ⟨b, rfl⟩ := h'
  exact ⟨b, rfl⟩

section Projections

variable {p p' : Peer}

/-- Arming leaves the pending id. -/
theorem Peer.Armed.pending (h : p.Armed p') : p'.pending = p.pending := by
  obtain ⟨a, rfl⟩ := h; rfl

/-- Arming leaves the request. -/
theorem Peer.Armed.req (h : p.Armed p') : p'.req = p.req := by
  obtain ⟨a, rfl⟩ := h; rfl

/-- Arming leaves a peer its identity. -/
theorem Peer.Armed.kept (h : p.Armed p') : p.Kept p' := by
  obtain ⟨a, rfl⟩ := h; exact ⟨rfl, rfl, rfl, rfl, rfl, rfl⟩

end Projections

/-- A method that moved nothing on the wire. -/
structure Hush (geo : PeerId → Geometry) (i : PeerId)
    (w w' : World env) : Prop extends Held geo i w w' where
  armed : (w.heap i).Armed (w'.heap i)
  line : w'.line geo i = w.line geo i

/-- Where nothing was done nothing has passed. -/
theorem Hush.refl (h : (w.line geo i).bad = false) : Hush geo i w w :=
  ⟨.refl h, .refl _, rfl⟩

/-- What passed in neither part has not passed in the whole. -/
theorem Hush.trans (h : Hush geo i w w') (h' : Hush geo i w' w'') :
    Hush geo i w w'' :=
  ⟨h.toHeld.trans h'.toHeld, h.armed.trans h'.armed, h'.line.trans h.line⟩

/-- An entry that moves no byte lets nothing pass. -/
theorem Hush.push {x : Ev} (hg : (w.line geo i).bad = false) (hx)
    (ho : x.Of {i}) (hm : x.Mute) (hp : x.Plain) :
    Hush geo i w (w.push x hx) := by
  have hl : (w.push x hx).line geo i = w.line geo i :=
    line_of_mute (g := geo i) (i := i) w.tr (by simpa using hm)
  refine ⟨⟨.push hx ho hp, rfl, rfl, rfl, ?_, ?_, .inl ?_, ?_,
      drawn_push hx hp⟩,
    .refl _, hl⟩ <;> rw [hl]
  exact hg

/-- `_arm` sets at most the socket timeout, or finds the deadline
passed. -/
theorem arm_spec (h : On geo i c w) :
    Runs (Peer.arm i) w (fun _ w' => Hush geo i w w')
      (fun e w' => Broke geo i e [] w w' ∧ w'.heap = w.heap ∧
        w'.line geo i = w.line geo i) := by
  -- the part after the budget is known, from any state `arm` can be in
  have hset : ∀ (b : ℚ) (v : World env), Hush geo i w v →
      v.heap = w.heap →
      Runs (if b ≠ (w.heap i).armed then (do
          settimeout (← Peer.socket i) b
          modifyPeer i fun p => { p with armed := b } : M env Unit)
        else pure ()) v (fun _ w' => Hush geo i w w') (fun _ _ => False) := by
    intro b v hv hheap
    split
    case isFalse => exact hv
    case isTrue =>
      rw [runs_bind, runs_socket (by rw [hheap]; exact h.sock)]
      simp only [runs_bind, runs_settimeout, runs_modifyPeer]
      have hpush : Hush geo i v
          (v.push (.settimeout c b) (env.produces_settimeout v.tr c b)) :=
        .push hv.slip.good _ (by rintro c' hc'; cases hc'; exact h.peer)
          trivial (by simp)
      refine hv.trans (hpush.trans ⟨?_, ⟨b, by simp⟩, rfl⟩)
      exact .setPeer hpush.slip.good ⟨rfl, rfl, rfl, rfl, rfl, rfl⟩ rfl rfl
        rfl
  unfold Peer.arm
  simp only [runs_bind, runs_peer]
  unfold Peer.budget
  cases hd : (w.heap i).deadline with
  | none =>
      simp only [runs_pure]
      refine (hset _ w (.refl h.good) rfl).mono (fun _ _ h => h) ?_
      intro e w' hf; exact hf.elim
  | some d =>
      simp only [runs_bind, runs_now]
      intro t ht
      have hnow : Hush geo i w (w.push (.now t) ht) :=
        .push h.good _ (by intro c' hc'; cases hc') trivial (by simp)
      split
      case isTrue hle =>
        simp only [runs_bind, runs_raise]
        refine ⟨hnow.toHeld.raise (.inl ?_) (by simp) (.inl rfl), rfl, ?_⟩
        · exact Faulted.push (w := w) ht ⟨d, hd, hle⟩
        · rw [line_raise]; exact hnow.line
      case isFalse =>
        simp only [runs_pure]
        refine (hset _ _ hnow rfl).mono (fun _ _ h => h) ?_
        intro e w' hf; exact hf.elim

-- ============================================================= transport

/-- A line whose exchange is lost. -/
def Line.lost (l : Line) : Line := { l with phase := .doubt }

/-- The line of a peer after some of the answer to `req` arrived, or
after its stream broke off. -/
def Line.heard (l : Line) (g : Geometry) (req got bs : List UInt8) : Line :=
  if bs = [] then l.lost else l.upTo g req (got ++ bs)

section Fields

variable (l : Line) (g : Geometry) (req got bs : List UInt8)

/-- More of an answer leaves the connection. -/
@[simp] theorem Line.upTo_conn : (l.upTo g req got).conn = l.conn := by
  unfold Line.upTo; split <;> rfl

/-- More of an answer leaves what was asked. -/
@[simp] theorem Line.upTo_asked : (l.upTo g req got).asked = l.asked := by
  unfold Line.upTo; split <;> rfl

/-- More of an answer leaves the line as bad as it was. -/
@[simp] theorem Line.upTo_bad : (l.upTo g req got).bad = l.bad := by
  unfold Line.upTo; split <;> rfl

/-- More of an answer makes no connection new. -/
@[simp] theorem Line.upTo_fresh : (l.upTo g req got).fresh = l.fresh := by
  unfold Line.upTo; split <;> rfl

/-- An answer that is not all in is waited for. -/
theorem Line.upTo_of_not {l : Line} {g : Geometry} {req got : List UInt8}
    (h : accepted g.rowBytes req got = false) :
    l.upTo g req got = { l with phase := .asked req got } := by
  simp [Line.upTo, h]

/-- An answer that is all in makes an exchange. -/
theorem Line.upTo_of {l : Line} {g : Geometry} {req got : List UInt8}
    (h : accepted g.rowBytes req got = true) :
    l.upTo g req got = { l with
      phase := .idle
      done := l.done ++ [⟨req, got⟩]
      answered := l.answered || opOf req == OP_GATHER } := by
  simp [Line.upTo, h]

/-- Bytes that do not complete an answer are not felt by the next
ones. -/
theorem Line.upTo_upTo {l : Line} {g : Geometry} {req got : List UInt8}
    (h : accepted g.rowBytes req got = false) (got' : List UInt8) :
    (l.upTo g req got).upTo g req got' = l.upTo g req got' := by
  rw [Line.upTo_of_not h]
  unfold Line.upTo
  split <;> rfl

end Fields

/-- A read on a peer's connection is read on its line. -/
theorem line_recv (hc : c.peer = i) (want : Nat) (r : Got) (he) :
    (w.push (.recv c want r) he).line geo i
      = (w.line geo i).onRecv (geo i) c r := by
  simp [World.line, lineStep, hc]

/-- A send on a peer's connection is sent on its line. -/
theorem line_send (hc : c.peer = i) (data : List UInt8) (r : Sent) (he) :
    (w.push (.send c data r) he).line geo i
      = (w.line geo i).onSend (geo i) c data r := by
  simp [World.line, lineStep, hc]

/-- What came off the wire moves the line by exactly those bytes. -/
theorem onRecv_data {l : Line} {g : Geometry} {req got bs : List UInt8}
    (hc : l.conn = some c) (hp : l.phase = .asked req got) :
    l.onRecv g c (.data bs) = l.heard g req got bs := by
  simp only [Line.onRecv, hp, hc, if_true, Line.heard, Line.lost]

/-- A recv that failed leaves the line where it was, or in doubt. -/
theorem onRecv_other {l : Line} {g : Geometry} {req got : List UInt8}
    {r : Got} (hc : l.conn = some c) (hp : l.phase = .asked req got)
    (hr : ∀ bs, r ≠ .data bs) : l.onRecv g c r = l ∨ l.onRecv g c r = l.lost := by
  simp only [Line.onRecv, hp, hc, if_true, Line.lost]
  cases r with
  | data bs => exact absurd rfl (hr bs)
  | timeout => exact .inr rfl
  | fault why => exact .inr rfl
  | interrupt => exact .inl rfl

/-- Moving one connection's entry onto the history, felt by the line
alone. -/
theorem Slip.push {more : List (ConnId × Nat)} {x : Ev} {l : Line} (hx)
    (hl : (w.push x hx).line geo i = l)
    (hconn : l.conn = (w.line geo i).conn)
    (hopen : l.answered = (w.line geo i).answered)
    (hasked : l.asked = (w.line geo i).asked ∨
      l.asked = (w.line geo i).asked ++ more)
    (hbad : l.bad = false) (hp : x.Plain) :
    Slip geo i more w (w.push x hx) := by
  subst hl
  exact ⟨rfl, rfl, rfl, hconn, hopen, hasked, hbad, drawn_push hx hp⟩

/-- The bytes of one recv. -/
structure Heard (geo : PeerId → Geometry) (i : PeerId)
    (req got bs : List UInt8) (w w' : World env) : Prop where
  step : Step {i} w w'
  armed : (w.heap i).Armed (w'.heap i)
  line : w'.line geo i = (w.line geo i).heard (geo i) req got bs
  fault : bs = [] → Faulted (w.heap i).timeout (w.heap i).deadline w w'
  undrawn : drawn w'.tr = drawn w.tr

/-- `_recv` moves the line by the bytes it returns. -/
theorem recv_spec {req got : List UInt8} (h : On geo i c w)
    (hp : (w.line geo i).phase = .asked req got) (want : Nat) :
    Runs (Peer.recv i want) w
      (fun bs w' => bs.length ≤ want ∧ Heard geo i req got bs w w')
      (fun e w' => Broke geo i e [] w w' ∧ (w.heap i).Armed (w'.heap i)) := by
  unfold Peer.recv
  refine Runs.bind (arm_spec h) ?_ ?_
  case refine_2 =>
    rintro e w' ⟨hb, hheap, -⟩
    exact ⟨hb, by rw [hheap]; exact .refl _⟩
  intro _ w' hush
  have hon := h.held hush.toHeld
  have hp' : (w'.line geo i).phase = .asked req got := by
    rw [hush.line, hp]
  simp only [runs_bind, runs_peer, runs_socket hon.sock, runs_sysRecv]
  intro r hr
  have hl : (w'.push (.recv c want r) hr).line geo i = _ :=
    line_recv hon.peer want r hr
  have hof : (Ev.recv c want r).Of {i} := by
    rintro c' hc'; cases hc'; exact hon.peer
  have hfail : (∀ bs, r ≠ .data bs) → ∀ e : Exn, e ≠ .outOfRounds →
      e.isOS = true ∨ e.isException = false →
      Broke geo i e [] w ((w'.push (.recv c want r) hr).push (.raised e)
        (env.produces_raised _ e)) := by
    intro hnot e he hcl
    have hstep : Held geo i w' (w'.push (.recv c want r) hr) := by
      refine ⟨.push _ hof (by simp), ?_⟩
      rcases onRecv_other (g := geo i) hon.conn hp' hnot with hsame | hlost
      · exact .push _ (hl.trans hsame) rfl rfl (.inl rfl) hon.good trivial
      · exact .push _ (hl.trans hlost) rfl rfl (.inl rfl) hon.good trivial
    refine (hush.toHeld.trans hstep).raise (.inl ?_) he
      (hcl.imp_right .inl)
    refine Faulted.after (.push _ ?_) hush.step.grows
    intro bs hbs; exact absurd hbs (hnot bs)
  cases r with
  | data bs =>
      have hclip : bs.length ≤ want := by
        cases hg : env.recv w'.tr c want with
        | data bs' =>
            obtain rfl : bs = bs'.take want := by
              simpa [Env.Produces, hg, Got.clip] using hr
            simp
        | _ => simp [Env.Produces, hg, Got.clip] at hr
      refine ⟨hclip, hush.step.trans (.push _ hof (by simp)), hush.armed,
        ?_, ?_, (drawn_push hr trivial).trans hush.slip.undrawn⟩
      · rw [hl, onRecv_data hon.conn hp', hush.line]
      · rintro rfl
        exact Faulted.after (.push _ (by simp [Ev.Faulty])) hush.step.grows
  | timeout => exact ⟨hfail (by simp) _ (by simp) (.inl rfl), hush.armed⟩
  | fault why => exact ⟨hfail (by simp) _ (by simp) (.inl rfl), hush.armed⟩
  | interrupt => exact ⟨hfail (by simp) _ (by simp) (.inr rfl), hush.armed⟩

/-- The entry a request adds to the GATHERs of the call. -/
def gathers (c : ConnId) (data : List UInt8) : List (ConnId × Nat) :=
  if opOf data = OP_GATHER then [(c, idOf data)] else []

/-- The line of a peer once `data` is out. -/
def Line.asking (l : Line) (c : ConnId) (data : List UInt8) : Line :=
  { l with
    phase := .asked data []
    ticket := none
    asked := l.asked ++ gathers c data }

/-- A request that may be sent, and is, is out. -/
theorem onSend_all {l : Line} {g : Geometry} {data : List UInt8}
    (hb : l.bad = false) (hok : l.sendOk g c data = true) :
    l.onSend g c data .all = l.asking c data := by
  simp only [Line.onSend, Line.asking, gathers, hb, hok]
  by_cases hop : opOf data = OP_GATHER <;> simp [hop]

/-- `self._arm()` and `sendall` put out a request the connection rule
allows. -/
theorem sendall_spec {data : List UInt8} (h : On geo i c w)
    (hok : (w.line geo i).sendOk (geo i) c data = true) :
    Runs (Peer.sendall i data) w
      (fun _ w' => Step {i} w w' ∧ (w.heap i).Armed (w'.heap i) ∧
        w'.line geo i = (w.line geo i).asking c data ∧
        drawn w'.tr = drawn w.tr)
      (fun e w' => Broke geo i e (gathers c data) w w' ∧
        (w.heap i).Armed (w'.heap i)) := by
  unfold Peer.sendall
  refine Runs.bind (arm_spec h) ?_ ?_
  case refine_2 =>
    rintro e w' ⟨hb, hheap, -⟩
    refine ⟨⟨hb.fail, ?_, hb.cause, hb.bounded, hb.clear⟩, by
      rw [hheap]; exact .refl _⟩
    have hs := hb.slip
    exact ⟨hs.sock, hs.flag, hs.timeout, hs.conn, hs.open_,
      .inl (by simpa using hs.asked), hs.good, hs.undrawn⟩
  intro _ w' hush
  have hon := h.held hush.toHeld
  simp only [runs_bind, runs_socket hon.sock, runs_sysSend]
  intro r hr
  have hasked : ((w'.line geo i).onSend (geo i) c data r).asked
      = (w'.line geo i).asked ++ gathers c data := by
    simp only [Line.onSend, gathers]
    split <;> simp
  have hbad : ((w'.line geo i).onSend (geo i) c data r).bad = false := by
    have := hon.good
    rw [hush.line] at this ⊢
    simp [Line.onSend, this, hok]
  have hl : (w'.push (.send c data r) hr).line geo i = _ :=
    line_send hon.peer data r hr
  have hstep : Step {i} w' (w'.push (.send c data r) hr) :=
    .push _ (by rintro c' hc'; cases hc'; exact hon.peer) (by simp)
  have hslip : Slip geo i (gathers c data) w' (w'.push (.send c data r) hr) :=
    .push _ hl rfl rfl (.inr hasked) hbad trivial
  have hfail : r ≠ .all → ∀ e : Exn, e ≠ .outOfRounds →
      e.isOS = true ∨ e.isException = false →
      Broke geo i e (gathers c data) w
        ((w'.push (.send c data r) hr).push (.raised e)
          (env.produces_raised _ e)) := by
    intro hnot e he hcl
    refine hush.toHeld.broke ⟨hstep.fail (.raise _ {i} e), ?_, .inl ?_, he,
      hcl.imp_right .inl⟩
    · refine ⟨rfl, rfl, rfl, by simpa using hslip.conn,
        by simpa using hslip.open_, by simpa using hslip.asked,
        by simpa using hslip.good, ?_⟩
      rw [World.push_tr, drawn_append, hslip.undrawn]
      exact List.append_nil _
    · exact (Faulted.push (w := w') hr hnot).before hstep.grows
        (List.prefix_append _ _)
  cases r with
  | all =>
      refine ⟨hush.step.trans hstep, hush.armed, ?_,
        hslip.undrawn.trans hush.slip.undrawn⟩
      rw [hl, onSend_all hon.good (by rw [hush.line]; exact hok), hush.line]
  | fault why n => exact ⟨hfail (by simp) _ (by simp) (.inl rfl), hush.armed⟩
  | interrupt n =>
      exact ⟨hfail (by simp) _ (by simp) (.inr rfl), hush.armed⟩

-- ============================================================= messages

/-- The stretch of a message that one call took: the line, which was
`l` before the message, now has all of `bs`. -/
structure Took (geo : PeerId → Geometry) (i : PeerId) (l : Line)
    (req bs : List UInt8) (w w' : World env) : Prop where
  step : Step {i} w w'
  armed : (w.heap i).Armed (w'.heap i)
  line : w'.line geo i = l.upTo (geo i) req bs
  undrawn : drawn w'.tr = drawn w.tr

/-- A recv that returned bytes still short of a whole answer. -/
theorem Heard.held {l : Line} {req got bs : List UInt8}
    (h : Heard geo i req got bs w w') (hb : l.bad = false)
    (hl : w.line geo i = l.upTo (geo i) req got)
    (hs : accepted (geo i).rowBytes req got = false)
    (hs' : bs = [] ∨ accepted (geo i).rowBytes req (got ++ bs) = false) :
    Held geo i w w' := by
  obtain ⟨a, ha⟩ := h.armed
  have hline := h.line
  rw [Line.upTo_of_not hs] at hl
  have hline' : w'.line geo i = { l with phase := (w'.line geo i).phase } := by
    rw [hline, hl, Line.heard]
    split
    case isTrue => rfl
    case isFalse hne => rw [Line.upTo_of_not (hs'.resolve_left hne)]
  refine ⟨h.step, by rw [ha], by rw [ha], by rw [ha], ?_, ?_, .inl ?_, ?_,
    h.undrawn⟩ <;> rw [hline']
  · rw [hl]
  · rw [hl]
  · rw [hl]
  · exact hb

/-- The loop of `_recv_exact` takes the bytes it was asked for, where no
shorter part of the stream is a whole answer. -/
theorem recvLoop_spec {l : Line} {req got₀ : List UInt8} {want : Nat}
    (hb : l.bad = false) (hconn : l.conn = some c)
    (hshort : ∀ x : List UInt8, x.length < got₀.length + want →
      accepted (geo i).rowBytes req x = false) :
    ∀ (rounds : Nat) (got : List UInt8) (w : World env),
      (w.heap i).sock = some c → c.peer = i →
      w.line geo i = l.upTo (geo i) req (got₀ ++ got) →
      got.length ≤ want → want ≤ got.length + rounds →
      Runs (Peer.recvLoop i want rounds got) w
        (fun bs w' => bs.length = want ∧ Took geo i l req (got₀ ++ bs) w w')
        (fun e w' => Broke geo i e [] w w' ∧
          (w.heap i).Armed (w'.heap i)) := by
  intro rounds
  induction rounds with
  | zero =>
      intro got w _ _ hl hle hr
      unfold Peer.recvLoop
      rw [if_pos (by omega)]
      exact ⟨by omega, .refl w {i}, .refl _, hl, rfl⟩
  | succ rounds ih =>
      intro got w hs hpeer hl hle hr
      unfold Peer.recvLoop
      split
      case isTrue hge => exact ⟨by omega, .refl w {i}, .refl _, hl, rfl⟩
      case isFalse hlt =>
        have hnot : accepted (geo i).rowBytes req (got₀ ++ got) = false :=
          hshort _ (by simp only [List.length_append]; omega)
        have hon : On geo i c w :=
          ⟨hs, hpeer, by rw [hl]; simpa using hconn, by rw [hl]; simpa using hb⟩
        have hph : (w.line geo i).phase = .asked req (got₀ ++ got) := by
          rw [hl, Line.upTo_of_not hnot]
        refine Runs.bind (recv_spec hon hph _) ?_ (fun _ _ h => h)
        rintro bs w' ⟨hlen, hheard⟩
        by_cases hbs : bs = []
        case pos =>
          -- the peer closed: the exchange is lost
          have hheld := hheard.held hb hl hnot (.inl hbs)
          simp only [hbs, if_true, runs_bind, runs_peer, runs_raise]
          exact ⟨hheld.raise (.inl (hheard.fault hbs)) (by simp) (.inl rfl),
            hheard.armed⟩
        case neg =>
          have hpos : 0 < bs.length := List.length_pos_iff.mpr hbs
          have hl' : w'.line geo i
              = l.upTo (geo i) req (got₀ ++ (got ++ bs)) := by
            rw [hheard.line, hl, Line.heard, if_neg hbs, Line.upTo_upTo hnot,
              List.append_assoc]
          have hs' : (w'.heap i).sock = some c := by
            obtain ⟨a, ha⟩ := hheard.armed
            rw [ha]; exact hs
          simp only [hbs, if_false]
          have hrest := ih (got ++ bs) w' hs' hpeer hl'
            (by simp only [List.length_append]; omega)
            (by simp only [List.length_append]; omega)
          by_cases hfull : want ≤ (got ++ bs).length
          case pos =>
            -- complete: the next round returns at once
            unfold Peer.recvLoop
            rw [if_pos hfull]
            refine ⟨?_, hheard.step, hheard.armed, hl', hheard.undrawn⟩
            simp only [List.length_append] at hfull ⊢
            omega
          case neg =>
            have hheld := hheard.held hb hl hnot
              (.inr (hshort _ (by simp only [List.length_append] at *; omega)))
            refine hrest.mono ?_ ?_
            · rintro bs' w'' ⟨hlen', ht⟩
              exact ⟨hlen', hheard.step.trans ht.step,
                hheard.armed.trans ht.armed, ht.line,
                ht.undrawn.trans hheard.undrawn⟩
            · rintro e w'' ⟨hbr, ha⟩
              exact ⟨hheld.broke hbr, hheard.armed.trans ha⟩

/-- `_recv_exact`, `got₀` of the answer being in. -/
theorem recvExact_spec {req got₀ : List UInt8} {want : Nat}
    (hon : On geo i c w) (hp : (w.line geo i).phase = .asked req got₀)
    (hpos : 0 < want)
    (hshort : ∀ x : List UInt8, x.length < got₀.length + want →
      accepted (geo i).rowBytes req x = false) :
    Runs (Peer.recvExact i want) w
      (fun bs w' => bs.length = want ∧
        Took geo i (w.line geo i) req (got₀ ++ bs) w w')
      (fun e w' => Broke geo i e [] w w' ∧
        (w.heap i).Armed (w'.heap i)) := by
  refine recvLoop_spec hon.good hon.conn hshort want [] w hon.sock hon.peer
    ?_ (Nat.zero_le _) (by simp)
  rw [List.append_nil, Line.upTo_of_not (hshort _ (by omega)), ← hp]

end PleRowServer.Client
