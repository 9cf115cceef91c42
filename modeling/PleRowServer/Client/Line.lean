/-
One peer's line as the wire shows it: a monitor folded over the history
that follows the peer's current connection, the exchanges completed on
it and the one in progress, and turns `bad` at the first step the
protocol's connection rule forbids.

# What `bad` means

A line is bad once the client
- sends while an answer is outstanding, or anything but a whole request
  under a request id drawn for it alone,
- reads with no request outstanding,
- reads or writes on any connection but the peer's current one,
- replaces a connection that still owes an answer without closing it,
- sends to, closes or reconnects a peer whose answer to the current
  gather it already has, or
- sends a GATHER on a connection opened during the current call that
  has not first answered one STAT with the expected geometry, or on one
  that was already sent a GATHER in that call.

`bad` never clears, so one statement about the final line speaks about
every step before it (`line_not_bad_initial`). The monitor reads only the
history; that the client keeps every line good is the work of the
specifications built over it.

# From the line to the byte streams

`Line.Traced` ties a good line to the raw streams of its connection: what
was sent is the completed requests and then the outstanding one, what
was received is their accepted answers and then the part of the next.
That is all a statement about a particular kind of peer needs.
-/
import PleRowServer.Client.Peer

namespace PleRowServer.Client

open Base Wire

-- ============================================================== geometry

/-- What a STAT body says about the range a peer serves. -/
structure Geometry where
  baseRow : Nat
  rowCount : Nat
  rowBytes : Nat
deriving DecidableEq, Repr

/-- The range recorded for a peer. -/
def Peer.geometry (p : Peer) : Geometry :=
  ⟨p.baseRow, p.rowCount, p.rowBytes⟩

/-- The geometry in a whole STAT answer. -/
def statGeometry (ans : List UInt8) : Geometry :=
  ⟨natAt ans 16 8, natAt ans 24 8, natAt ans 32 4⟩

-- =========================================================== the monitor

/-- Where the exchange on a connection stands. -/
inductive Phase
  /-- nothing is outstanding -/
  | idle
  /-- a request is out and `got` of its answer is in -/
  | asked (req got : List UInt8)
  /-- a fault, or a request cut short: only closing is left -/
  | doubt
deriving DecidableEq, Repr

/-- A peer's line. -/
structure Line where
  conn : Option ConnId := none
  /-- `conn` was opened during the current call -/
  fresh : Bool := false
  /-- exchanges completed on `conn`, oldest first -/
  done : List Exchange := []
  phase : Phase := .idle
  /-- the request id drawn last for this peer, until a request uses it -/
  ticket : Option Nat := none
  /-- GATHERs of the current call: connection and req_id -/
  asked : List (ConnId × Nat) := []
  /-- a GATHER of the current call has its whole answer -/
  answered : Bool := false
  bad : Bool := false

instance (req : List UInt8) : Decidable (WholeRequest req) :=
  inferInstanceAs (Decidable (_ ∧ _))

namespace Line

variable (g : Geometry)

/-- A connection opened in this call has answered one STAT, and it
reported `g`. -/
def checked (l : Line) : Bool :=
  !l.fresh || (match l.done with
    | [x] => opOf x.req == OP_STAT && statGeometry x.ans == g
    | _ => false)

/-- Sending `data` on `c` obeys the connection rule. -/
def sendOk (l : Line) (c : ConnId) (data : List UInt8) : Bool :=
  l.conn == some c && l.phase == .idle && !l.answered &&
    decide (WholeRequest data) && l.ticket == some (idOf data) &&
    (opOf data != OP_GATHER ||
      (l.checked g && !(l.asked.map Prod.fst).contains c))

/-- A call begins with nobody asked. -/
def onCall (l : Line) : Line :=
  { l with fresh := false, ticket := none, asked := [], answered := false }

/-- A new connection; the one before it must not owe anything. -/
def onConnect (l : Line) (c : ConnId) : Line :=
  { l with
    conn := some c, fresh := true, done := [], phase := .idle
    bad := l.bad || l.answered || l.phase != .idle }

/-- A request goes out, if the rule allows it. -/
def onSend (l : Line) (c : ConnId) (data : List UInt8) (r : Sent) : Line :=
  { l with
    phase := match r with
      | .all => .asked data []
      | .fault _ _ => .doubt
      | .interrupt n => if n = 0 then l.phase else .doubt
    ticket := none
    asked := if opOf data = OP_GATHER then l.asked ++ [(c, idOf data)]
      else l.asked
    bad := l.bad || !l.sendOk g c data }

/-- `got` of the answer to `req` is in. -/
def upTo (l : Line) (req got : List UInt8) : Line :=
  if accepted g.rowBytes req got then
    { l with
      phase := .idle
      done := l.done ++ [⟨req, got⟩]
      answered := l.answered || opOf req == OP_GATHER }
  else { l with phase := .asked req got }

/-- Bytes of the answer that is owed come in, or none do any more. -/
def onRecv (l : Line) (c : ConnId) (r : Got) : Line :=
  match l.phase with
  | .asked req got =>
      if l.conn = some c then
        match r with
        | .data bs => if bs = [] then { l with phase := .doubt }
            else l.upTo g req (got ++ bs)
        | .timeout | .fault _ => { l with phase := .doubt }
        | .interrupt => l
      else { l with bad := true }
  | _ => { l with bad := true }

/-- The connection is given up; an answered peer keeps its own. -/
def onClose (l : Line) (c : ConnId) : Line :=
  if l.conn = some c then
    { l with
      conn := none, done := [], phase := .idle
      bad := l.bad || l.answered }
  else l

/-- A fault is being handled and this peer is still owed an answer:
its connection is in doubt, whichever peer the fault was seen on. -/
def onCaught (l : Line) : Line :=
  if l.answered then l
  else if l.conn = none then l
  else { l with phase := .doubt }

end Line

/-- One entry of the history, seen by the line of peer `i`. -/
def lineStep (g : Geometry) (i : PeerId) (l : Line) : Ev → Line
  | .call => l.onCall
  | .drew j n => if j = i then { l with ticket := some n } else l
  | .connect c _ _ .ok => if c.peer = i then l.onConnect c else l
  | .send c data r => if c.peer = i then l.onSend g c data r else l
  | .recv c _ r => if c.peer = i then l.onRecv g c r else l
  | .close c _ => if c.peer = i then l.onClose c else l
  | .caught _ todo => if i ∈ todo then l.onCaught else l
  | _ => l

/-- The line of peer `i` after a history. -/
def line (g : Geometry) (i : PeerId) (tr : Trace) : Line :=
  tr.foldl (lineStep g i) {}

section Folding

variable {g : Geometry} {i : PeerId}

/-- A longer history moves the line on from where it was. -/
theorem line_append (tr evs : Trace) :
    line g i (tr ++ evs) = evs.foldl (lineStep g i) (line g i tr) := by
  simp [line]

/-- The last entry of a history moves the line last. -/
@[simp] theorem line_snoc (tr : Trace) (e : Ev) :
    line g i (tr ++ [e]) = lineStep g i (line g i tr) e := by
  simp [line_append]

/-- An entry about other peers leaves the line alone. -/
theorem lineStep_of_other {S : Set PeerId} (hi : i ∉ S) {e : Ev}
    (he : e.Of S) (l : Line) : lineStep g i l e = l := by
  have hne : ∀ c : ConnId, c.peer ∈ S → ¬ c.peer = i :=
    fun c hc h => hi (h ▸ hc)
  cases e with
  | call => exact he.elim
  | drew j n =>
      have : ¬ j = i := fun h => hi (h ▸ he)
      simp [lineStep, this]
  | connect c a t r => cases r <;> simp [lineStep, hne c (he c rfl)]
  | send c d r => simp [lineStep, hne c (he c rfl)]
  | recv c w r => simp [lineStep, hne c (he c rfl)]
  | close c a => simp [lineStep, hne c (he c rfl)]
  | caught x todo =>
      have : i ∉ todo := fun h => hi (he i h)
      simp [lineStep, this]
  | _ => rfl

/-- Entries about others leave it alone. -/
theorem line_of_other {S : Set PeerId} (hi : i ∉ S) (tr : Trace)
    {evs : Trace} (h : ∀ e ∈ evs, e.Of S) :
    line g i (tr ++ evs) = line g i tr := by
  rw [line_append]
  generalize line g i tr = l
  induction evs generalizing l with
  | nil => rfl
  | cons e evs ih =>
      rw [List.foldl_cons, lineStep_of_other hi (h e (by simp))]
      exact ih (fun e' he' => h e' (by simp [he'])) l

/-- A step never clears `bad`. -/
theorem lineStep_bad (l : Line) (e : Ev) (h : l.bad = true) :
    (lineStep g i l e).bad = true := by
  cases e with
  | connect c a t r =>
      cases r <;> simp only [lineStep] <;> (try split) <;>
        simp [Line.onConnect, h]
  | send c d r =>
      simp only [lineStep]
      split <;> simp [Line.onSend, h]
  | recv c w r =>
      simp only [lineStep]
      split
      case isFalse => exact h
      case isTrue =>
        unfold Line.onRecv
        cases l.phase with
        | asked req got =>
            by_cases hc : l.conn = some c
            · simp only [hc, if_true]
              cases r with
              | data bs =>
                  by_cases hb : bs = []
                  · simp [hb, h]
                  · simp only [hb, if_false, Line.upTo]
                    split <;> exact h
              | _ => exact h
            · simp [hc]
        | _ => rfl
  | close c a =>
      simp only [lineStep, Line.onClose]
      split
      · split <;> simp [h]
      · exact h
  | caught x todo =>
      simp only [lineStep, Line.onCaught]
      repeat' split
      all_goals exact h
  | drew j n =>
      simp only [lineStep]
      split <;> exact h
  | call => exact h
  | _ => exact h

/-- What is good after a history was good at every point of it. -/
theorem line_not_bad_initial {tr evs : Trace}
    (h : (line g i (tr ++ evs)).bad = false) :
    (line g i tr).bad = false := by
  by_contra hb
  rw [Bool.not_eq_false] at hb
  have : (line g i (tr ++ evs)).bad = true := by
    rw [line_append]
    clear h
    generalize line g i tr = l at hb
    induction evs generalizing l with
    | nil => exact hb
    | cons e evs ih => exact ih _ (lineStep_bad l e hb)
  rw [this] at h
  cases h

end Folding

-- ========================================================== byte streams

/-- The bytes put on a connection by one entry. -/
def Ev.sentOn (c : ConnId) : Ev → List UInt8
  | .send c' data r =>
      if c' = c then
        match r with
        | .all => data
        | .fault _ n | .interrupt n => data.take n
      else []
  | _ => []

/-- The bytes taken off a connection by one entry. -/
def Ev.gotOn (c : ConnId) : Ev → List UInt8
  | .recv c' _ (.data bs) => if c' = c then bs else []
  | _ => []

/-- Everything put on a connection. -/
def sentOn (tr : Trace) (c : ConnId) : List UInt8 := tr.flatMap (Ev.sentOn c)

/-- Everything taken off a connection. -/
def gotOn (tr : Trace) (c : ConnId) : List UInt8 := tr.flatMap (Ev.gotOn c)

@[simp] theorem sentOn_snoc (tr : Trace) (e : Ev) (c : ConnId) :
    sentOn (tr ++ [e]) c = sentOn tr c ++ e.sentOn c := by simp [sentOn]

@[simp] theorem gotOn_snoc (tr : Trace) (e : Ev) (c : ConnId) :
    gotOn (tr ++ [e]) c = gotOn tr c ++ e.gotOn c := by simp [gotOn]

/-- An entry moves bytes on the connection it is about and on no
other. -/
theorem Ev.streams_of_conn_ne {e : Ev} {c : ConnId}
    (h : e.conn ≠ some c) : e.sentOn c = [] ∧ e.gotOn c = [] := by
  cases e with
  | send c' d r =>
      have : ¬ c' = c := fun hc => h (by rw [← hc]; rfl)
      simp [Ev.sentOn, Ev.gotOn, this]
  | recv c' w r =>
      have : ¬ c' = c := fun hc => h (by rw [← hc]; rfl)
      cases r <;> simp [Ev.sentOn, Ev.gotOn, this]
  | _ => exact ⟨rfl, rfl⟩

/-- Nothing moved on a connection nobody mentioned yet. -/
theorem streams_of_bound_le {tr : Trace} {c : ConnId}
    (h : Trace.bound tr ≤ c.n) : sentOn tr c = [] ∧ gotOn tr c = [] := by
  have hne : ∀ e ∈ tr, e.conn ≠ some c := by
    intro e he hc
    have := Trace.lt_bound he hc
    omega
  constructor
  · exact List.flatMap_eq_nil_iff.mpr fun e he =>
      (Ev.streams_of_conn_ne (hne e he)).1
  · exact List.flatMap_eq_nil_iff.mpr fun e he =>
      (Ev.streams_of_conn_ne (hne e he)).2

/-- No entry lowers the bound. -/
theorem Trace.bound_snoc (tr : Trace) (e : Ev) :
    Trace.bound tr ≤ Trace.bound (tr ++ [e]) := by
  induction tr with
  | nil => simp [Trace.bound]
  | cons x tr ih => simp only [List.cons_append, Trace.bound]; omega

/-- The bound of a history is above the connection its last entry is
about. -/
theorem Trace.lt_bound_snoc {tr : Trace} {e : Ev} {c : ConnId}
    (hc : e.conn = some c) : c.n < Trace.bound (tr ++ [e]) :=
  Trace.lt_bound (List.mem_append_right tr (List.mem_singleton_self e)) hc

/-- A good line agrees with the streams of its connection. -/
structure Line.Traced (g : Geometry) (i : PeerId) (tr : Trace)
    (l : Line) : Prop where
  conn : ∀ c, l.conn = some c → c.peer = i ∧ c.n < Trace.bound tr
  asked : ∀ x ∈ l.asked, x.1.n < Trace.bound tr
  settled : ∀ x ∈ l.done, x.Settled g.rowBytes
  idle : ∀ c, l.conn = some c → l.phase = .idle →
    sentOn tr c = l.done.flatMap Exchange.req ∧
      gotOn tr c = l.done.flatMap Exchange.ans
  asking : ∀ c req got, l.conn = some c → l.phase = .asked req got →
    WholeRequest req ∧ sentOn tr c = l.done.flatMap Exchange.req ++ req ∧
      gotOn tr c = l.done.flatMap Exchange.ans ++ got

namespace Line.Traced

variable {g : Geometry} {i : PeerId} {tr : Trace} {l : Line}

/-- An entry that moves nothing on the current connection keeps the
agreement, whatever it does to the call-wide fields. -/
theorem keep {l' : Line} {e : Ev} (h : l.Traced g i tr)
    (hconn : l'.conn = l.conn) (hdone : l'.done = l.done)
    (hphase : l'.phase = l.phase) (hasked : ∀ x ∈ l'.asked, x ∈ l.asked)
    (he : ∀ c, l.conn = some c → e.sentOn c = [] ∧ e.gotOn c = []) :
    l'.Traced g i (tr ++ [e]) where
  conn c hc := by
    obtain ⟨hp, hn⟩ := h.conn c (hconn ▸ hc)
    exact ⟨hp, hn.trans_le (Trace.bound_snoc tr e)⟩
  asked x hx := (h.asked x (hasked x hx)).trans_le (Trace.bound_snoc tr e)
  settled x hx := h.settled x (hdone ▸ hx)
  idle c hc hp := by
    rw [hconn] at hc
    obtain ⟨hs, hg⟩ := he c hc
    obtain ⟨hs', hg'⟩ := h.idle c hc (hphase ▸ hp)
    rw [sentOn_snoc, gotOn_snoc, hs, hg, hs', hg', hdone]
    simp
  asking c req got hc hp := by
    rw [hconn] at hc
    obtain ⟨hs, hg⟩ := he c hc
    obtain ⟨hw, hs', hg'⟩ := h.asking c req got hc (hphase ▸ hp)
    rw [sentOn_snoc, gotOn_snoc, hs, hg, hs', hg', hdone]
    exact ⟨hw, by simp, by simp⟩

/-- An entry about no connection of the line's peer keeps the
agreement. -/
theorem keep_other {e : Ev} (h : l.Traced g i tr)
    (he : ∀ c, e.conn = some c → c.peer ≠ i) : l.Traced g i (tr ++ [e]) := by
  refine h.keep rfl rfl rfl (fun _ hx => hx) ?_
  intro c hc
  refine Ev.streams_of_conn_ne fun hce => he c hce (h.conn c hc).1

/-- Opening a connection no entry mentions starts empty streams. -/
theorem onConnect {c : ConnId} {a : Addr} {t : ℚ} (h : l.Traced g i tr)
    (hc : c.peer = i) (hn : c.n = Trace.bound tr) :
    (l.onConnect c).Traced g i (tr ++ [.connect c a t .ok]) := by
  have hlt : c.n < Trace.bound (tr ++ [.connect c a t .ok]) :=
    Trace.lt_bound_snoc rfl
  obtain ⟨hs, hg⟩ := streams_of_bound_le hn.ge
  constructor
  case conn =>
    intro c' hc'
    obtain rfl : c = c' := Option.some.inj hc'
    exact ⟨hc, hlt⟩
  case asked =>
    intro x hx
    exact (h.asked x hx).trans_le (Trace.bound_snoc tr _)
  case settled => intro x hx; cases hx
  case idle =>
    intro c' hc' _
    obtain rfl : c = c' := Option.some.inj hc'
    rw [sentOn_snoc, gotOn_snoc, hs, hg]
    exact ⟨rfl, rfl⟩
  case asking => intro c' req got _ hp; cases hp

/-- A send that obeys the rule extends the sent stream by one whole
request. -/
theorem onSend {c : ConnId} {data : List UInt8} {r : Sent}
    (h : l.Traced g i tr) (hok : l.sendOk g c data = true) :
    (l.onSend g c data r).Traced g i (tr ++ [.send c data r]) := by
  simp only [Line.sendOk, Bool.and_eq_true, beq_iff_eq,
    decide_eq_true_eq] at hok
  obtain ⟨⟨⟨⟨⟨hlc, hidle⟩, -⟩, hwhole⟩, -⟩, -⟩ := hok
  obtain ⟨hs, hg⟩ := h.idle c hlc hidle
  have hlt : c.n < Trace.bound (tr ++ [.send c data r]) :=
    Trace.lt_bound_snoc rfl
  constructor
  case conn =>
    intro c' hc'
    obtain ⟨hp, hn⟩ := h.conn c' hc'
    exact ⟨hp, hn.trans_le (Trace.bound_snoc tr _)⟩
  case asked =>
    intro x hx
    simp only [Line.onSend] at hx
    split at hx
    case isTrue =>
      rcases List.mem_append.mp hx with hx | hx
      · exact (h.asked x hx).trans_le (Trace.bound_snoc tr _)
      · rw [List.mem_singleton.mp hx]; exact hlt
    case isFalse => exact (h.asked x hx).trans_le (Trace.bound_snoc tr _)
  case settled => exact h.settled
  case idle =>
    intro c' hc' hp
    obtain rfl : c = c' := Option.some.inj (hlc.symm.trans hc')
    cases r with
    | all => cases hp
    | fault why n => cases hp
    | interrupt n =>
        simp only [Line.onSend] at hp
        split at hp
        case isFalse => cases hp
        case isTrue hn =>
          simp [Ev.sentOn, Ev.gotOn, hn, hs, hg, Line.onSend]
  case asking =>
    intro c' req got hc' hp
    obtain rfl : c = c' := Option.some.inj (hlc.symm.trans hc')
    cases r with
    | all =>
        obtain ⟨rfl, rfl⟩ : data = req ∧ [] = got := by
          simpa [Line.onSend] using hp
        simp [Ev.sentOn, Ev.gotOn, hs, hg, Line.onSend, hwhole]
    | fault why n => cases hp
    | interrupt n =>
        simp only [Line.onSend, hidle] at hp
        split at hp <;> cases hp

/-- Bytes that arrive while an answer is outstanding extend it. -/
theorem onRecv {c : ConnId} {want : Nat} {r : Got} (h : l.Traced g i tr)
    (hbad : (l.onRecv g c r).bad = false) :
    (l.onRecv g c r).Traced g i (tr ++ [.recv c want r]) := by
  unfold Line.onRecv at hbad ⊢
  cases hphase : l.phase with
  | idle => simp [hphase] at hbad
  | doubt => simp [hphase] at hbad
  | asked req got =>
      simp only [hphase] at hbad ⊢
      by_cases hlc : l.conn = some c
      case neg => simp [hlc] at hbad
      rw [if_pos hlc] at hbad ⊢
      obtain ⟨hw, hs, hg⟩ := h.asking c req got hlc hphase
      have hdoubt : ({ l with phase := .doubt } : Line).Traced g i
          (tr ++ [.recv c want r]) := by
        constructor
        case conn =>
          intro c' hc'
          obtain ⟨hp, hn⟩ := h.conn c' hc'
          exact ⟨hp, hn.trans_le (Trace.bound_snoc tr _)⟩
        case asked =>
          intro x hx
          exact (h.asked x hx).trans_le (Trace.bound_snoc tr _)
        case settled => exact h.settled
        case idle => intro c' _ hp; cases hp
        case asking => intro c' _ _ _ hp; cases hp
      cases r with
      | timeout => exact hdoubt
      | fault why => exact hdoubt
      | interrupt =>
          refine h.keep rfl rfl rfl (fun _ hx => hx) ?_
          intro c' _
          exact ⟨rfl, rfl⟩
      | data bs =>
          by_cases hb : bs = []
          case pos => simpa only [hb, if_true] using (hb ▸ hdoubt)
          simp only [hb, if_false, Line.upTo]
          have hsent : sentOn (tr ++ [.recv c want (.data bs)]) c
              = l.done.flatMap Exchange.req ++ req := by
            rw [sentOn_snoc, hs]; simp [Ev.sentOn]
          have hgot : gotOn (tr ++ [.recv c want (.data bs)]) c
              = l.done.flatMap Exchange.ans ++ (got ++ bs) := by
            rw [gotOn_snoc, hg]; simp [Ev.gotOn]
          split
          case isTrue hacc =>
            constructor
            case conn =>
              intro c' hc'
              obtain ⟨hp, hn⟩ := h.conn c' hc'
              exact ⟨hp, hn.trans_le (Trace.bound_snoc tr _)⟩
            case asked =>
              intro x hx
              exact (h.asked x hx).trans_le (Trace.bound_snoc tr _)
            case settled =>
              intro x hx
              rcases List.mem_append.mp hx with hx | hx
              · exact h.settled x hx
              · rw [List.mem_singleton.mp hx]; exact ⟨hw, hacc⟩
            case idle =>
              intro c' hc' _
              obtain rfl : c = c' := Option.some.inj (hlc.symm.trans hc')
              simp only [hsent, hgot, List.flatMap_append,
                List.flatMap_singleton, and_self]
            case asking => intro c' _ _ _ hp; cases hp
          case isFalse =>
            constructor
            case conn =>
              intro c' hc'
              obtain ⟨hp, hn⟩ := h.conn c' hc'
              exact ⟨hp, hn.trans_le (Trace.bound_snoc tr _)⟩
            case asked =>
              intro x hx
              exact (h.asked x hx).trans_le (Trace.bound_snoc tr _)
            case settled => exact h.settled
            case idle => intro c' _ hp; cases hp
            case asking =>
              intro c' req' got' hc' hp
              obtain rfl : c = c' := Option.some.inj (hlc.symm.trans hc')
              obtain ⟨rfl, rfl⟩ := Phase.asked.inj hp
              exact ⟨hw, hsent, hgot⟩

/-- A line put in doubt agrees with its streams no longer. -/
theorem onCaught {e : Exn} {todo : List PeerId} (h : l.Traced g i tr) :
    l.onCaught.Traced g i (tr ++ [.caught e todo]) := by
  have hkeep : l.Traced g i (tr ++ [.caught e todo]) :=
    h.keep rfl rfl rfl (fun _ hx => hx) fun _ _ => ⟨rfl, rfl⟩
  unfold Line.onCaught
  split
  case isTrue => exact hkeep
  case isFalse =>
    split
    case isTrue => exact hkeep
    case isFalse =>
      refine ⟨hkeep.conn, hkeep.asked, hkeep.settled, ?_, ?_⟩
      · intro c _ hp; cases hp
      · intro c req got _ hp; cases hp

/-- Closing the current connection leaves nothing to agree on. -/
theorem onClose {c : ConnId} {abort : Bool} (h : l.Traced g i tr) :
    (l.onClose c).Traced g i (tr ++ [.close c abort]) := by
  unfold Line.onClose
  split
  case isFalse =>
    exact h.keep rfl rfl rfl (fun _ hx => hx) fun _ _ => ⟨rfl, rfl⟩
  case isTrue =>
    constructor
    case conn => intro c' hc'; cases hc'
    case asked =>
      intro x hx
      exact (h.asked x hx).trans_le (Trace.bound_snoc tr _)
    case settled => intro x hx; cases hx
    case idle => intro c' hc'; cases hc'
    case asking => intro c' _ _ hc'; cases hc'

end Line.Traced

/-- A good line agrees with the streams of any history the environment
can have produced. -/
theorem line_traced {env : Env} {g : Geometry} {i : PeerId} {tr : Trace}
    (h : env.Produced tr) (hb : (line g i tr).bad = false) :
    (line g i tr).Traced g i tr := by
  induction h with
  | nil =>
      constructor
      case conn => intro c hc; cases hc
      case asked => intro x hx; cases hx
      case settled => intro x hx; cases hx
      case idle => intro c hc; cases hc
      case asking => intro c _ _ hc; cases hc
  | snoc hp he ih =>
      rename_i tr e
      have hl : (line g i tr).bad = false := line_not_bad_initial hb
      have h := ih hl
      rw [line_snoc] at hb ⊢
      cases e with
      | call =>
          exact h.keep rfl rfl rfl (fun _ hx => by cases hx)
            fun _ _ => ⟨rfl, rfl⟩
      | connect c a t r =>
          cases r with
          | ok =>
              simp only [lineStep] at hb ⊢
              split
              case isTrue hc => exact h.onConnect hc he.1
              case isFalse hc =>
                exact h.keep_other fun c' hc' => by cases hc'; exact hc
          | fault why =>
              exact h.keep rfl rfl rfl (fun _ hx => hx) fun _ _ => ⟨rfl, rfl⟩
          | interrupt =>
              exact h.keep rfl rfl rfl (fun _ hx => hx) fun _ _ => ⟨rfl, rfl⟩
      | send c d r =>
          simp only [lineStep] at hb ⊢
          split at hb
          case isTrue hc =>
            rw [if_pos hc]
            refine h.onSend ?_
            simpa [Line.onSend, hl] using hb
          case isFalse hc =>
            rw [if_neg hc]
            exact h.keep_other fun c' hc' => by cases hc'; exact hc
      | recv c w r =>
          simp only [lineStep] at hb ⊢
          split at hb
          case isTrue hc =>
            rw [if_pos hc]
            exact h.onRecv hb
          case isFalse hc =>
            rw [if_neg hc]
            exact h.keep_other fun c' hc' => by cases hc'; exact hc
      | close c a =>
          simp only [lineStep]
          split
          case isTrue => exact h.onClose
          case isFalse hc =>
            exact h.keep_other fun c' hc' => by cases hc'; exact hc
      | drew j n =>
          simp only [lineStep]
          split <;>
            exact h.keep rfl rfl rfl (fun _ hx => hx) fun _ _ => ⟨rfl, rfl⟩
      | caught x todo =>
          simp only [lineStep]
          split
          case isTrue => exact h.onCaught
          case isFalse =>
            exact h.keep rfl rfl rfl (fun _ hx => hx) fun _ _ => ⟨rfl, rfl⟩
      | _ =>
          exact h.keep rfl rfl rfl (fun _ hx => hx) fun _ _ => ⟨rfl, rfl⟩

end PleRowServer.Client
