/-
What the methods that send a request and read an answer do: the same
two-exit specifications as PeerSpec.lean, one level up. A request is
known by its fields, never by its bytes; an answer's header is known by
whether it is that of a success (`headerOk`).
-/
import PleRowServer.Client.PeerSpec

namespace PleRowServer.Client

open Base Wire

variable {env : Env} {geo : PeerId → Geometry} {w w' w'' : World env}
  {i : PeerId} {c : ConnId} {e : Exn}

-- ============================================================= requests

/-- A whole request and its fields. -/
structure Asks (op id count : Nat) (req : List UInt8) : Prop where
  whole : WholeRequest req
  op : opOf req = op
  id : idOf req = id
  count : countOf req = count

/-- A packed header has the fields it was packed from, whatever ids
follow it. -/
theorem packRequest_asks {op id count : Nat} {hdr ids : List UInt8}
    (h : Peer.packRequest op 0 id count = some hdr)
    (hids : ids.length = 4 * count) :
    hdr.length = HEADER ∧ Asks op id count (hdr ++ ids) := by
  have hlen : hdr.length = HEADER := length_of_pack h
  have hf := fieldsAt_of_pack h
  simp only [fieldsAt, Code.width, Nat.zero_add, Nat.reduceAdd, List.cons.injEq,
    and_true] at hf
  obtain ⟨-, -, hop, -, hid, hcount⟩ := hf
  have hcount' : countOf (hdr ++ ids) = count := by
    rw [← hcount]
    exact natAt_append_left (by rw [hlen]; decide)
  refine ⟨hlen, ⟨⟨?_, ?_⟩, ?_, ?_, hcount'⟩⟩
  · simp only [List.length_append, hlen]; omega
  · rw [hcount', List.length_append, hlen, hids]
  · rw [← hop]; exact natAt_append_left (by rw [hlen]; decide)
  · rw [← hid]; exact natAt_append_left (by rw [hlen]; decide)

/-- Packing fails on a field out of range only. -/
theorem packRequest_eq_none {op id count : Nat} (hop : op < 256)
    (hid : id < 2 ^ 32) (h : Peer.packRequest op 0 id count = none) :
    2 ^ 32 ≤ count := by
  simp [Peer.packRequest, pack, Code.width, MAGIC_REQ, VERSION, hop] at h
  omega

/-- A request with no ids goes out as the header alone. -/
theorem sendBare_spec {op reqId : Nat} (h : On geo i c w)
    (hidle : (w.line geo i).phase = .idle)
    (hopen : (w.line geo i).answered = false)
    (hticket : (w.line geo i).ticket = some reqId) (hop : op < 256)
    (hne : op ≠ OP_GATHER) (hid : reqId < 2 ^ 32) :
    Runs (Peer.sendBare i op reqId) w
      (fun _ w' => ∃ req, Asks op reqId 0 req ∧ Step {i} w w' ∧
        (∃ a, w'.heap i = { w.heap i with
          armed := a, pending := some reqId }) ∧
        w'.line geo i = (w.line geo i).asking c req ∧
        drawn w'.tr = drawn w.tr)
      (fun e w' => Broke geo i e [] w w' ∧
        (w.heap i).Armed (w'.heap i)) := by
  unfold Peer.sendBare
  cases hpack : Peer.packRequest op 0 reqId 0 with
  | none => exact absurd (packRequest_eq_none hop hid hpack) (by decide)
  | some hdr =>
      obtain ⟨-, hasks⟩ := packRequest_asks hpack
        (show ([] : List UInt8).length = 4 * 0 from rfl)
      rw [List.append_nil] at hasks
      have hnot : gathers c hdr = [] := by
        rw [gathers, if_neg (by rw [hasks.op]; exact hne)]
      have hok : (w.line geo i).sendOk (geo i) c hdr = true := by
        simp [Line.sendOk, h.conn, hidle, hopen, hasks.whole, hticket,
          hasks.id, hasks.op, hne]
      refine Runs.bind (sendall_spec h hok) ?_ ?_
      · rintro _ w' ⟨hstep, ⟨a, ha⟩, hl, hn⟩
        simp only [runs_modifyPeer]
        refine ⟨hdr, hasks, hstep.trans (.setPeer ?_ rfl), ⟨a, ?_⟩, hl, hn⟩
        · exact ⟨rfl, rfl, rfl, rfl, rfl, rfl⟩
        · rw [World.setPeer_self, ha]
      · rintro e w' ⟨hb, ha⟩
        rw [hnot] at hb
        exact ⟨hb, ha⟩

/-- The bytes of a GATHER: its header over the ids in the buffer. -/
theorem gather_data {req hdr : List UInt8} {count : Nat}
    (hlen : hdr.length = HEADER) (hroom : HEADER + 4 * count ≤ req.length) :
    (splice req 0 hdr).take (HEADER + 4 * count)
        = hdr ++ (req.drop HEADER).take (4 * count) ∧
      ((req.drop HEADER).take (4 * count)).length = 4 * count := by
  refine ⟨?_, ?_⟩
  · rw [take_splice_zero (by omega) hroom, hlen, Nat.add_sub_cancel_left]
  · simp only [List.length_take, List.length_drop]
    omega

/-- A GATHER goes out as a header over the ids already in the buffer. -/
theorem sendGather_spec {reqId count : Nat} (h : On geo i c w)
    (hidle : (w.line geo i).phase = .idle)
    (hopen : (w.line geo i).answered = false)
    (hticket : (w.line geo i).ticket = some reqId)
    (hchk : (w.line geo i).checked (geo i) = true)
    (hnew : c ∉ (w.line geo i).asked.map Prod.fst) (hid : reqId < 2 ^ 32)
    (hroom : HEADER + 4 * count ≤ (w.heap i).req.length) :
    Runs (Peer.sendGather i reqId count) w
      (fun _ w' => ∃ req, Asks OP_GATHER reqId count req ∧
        req.drop HEADER = ((w.heap i).req.drop HEADER).take (4 * count) ∧
        Step {i} w w' ∧
        (∃ a r, w'.heap i = { w.heap i with
          armed := a, req := r, pending := some reqId }) ∧
        w'.line geo i = (w.line geo i).asking c req ∧
        drawn w'.tr = drawn w.tr)
      (fun e w' => Broke geo i e [(c, reqId)] w w' ∨
        2 ^ 32 ≤ count ∧ e = .structError ∧
          w' = w.push (.raised e) (env.produces_raised w.tr e)) := by
  unfold Peer.sendGather
  cases hpack : Peer.packRequest OP_GATHER 0 reqId count with
  | none => exact .inr ⟨packRequest_eq_none (by decide) hid hpack, rfl, rfl⟩
  | some hdr =>
      set p := w.heap i with hp
      have hlen : hdr.length = HEADER := length_of_pack hpack
      set w₁ := w.setPeer i { p with req := splice p.req 0 hdr } with hw₁
      have hkept : p.Kept { p with req := splice p.req 0 hdr } :=
        ⟨rfl, rfl, rfl, drop_splice (by omega) (by omega),
          length_splice (Nat.zero_le _), rfl⟩
      have hheld : Held geo i w w₁ := .setPeer h.good hkept rfl rfl rfl
      have hon : On geo i c w₁ := h.held hheld
      obtain ⟨hdata, hids⟩ := gather_data hlen hroom
      obtain ⟨-, hasks⟩ := packRequest_asks hpack hids
      rw [← hdata] at hasks
      set data := (splice p.req 0 hdr).take (HEADER + 4 * count) with hd
      have hg : gathers c data = [(c, reqId)] := by
        rw [gathers, if_pos hasks.op, hasks.id]
      have hok : (w₁.line geo i).sendOk (geo i) c data = true := by
        have hnew' : ∀ n, (c, n) ∉ (w.line geo i).asked := by
          simpa using hnew
        simp [Line.sendOk, hw₁, h.conn, hidle, hopen, hasks.whole, hticket,
          hasks.id, hasks.op, hchk, hnew']
      have hself : w₁.heap i = { p with req := splice p.req 0 hdr } :=
        World.setPeer_self _ _ _
      simp only [runs_bind, runs_modifyPeer, runs_peer, ← hw₁, ← hp, hself,
        ← hd]
      refine (sendall_spec hon hok).mono ?_ ?_
      · rintro _ w' ⟨hstep, ⟨a, ha⟩, hl, hn⟩
        refine ⟨data, hasks, ?_, hheld.step.trans (hstep.trans
          (.setPeer ⟨rfl, rfl, rfl, rfl, rfl, rfl⟩ rfl)),
          ⟨a, splice p.req 0 hdr, ?_⟩, hl, hn⟩
        · rw [hdata, ← hlen, List.drop_left]
        · rw [World.setPeer_self, ha, hself]
      · rintro e w' ⟨hb, -⟩
        rw [hg] at hb
        exact .inl (hheld.broke hb)

-- ============================================================== headers

/-- A header unpacks to its four fields. -/
theorem unpackHeader_eq {hdr : List UInt8} (h : hdr.length = HEADER) :
    Peer.unpackHeader hdr
      = some [magicOf hdr, echoOf hdr, statusOf hdr, rowsOf hdr] := by
  have := unpack_eq [.I, .I, .I, .I] hdr 0
    (by rw [h]; rfl)
  rw [List.drop_zero] at this
  exact this

/-- Less than a header is no answer. -/
theorem not_accepted_of_short {rb : Nat} {req x : List UInt8}
    (h : x.length < HEADER) : accepted rb req x = false := by
  rw [← Bool.not_eq_true, accepted_iff, headerOk_iff]
  rintro ⟨⟨hl, -⟩, -⟩
  omega

/-- A header that `_read_header` let through: everything but its row
count is that of a success. -/
structure Header (geo : PeerId → Geometry) (i : PeerId)
    (req hdr : List UInt8) (w w' : World env) : Prop where
  length : hdr.length = HEADER
  magic : magicOf hdr = MAGIC_RESP
  echo : echoOf hdr = idOf req
  status : statusOf hdr = 0
  step : Step {i} w w'
  heap : ∃ a, w'.heap i = { w.heap i with armed := a, pending := none }
  line : w'.line geo i = (w.line geo i).upTo (geo i) req hdr
  undrawn : drawn w'.tr = drawn w.tr

theorem Header.ok_iff {req hdr : List UInt8} (h : Header geo i req hdr w w') :
    headerOk req hdr = true ↔ rowsOf hdr = wantRows req := by
  rw [headerOk_iff]
  exact ⟨fun hok => hok.2.2.2.2,
    fun hr => ⟨h.length.ge, h.magic, h.echo, h.status, hr⟩⟩

/-- A line whose answer's header is in and is no success: the exchange
stands, and only an exception can follow. -/
theorem refused_of_not_ok {l : Line} {g : Geometry} {req hdr : List UInt8}
    (hlen : hdr.length = HEADER) (h : headerOk req hdr = false) :
    l.upTo g req hdr = { l with phase := .asked req hdr } ∧
      (l.upTo g req hdr).Refused := by
  have hnot : accepted g.rowBytes req hdr = false := by simp [accepted, h]
  rw [Line.upTo_of_not hnot]
  exact ⟨rfl, req, hdr, rfl, hlen.ge, h⟩

/-- An exception over a header that is no success. -/
theorem broke_of_not_ok {req hdr : List UInt8} (h : On geo i c w)
    (hlen : hdr.length = HEADER) (hok : headerOk req hdr = false)
    (hstep : Step {i} w w')
    (hheap : ∃ a pd, w'.heap i = { w.heap i with armed := a, pending := pd })
    (hl : w'.line geo i = (w.line geo i).upTo (geo i) req hdr)
    (hn : drawn w'.tr = drawn w.tr) (he : e ≠ .outOfRounds) :
    Broke geo i e [] w
      (w'.push (.raised e) (env.produces_raised w'.tr e)) := by
  obtain ⟨a, pd, ha⟩ := hheap
  obtain ⟨hl', hr⟩ := refused_of_not_ok (l := w.line geo i) (g := geo i)
    hlen hok
  have hheld : Held geo i w w' := by
    refine ⟨hstep, by rw [ha], by rw [ha], by rw [ha], ?_, ?_, .inl ?_, ?_,
      hn⟩ <;> rw [hl, hl']
    exact h.good
  refine hheld.raise (.refused (by rw [hl]; exact hr) hstep.grows) he
    (.inr (.inr ?_))
  rw [hl, hl']
  simp

/-- `_read_header` takes sixteen bytes and lets through the header of a
success, up to its row count. -/
theorem readHeader_spec {req : List UInt8} (h : On geo i c w)
    (hp : (w.line geo i).phase = .asked req [])
    (hpend : (w.heap i).pending = some (idOf req)) :
    Runs (Peer.readHeader i) w
      (fun n w' => ∃ hdr, rowsOf hdr = n ∧ Header geo i req hdr w w')
      (fun e w' => Broke geo i e [] w w') := by
  unfold Peer.readHeader
  refine Runs.bind (recvExact_spec h hp (by decide)
    (fun x hx => not_accepted_of_short (by simpa using hx))) ?_
    (fun _ _ h => h.1)
  rintro hdr w' ⟨hlen, hstep, ⟨a, ha⟩, hl, hn⟩
  rw [List.nil_append] at hl
  rw [unpackHeader_eq hlen]
  have hbad : headerOk req hdr = false → ∀ e : Exn, e ≠ .outOfRounds →
      Broke geo i e [] w
        (w'.push (.raised e) (env.produces_raised w'.tr e)) :=
    fun hok e he => broke_of_not_ok h hlen hok hstep ⟨a, _, ha⟩ hl hn he
  unfold Peer.checkHeader
  simp only [runs_bind, runs_peer]
  split
  case isTrue hm =>
    refine hbad ?_ _ (by simp)
    simp [headerOk, hm]
  case isFalse hm =>
    rw [show (w'.heap i).pending = some (idOf req) by rw [ha]; exact hpend]
    split
    case isTrue he =>
      have he : echoOf hdr ≠ idOf req := fun h => he (by rw [h])
      refine hbad ?_ _ (by simp)
      simp [headerOk, he]
    case isFalse he =>
      have he : echoOf hdr = idOf req := by simpa using he
      set p' : Peer := { w'.heap i with pending := none } with hp'
      have hstep' : Step {i} w (w'.setPeer i p') :=
        hstep.trans (.setPeer ⟨rfl, rfl, rfl, rfl, rfl, rfl⟩ rfl)
      have hheap : (w'.setPeer i p').heap i
          = { w.heap i with armed := a, pending := none } := by
        rw [World.setPeer_self, hp', ha]
      simp only [runs_bind, runs_modifyPeer, ← hp']
      split
      case isTrue hs =>
        refine broke_of_not_ok h hlen ?_ hstep' ⟨a, none, hheap⟩ hl hn
          (by simp)
        simp [headerOk, hs]
      case isFalse hs =>
        have hs : statusOf hdr = 0 := by simpa using hs
        simp only [runs_pure]
        exact ⟨hdr, rfl, hlen, by simpa using hm, he, hs, hstep', ⟨a, hheap⟩,
          hl, hn⟩

/-- `read_ack` completes a request whose success has no body. -/
theorem readAck_spec {req : List UInt8} (h : On geo i c w)
    (hp : (w.line geo i).phase = .asked req [])
    (hpend : (w.heap i).pending = some (idOf req))
    (hrows : wantRows req = 0) :
    Runs (Peer.readAck i) w
      (fun _ w' => ∃ hdr, headerOk req hdr = true ∧
        Header geo i req hdr w w')
      (fun e w' => Broke geo i e [] w w') := by
  unfold Peer.readAck
  refine Runs.bind (readHeader_spec h hp hpend) ?_ (fun _ _ h => h)
  rintro n w' ⟨hdr, rfl, hh⟩
  split
  case isTrue hne =>
    obtain ⟨a, ha⟩ := hh.heap
    simp only [runs_bind, runs_peer, runs_raise]
    refine broke_of_not_ok h hh.length ?_ hh.step ⟨a, none, ha⟩ hh.line
      hh.undrawn (by simp)
    rw [← Bool.not_eq_true, hh.ok_iff, hrows]
    exact hne
  case isFalse heq =>
    have heq : rowsOf hdr = 0 := by simpa using heq
    exact ⟨hdr, hh.ok_iff.mpr (by rw [heq, hrows]), hh⟩

-- ================================================================= rows

/-- A GATHER's answer as far as `got`, on the wire and in the peer's
buffers alike. `l` is the line as it was when the request went out. -/
structure Filled (geo : PeerId → Geometry) (i : PeerId) (l : Line)
    (req got : List UInt8) (w : World env) : Prop where
  sock : (w.heap i).sock = l.conn
  line : w.line geo i = l.upTo (geo i) req got
  header : headerOk req got = true
  want : (w.heap i).rdWant = bodyBytes (geo i).rowBytes req
  length : got.length = HEADER + (w.heap i).rdGot
  le : (w.heap i).rdGot ≤ (w.heap i).rdWant
  room : (w.heap i).rdWant ≤ (w.heap i).rows.length
  rows : (w.heap i).rows.take (w.heap i).rdGot = bodyOf got
  flag : (w.heap i).answered
    = decide ((w.heap i).rdWant ≤ (w.heap i).rdGot)
  pending : (w.heap i).pending = none

/-- The line of a peer that was asked on `c`: good, and still owed the
answer. -/
structure Line.Open (l : Line) (i : PeerId) (c : ConnId) : Prop where
  peer : c.peer = i
  conn : l.conn = some c
  good : l.bad = false
  owed : l.answered = false

section Rows

variable {l : Line} {req got : List UInt8}

theorem Filled.accepted_iff (h : Filled geo i l req got w) :
    accepted (geo i).rowBytes req got = true
      ↔ (w.heap i).rdWant ≤ (w.heap i).rdGot := by
  rw [Wire.accepted_iff, h.length, ← h.want]
  have := h.le
  constructor
  · rintro ⟨-, hl⟩; omega
  · intro hl; exact ⟨h.header, by omega⟩

theorem Filled.on (h : Filled geo i l req got w) (hl : l.Open i c) :
    On geo i c w :=
  ⟨h.sock.trans hl.conn, hl.peer, by rw [h.line, Line.upTo_conn, hl.conn],
    by rw [h.line, Line.upTo_bad, hl.good]⟩

/-- A body that is not all in leaves the request outstanding. -/
theorem Filled.outstanding (h : Filled geo i l req got w)
    (hlt : (w.heap i).rdGot < (w.heap i).rdWant) :
    accepted (geo i).rowBytes req got = false ∧
      (w.line geo i).phase = .asked req got := by
  have hnot : accepted (geo i).rowBytes req got = false := by
    rw [← Bool.not_eq_true, h.accepted_iff]; omega
  exact ⟨hnot, by rw [h.line, Line.upTo_of_not hnot]⟩

/-- `begin_rows` takes the header and sets the body read up. -/
theorem beginRows_spec {count : Nat} (h : On geo i c w)
    (hp : (w.line geo i).phase = .asked req [])
    (hpend : (w.heap i).pending = some (idOf req))
    (hop : opOf req = OP_GATHER) (hcount : countOf req = count)
    (hrb : (w.heap i).rowBytes = (geo i).rowBytes)
    (hpos : 0 < count * (w.heap i).rowBytes)
    (hroom : count * (w.heap i).rowBytes ≤ (w.heap i).rows.length)
    (hflag : (w.heap i).answered = false) :
    Runs (Peer.beginRows i count) w
      (fun _ w' => ∃ hdr, Step {i} w w' ∧
        Filled geo i (w.line geo i) req hdr w' ∧
        (w'.heap i).rdGot = 0 ∧ 0 < (w'.heap i).rdWant ∧
        (w'.heap i).timeout = (w.heap i).timeout ∧
        drawn w'.tr = drawn w.tr)
      (fun e w' => Broke geo i e [] w w') := by
  unfold Peer.beginRows
  refine Runs.bind (readHeader_spec h hp hpend) ?_ (fun _ _ h => h)
  rintro n w' ⟨hdr, rfl, hh⟩
  obtain ⟨a, ha⟩ := hh.heap
  have hwant : wantRows req = count := by rw [wantRows, if_pos hop, hcount]
  split
  case isTrue hne =>
    simp only [runs_bind, runs_peer, runs_raise]
    refine broke_of_not_ok h hh.length ?_ hh.step ⟨a, none, ha⟩ hh.line
      hh.undrawn (by simp)
    rw [← Bool.not_eq_true, hh.ok_iff, hwant]
    exact hne
  case isFalse heq =>
    have heq : rowsOf hdr = count := by simpa using heq
    simp only [runs_modifyPeer, ha]
    refine ⟨hdr, hh.step.trans (.setPeer ?_ rfl), ?_, by simp, by simpa using hpos,
      by simp, hh.undrawn⟩
    · rw [ha]; exact ⟨rfl, rfl, rfl, rfl, rfl, rfl⟩
    · constructor
      case sock => simpa using h.sock.trans h.conn.symm
      case line => exact hh.line
      case header => exact hh.ok_iff.mpr (by rw [heq, hwant])
      case want => simp [bodyBytes, hop, hcount, hrb]
      case length => simpa using hh.length
      case le => simp
      case room => simpa using hroom
      case rows => simp [bodyOf, hh.length]
      case flag =>
        rw [World.setPeer_self, hflag, eq_comm, decide_eq_false]
        exact Nat.not_le.mpr hpos
      case pending => simp

/-- `pump_rows` appends one recv to the body. -/
theorem pumpRows_spec (hl : l.Open i c) (h : Filled geo i l req got w)
    (hlt : (w.heap i).rdGot < (w.heap i).rdWant) :
    Runs (Peer.pumpRows i) w
      (fun full w' => ∃ bs, bs ≠ [] ∧ Step {i} w w' ∧
        Filled geo i l req (got ++ bs) w' ∧
        (w'.heap i).rdWant = (w.heap i).rdWant ∧
        (w'.heap i).rdGot = (w.heap i).rdGot + bs.length ∧
        full = (w'.heap i).answered ∧
        (w'.heap i).timeout = (w.heap i).timeout ∧
        drawn w'.tr = drawn w.tr)
      (fun e w' => Broke geo i e [] w w') := by
  obtain ⟨hnot, hph⟩ := h.outstanding hlt
  unfold Peer.pumpRows
  simp only [runs_bind, runs_peer]
  refine Runs.mono (recv_spec (h.on hl) hph _) ?_ (fun _ _ h => h.1)
  rintro bs w' ⟨hlen, hh⟩
  obtain ⟨a, ha⟩ := hh.armed
  by_cases hbs : bs = []
  case pos =>
    have hheld := hh.held hl.good h.line hnot (.inl hbs)
    simp only [hbs, if_true, runs_bind, runs_raise]
    exact hheld.raise (.inl (hh.fault hbs)) (by simp) (.inl rfl)
  case neg =>
    have hfit : (w.heap i).rdGot + bs.length ≤ (w.heap i).rows.length := by
      have := h.room; omega
    simp only [hbs, if_false, runs_bind, runs_modifyPeer, runs_peer,
      runs_pure, ha]
    refine ⟨bs, hbs, hh.step.trans (.setPeer ?_ rfl), ?_, by simp, by simp,
      by simp, by simp, hh.undrawn⟩
    · rw [ha]
      exact ⟨rfl, rfl, rfl, rfl, rfl, length_splice (by omega)⟩
    · constructor
      case sock => simpa using h.sock
      case line =>
        rw [line_setPeer, hh.line, h.line, Line.heard, if_neg hbs,
          Line.upTo_upTo hnot]
      case header =>
        rw [headerOk_of_initial (List.prefix_append got bs)
          (headerOk_iff.mp h.header).1, h.header]
      case want => simpa using h.want
      case length => simp [h.length, Nat.add_assoc]
      case le => simp; omega
      case room =>
        simpa [length_splice (show (w.heap i).rdGot
          ≤ (w.heap i).rows.length by omega)] using h.room
      case rows =>
        simp only [World.setPeer_self]
        rw [take_splice hfit, h.rows, bodyOf, bodyOf,
          List.drop_append_of_le_length (headerOk_iff.mp h.header).1]
      case flag => simp
      case pending => simpa using h.pending

/-- Between two states of a body that is not all in, the peer stayed
inside its exchange. -/
theorem Filled.held {got' : List UInt8} (hl : l.Open i c)
    (h : Filled geo i l req got w) (h' : Filled geo i l req got' w')
    (hlt : (w.heap i).rdGot < (w.heap i).rdWant)
    (hlt' : (w'.heap i).rdGot < (w'.heap i).rdWant) (hstep : Step {i} w w')
    (ht : (w'.heap i).timeout = (w.heap i).timeout)
    (hn : drawn w'.tr = drawn w.tr) : Held geo i w w' := by
  have hline := h.line
  have hline' := h'.line
  rw [Line.upTo_of_not (h.outstanding hlt).1] at hline
  rw [Line.upTo_of_not (h'.outstanding hlt').1] at hline'
  refine ⟨hstep, h'.sock.trans h.sock.symm, ?_, ht, ?_, ?_, .inl ?_, ?_, hn⟩
  · rw [h.flag, h'.flag, decide_eq_false (by omega), decide_eq_false (by omega)]
  all_goals rw [hline']
  · rw [hline]
  · rw [hline]
  · rw [hline]
  · exact hl.good

/-- Once the body is all in there is nothing to finish. -/
theorem finishLoop_full (rounds : Nat)
    (h : (w.heap i).rdWant ≤ (w.heap i).rdGot)
    {Q : Unit → World env → Prop} {E : Exn → World env → Prop} :
    Runs (Peer.finishLoop i rounds) w Q E ↔ Q () w := by
  cases rounds <;> unfold Peer.finishLoop <;>
    simp only [runs_bind, runs_peer] <;> rw [if_neg (by omega)] <;> rfl

/-- `finish_rows` reads until the body is all in. -/
theorem finishLoop_spec (hl : l.Open i c) :
    ∀ (rounds : Nat) (got : List UInt8) (w : World env),
      Filled geo i l req got w →
      (w.heap i).rdWant ≤ (w.heap i).rdGot + rounds →
      Runs (Peer.finishLoop i rounds) w
        (fun _ w' => ∃ ans, Step {i} w w' ∧ Filled geo i l req ans w' ∧
          (w'.heap i).rdGot = (w'.heap i).rdWant ∧
          (w'.heap i).timeout = (w.heap i).timeout ∧
          drawn w'.tr = drawn w.tr)
        (fun e w' => Broke geo i e [] w w') := by
  intro rounds
  induction rounds with
  | zero =>
      intro got w h hr
      have hle := h.le
      unfold Peer.finishLoop
      simp only [runs_bind, runs_peer]
      rw [if_neg (by omega)]
      exact ⟨got, .refl w {i}, h, by omega, rfl, rfl⟩
  | succ rounds ih =>
      intro got w h hr
      have hle := h.le
      unfold Peer.finishLoop
      simp only [runs_bind, runs_peer]
      split
      case isFalse hge => exact ⟨got, .refl w {i}, h, by omega, rfl, rfl⟩
      case isTrue hlt =>
        simp only [runs_bind]
        refine Runs.mono (pumpRows_spec hl h hlt) ?_ (fun _ _ h => h)
        rintro full w' ⟨bs, hbs, hstep, h', hwant, hgot, -, ht, hn⟩
        have hpos : 0 < bs.length := List.length_pos_iff.mpr hbs
        by_cases hfull : (w'.heap i).rdWant ≤ (w'.heap i).rdGot
        case pos =>
          have hle' := h'.le
          rw [finishLoop_full rounds hfull]
          exact ⟨_, hstep, h', by omega, ht, hn⟩
        case neg =>
          have hheld := h.held hl h' hlt (by omega) hstep ht hn
          refine (ih (got ++ bs) w' h' (by omega)).mono ?_ ?_
          · rintro _ w'' ⟨ans, hs, hf, hfull, ht', hn'⟩
            exact ⟨ans, hstep.trans hs, hf, hfull, ht'.trans ht, hn'.trans hn⟩
          · exact fun e w'' hb => hheld.broke hb

/-- `finish_rows`, from a header on. -/
theorem finishRows_spec (hl : l.Open i c) (h : Filled geo i l req got w) :
    Runs (Peer.finishRows i) w
      (fun _ w' => ∃ ans, Step {i} w w' ∧ Filled geo i l req ans w' ∧
        (w'.heap i).rdGot = (w'.heap i).rdWant ∧
        (w'.heap i).timeout = (w.heap i).timeout ∧
        drawn w'.tr = drawn w.tr)
      (fun e w' => Broke geo i e [] w w') := by
  unfold Peer.finishRows
  simp only [runs_bind, runs_peer]
  exact finishLoop_spec hl _ got w h (by omega)

end Rows

-- ================================================================= stat

/-- A STAT body unpacks to its five fields. -/
theorem unpackStat_eq {hdr body : List UInt8} (h : hdr.length = HEADER)
    (hb : body.length = STAT_BODY) : Peer.unpackStat body
      = some [natAt (hdr ++ body) 16 8, natAt (hdr ++ body) 24 8,
          natAt (hdr ++ body) 32 4, natAt (hdr ++ body) 36 4,
          natAt (hdr ++ body) 40 8] := by
  have := unpack_eq [.Q, .Q, .I, .I, .Q] (hdr ++ body)
    HEADER (by rw [List.length_append, h, hb]; rfl)
  rw [← h, List.drop_left, h] at this
  exact this

/-- The geometry a STAT result reports. -/
def Stat.geometry (st : Stat) : Geometry :=
  ⟨st.baseRow, st.rowCount, st.rowBytes⟩

/-- `query_stat` completes one STAT and returns what its body says. -/
theorem queryStat_spec {reqId : Nat} (h : On geo i c w)
    (hidle : (w.line geo i).phase = .idle)
    (hopen : (w.line geo i).answered = false)
    (hticket : (w.line geo i).ticket = some reqId) (hid : reqId < 2 ^ 32) :
    Runs (Peer.queryStat i reqId) w
      (fun st w' => ∃ req ans, Asks OP_STAT reqId 0 req ∧
        accepted (geo i).rowBytes req ans = true ∧
        st.geometry = statGeometry ans ∧ Step {i} w w' ∧
        (∃ a, w'.heap i = { w.heap i with armed := a, pending := none }) ∧
        w'.line geo i = { w.line geo i with
          ticket := none
          done := (w.line geo i).done ++ [⟨req, ans⟩] } ∧
        drawn w'.tr = drawn w.tr)
      (fun e w' => Broke geo i e [] w w') := by
  unfold Peer.queryStat
  refine Runs.bind (sendBare_spec h hidle hopen hticket (by decide)
    (by decide) hid) ?_ (fun _ _ h => h.1)
  rintro _ w₁ ⟨req, hreq, hs₁, ⟨a, ha⟩, hl₁, hn₁⟩
  have hop : opOf req ≠ OP_GATHER := by rw [hreq.op]; decide
  have hasked : w₁.line geo i
      = { w.line geo i with phase := .asked req [], ticket := none } := by
    rw [hl₁, Line.asking, gathers, if_neg hop, List.append_nil]
  have hheld : Held geo i w w₁ := by
    refine ⟨hs₁, by rw [ha], by rw [ha], by rw [ha], ?_, ?_, .inl ?_, ?_,
      hn₁⟩ <;> rw [hasked]
    exact h.good
  have hon := h.held hheld
  have hwant : wantRows req = 0 := by rw [wantRows, if_neg hop]
  have hbody : bodyBytes (geo i).rowBytes req = STAT_BODY := by
    rw [bodyBytes, if_neg hop, if_pos hreq.op]
  refine Runs.bind (readHeader_spec hon (by rw [hasked])
    (by rw [ha, hreq.id])) ?_ (fun _ _ hb => hheld.broke hb)
  rintro n w₂ ⟨hdr, rfl, hh⟩
  obtain ⟨a₂, ha₂⟩ := hh.heap
  split
  case isTrue hne =>
    simp only [runs_bind, runs_peer, runs_raise]
    refine hheld.broke (broke_of_not_ok hon hh.length ?_ hh.step
      ⟨a₂, none, ha₂⟩ hh.line hh.undrawn (by simp))
    rw [← Bool.not_eq_true, hh.ok_iff, hwant]
    exact hne
  case isFalse heq =>
    have heq : rowsOf hdr = 0 := by simpa using heq
    have hok : headerOk req hdr = true := hh.ok_iff.mpr (by rw [heq, hwant])
    have hshort : ∀ x : List UInt8, x.length < hdr.length + STAT_BODY →
        accepted (geo i).rowBytes req x = false := by
      intro x hx
      rw [← Bool.not_eq_true, accepted_iff, hbody]
      have := hh.length
      omega
    have hl₂ : w₂.line geo i
        = { w.line geo i with
            phase := .asked req hdr, ticket := none } := by
      rw [hh.line, Line.upTo_of_not (hshort hdr (by simp [STAT_BODY])), hasked]
    have hheld₂ : Held geo i w₁ w₂ := by
      refine ⟨hh.step, by rw [ha₂], by rw [ha₂], by rw [ha₂], ?_, ?_, .inl ?_,
        ?_, hh.undrawn⟩ <;> rw [hl₂]
      · rw [hasked]
      · rw [hasked]
      · rw [hasked]
      · exact h.good
    have hon₂ := hon.held hheld₂
    simp only [runs_bind]
    refine Runs.mono (recvExact_spec hon₂ (by rw [hl₂]) (by decide) hshort) ?_
      (fun _ _ hb => (hheld.trans hheld₂).broke hb.1)
    rintro body w₃ ⟨hlen, hs₃, ⟨a₃, ha₃⟩, hl₃, hn₃⟩
    rw [unpackStat_eq hh.length hlen]
    simp only [runs_bind, runs_peer, runs_pure]
    have hacc : accepted (geo i).rowBytes req (hdr ++ body) = true := by
      rw [accepted_iff, hbody, List.length_append, hh.length, hlen,
        headerOk_of_initial (List.prefix_append hdr body) hh.length.ge]
      exact ⟨hok, rfl⟩
    refine ⟨req, hdr ++ body, hreq, hacc, rfl,
      (hs₁.trans hh.step).trans hs₃, ⟨a₃, ?_⟩, ?_,
      hn₃.trans (hh.undrawn.trans hn₁)⟩
    · rw [ha₃, ha₂, ha]
    · rw [hl₃, Line.upTo_of hacc, hl₂]
      simp [hreq.op, hidle, OP_STAT, OP_GATHER]

end PleRowServer.Client
