/-
One round of a connection: what the body of the loop of `serve_conn`
does with a header it has read whole. It acts on one request, ids and
all, and answers it (`Handles.go`), or it ends the loop, and `Ending`
says for each way it may what was read and written of the request it
stopped in.
-/
import PleRowServer.Daemon.Answers
import PleRowServer.Daemon.Framing

namespace PleRowServer.Daemon

open Base Wire

variable {s : Server} {b : Buffers} {fuel : Nat} {hdr : List UInt8}
  {h : Header} {tr tr₀ : Run} {nx : Next}

-- ============================================================== requests

/-- A header the server understands. -/
def Known (req : List UInt8) : Prop :=
  natAt req 0 4 = MAGIC_REQ ∧ natAt req 4 1 = VERSION

/-- Ids that are read only to be dropped. -/
def Dropped (s : Server) (req : List UInt8) : Prop :=
  opOf req ≠ Wire.OP_GATHER ∨ s.maxRows.toNat < countOf req

/-- Ids to drop that are more than the server will drain. -/
def Overlong (s : Server) (req : List UInt8) : Prop :=
  Dropped s req ∧ MAX_DRAIN_BYTES < 4 * countOf req

/-- A whole request the server acts on. -/
structure Admits (s : Server) (req : List UInt8) : Prop where
  whole : WholeRequest req
  known : Known req
  fits : ¬ Overlong s req

/-- A parting response is out to its end, or its last write failed. -/
def Parted (tr : Run) (rest whole : List UInt8) : Prop :=
  rest = whole ∨ LastCall WriteFailed tr

/-- A read failed, and only the parting response came after it. -/
def Undrained (tr : Run) : Prop :=
  ∃ t u, tr = t ++ u ∧ LastCall ReadFailed t ∧ Mute u

/-- What is left of the two streams when the loop has ended, or has not:
the bytes read past the last exchange completed, and those written. With
each way to end goes what the run did last. -/
inductive Ending (s : Server) (tr : Run) :
    Stop → List UInt8 → List UInt8 → Prop
  | eof (hend : LastCall Closed tr) : Ending s tr .eof [] []
  /-- part of a header, or nothing -/
  | begun {why : Stop} {tail : List UInt8}
      (hwhy : why = .waiting ∨ why = .cut ∧ LastCall ReadFailed tr)
      (hlen : tail.length < HEADER) : Ending s tr why tail []
  /-- part of a GATHER's ids -/
  | short {why : Stop} {tail : List UInt8}
      (hwhy : why = .waiting ∨ why = .cut ∧ LastCall ReadFailed tr)
      (hknown : Known tail) (hkept : ¬ Dropped s tail)
      (hhdr : HEADER ≤ tail.length)
      (hlen : tail.length < HEADER + 4 * countOf tail) :
      Ending s tr why tail []
  /-- part of the ids to drop -/
  | undrained {why : Stop} {tail rest : List UInt8}
      (hwhy : why = .waiting ∨ why = .oversize ∧ Undrained tr ∧
        Parted tr rest (answerHeader (idOf tail) ST_TOO_MANY.toNat 0))
      (hknown : Known tail) (hdrop : Dropped s tail)
      (hhdr : HEADER ≤ tail.length)
      (hlen : tail.length < HEADER + 4 * countOf tail)
      (hrest : rest <+: answerHeader (idOf tail) ST_TOO_MANY.toNat 0) :
      Ending s tr why tail rest
  /-- a header with too many ids to drop -/
  | overlong {why : Stop} {tail rest : List UInt8}
      (hwhy : why = .waiting ∨ why = .oversize ∧
        Parted tr rest (answerHeader (idOf tail) ST_TOO_MANY.toNat 0))
      (hknown : Known tail) (hover : Overlong s tail)
      (hhdr : tail.length = HEADER)
      (hrest : rest <+: answerHeader (idOf tail) ST_TOO_MANY.toNat 0) :
      Ending s tr why tail rest
  /-- a header with the wrong magic or version -/
  | unknown {why : Stop} {tail rest : List UInt8}
      (hwhy : why = .waiting ∨ why = .badHeader ∧
        Parted tr rest (answerHeader (idOf tail) ST_BAD_HEADER.toNat 0))
      (hknown : ¬ Known tail) (hhdr : tail.length = HEADER)
      (hrest : rest <+: answerHeader (idOf tail) ST_BAD_HEADER.toNat 0) :
      Ending s tr why tail rest
  /-- a request whose answer was not written to its end -/
  | unwritten {why : Stop} {tail rest : List UInt8} {f : Facts}
      (hwhy : why = .waiting ∨ why = .unwritten ∧ LastCall WriteFailed tr)
      (hadm : Admits s tail) (hrest : rest <+: answerTo s f tail)
      (hne : rest ≠ answerTo s f tail) : Ending s tr why tail rest

/-- How a call that failed ends the connection, with `post` made after
it. -/
inductive Halt (a : Did Sock Sock.Reply) (post : Run) : Stop → Prop
  | closed (ha : Closed a) (hpost : post = []) : Halt a post .eof
  | cut (ha : ReadFailed a) (hpost : post = []) : Halt a post .cut
  /-- among the ids to drop, and the parting response goes out -/
  | drained {why : Stop} (ha : ReadFailed a) (hpost : Mute post)
      (hwhy : why = .oversize ∨ why = .waiting) : Halt a post why
  /-- in a response, which is cut short -/
  | written {why : Stop} (ha : WriteFailed a) (hpost : post = [])
      (hwhy : why = .unwritten ∨ why = .oversize ∨ why = .badHeader) :
      Halt a post why

/-- After the call that halts it nothing moves. -/
theorem Halt.mute {a : Did Sock Sock.Reply} {post : Run} {why : Stop}
    (h : Halt a post why) : Mute post := by
  cases h with
  | closed _ hpost => rw [hpost]; exact mute_nil
  | cut _ hpost => rw [hpost]; exact mute_nil
  | drained _ hpost _ => exact hpost
  | written _ hpost _ => rw [hpost]; exact mute_nil

/-- Every call that failed in a run ended the connection. -/
def Halts (tr : Run) (why : Stop) : Prop :=
  ∀ pre a post, tr = pre ++ a :: post → Failed a → Halt a post why

/-- What the body of the loop does from a whole header on. -/
inductive Handles (s : Server) (hdr : List UInt8) (tr : Run) : Next → Prop
  | go {b : Buffers} {f : Facts} (hlen : b.resp.length = (respSize s).toNat)
      (hids : b.ids.length = (idsSize s).toNat)
      (hadm : Admits s (hdr ++ readBytes tr))
      (hans : writtenBytes tr = answerTo s f (hdr ++ readBytes tr))
      (hc : Clean tr) : Handles s hdr tr (.go b)
  | stop {why : Stop}
      (hend : Ending s tr why (hdr ++ readBytes tr) (writtenBytes tr))
      (hhalt : Halts tr why) : Handles s hdr tr (.stop why)

section Failing

variable {t : Run} {tail rest whole : List UInt8} {why : Stop}
  {P : Did Sock Sock.Reply → Prop}

/-- What was read before it changes nothing of a request that parted. -/
theorem Parted.after (h : Parted tr rest whole) (t : Run) :
    Parted (t ++ tr) rest whole :=
  h.imp_right fun hl => hl.after t

/-- What was read before it changes nothing of a request left undrained.
-/
theorem Undrained.after (h : Undrained tr) (t : Run) :
    Undrained (t ++ tr) := by
  obtain ⟨a, u, rfl, ha, hu⟩ := h
  exact ⟨t ++ a, u, (List.append_assoc t a u).symm, ha.after t, hu⟩

/-- What came before a run is no part of how it ends. -/
theorem Ending.after (h : Ending s tr why tail rest) (t : Run) :
    Ending s (t ++ tr) why tail rest := by
  have hlast : ∀ {P w}, why = .waiting ∨ why = w ∧ LastCall P tr →
      why = .waiting ∨ why = w ∧ LastCall P (t ++ tr) :=
    fun hwhy => hwhy.imp_right fun hw => ⟨hw.1, hw.2.after t⟩
  cases h with
  | eof hend => exact .eof (hend.after t)
  | begun hwhy hlen => exact .begun (hlast hwhy) hlen
  | short hwhy hk hd hh hl => exact .short (hlast hwhy) hk hd hh hl
  | undrained hwhy hk hd hh hl hr =>
      exact .undrained (hwhy.imp_right fun hw =>
        ⟨hw.1, hw.2.1.after t, hw.2.2.after t⟩) hk hd hh hl hr
  | overlong hwhy hk ho hh hr =>
      exact .overlong (hwhy.imp_right fun hw => ⟨hw.1, hw.2.after t⟩)
        hk ho hh hr
  | unknown hwhy hk hh hr =>
      exact .unknown (hwhy.imp_right fun hw => ⟨hw.1, hw.2.after t⟩) hk hh hr
  | unwritten hwhy ha hr hne => exact .unwritten (hlast hwhy) ha hr hne

/-- A run in which nothing failed may halt for any reason. -/
theorem Clean.halts (h : Clean tr) (why : Stop) : Halts tr why :=
  fun _ _ _ heq ha => absurd ha (h.not_split heq)

/-- A run that ends in a failure halts for that failure. -/
theorem EndsIn.halts (h : EndsIn P tr)
    (hp : ∀ a, P a → Halt a [] why) : Halts tr why := by
  intro pre a post heq ha
  obtain ⟨hpa, rfl, -⟩ := h.split heq ha
  exact hp a hpa

/-- Clean calls before it change nothing. -/
theorem Halts.after (h : Halts tr why) (ht : Clean t) :
    Halts (t ++ tr) why := by
  intro pre a post heq ha
  rcases mem_parts heq with ⟨post', h1, -⟩ | ⟨pre', -, h2⟩
  · exact absurd ha (ht.not_split h1)
  · exact h pre' a post h2 ha

/-- A read that failed, and the parting response after it. -/
theorem Halts.parting (h : Halts tr why) (ht : EndsIn ReadFailed t)
    (hm : Mute tr) (hwhy : why = .oversize ∨ why = .waiting) :
    Halts (t ++ tr) why := by
  intro pre a post heq ha
  rcases mem_parts heq with ⟨post', h1, rfl⟩ | ⟨pre', -, h2⟩
  · obtain ⟨hr, rfl, -⟩ := ht.split h1 ha
    exact .drained hr hm hwhy
  · exact h pre' a post h2 ha

end Failing

-- ================================================================ fields

section Fields

variable (ids : List UInt8)

/-- The ids leave the op of a header alone. -/
theorem opOf_append (hl : HEADER ≤ hdr.length) : opOf (hdr ++ ids) = opOf hdr :=
  natAt_append_left (by unfold HEADER at hl; omega)

/-- The ids leave the request id of a header alone. -/
theorem idOf_append (hl : HEADER ≤ hdr.length) : idOf (hdr ++ ids) = idOf hdr :=
  natAt_append_left (by unfold HEADER at hl; omega)

/-- The ids leave the count of a header alone. -/
theorem countOf_append (hl : HEADER ≤ hdr.length) :
    countOf (hdr ++ ids) = countOf hdr :=
  natAt_append_left (by unfold HEADER at hl; omega)

/-- The ids do not change whether the server knows the request. -/
theorem known_append (hl : HEADER ≤ hdr.length) :
    Known (hdr ++ ids) ↔ Known hdr := by
  unfold Known
  rw [natAt_append_left (by unfold HEADER at hl; omega),
    natAt_append_left (by unfold HEADER at hl; omega)]

/-- The ids do not change whether the server throws them away. -/
theorem dropped_append (hl : HEADER ≤ hdr.length) :
    Dropped s (hdr ++ ids) ↔ Dropped s hdr := by
  unfold Dropped
  rw [opOf_append ids hl, countOf_append ids hl]

/-- The ids do not change whether they are too many to throw away. -/
theorem overlong_append (hl : HEADER ≤ hdr.length) :
    Overlong s (hdr ++ ids) ↔ Overlong s hdr := by
  unfold Overlong
  rw [dropped_append ids hl, countOf_append ids hl]

end Fields

/-- The fields serve_conn reads out of a header are those of the
protocol. -/
structure Parsed (hdr : List UInt8) (h : Header) : Prop where
  length : hdr.length = HEADER
  magic : h.magic.toNat = natAt hdr 0 4
  version : h.version.toNat = natAt hdr 4 1
  op : h.op.toNat = opOf hdr
  id : h.reqId.toNat = idOf hdr
  count : h.count.toNat = countOf hdr

/-- `parse_header` reads what is there. -/
theorem parseHeader_parsed (hl : hdr.length = HEADER) :
    Parsed hdr (parseHeader hdr) := by
  have hlen : hdr.length = 16 := hl
  exact ⟨hl, rdU32_toNat (by omega), getD_toNat (by omega),
    getD_toNat (by omega), rdU32_toNat (by omega), rdU32_toNat (by omega)⟩

/-- The server knows a request by its magic and version. -/
theorem Parsed.known_iff (hp : Parsed hdr h) :
    Known hdr ↔ ¬ (h.magic ≠ REQ_MAGIC ∨ h.version ≠ PROTO_VER) := by
  unfold Known
  rw [← hp.magic, ← hp.version, not_or, not_not, not_not]
  exact and_congr (UInt32.toNat_inj (a := h.magic) (b := REQ_MAGIC))
    (UInt8.toNat_inj (a := h.version) (b := PROTO_VER))

/-- The server tells the op of a request by its byte. -/
theorem Parsed.op_iff (hp : Parsed hdr h) (op : UInt8) :
    h.op = op ↔ opOf hdr = op.toNat := by
  rw [← hp.op]
  exact UInt8.toNat_inj.symm

/-- The server throws away the ids of all but a GATHER that fits. -/
theorem Parsed.dropped_iff (hp : Parsed hdr h) :
    Dropped s hdr ↔ ¬ (h.op = Daemon.OP_GATHER ∧ ¬ h.count > s.maxRows) := by
  unfold Dropped
  have hop := hp.op_iff Daemon.OP_GATHER
  have hcount : h.count > s.maxRows ↔ s.maxRows.toNat < countOf hdr := by
    rw [← hp.count]
    exact UInt32.lt_iff_toNat_lt
  rw [hop, hcount, not_and_or, not_not]
  exact Iff.rfl

/-- The server counts four bytes an id. -/
theorem Parsed.idBytes (hp : Parsed hdr h) : h.idBytes = 4 * countOf hdr := by
  rw [Header.idBytes, hp.count]

/-- A header and the ids it announces. -/
theorem Parsed.whole (hp : Parsed hdr h) {ids : List UInt8}
    (hids : ids.length = 4 * countOf hdr) : WholeRequest (hdr ++ ids) := by
  refine ⟨?_, ?_⟩ <;> rw [List.length_append, hp.length]
  · exact Nat.le_add_right _ _
  · rw [countOf_append _ hp.length.ge, hids]

-- =============================================================== answers

/-- `respond` writes the whole response, or ends the loop part way. -/
theorem respond_wrote {id st cnt : UInt32} {body : Nat}
    (hd : Prog.Does (respond fuel b id st cnt body) tr nx) :
    Mute tr ∧ (nx = .go { b with
          resp := stores b.resp (headerStores id st cnt) } ∧
        writtenBytes tr = response b.resp id st cnt body ∧ Clean tr ∨
      ∃ why, nx = .stop why ∧ (why = .waiting ∧ Clean tr ∨
          why = .unwritten ∧ EndsIn WriteFailed tr) ∧
        writtenBytes tr <+: response b.resp id st cnt body ∧
        writtenBytes tr ≠ response b.resp id st cnt body) := by
  unfold respond at hd
  obtain ⟨a, t, x, rfl, ha, ht⟩ := Prog.does_bind.mp hd
  obtain ⟨hx, hw⟩ := sendResponse_wrote ha
  obtain ⟨resp, io⟩ := x
  obtain ⟨hmute, hinit, hall, hclean, hfail⟩ := hw
  cases io with
  | ok =>
      obtain ⟨rfl, rfl⟩ := Prog.does_pure.mp ht
      rw [List.append_nil]
      exact ⟨hmute, .inl ⟨by rw [show resp = _ from hx], hall.mp rfl,
        hclean (by simp)⟩⟩
  | err =>
      obtain ⟨rfl, rfl⟩ := Prog.does_pure.mp ht
      rw [List.append_nil]
      exact ⟨hmute, .inr ⟨_, rfl, .inr ⟨rfl, hfail rfl⟩, hinit, fun he => by
        cases hall.mpr he⟩⟩
  | spent =>
      obtain ⟨rfl, rfl⟩ := Prog.does_pure.mp ht
      rw [List.append_nil]
      exact ⟨hmute, .inr ⟨_, rfl, .inl ⟨rfl, hclean (by simp)⟩, hinit,
        fun he => by cases hall.mpr he⟩⟩

/-- `part` writes what it can and ends the loop. -/
theorem part_wrote {id st : UInt32} {why : Stop}
    (hd : Prog.Does (part fuel b id st why) tr nx) :
    Mute tr ∧ writtenBytes tr <+: response b.resp id st 0 0 ∧
      ∃ w, nx = .stop w ∧ (w = .waiting ∧ Clean tr ∨ w = why ∧
        (writtenBytes tr = response b.resp id st 0 0 ∧ Clean tr ∨
          EndsIn WriteFailed tr)) := by
  unfold part at hd
  obtain ⟨a, t, x, rfl, ha, ht⟩ := Prog.does_bind.mp hd
  obtain ⟨-, hmute, hinit, hall, hclean, hfail⟩ := sendResponse_wrote ha
  obtain ⟨resp, io⟩ := x
  cases io with
  | ok =>
      obtain ⟨rfl, rfl⟩ := Prog.does_pure.mp ht
      rw [List.append_nil]
      exact ⟨hmute, hinit, _, rfl,
        .inr ⟨rfl, .inl ⟨hall.mp rfl, hclean (by simp)⟩⟩⟩
  | err =>
      obtain ⟨rfl, rfl⟩ := Prog.does_pure.mp ht
      rw [List.append_nil]
      exact ⟨hmute, hinit, _, rfl, .inr ⟨rfl, .inr (hfail rfl)⟩⟩
  | spent =>
      obtain ⟨rfl, rfl⟩ := Prog.does_pure.mp ht
      rw [List.append_nil]
      exact ⟨hmute, hinit, _, rfl, .inl ⟨rfl, hclean (by simp)⟩⟩

/-- The buffers of a connection. -/
structure Sized (s : Server) (b : Buffers) : Prop where
  resp : b.resp.length = (respSize s).toNat
  ids : b.ids.length = (idsSize s).toNat

/-- Stores into the response buffer keep both sizes. -/
theorem Sized.stores (hb : Sized s b) (ss : List Store) :
    Sized s { b with resp := stores b.resp ss } := by
  refine ⟨?_, hb.ids⟩
  exact (length_stores b.resp ss).trans hb.resp

/-- A count is positive as a word or as a number. -/
theorem pos_iff (c : UInt32) : 0 < c ↔ 0 < c.toNat :=
  UInt32.lt_iff_toNat_lt

/-- The sizes of a response without rows do not wrap. -/
theorem Ranged.unwrapped_zero (hr : Ranged s) : Unwrapped s 0 :=
  hr.unwrapped (UInt32.le_iff_toNat_le.mpr (Nat.zero_le _))

/-- The size of the response buffer does not wrap. -/
theorem Ranged.respSize (hr : Ranged s) :
    (respSize s).toNat = HDR_BYTES + s.maxRows.toNat * ROW_BYTES :=
  hr.unwrapped_zero.resp

/-- The size of the id buffer does not wrap. -/
theorem Ranged.idsSize (hr : Ranged s) :
    (idsSize s).toNat = 4 * s.maxRows.toNat :=
  hr.unwrapped_zero.ids

/-- There is room for every body: one row is wider than either record. -/
theorem Sized.room (hr : Ranged s) (hb : Sized s b) {body : Nat}
    (hbody : body ≤ s.maxRows.toNat * ROW_BYTES) :
    HDR_BYTES + body ≤ b.resp.length := by
  rw [hb.resp, hr.respSize]
  omega

/-- A body of no more than a row fits. -/
theorem Ranged.small_body (hr : Ranged s) {body : Nat}
    (hbody : body ≤ ROW_BYTES) : body ≤ s.maxRows.toNat * ROW_BYTES := by
  have := hr.maxRows.1
  calc body ≤ 1 * ROW_BYTES := by omega
    _ ≤ _ := Nat.mul_le_mul_right _ this

/-- A response that is the answer to the request read, after a run that
read its ids. -/
theorem respond_handles {id st cnt : UInt32} {body : Nat} {f : Facts}
    (hb : Sized s b) (hadm : Admits s (hdr ++ readBytes tr₀))
    (hc : Clean tr₀) (hw : writtenBytes tr₀ = [])
    (hans : response b.resp id st cnt body
      = answerTo s f (hdr ++ readBytes tr₀))
    (hd : Prog.Does (respond fuel b id st cnt body) tr nx) :
    Handles s hdr (tr₀ ++ tr) nx := by
  obtain ⟨hmute, hcase⟩ := respond_wrote hd
  have hread : readBytes (tr₀ ++ tr) = readBytes tr₀ := by
    rw [readBytes_append, hmute.readBytes, List.append_nil]
  have hwrote : writtenBytes (tr₀ ++ tr) = writtenBytes tr := by
    rw [writtenBytes_append, hw]
    rfl
  rcases hcase with ⟨rfl, hall, hc'⟩ | ⟨why, rfl, hwhy, hinit, hne⟩
  · refine .go (f := f) ?_ hb.ids (by rw [hread]; exact hadm) ?_
      (hc.append hc')
    · rw [length_stores]
      exact hb.resp
    · rw [hread, hwrote, hall, hans]
  · rw [hans] at hinit hne
    have hhalt : Halts tr why := by
      rcases hwhy with ⟨-, hc'⟩ | ⟨rfl, hfail⟩
      · exact hc'.halts why
      · exact hfail.halts fun a ha => .written ha rfl (.inl rfl)
    refine .stop ?_ (hhalt.after hc)
    rw [hread, hwrote]
    refine .unwritten (hwhy.imp And.left fun hf => ?_) hadm hinit hne
    exact ⟨hf.1, hf.2.last.after tr₀⟩

/-- A header alone is the response with no body. -/
theorem response_bare (hr : Ranged s) (hb : Sized s b) (id st : UInt32) :
    response b.resp id st 0 0 = answerHeader id.toNat st.toNat 0 := by
  rw [response_packed (hb.room hr (Nat.zero_le _))]
  simp [bytesAt]

/-- A record stored behind the header is the body of the response. -/
theorem response_record (hr : Ranged s) (hb : Sized s b) {id : UInt32}
    {ss : List Store} {bs : List UInt8} (hw : Writes ss HDR_BYTES bs)
    (hlen : bs.length ≤ ROW_BYTES) :
    response (stores b.resp ss) id ST_OK 0 bs.length
      = answerHeader id.toNat ST_OK.toNat 0 ++ bs := by
  have hroom := hb.room hr (hr.small_body hlen)
  rw [response_packed (by rw [length_stores]; exact hroom),
    hw.stores hroom, bytesAt_splice (by omega)]
  rfl

-- ================================================================ gather

/-- Equal pieces next to each other are their concatenation. -/
theorem bytesAt_pieces {buf : List UInt8} {off w : Nat}
    {f : Nat → List UInt8} :
    ∀ n : Nat, (∀ k < n, bytesAt buf (off + k * w) w = f k) →
      bytesAt buf off (n * w) = (List.range n).flatMap f := by
  intro n
  induction n with
  | zero =>
      intro _
      simp [bytesAt]
  | succ n ih =>
      intro h
      rw [List.range_succ, List.flatMap_append, List.flatMap_singleton,
        ← ih fun k hk => h k (by omega), ← h n (by omega)]
      unfold bytesAt
      rw [Nat.add_mul, Nat.one_mul, List.take_add, List.drop_drop]

/-- The ids read into the front of the buffer are those of the
request. -/
theorem idAt_splice {ids bs : List UInt8} (hl : hdr.length = HEADER)
    (hfit : bs.length ≤ ids.length) {k : Nat} (hk : 4 * k + 4 ≤ bs.length) :
    idAt (splice ids 0 bs) k = rowIdOf (hdr ++ bs) k := by
  have hinit : bs <+: splice ids 0 bs := by
    rw [splice_eq (by omega)]
    exact List.prefix_append _ _
  show natAt (splice ids 0 bs) (4 * k) 4 = natAt (hdr ++ bs) (HEADER + 4 * k) 4
  rw [natAt_of_initial hinit hk]
  unfold natAt
  rw [← hl, bytesAt_append_right]

/-- What `gather_rows` makes of ids just read is the answer to the
request. -/
theorem gatherRows_answers (hr : Ranged s) (hb : Sized s b)
    (hp : Parsed hdr h) (hkept : ¬ Dropped s hdr) {bs : List UInt8}
    (hbs : bs.length = 4 * countOf hdr) (f : Facts) :
    ∃ st resp, gatherRows s (splice b.ids 0 bs) h.count b.resp
        (UInt64.ofNat HDR_BYTES) = .ok (st, resp) ∧
      Sized s ⟨resp, splice b.ids 0 bs⟩ ∧
      (st ≠ ST_OK → response resp h.reqId st 0 0
        = answerTo s f (hdr ++ bs)) ∧
      (st = ST_OK → response resp h.reqId ST_OK h.count
        (h.count.toNat * ROW_BYTES) = answerTo s f (hdr ++ bs)) := by
  obtain ⟨hop, hmax⟩ := not_or.mp hkept
  have hop : opOf (hdr ++ bs) = Wire.OP_GATHER := by
    rw [opOf_append _ hp.length.ge]
    exact not_not.mp hop
  have hcount : countOf (hdr ++ bs) = h.count.toNat := by
    rw [countOf_append _ hp.length.ge, hp.count]
  have hle : h.count.toNat ≤ s.maxRows.toNat := by
    rw [hp.count]
    omega
  have hfit : bs.length ≤ b.ids.length := by
    rw [hbs, hb.ids, hr.idsSize, ← hp.count]
    omega
  have hidlen : (splice b.ids 0 bs).length = 4 * s.maxRows.toNat := by
    rw [length_splice (by omega), hb.ids, hr.idsSize]
  have hat : (UInt64.ofNat HDR_BYTES).toNat = HDR_BYTES := rfl
  obtain ⟨st, resp, hrun, hc⟩ := gatherLoop_spec hr hidlen
    hle (by rw [hat]; decide) h.count.toNat 0 b.resp (by simp)
    (by rw [hb.resp, hr.respSize, hat])
  have hzero : (0 : UInt32).toNat = 0 := rfl
  rw [hat, hzero] at hc
  have hid : ∀ k < h.count.toNat, idAt (splice b.ids 0 bs) k
      = rowIdOf (hdr ++ bs) k := fun k hk =>
    idAt_splice hp.length hfit (by rw [hbs, ← hp.count]; omega)
  have howned : st = ST_OK ↔
      ∀ j < countOf (hdr ++ bs), Owns s (rowIdOf (hdr ++ bs) j) := by
    rw [hc.owned, hcount]
    constructor
    · intro hall j hj
      rw [← hid j hj]
      exact hall j (Nat.zero_le _) hj
    · intro hall k _ hk
      rw [hid k hk]
      exact hall k hk
  have hsized : Sized s ⟨resp, splice b.ids 0 bs⟩ := by
    refine ⟨hc.length.trans hb.resp, ?_⟩
    show (splice b.ids 0 bs).length = _
    rw [length_splice (by omega)]
    exact hb.ids
  have hidr : h.reqId.toNat = idOf (hdr ++ bs) := by
    rw [idOf_append _ hp.length.ge, hp.id]
  have hnot : ¬ s.maxRows.toNat < countOf (hdr ++ bs) := by
    rw [hcount]
    omega
  refine ⟨st, resp, hrun, hsized, fun hst => ?_, fun hst => ?_⟩
  · obtain rfl : st = ST_RANGE := hc.status.resolve_left hst
    have := response_bare hr hsized h.reqId ST_RANGE
    rw [this, hidr]
    unfold answerTo
    rw [if_pos hop, if_neg hnot, if_neg (mt howned.mpr hst)]
  · have hroom := hsized.room hr (Nat.mul_le_mul_right ROW_BYTES hle)
    rw [response_packed hroom, bytesAt_pieces (w := ROW_BYTES)
      (f := fun j => fileRow s (rowIdOf (hdr ++ bs) j)) h.count.toNat
      fun k hk => by
        rw [← hid k hk]
        exact hc.rows hst k (Nat.zero_le _) hk]
    unfold answerTo rowsFor
    rw [if_pos hop, if_neg hnot, if_pos (howned.mp hst), hcount, hidr]
    rfl

/-- The ids of a GATHER the server keeps. -/
theorem readIds_reads {count : UInt32} {r : Rd}
    (hd : Prog.Does (if 0 < count then readFull fuel (4 * count.toNat)
      else pure (.ok []) : Serving Rd) tr r) :
    Reads (4 * count.toNat) [] tr r ∧ writtenBytes tr = [] ∧
      ((∀ bs, r ≠ .ok bs) → 0 < 4 * count.toNat) := by
  split at hd
  case isTrue hpos =>
    have hpos := (pos_iff count).mp hpos
    obtain ⟨hr, hw⟩ := readFull_reads hd
    exact ⟨hr, hw, fun _ => by omega⟩
  case isFalse hz =>
    obtain ⟨rfl, rfl⟩ := Prog.does_pure.mp hd
    have hz : count.toNat = 0 := Nat.eq_zero_of_not_pos (mt (pos_iff count).mpr hz)
    refine ⟨?_, rfl, fun h => absurd rfl (h [])⟩
    have : Reads (4 * count.toNat) [] [] (.ok ([] ++ readBytes [])) :=
      .ok (by rw [hz]; rfl) clean_nil
    exact this

/-- A read that is not over has not failed, and one that is has. -/
theorem Reads.failed {n : Nat} {r : Rd} (hr : Reads n [] tr r)
    (hr' : ∀ bs, r ≠ .ok bs) :
    r = .spent ∧ Clean tr ∨ r ≠ .spent ∧ EndsIn ReadFailed tr := by
  cases hr with
  | ok _ _ => exact absurd rfl (hr' _)
  | eof _ _ hend =>
      exact .inr ⟨by simp, hend.mono fun _ => Closed.readFailed⟩
  | timeout _ _ hend =>
      exact .inr ⟨by simp, hend.mono fun _ => Stalled.readFailed⟩
  | err _ hend _ => exact .inr ⟨by simp, hend⟩
  | spent _ hc => exact .inl ⟨rfl, hc⟩

/-- Either way it stopped short of what was asked. -/
theorem Reads.lt {n : Nat} {r : Rd} (hr : Reads n [] tr r) (hn : 0 < n)
    (hr' : ∀ bs, r ≠ .ok bs) : (readBytes tr).length < n := by
  cases hr with
  | ok _ _ => exact absurd rfl (hr' _)
  | eof _ h _ => rw [h]; exact hn
  | timeout _ h _ => rw [h]; exact hn
  | err h _ _ => exact h
  | spent h _ => exact h

/-- A GATHER whose ids are kept. -/
theorem serveGather_handles (hr : Ranged s) (hb : Sized s b)
    (hp : Parsed hdr h) (hknown : Known hdr) (hkept : ¬ Dropped s hdr)
    (hd : Prog.Does (serveGather s fuel b h.reqId h.count) tr nx) :
    Handles s hdr tr nx := by
  unfold serveGather at hd
  obtain ⟨a, t, r, rfl, ha, ht⟩ := Prog.does_bind_ite hd
  obtain ⟨hreads, hw, hpos⟩ := readIds_reads ha
  rw [hp.count] at hreads hpos
  -- a read that fails leaves part of the ids
  have hshort : ∀ why, (∀ bs, r ≠ .ok bs) →
      (r = .spent → why = .waiting) → (r ≠ .spent → why = .cut) →
      Handles s hdr a (.stop why) := by
    intro why hno hwait hcut
    have hwhy : why = .waiting ∧ Clean a ∨
        why = .cut ∧ EndsIn ReadFailed a :=
      (hreads.failed hno).imp (fun h => ⟨hwait h.1, h.2⟩)
        fun h => ⟨hcut h.1, h.2⟩
    have hhalt : Halts a why := by
      rcases hwhy with ⟨-, hc⟩ | ⟨rfl, hend⟩
      · exact hc.halts why
      · exact hend.halts fun d hd => .cut hd rfl
    refine .stop ?_ hhalt
    rw [hw]
    refine .short (hwhy.imp And.left fun h => ⟨h.1, h.2.last⟩)
      ((known_append _ hp.length.ge).mpr hknown)
      (mt (dropped_append _ hp.length.ge).mp hkept) ?_ ?_
    · rw [List.length_append, hp.length]
      exact Nat.le_add_right _ _
    · rw [List.length_append, hp.length, countOf_append _ hp.length.ge]
      exact Nat.add_lt_add_left (hreads.lt (hpos hno) hno) _
  cases r with
  | ok bs =>
      have hget : bs = readBytes a ∧ bs.length = 4 * countOf hdr ∧
          Clean a := by
        cases hreads with
        | ok hlen hc => exact ⟨List.nil_append _, hlen, hc⟩
      obtain ⟨rfl, hlen, hc⟩ := hget
      have hadm : Admits s (hdr ++ readBytes a) :=
        ⟨hp.whole hlen, (known_append _ hp.length.ge).mpr hknown,
          fun ho => hkept ((dropped_append _ hp.length.ge).mp ho.1)⟩
      obtain ⟨st, resp, hrun, hsized, hbad, hgood⟩ := gatherRows_answers hr
        hb hp hkept hlen .unseen
      dsimp only at ht
      rw [hrun] at ht
      dsimp only at ht
      split at ht
      case isTrue hst =>
        exact respond_handles hsized hadm hc hw (hbad hst) ht
      case isFalse hst =>
        exact respond_handles hsized hadm hc hw (hgood (not_not.mp hst)) ht
  | spent =>
      obtain ⟨rfl, rfl⟩ := Prog.does_pure.mp ht
      rw [List.append_nil]
      exact hshort _ (by simp) (fun _ => rfl) fun hne => absurd rfl hne
  | eof =>
      obtain ⟨rfl, rfl⟩ := Prog.does_pure.mp ht
      rw [List.append_nil]
      exact hshort _ (by simp) (fun h => by cases h) fun _ => rfl
  | timeout =>
      obtain ⟨rfl, rfl⟩ := Prog.does_pure.mp ht
      rw [List.append_nil]
      exact hshort _ (by simp) (fun h => by cases h) fun _ => rfl
  | err =>
      obtain ⟨rfl, rfl⟩ := Prog.does_pure.mp ht
      rw [List.append_nil]
      exact hshort _ (by simp) (fun h => by cases h) fun _ => rfl

-- ========================================================= the other ops

/-- The ids to drop: more than the limit, or read to their end, or not
all there. -/
theorem dropIds_drains {x : List UInt8 × Io} (hr : Ranged s)
    (hb : Sized s b) (hp : Parsed hdr h) (hdrop : Dropped s hdr)
    (hd : Prog.Does (if h.op = Daemon.OP_GATHER ∨ 0 < h.count then
        drain fuel b.ids h.idBytes
      else pure (b.ids, .ok) : Serving (List UInt8 × Io)) tr x) :
    x.1.length = b.ids.length ∧ writtenBytes tr = [] ∧
      (Overlong s hdr ∧ tr = [] ∧ x.2 = .err ∨
        ¬ Overlong s hdr ∧ Drains (4 * countOf hdr) tr x.2) := by
  have hscratch : 0 < b.ids.length := by
    rw [hb.ids, hr.idsSize]
    have := hr.maxRows.1
    omega
  split at hd
  case isTrue =>
    unfold drain at hd
    rw [hp.idBytes] at hd
    split at hd
    case isTrue hover =>
      obtain ⟨rfl, rfl⟩ := Prog.does_pure.mp hd
      exact ⟨rfl, rfl, .inl ⟨⟨hdrop, hover⟩, rfl, rfl⟩⟩
    case isFalse hover =>
      obtain ⟨hdr', hlen, hw⟩ := drainLoop_drains _ _ _ _ _ hscratch hd
      exact ⟨hlen, hw, .inr ⟨fun ho => hover ho.2, hdr'⟩⟩
  case isFalse hnone =>
    obtain ⟨rfl, rfl⟩ := Prog.does_pure.mp hd
    have hz : countOf hdr = 0 := by
      rw [← hp.count]
      exact Nat.eq_zero_of_not_pos
        (mt (pos_iff h.count).mpr (not_or.mp hnone).2)
    refine ⟨rfl, rfl, .inr ⟨fun ho => ?_, ?_⟩⟩
    · have hlt := ho.2
      rw [hz] at hlt
      exact absurd hlt (Nat.not_lt_zero _)
    · rw [hz]
      exact .ok rfl clean_nil

/-- What the ops with no ids of their own answer with: the buffers, the
status and the bytes of the body. -/
def bareReply (s : Server) (b : Buffers) (h : Header) (f : Facts) :
    Buffers × UInt32 × Nat :=
  if h.op = Daemon.OP_PING then (b, ST_OK, 0)
  else if h.op = Daemon.OP_STAT then
    ({ b with resp := stores b.resp (fillStat s f.pages f.served HDR_BYTES) },
      ST_OK, STAT_BYTES)
  else if h.op = Daemon.OP_RECHARGE then
    if f.status ≠ ST_OK then (b, f.status, 0)
    else
      ({ b with resp := stores b.resp (fillRecharge f.report HDR_BYTES) },
        ST_OK, RECHG_BYTES)
  else (b, ST_BAD_OP, 0)

/-- What any other request is answered is the answer to it. -/
theorem bareReply_answers (hr : Ranged s) (hb : Sized s b)
    (hp : Parsed hdr h) (hop : opOf hdr ≠ Wire.OP_GATHER)
    (ids : List UInt8) (f : Facts) :
    Sized s (bareReply s b h f).1 ∧
      response (bareReply s b h f).1.resp h.reqId (bareReply s b h f).2.1 0
        (bareReply s b h f).2.2 = answerTo s f (hdr ++ ids) := by
  have hopr : opOf (hdr ++ ids) ≠ Wire.OP_GATHER := by
    rwa [opOf_append _ hp.length.ge]
  have hid : h.reqId.toNat = idOf (hdr ++ ids) := by
    rw [idOf_append _ hp.length.ge, hp.id]
  have hopIs : ∀ op : UInt8, h.op = op ↔ opOf (hdr ++ ids) = op.toNat := by
    intro op
    rw [opOf_append _ hp.length.ge]
    exact hp.op_iff op
  have hping : h.op = Daemon.OP_PING ↔
      opOf (hdr ++ ids) = Wire.OP_PING := hopIs Daemon.OP_PING
  have hstat : h.op = Daemon.OP_STAT ↔
      opOf (hdr ++ ids) = Wire.OP_STAT := hopIs Daemon.OP_STAT
  have hrech : h.op = Daemon.OP_RECHARGE ↔
      opOf (hdr ++ ids) = Wire.OP_RECHARGE := hopIs Daemon.OP_RECHARGE
  unfold bareReply answerTo
  rw [if_neg hopr]
  by_cases h1 : h.op = Daemon.OP_PING
  · rw [if_pos h1, if_pos (hping.mp h1)]
    refine ⟨hb, ?_⟩
    dsimp only
    rw [response_bare hr hb, hid]
  rw [if_neg h1, if_neg (mt hping.mpr h1)]
  by_cases h2 : h.op = Daemon.OP_STAT
  · rw [if_pos h2, if_pos (hstat.mp h2)]
    refine ⟨hb.stores _, ?_⟩
    have hlen : STAT_BYTES = (statBody s f.pages f.served).length :=
      (length_statBody s f.pages f.served).symm
    dsimp only
    rw [hlen, response_record hr hb
      (statBody_writes s f.pages f.served HDR_BYTES) (by rw [← hlen]; decide),
      hid]
  rw [if_neg h2, if_neg (mt hstat.mpr h2)]
  by_cases h3 : h.op = Daemon.OP_RECHARGE
  · rw [if_pos h3, if_pos (hrech.mp h3)]
    by_cases hst : f.status ≠ ST_OK
    · rw [if_pos hst, if_pos hst]
      refine ⟨hb, ?_⟩
      dsimp only
      rw [response_bare hr hb, hid]
    · rw [if_neg hst, if_neg hst]
      refine ⟨hb.stores _, ?_⟩
      have hlen : RECHG_BYTES = (rechargeBody f.report).length :=
        (length_rechargeBody f.report).symm
      dsimp only
      rw [hlen, response_record hr hb
        (rechargeBody_writes f.report HDR_BYTES) (by rw [← hlen]; decide), hid]
  · rw [if_neg h3, if_neg (mt hrech.mpr h3)]
    refine ⟨hb, ?_⟩
    dsimp only
    rw [response_bare hr hb, hid]

/-- Any other request takes in the facts of the moment and responds. -/
theorem serveBare_does (hd : Prog.Does (serveBare s fuel b h) tr nx) :
    ∃ a t f, tr = a ++ t ∧ readBytes a = [] ∧ writtenBytes a = [] ∧
      Clean a ∧ Prog.Does (respond fuel (bareReply s b h f).1 h.reqId
        (bareReply s b h f).2.1 0 (bareReply s b h f).2.2) t nx := by
  unfold serveBare at hd
  by_cases h1 : h.op = Daemon.OP_PING
  · rw [if_pos h1] at hd
    refine ⟨[], tr, .unseen, rfl, rfl, rfl, clean_nil, ?_⟩
    rw [bareReply, if_pos h1]
    exact hd
  rw [if_neg h1] at hd
  by_cases h2 : h.op = Daemon.OP_STAT
  · rw [if_pos h2] at hd
    obtain ⟨a, t, pages, rfl, ha, ht⟩ := Prog.does_bind.mp hd
    obtain ⟨a', t', served, rfl, ha', ht'⟩ := Prog.does_bind.mp ht
    obtain ⟨hra, hwa, hua⟩ := Quiet.run (Prog.does_perform.mp ha) trivial
    obtain ⟨hra', hwa', hua'⟩ := Quiet.run (Prog.does_perform.mp ha') trivial
    refine ⟨a ++ a', t', ⟨pages, served, ST_OK, Facts.unseen.report⟩,
      (List.append_assoc _ _ _).symm, by simp [hra, hra'],
      by simp [hwa, hwa'], hua.append hua', ?_⟩
    rw [bareReply, if_neg h1, if_pos h2]
    exact ht'
  rw [if_neg h2] at hd
  by_cases h3 : h.op = Daemon.OP_RECHARGE
  · rw [if_pos h3] at hd
    obtain ⟨a, t, x, rfl, ha, ht⟩ := Prog.does_bind.mp hd
    obtain ⟨hra, hwa, hua⟩ := Quiet.run (Prog.does_perform.mp ha) trivial
    obtain ⟨rst, rep⟩ := x
    refine ⟨a, t, ⟨0, 0, rst, rep⟩, rfl, hra, hwa, hua, ?_⟩
    rw [bareReply, if_neg h1, if_neg h2, if_pos h3]
    dsimp only at ht ⊢
    split at ht
    case isTrue hst =>
      rw [if_pos hst]
      exact ht
    case isFalse hst =>
      rw [if_neg hst]
      exact ht
  · rw [if_neg h3] at hd
    refine ⟨[], tr, .unseen, rfl, rfl, rfl, clean_nil, ?_⟩
    rw [bareReply, if_neg h1, if_neg h2, if_neg h3]
    exact hd

/-- Any other request. -/
theorem serveBare_handles (hr : Ranged s) (hb : Sized s b)
    (hp : Parsed hdr h) (hop : opOf hdr ≠ Wire.OP_GATHER)
    (hadm : Admits s (hdr ++ readBytes tr₀)) (hc : Clean tr₀)
    (hw : writtenBytes tr₀ = [])
    (hd : Prog.Does (serveBare s fuel b h) tr nx) :
    Handles s hdr (tr₀ ++ tr) nx := by
  obtain ⟨a, t, f, rfl, hra, hwa, hua, ht⟩ := serveBare_does hd
  obtain ⟨hsized, hans⟩ :=
    bareReply_answers hr hb hp hop (readBytes tr₀) f
  have hread : readBytes (tr₀ ++ a) = readBytes tr₀ := by
    rw [readBytes_append, hra, List.append_nil]
  rw [← List.append_assoc]
  refine respond_handles (f := f) hsized (by rw [hread]; exact hadm)
    (hc.append hua) (by rw [writtenBytes_append, hw, hwa]; rfl) ?_ ht
  rw [hread]
  exact hans

-- ============================================================= one round

/-- A call in front that is neither a read nor a write. -/
theorem Handles.quiet {d : Did Sock Sock.Reply} (hd : Quiet d)
    (hh : Handles s hdr tr nx) : Handles s hdr (d :: tr) nx := by
  obtain ⟨hin, hout, hc⟩ := hd.run rfl
  have hread : readBytes ([d] ++ tr) = readBytes tr := by
    rw [readBytes_append, hin]
    rfl
  have hwrote : writtenBytes ([d] ++ tr) = writtenBytes tr := by
    rw [writtenBytes_append, hout]
    rfl
  show Handles s hdr ([d] ++ tr) nx
  cases hh with
  | go hlen hids hadm hans hc' =>
      exact .go hlen hids (by rw [hread]; exact hadm)
        (by rw [hread, hwrote]; exact hans) (hc.append hc')
  | stop hend hhalt =>
      refine .stop ?_ (hhalt.after hc)
      rw [hread, hwrote]
      exact hend.after [d]

/-- A parting response behind the part of a request that was read. -/
theorem part_handles {id st : UInt32} {why : Stop} {tail : List UInt8}
    (hd : Prog.Does (part fuel b id st why) tr nx)
    (htail : tail = hdr ++ readBytes tr₀) (hw : writtenBytes tr₀ = [])
    (hwhy : why = .oversize ∨ why = .badHeader)
    (hend : ∀ w rest, w = .waiting ∨ w = why ∧
        Parted (tr₀ ++ tr) rest (response b.resp id st 0 0) →
      rest <+: response b.resp id st 0 0 → Mute tr →
      Ending s (tr₀ ++ tr) w tail rest)
    (hc : Clean tr₀ ∨ why = .oversize ∧ EndsIn ReadFailed tr₀) :
    Handles s hdr (tr₀ ++ tr) nx := by
  obtain ⟨hmute, hinit, w, rfl, hw'⟩ := part_wrote hd
  have hhalt : Halts tr w := by
    rcases hw' with ⟨-, hc'⟩ | ⟨rfl, ⟨-, hc'⟩ | hfail⟩
    · exact hc'.halts w
    · exact hc'.halts w
    · exact hfail.halts fun a ha => .written ha rfl (.inr hwhy)
  refine .stop ?_ ?_
  · rw [readBytes_append, hmute.readBytes, List.append_nil, ← htail,
      writtenBytes_append, hw, List.nil_append]
    refine hend w _ (hw'.imp And.left fun h => ⟨h.1, ?_⟩) hinit hmute
    exact h.2.imp And.left fun hfail => hfail.last.after tr₀
  · rcases hc with hc | ⟨rfl, hfail⟩
    · exact hhalt.after hc
    · exact hhalt.parting hfail hmute
        (hw'.symm.imp And.left And.left)

/-- A GATHER of too many rows is answered with the error alone. -/
theorem tooMany_answers (hr : Ranged s) (hb : Sized s b) (hp : Parsed hdr h)
    (hop : opOf hdr = Wire.OP_GATHER) (hdrop : Dropped s hdr)
    (ids : List UInt8) (f : Facts) :
    response b.resp h.reqId ST_TOO_MANY 0 0 = answerTo s f (hdr ++ ids) := by
  have hg : opOf (hdr ++ ids) = Wire.OP_GATHER := by
    rwa [opOf_append _ hp.length.ge]
  have hmany : s.maxRows.toNat < countOf (hdr ++ ids) := by
    rw [countOf_append _ hp.length.ge]
    exact hdrop.resolve_left (not_not.mpr hop)
  rw [response_bare hr hb, hp.id, ← idOf_append ids hp.length.ge]
  unfold answerTo
  rw [if_pos hg, if_pos hmany]

/-- A request whose ids are dropped. -/
theorem serveDropped_handles (hr : Ranged s) (hb : Sized s b)
    (hp : Parsed hdr h) (hknown : Known hdr) (hdrop : Dropped s hdr)
    {x : List UInt8 × Io} (hlen : x.1.length = b.ids.length)
    (hw : writtenBytes tr₀ = [])
    (hcase : Overlong s hdr ∧ tr₀ = [] ∧ x.2 = .err ∨
      ¬ Overlong s hdr ∧ Drains (4 * countOf hdr) tr₀ x.2)
    (hd : Prog.Does (match x with
      | (_, .spent) => pure (.stop .waiting)
      | (ids, .err) =>
          part fuel { b with ids := ids } h.reqId ST_TOO_MANY .oversize
      | (ids, .ok) =>
          if h.op = Daemon.OP_GATHER then
            respond fuel { b with ids := ids } h.reqId ST_TOO_MANY 0 0
          else serveBare s fuel { b with ids := ids } h : Serving Next) tr nx) :
    Handles s hdr (tr₀ ++ tr) nx := by
  obtain ⟨ids, io⟩ := x
  have hb' : Sized s { b with ids := ids } := ⟨hb.resp, hlen.trans hb.ids⟩
  have hbare : response b.resp h.reqId ST_TOO_MANY 0 0
      = answerHeader (idOf hdr) ST_TOO_MANY.toNat 0 := by
    rw [response_bare hr hb, hp.id]
  have hknown' := (known_append (readBytes tr₀) hp.length.ge).mpr hknown
  have hdrop' := (dropped_append (readBytes tr₀) hp.length.ge).mpr hdrop
  have hge : HEADER ≤ (hdr ++ readBytes tr₀).length := by
    rw [List.length_append, hp.length]
    exact Nat.le_add_right _ _
  -- part of the ids
  have hshort : ∀ (u : Run) (w : Stop) (rest : List UInt8),
      w = .waiting ∨ w = .oversize ∧ Undrained (tr₀ ++ u) ∧
        Parted (tr₀ ++ u) rest (answerHeader (idOf hdr) ST_TOO_MANY.toNat 0) →
      (readBytes tr₀).length < 4 * countOf hdr →
      rest <+: answerHeader (idOf hdr) ST_TOO_MANY.toNat 0 →
      Ending s (tr₀ ++ u) w (hdr ++ readBytes tr₀) rest := by
    intro u w rest hwhy hlt hrest
    rw [← idOf_append (readBytes tr₀) hp.length.ge] at hwhy hrest
    refine .undrained hwhy hknown' hdrop' hge ?_ hrest
    rw [List.length_append, hp.length, countOf_append _ hp.length.ge]
    exact Nat.add_lt_add_left hlt _
  rcases hcase with ⟨hover, rfl, hio⟩ | ⟨hfits, hdrains⟩
  · obtain rfl : io = .err := hio
    refine part_handles hd rfl hw (.inl rfl) ?_ (.inl clean_nil)
    intro w rest hwhy hrest _
    rw [hbare] at hwhy hrest
    rw [readBytes_nil, List.append_nil]
    exact .overlong hwhy hknown hover hp.length hrest
  cases io with
  | ok =>
      have hget : (readBytes tr₀).length = 4 * countOf hdr ∧ Clean tr₀ := by
        cases hdrains with
        | ok hlen hc => exact ⟨hlen, hc⟩
      obtain ⟨hlen, hc⟩ := hget
      have hadm : Admits s (hdr ++ readBytes tr₀) :=
        ⟨hp.whole hlen, hknown', mt (overlong_append _ hp.length.ge).mp hfits⟩
      dsimp only at hd
      split at hd
      case isTrue hop =>
        exact respond_handles hb' hadm hc hw
          (tooMany_answers hr hb' hp ((hp.op_iff _).mp hop) hdrop _ .unseen) hd
      case isFalse hop =>
        exact serveBare_handles hr hb' hp
          (fun hg => hop ((hp.op_iff Daemon.OP_GATHER).mpr hg)) hadm hc hw hd
  | err =>
      have hget : (readBytes tr₀).length < 4 * countOf hdr ∧
          EndsIn ReadFailed tr₀ := by
        cases hdrains with
        | err hlt hend => exact ⟨hlt, hend⟩
      obtain ⟨hlt, hfail⟩ := hget
      refine part_handles hd rfl hw (.inl rfl) ?_ (.inr ⟨rfl, hfail⟩)
      intro w rest hwhy hrest hmute
      rw [hbare] at hwhy hrest
      refine hshort tr w rest (hwhy.imp_right fun h => ?_) hlt hrest
      exact ⟨h.1, ⟨tr₀, tr, rfl, hfail.last, hmute⟩, h.2⟩
  | spent =>
      have hget : (readBytes tr₀).length < 4 * countOf hdr ∧ Clean tr₀ := by
        cases hdrains with
        | spent hlt hc => exact ⟨hlt, hc⟩
      obtain ⟨hlt, hc⟩ := hget
      obtain ⟨rfl, rfl⟩ := Prog.does_pure.mp hd
      refine .stop ?_ ((hc.append clean_nil).halts .waiting)
      rw [List.append_nil, hw]
      have := hshort [] .waiting [] (.inl rfl) hlt List.nil_prefix
      rwa [List.append_nil] at this

/-- The body of the loop acts on one whole request, or ends it. -/
theorem serveHeader_handles (hr : Ranged s) (hb : Sized s b)
    (hp : Parsed hdr h)
    (hd : Prog.Does (serveHeader s fuel b h) tr nx) :
    Handles s hdr tr nx := by
  unfold serveHeader at hd
  split at hd
  case isTrue hbad =>
    show Handles s hdr ([] ++ tr) nx
    refine part_handles hd (List.append_nil hdr).symm rfl (.inr rfl) ?_
      (.inl clean_nil)
    intro w rest hwhy hrest _
    rw [response_bare hr hb, hp.id] at hwhy hrest
    exact .unknown hwhy (mt hp.known_iff.mp (not_not.mpr hbad)) hp.length hrest
  case isFalse hbad =>
    have hknown := hp.known_iff.mpr hbad
    obtain ⟨a, t, x, rfl, ha, ht⟩ := Prog.does_bind.mp hd
    obtain rfl := Prog.does_perform.mp ha
    rw [List.singleton_append]
    refine Handles.quiet trivial ?_
    split at ht
    case isTrue hkeep =>
      exact serveGather_handles hr hb hp hknown
        (mt hp.dropped_iff.mp (not_not.mpr hkeep)) ht
    case isFalse hkeep =>
      have hdrop : Dropped s hdr := hp.dropped_iff.mpr hkeep
      obtain ⟨a', t', x, rfl, ha', ht'⟩ := Prog.does_bind_ite ht
      obtain ⟨hlen, hw, hcase⟩ := dropIds_drains hr hb hp hdrop ha'
      exact serveDropped_handles hr hb hp hknown hdrop hlen hw hcase ht'

end PleRowServer.Daemon
