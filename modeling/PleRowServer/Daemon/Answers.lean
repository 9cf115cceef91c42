/-
What a server answers to a whole request, as a function of the request
and of the few facts of the moment it takes in (`Facts`): the residency
and the request count a STAT reports, and how a sweep went.

The answers are built from the packed records of Codec.lean, so what
send_response writes out of a buffer filled by `fill_stat`,
`fill_recharge` or `gather_rows` is compared with them by the layout
lemmas there.
-/
import PleRowServer.Daemon.Gather

namespace PleRowServer.Daemon

open Base Wire

variable {s : Server} {req : List UInt8}

-- ============================================================== records

/-- The packed response header. -/
def answerHeader (id status rows : Nat) : List UInt8 :=
  (pack [.I, .I, .I, .I] [RESP_MAGIC.toNat, id, status, rows]).getD []

/-- The packed STAT body. -/
def statBody (s : Server) (pages served : UInt64) : List UInt8 :=
  (pack [.Q, .Q, .I, .I, .Q] [s.baseRow.toNat, s.rowCount.toNat, ROW_BYTES,
    residentField pages, served.toNat]).getD []

/-- The packed RECHARGE body. -/
def rechargeBody (rep : RechargeReport) : List UInt8 :=
  (pack [.Q, .Q, .Q, .I, .I, .I, .I] [rep.pagesBefore.toNat,
    rep.pagesAfter.toNat, rep.pagesRecharged.toNat, rep.slicesDone.toNat,
    rep.slicesTotal.toNat, rep.slicePages.toNat,
    rep.elapsedMs.toNat]).getD []

/-- A header whose fields are in range is packed. -/
theorem answerHeader_packed {id status rows : Nat} (hid : id < 2 ^ 32)
    (hst : status < 2 ^ 32) (hrows : rows < 2 ^ 32) :
    pack [.I, .I, .I, .I] [RESP_MAGIC.toNat, id, status, rows]
      = some (answerHeader id status rows) := by
  unfold answerHeader
  rw [pack_cons (by decide), pack_cons (by exact hid), pack_cons (by exact hst),
    pack_cons (by exact hrows)]
  rfl

/-- A header has sixteen bytes. -/
theorem length_answerHeader {id status rows : Nat} (hid : id < 2 ^ 32)
    (hst : status < 2 ^ 32) (hrows : rows < 2 ^ 32) :
    (answerHeader id status rows).length = HEADER :=
  length_of_pack (answerHeader_packed hid hst hrows)

/-- The four fields of an answer that begins with a packed header. -/
theorem answerHeader_fields {id status rows : Nat} (hid : id < 2 ^ 32)
    (hst : status < 2 ^ 32) (hrows : rows < 2 ^ 32) (body : List UInt8) :
    let ans := answerHeader id status rows ++ body
    magicOf ans = MAGIC_RESP ∧ echoOf ans = id ∧ statusOf ans = status ∧
      rowsOf ans = rows := by
  intro ans
  have hp := answerHeader_packed hid hst hrows
  have hlen := length_answerHeader hid hst hrows
  obtain ⟨hm, he, hs, hr⟩ := fields_of_initial
    (List.prefix_append (answerHeader id status rows) body) hlen.ge
  have hf := fieldsAt_of_pack hp
  simp only [fieldsAt, Code.width, Nat.zero_add, Nat.reduceAdd,
    List.cons.injEq, and_true] at hf
  obtain ⟨h0, h4, h8, h12⟩ := hf
  exact ⟨hm.trans h0, he.trans h4, hs.trans h8, hr.trans h12⟩

/-- `send_response` fills in the header it means. -/
theorem answerHeader_writes (reqId status count : UInt32) :
    Writes (headerStores reqId status count) 0
      (answerHeader reqId.toNat status.toNat count.toNat) := by
  obtain ⟨bs, hp, hw⟩ := sendHeader_writes reqId status count
  unfold answerHeader
  rw [hp]
  exact hw

/-- The body of a STAT is written where it belongs, and nothing else. -/
theorem statBody_writes (s : Server) (pages served : UInt64) (body : Nat) :
    Writes (fillStat s pages served body) body (statBody s pages served) := by
  obtain ⟨bs, hp, hw⟩ := fillStat_writes s pages served body
  unfold statBody
  rw [hp]
  exact hw

/-- The body of a STAT has thirty-two bytes. -/
theorem length_statBody (s : Server) (pages served : UInt64) :
    (statBody s pages served).length = STAT_BODY := by
  obtain ⟨bs, hp, -⟩ := fillStat_writes s pages served 0
  unfold statBody
  rw [hp]
  exact length_of_pack hp

/-- The body of a RECHARGE is written where it belongs, and nothing else.
-/
theorem rechargeBody_writes (rep : RechargeReport) (body : Nat) :
    Writes (fillRecharge rep body) body (rechargeBody rep) := by
  obtain ⟨bs, hp, hw⟩ := fillRecharge_writes rep body
  unfold rechargeBody
  rw [hp]
  exact hw

/-- The body of a RECHARGE has forty bytes. -/
theorem length_rechargeBody (rep : RechargeReport) :
    (rechargeBody rep).length = RECHARGE_BODY := by
  obtain ⟨bs, hp, -⟩ := fillRecharge_writes rep 0
  unfold rechargeBody
  rw [hp]
  exact length_of_pack hp

/-- What a response is: its packed header and what the buffer holds
behind it. -/
theorem response_packed {buf : List UInt8} {reqId status count : UInt32}
    {body : Nat} (hroom : HDR_BYTES + body ≤ buf.length) :
    response buf reqId status count body
      = answerHeader reqId.toNat status.toNat count.toNat
        ++ bytesAt buf HDR_BYTES body :=
  response_eq hroom (answerHeader_writes reqId status count)
    (length_answerHeader reqId.toNat_lt status.toNat_lt count.toNat_lt)

-- ============================================================== answers

/-- What the answer to a request depends on besides the request. -/
structure Facts where
  pages : UInt64
  served : UInt64
  status : UInt32
  report : RechargeReport

/-- For an answer that looks at none of them. -/
def Facts.unseen : Facts := ⟨0, 0, ST_OK, ⟨0, 0, 0, 0, 0, 0, 0⟩⟩

instance (s : Server) (id : Nat) : Decidable (Owns s id) :=
  inferInstanceAs (Decidable (_ ∧ _))

/-- The rows a GATHER asks for. -/
def rowsFor (s : Server) (req : List UInt8) : List UInt8 :=
  (List.range (countOf req)).flatMap fun j => fileRow s (rowIdOf req j)

/-- The complete response to a whole request. -/
def answerTo (s : Server) (f : Facts) (req : List UInt8) : List UInt8 :=
  let hdr (status : UInt32) := answerHeader (idOf req) status.toNat 0
  if opOf req = OP_GATHER then
    if s.maxRows.toNat < countOf req then hdr ST_TOO_MANY
    else if ∀ j < countOf req, Owns s (rowIdOf req j) then
      answerHeader (idOf req) 0 (countOf req) ++ rowsFor s req
    else hdr ST_RANGE
  else if opOf req = OP_PING then hdr ST_OK
  else if opOf req = OP_STAT then hdr ST_OK ++ statBody s f.pages f.served
  else if opOf req = OP_RECHARGE then
    if f.status ≠ ST_OK then hdr f.status
    else hdr ST_OK ++ rechargeBody f.report
  else hdr ST_BAD_OP

/-- A row of the file has its 160 bytes. -/
theorem length_fileRow (h : Ranged s) {id : Nat} (ho : Owns s id) :
    (fileRow s id).length = ROW_BYTES := by
  obtain ⟨hlo, hhi⟩ := ho
  refine length_bytesAt ?_
  rw [h.size]
  have : id - s.base32.toNat + 1 ≤ s.rows32.toNat := by omega
  calc (id - s.base32.toNat) * ROW_BYTES + ROW_BYTES
      = (id - s.base32.toNat + 1) * ROW_BYTES := by rw [Nat.add_mul, Nat.one_mul]
    _ ≤ s.rows32.toNat * ROW_BYTES := Nat.mul_le_mul_right _ this

/-- Pieces of one size, laid end to end. -/
theorem length_flatMap_range {f : Nat → List UInt8} {n k : Nat}
    (h : ∀ j < n, (f j).length = k) :
    ((List.range n).flatMap f).length = n * k := by
  induction n with
  | zero => simp
  | succ n ih =>
      rw [List.range_succ, List.flatMap_append, List.length_append,
        ih fun j hj => h j (by omega), List.flatMap_singleton,
        h n (by omega), Nat.add_mul, Nat.one_mul]

/-- The `j`-th piece. -/
theorem bytesAt_flatMap_range {f : Nat → List UInt8} {n k j : Nat}
    (h : ∀ j < n, (f j).length = k) (hj : j < n) :
    bytesAt ((List.range n).flatMap f) (j * k) k = f j := by
  have hsplit : List.range n
      = List.range j ++ j :: (List.range (n - j - 1)).map (j + 1 + ·) := by
    conv_lhs => rw [show n = j + (1 + (n - j - 1)) by omega, List.range_add,
      List.range_add]
    simp [Function.comp_def, Nat.add_assoc]
  have hfront := length_flatMap_range (f := f) (n := j) (k := k)
    fun i hi => h i (by omega)
  rw [hsplit, List.flatMap_append, List.flatMap_cons]
  unfold bytesAt
  rw [← hfront, List.drop_left, List.take_left' (h j hj)]

/-- The rows of a request are as many as it asks for. -/
theorem length_rowsFor (h : Ranged s)
    (ho : ∀ j < countOf req, Owns s (rowIdOf req j)) :
    (rowsFor s req).length = countOf req * ROW_BYTES :=
  length_flatMap_range fun j hj => length_fileRow h (ho j hj)

/-- Every answer is one complete response of the protocol. -/
theorem answerTo_whole (h : Ranged s) (f : Facts) (req : List UInt8) :
    WholeAnswer ROW_BYTES req (answerTo s f req) := by
  have hid : idOf req < 2 ^ 32 := natAt_lt req 8 4
  have hcount : countOf req < 2 ^ 32 := natAt_lt req 12 4
  -- a header alone, with an error
  have hbare : ∀ st : UInt32, st.toNat ≠ 0 →
      WholeAnswer ROW_BYTES req (answerHeader (idOf req) st.toNat 0) := by
    intro st hst
    have hlen := length_answerHeader hid st.toNat_lt (by decide : 0 < 2 ^ 32)
    have hf := answerHeader_fields hid st.toNat_lt (by decide : 0 < 2 ^ 32) []
    rw [List.append_nil] at hf
    obtain ⟨hm, he, hs, hr⟩ := hf
    exact ⟨hlen.ge, hm, he, .inr ⟨by rw [hs]; exact hst, hr, hlen⟩⟩
  -- a success and its body
  have hok : ∀ (n : Nat) (body : List UInt8), n < 2 ^ 32 →
      n = wantRows req → body.length = bodyBytes ROW_BYTES req →
      WholeAnswer ROW_BYTES req (answerHeader (idOf req) 0 n ++ body) := by
    intro n body hn hrows hbody
    have hlen := length_answerHeader hid (by decide : 0 < 2 ^ 32) hn
    obtain ⟨hm, he, hs, hr⟩ :=
      answerHeader_fields hid (by decide : 0 < 2 ^ 32) hn body
    refine ⟨?_, hm, he, .inl ⟨hs, hr.trans hrows, ?_⟩⟩
    · rw [List.length_append, hlen]
      exact Nat.le_add_right _ _
    · rw [List.length_append, hlen, hbody]
  unfold answerTo
  by_cases hg : opOf req = OP_GATHER
  · rw [if_pos hg]
    split
    · exact hbare _ (by decide)
    split
    case isTrue ho =>
      refine hok _ _ hcount (by rw [wantRows, if_pos hg]) ?_
      rw [length_rowsFor h ho, bodyBytes, if_pos hg]
    case isFalse => exact hbare _ (by decide)
  · rw [if_neg hg]
    have hwant : 0 = wantRows req := by rw [wantRows, if_neg hg]
    split
    case isTrue hp =>
      have := hok 0 [] (by decide) hwant (by
        simp [bodyBytes, hp, OP_PING, OP_GATHER, OP_STAT, OP_RECHARGE])
      rwa [List.append_nil] at this
    split
    case isTrue hst =>
      refine hok 0 _ (by decide) hwant ?_
      rw [length_statBody, bodyBytes, if_neg hg, if_pos hst]
    case isFalse hst =>
      split
      case isTrue hr =>
        split
        case isTrue hne =>
          refine hbare _ fun hz => hne ?_
          exact UInt32.toNat_inj.mp hz
        case isFalse =>
          refine hok 0 _ (by decide) hwant ?_
          rw [length_rechargeBody, bodyBytes, if_neg hg, if_neg hst, if_pos hr]
      case isFalse => exact hbare _ (by decide)

end PleRowServer.Daemon
