/-
Whose rows a gather returns. The peers of a table are the servers of a
deployment: each holds its range of one table of rows, and what the
client is given on a connection is the beginning of what its server's
thread writes.

A completed exchange is then the server's own answer (`Honest.answers`),
so the range a peer was recorded with at construction is the one it
serves, and the rows in the buffer of an answered peer are the table's.
Nothing here is about faults: they decide whether a gather returns, and
never what it returns.
-/
import PleRowServer.Client.Between

namespace PleRowServer.Client

open Base Wire Daemon
open RemoteTable (Config initial)

variable {env : Env} {geo : PeerId → Geometry} {w w₀ w' : World env}
  {T : ℚ} {cfg : Config} {i : PeerId} {ids : List Int} {k n : Nat}
  {servers : PeerId → Server} {s : Server} {table : Nat → List UInt8}
  {tr : Trace} {req ans : List UInt8}

-- ============================================================ deployments

/-- The servers of a table over `n` peers: each was started by main, and
every row it owns is the table's. -/
structure Deployment (table : Nat → List UInt8) (n : Nat) where
  server : PeerId → Server
  started : ∀ i, ∃ opts host, accepts opts host = .ok (server i)
  holds : ∀ i < n, ∀ id, Owns (server i) id →
    fileRow (server i) id = table id

theorem Deployment.ranged (d : Deployment table n) (i : PeerId) :
    Ranged (d.server i) := by
  obtain ⟨opts, host, h⟩ := d.started i
  exact (accepts_ranged h).1

/-- The peers of `env` are the servers of `d`, whatever has happened. -/
def Deployment.Behind (d : Deployment table n) (env : Env) : Prop :=
  ∀ tr, env.Produced tr → Honest d.server tr

/-- The peers of `env` are the servers of `d`, and none of their threads
is without its buffers. -/
def Deployment.Serves (d : Deployment table n) (env : Env) : Prop :=
  ∀ tr, env.Produced tr → Supplied d.server tr

theorem Deployment.Serves.behind {d : Deployment table n}
    (h : d.Serves env) : d.Behind env := fun tr ht => (h tr ht).honest

/-- The range a server serves, as STAT reports it. -/
def rangeOf (s : Server) : Geometry :=
  ⟨s.baseRow.toNat, s.rowCount.toNat, ROW_BYTES⟩

/-- The rows of a range are those its server owns. -/
theorem owns_iff (h : Ranged s) {id : Int} :
    (rangeOf s).baseRow ≤ id ∧ id < (rangeOf s).baseRow + (rangeOf s).rowCount
      ↔ 0 ≤ id ∧ Owns s id.toNat := by
  unfold Owns rangeOf
  rw [h.base, h.rows]
  constructor
  · intro hr
    dsimp only at hr
    omega
  · intro hr
    dsimp only
    omega

-- ================================================== a server's own answers

/-- What a STAT reports is the range. -/
theorem statGeometry_answer (s : Server) (f : Facts)
    (hop : opOf req = Wire.OP_STAT) :
    statGeometry (answerTo s f req) = rangeOf s := by
  have hans : answerTo s f req
      = answerHeader (idOf req) 0 0 ++ statBody s f.pages f.served := by
    unfold answerTo
    rw [hop]
    rfl
  have hlen : (answerHeader (idOf req) 0 0).length = 16 :=
    length_answerHeader (natAt_lt req 8 4) (by decide) (by decide)
  obtain ⟨body, hpack, -⟩ := fillStat_writes s f.pages f.served 0
  have hbody : statBody s f.pages f.served = body := by
    unfold statBody
    rw [hpack]
    rfl
  have hf := fieldsAt_of_pack hpack
  simp only [fieldsAt, Code.width, Nat.zero_add, Nat.reduceAdd,
    List.cons.injEq] at hf
  obtain ⟨h0, h8, h16, -⟩ := hf
  have hat : ∀ off m, natAt (answerTo s f req) (16 + off) m
      = natAt body off m := by
    intro off m
    unfold natAt
    rw [hans, hbody, ← hlen, bytesAt_append_right]
  unfold statGeometry rangeOf
  rw [show (16 : Nat) = 16 + 0 from rfl, show (24 : Nat) = 16 + 8 from rfl,
    show (32 : Nat) = 16 + 16 from rfl, hat, hat, hat, h0, h8, h16]

/-- A STAT's answer is accepted whatever the size of a row. -/
theorem settled_of_stat {x : Exchange} {a b : Nat}
    (h : x.Settled a) (hop : opOf x.req = Wire.OP_STAT) : x.Settled b := by
  obtain ⟨hw, hacc⟩ := h
  have hbody : ∀ r, bodyBytes r x.req = STAT_BODY := by
    intro r
    unfold bodyBytes
    rw [hop]
    rfl
  refine ⟨hw, ?_⟩
  unfold accepted at hacc ⊢
  rw [hbody] at hacc ⊢
  exact hacc

/-- The exchanges completed on an honest connection are answered by the
server. -/
theorem Honest.answers {g : Geometry} {l : Line} {c : ConnId}
    (h : Honest servers tr) (hr : ∀ i, Ranged (servers i))
    (ht : l.Traced g i tr) (hc : l.conn = some c) (hidle : l.phase = .idle)
    (hrows : ∀ x ∈ l.done, x.Settled ROW_BYTES) :
    ∀ x ∈ l.done, Answers (servers i) x.req x.ans := by
  obtain ⟨out, hout, hgot⟩ := h.replies hr c
  obtain ⟨hsent, hread⟩ := ht.idle c hc hidle
  rw [hsent, (ht.conn c hc).1] at hout
  rw [hread] at hgot
  exact (Replies.settled (fun _ _ ha => ha.whole (hr i)) (fun _ _ hf => hf)
    _ hrows hout hgot).1

/-- The range recorded for a peer at construction is its server's. -/
theorem Constructed.recorded {d : Deployment table n}
    (hc : Constructed env cfg w₀) (hd : d.Behind env)
    (hi : i ∈ w₀.table.peers) : w₀.ranges i = rangeOf (d.server i) := by
  obtain ⟨hg, hf, -, hstated, -⟩ := hc.spec
  obtain ⟨-, x, hdone, hop, hgeo⟩ := hstated i hi
  have hs := hg.synced hf i hi
  have hl := hg.sound.linked i
  obtain ⟨c, hsock⟩ := Option.ne_none_iff_exists'.mp hs.sock
  have ht := World.traced hl.good
  have hx : x ∈ (w₀.line w₀.ranges i).done := by rw [hdone]; simp
  have hans := (hd _ w₀.hist.ok).answers d.ranged ht (hl.sock ▸ hsock)
    hs.idle ?_ x hx
  case refine_1 =>
    intro y hy
    obtain rfl : y = x := by rw [hdone] at hy; simpa using hy
    exact settled_of_stat (ht.settled y hx) hop
  obtain ⟨-, f, hans⟩ := hans
  have hrange : statGeometry x.ans = w₀.ranges i := hgeo
  rw [← hrange, hans, statGeometry_answer _ f hop]

-- ================================================================== rows

/-- The `j`-th id of a request for a share. -/
theorem Request.rowId {sh : Share} (h : Request ids sh req) {j : Nat}
    (hj : j < sh.2.length) :
    rowIdOf req j = (ids.getD sh.2[j] 0 % 2 ^ 32).toNat := by
  have hlen : HEADER ≤ req.length := h.asks.whole.1
  have hsplit : req = req.take HEADER ++ idBytes (sh.ids ids) := by
    rw [← h.ids, List.take_append_drop]
  have hwords : idBytes (sh.ids ids)
      = (sh.2.map fun p => (ids.getD p 0 % 2 ^ 32).toNat).flatMap
        (leBytes 4) := by
    unfold idBytes Share.ids
    rw [List.flatMap_map, List.flatMap_map]
  have hfront : (req.take HEADER).length = HEADER := by
    rw [List.length_take, Nat.min_eq_left hlen]
  have hat : rowIdOf req j = natAt (idBytes (sh.ids ids)) (4 * j) 4 := by
    unfold rowIdOf natAt
    conv_lhs => rw [hsplit]
    nth_rewrite 2 [← hfront]
    rw [bytesAt_append_right]
  rw [hat, hwords, natAt_leWords (by rw [List.length_map]; exact hj),
    List.getElem_map]
  refine Nat.mod_eq_of_lt ?_
  omega

/-- A position in the range of a server holds the id of one of its rows,
which the wire carries unchanged. -/
theorem owned_owns (h : Ranged s) {p : Nat} (hp : p ∈ (rangeOf s).owned ids) :
    0 ≤ ids.getD p 0 ∧ Owns s (ids.getD p 0).toNat ∧
      (ids.getD p 0 % 2 ^ 32).toNat = (ids.getD p 0).toNat := by
  obtain ⟨-, hlo, hhi⟩ := Geometry.mem_owned.mp hp
  obtain ⟨hpos, hid⟩ := (owns_iff h).mp ⟨hlo, hhi⟩
  refine ⟨hpos, hid, ?_⟩
  have hlt : (ids.getD p 0).toNat < 2 ^ 32 := by
    have := hid.2
    have := h.fits
    simp only [UINT32_MAX] at this
    omega
  omega

/-- The three answers to a GATHER. -/
theorem answerTo_gather (s : Server) (f : Facts)
    (hop : opOf req = Wire.OP_GATHER) :
    answerTo s f req
      = if s.maxRows.toNat < countOf req then
          answerHeader (idOf req) ST_TOO_MANY.toNat 0
        else if ∀ j < countOf req, Owns s (rowIdOf req j) then
          answerHeader (idOf req) 0 (countOf req) ++ rowsFor s req
        else answerHeader (idOf req) ST_RANGE.toNat 0 := by
  unfold answerTo
  rw [if_pos hop]

/-- An accepted answer of a server to a GATHER carries the rows asked
for, all of them its own. -/
theorem answers_gathered (h : Answers s req ans)
    (hop : opOf req = Wire.OP_GATHER) (hacc : accepted ROW_BYTES req ans = true) :
    bodyOf ans = rowsFor s req ∧ ∀ j < countOf req, Owns s (rowIdOf req j) := by
  obtain ⟨-, f, rfl⟩ := h
  obtain ⟨hok, -⟩ := accepted_iff.mp hacc
  obtain ⟨-, -, -, hst, -⟩ := headerOk_iff.mp hok
  have hid : idOf req < 2 ^ 32 := natAt_lt req 8 4
  -- a header alone with an error is not accepted
  have hbare : ∀ st : UInt32, st.toNat ≠ 0 →
      statusOf (answerHeader (idOf req) st.toNat 0) ≠ 0 := fun st hne =>
    (refuses_header hid st.toNat_lt hne).2
  rw [answerTo_gather s f hop] at hst ⊢
  split at hst
  case isTrue => exact absurd hst (hbare ST_TOO_MANY (by decide))
  case isFalse hmax =>
    split at hst
    case isFalse => exact absurd hst (hbare ST_RANGE (by decide))
    case isTrue hown =>
      rw [if_neg hmax, if_pos hown]
      refine ⟨?_, hown⟩
      have hcount : countOf req < 2 ^ 32 := natAt_lt req 12 4
      have hlen := length_answerHeader hid (by decide : 0 < 2 ^ 32) hcount
      unfold bodyOf
      rw [← hlen, List.drop_left]

/-- The buffer of an answered peer holds, for each position of its
share, its server's row. -/
theorem Answered.row {sh : Share} (h : Answered geo T k ids sh w)
    (hh : Honest servers w.tr) (hr : ∀ i, Ranged (servers i))
    (hgeo : geo sh.1 = rangeOf (servers sh.1))
    (hown : sh.2 = (geo sh.1).owned ids) {p : Nat} (hp : p ∈ sh.2) :
    0 ≤ ids.getD p 0 ∧ Owns (servers sh.1) (ids.getD p 0).toNat ∧
      sh.rowAt ROW_BYTES (w.heap sh.1).rows p
        = fileRow (servers sh.1) (ids.getD p 0).toNat := by
  have hlink := h.linked
  obtain ⟨c, l, req, ans, ho, hreq, -, hacc, hl, hrows⟩ := h.line
  have hrb : (geo sh.1).rowBytes = ROW_BYTES := by rw [hgeo]; rfl
  have hr' := hr sh.1
  have ht := World.traced hlink.good
  rw [hrb] at hacc hrows
  have hlast : ⟨req, ans⟩ ∈ (w.line geo sh.1).done := by rw [hl]; simp
  have hanswer := hh.answers hr ht (c := c) (by rw [hl]; exact ho.conn)
    (by rw [hl]) (fun x hx => hrb ▸ ht.settled x hx) _ hlast
  obtain ⟨hbody, howns⟩ := answers_gathered hanswer hreq.asks.op hacc
  have hmem : p ∈ (rangeOf (servers sh.1)).owned ids := hgeo ▸ hown ▸ hp
  obtain ⟨hpos, hid, hsmall⟩ := owned_owns hr' hmem
  refine ⟨hpos, hid, ?_⟩
  -- its place in the share, and in the request
  have hj : sh.2.idxOf p < sh.2.length := List.idxOf_lt_length_iff.mpr hp
  have hcount : countOf req = sh.2.length := hreq.asks.count
  have hrow : rowIdOf req (sh.2.idxOf p) = (ids.getD p 0).toNat := by
    rw [hreq.rowId hj, List.getElem_idxOf hj, hsmall]
  have hpiece : bytesAt (rowsFor (servers sh.1) req)
      (sh.2.idxOf p * ROW_BYTES) ROW_BYTES
      = fileRow (servers sh.1) (rowIdOf req (sh.2.idxOf p)) :=
    bytesAt_flatMap_range (f := fun j => fileRow _ (rowIdOf req j))
      (fun j hj => length_fileRow hr' (howns j hj)) (by omega)
  have hin : sh.2.idxOf p * ROW_BYTES + ROW_BYTES
      ≤ sh.2.length * ROW_BYTES := by
    have := Nat.mul_le_mul_right ROW_BYTES (Nat.succ_le_of_lt hj)
    rwa [Nat.succ_mul] at this
  rw [← hrow, ← hpiece, ← hbody, ← hrows]
  unfold Share.rowAt bytesAt
  rw [List.drop_take, List.take_take, Nat.min_eq_left]
  omega

/-- A gather that returned has put the owner's row at every position. -/
theorem Gathered.row (h : Gathered geo T ids w w') (hs : Sound geo T w)
    (hh : Honest servers w'.tr) (hr : ∀ i, Ranged (servers i))
    (hgeo : ∀ i ∈ w.table.peers, geo i = rangeOf (servers i)) {m p : Nat}
    (hm : w.table.staging = some m) (hp : p < ids.length) :
    0 ≤ ids.getD p 0 ∧ ids.getD p 0 < w.table.rowsTotal ∧
      ∃ i ∈ w.table.peers, Owns (servers i) (ids.getD p 0).toNat ∧
        (w'.bufs m).row p = fileRow (servers i) (ids.getD p 0).toNat := by
  obtain ⟨sh, hmem, hps⟩ := h.cover p hp
  obtain ⟨hi, hown, -⟩ := mem_shares.mp hmem
  obtain ⟨hpos, howns, hrow⟩ :=
    (h.each sh hmem).row hh hr (hgeo _ hi) hown hps
  obtain ⟨m', hm', -, hrows⟩ := h.rows
  obtain rfl : m = m' := Option.some.inj (hm.symm.trans hm')
  have hrb : w.table.rowBytes = ROW_BYTES := by
    rw [← hs.rowBytes _ hi, hgeo _ hi]
    rfl
  refine ⟨hpos, ?_, sh.1, hi, howns, ?_⟩
  · have hend := (hs.tiled.ge_of_mem hi).2
    have hhi := (Geometry.mem_owned.mp (hown ▸ hps)).2.2
    omega
  · rw [hrows sh hmem p hps, hrb, hrow]

end PleRowServer.Client
