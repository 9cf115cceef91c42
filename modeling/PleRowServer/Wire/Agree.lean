/-
Both ends of the wire agree: what the Python clients pack the C server
parses, and what the server stores the clients unpack.

The clients' requests are taken from their programs, as the bytes handed
to sendall in any run; the server's answers from the stores of its
writers, into a response buffer that may hold anything before.
-/
import PleRowServer.Client.InitSpec
import PleRowServer.Client.Moves
import PleRowServer.Daemon.Codec
import PleRowServer.Tools.Recharge

namespace PleRowServer.Wire

open Base Client Daemon

-- ============================================================= what is sent

/-- The bytes of an entry handed to sendall. -/
def sentBytes : Ev → Option (List UInt8)
  | .send _ data _ => some data
  | _ => none

section Sends

variable {env : Env} {w w' w'' : World env} {i : PeerId}

/-- The byte strings handed to sendall from `w` to `w'`, in order. -/
def Sends (w w' : World env) (ds : List (List UInt8)) : Prop :=
  ∃ evs, w'.tr = w.tr ++ evs ∧ evs.filterMap sentBytes = ds

/-- Where nothing was done nothing was sent. -/
theorem Sends.refl (w : World env) : Sends w w [] :=
  ⟨[], (List.append_nil _).symm, rfl⟩

/-- What was sent first and what was sent next was sent in all. -/
theorem Sends.trans {ds ds' : List (List UInt8)} (h : Sends w w' ds)
    (h' : Sends w' w'' ds') : Sends w w'' (ds ++ ds') := by
  obtain ⟨evs, ht, hd⟩ := h
  obtain ⟨evs', ht', hd'⟩ := h'
  refine ⟨evs ++ evs', ?_, ?_⟩
  · rw [ht', ht, List.append_assoc]
  · rw [List.filterMap_append, hd, hd']

/-- An entry sends what is in it. -/
theorem Sends.push (w : World env) (e : Ev) (he : env.Produces w.tr e) :
    Sends w (w.push e he) (sentBytes e).toList := by
  refine ⟨[e], rfl, ?_⟩
  cases h : sentBytes e <;> simp [h]

/-- Finding the socket sends nothing. -/
theorem socket_sends : Runs (Peer.socket i) w (fun _ w' => w' = w)
    (fun _ w' => Sends w w' []) := by
  unfold Peer.socket
  simp only [runs_bind, runs_peer]
  cases (w.heap i).sock with
  | none => exact .push w (.raised .noSocket) _
  | some c => rfl

/-- Looking at the deadline sends nothing. -/
theorem budget_sends (p : Peer) : Runs (Peer.budget p) w
    (fun _ w' => Sends w w' []) (fun _ w' => Sends w w' []) := by
  unfold Peer.budget
  cases p.deadline with
  | none => exact .refl w
  | some d =>
      simp only [runs_bind, runs_now]
      intro t ht
      have hnow : Sends w (w.push (.now t) ht) [] := .push w (.now t) ht
      split
      case isTrue => exact hnow.trans (.push _ (.raised _) _)
      case isFalse => exact hnow

/-- Arming a socket sends nothing. -/
theorem arm_sends : Runs (Peer.arm i) w (fun _ w' => Sends w w' [])
    (fun _ w' => Sends w w' []) := by
  unfold Peer.arm
  simp only [runs_bind, runs_peer]
  refine (budget_sends _).mono ?_ (fun _ _ h => h)
  intro b w' h
  split
  case isFalse => exact h
  case isTrue =>
    rw [runs_bind]
    refine socket_sends.mono ?_ (fun _ w'' h' => h.trans h')
    intro c w'' hw
    subst hw
    simp only [runs_bind, runs_settimeout, runs_modifyPeer]
    exact h.trans (.push w'' _ (env.produces_settimeout w''.tr c b))

/-- A sendall hands over its data, unless it raises before. -/
theorem sendall_sends {data : List UInt8} :
    Runs (Peer.sendall i data) w (fun _ w' => Sends w w' [data])
      (fun _ w' => Sends w w' [] ∨ Sends w w' [data]) := by
  unfold Peer.sendall
  refine Runs.bind arm_sends ?_ (fun _ _ h => .inl h)
  intro _ w' h
  rw [runs_bind]
  refine socket_sends.mono ?_ (fun _ w'' h' => .inl (h.trans h'))
  intro c w'' hw
  subst hw
  simp only [runs_bind, runs_sysSend]
  intro r hr
  have hsent : Sends w (w''.push (.send c data r) hr) [data] :=
    h.trans (.push w'' (.send c data r) hr)
  cases r with
  | all => exact hsent
  | fault why n => exact .inr (hsent.trans (.push _ (.raised _) _))
  | interrupt n => exact .inr (hsent.trans (.push _ (.raised _) _))

/-- What every run of a client program hands over, if anything: `data`,
and exactly that when it returns. -/
def Hands {α : Type} (m : M env α) (w : World env) (data : List UInt8) :
    Prop :=
  Runs m w (fun _ w' => Sends w w' [data])
    (fun _ w' => Sends w w' [] ∨ Sends w w' [data])

end Sends

-- ========================================================== the requests

section Requests

variable {env : Env} (w : World env) (i : PeerId)

/-- The fields a header parses to are those a client means. -/
structure Parses (hdr : List UInt8) (op arg reqId count : Nat) : Prop where
  length : hdr.length = HDR_BYTES
  /-- each byte comes from one field -/
  layout : hdr = leBytes 4 MAGIC_REQ ++ leBytes 1 VERSION ++ leBytes 1 op ++
    leBytes 2 arg ++ leBytes 4 reqId ++ leBytes 4 count
  magic : (parseHeader hdr).magic = REQ_MAGIC
  version : (parseHeader hdr).version = PROTO_VER
  op : (parseHeader hdr).op.toNat = op
  arg : (parseHeader hdr).arg.toNat = arg
  reqId : (parseHeader hdr).reqId.toNat = reqId
  count : (parseHeader hdr).count.toNat = count

/-- What the client packs the server parses. -/
theorem pack_parses {op arg reqId count : Nat} (hop : op < 2 ^ 8)
    (harg : arg < 2 ^ 16) (hid : reqId < 2 ^ 32) (hcount : count < 2 ^ 32) :
    ∃ hdr, pack [.I, .B, .B, .H, .I, .I]
        [MAGIC_REQ, VERSION, op, arg, reqId, count] = some hdr ∧
      Parses hdr op arg reqId count := by
  have h : pack [.I, .B, .B, .H, .I, .I]
      [MAGIC_REQ, VERSION, op, arg, reqId, count]
        = some (leBytes 4 MAGIC_REQ ++ leBytes 1 VERSION ++ leBytes 1 op ++
          leBytes 2 arg ++ leBytes 4 reqId ++ leBytes 4 count) := by
    rw [pack_cons (by decide), pack_cons (by decide), pack_cons hop,
      pack_cons harg, pack_cons hid, pack_cons hcount]
    simp [pack, Code.width]
  obtain ⟨hm, hv, ho, ha, hr, hc⟩ := parseHeader_pack h
  exact ⟨_, h, length_of_pack h, rfl, hm, hv, ho, ha, hr, hc⟩

/-- send_bare hands over its header and nothing else. -/
theorem sendBare_hands {op reqId : Nat} (hop : op < 2 ^ 8)
    (hid : reqId < 2 ^ 32) :
    ∃ data, Hands (Peer.sendBare i op reqId) w data ∧
      Parses data op 0 reqId 0 := by
  obtain ⟨hdr, hpack, hp⟩ := pack_parses hop (by decide : 0 < 2 ^ 16) hid
    (by decide : 0 < 2 ^ 32)
  refine ⟨hdr, ?_, hp⟩
  unfold Hands Peer.sendBare
  rw [show Peer.packRequest op 0 reqId 0 = some hdr from hpack]
  simp only [runs_bind, runs_modifyPeer]
  exact sendall_sends

/-- send_gather, the ids staged before it, hands over its header and
behind it the ids, in order. -/
theorem sendGather_hands (ids : List UInt32) {reqId : Nat}
    (hid : reqId < 2 ^ 32) (hcount : ids.length < 2 ^ 32)
    (hroom : HEADER + 4 * ids.length ≤ (w.heap i).req.length) :
    ∃ hdr body,
      Hands (do
        Peer.copyIds i (ids.map fun id => (id.toNat : Int))
        Peer.sendGather i reqId ids.length) w (hdr ++ body) ∧
      Parses hdr OP_GATHER 0 reqId ids.length ∧
      body.length = 4 * ids.length ∧
      (List.range ids.length).map (fun k : Nat => rdU32 body (4 * k)) = ids := by
  obtain ⟨hdr, hpack, hp⟩ := pack_parses (by decide : OP_GATHER < 2 ^ 8)
    (by decide : 0 < 2 ^ 16) hid hcount
  set body := (ids.map UInt32.toNat).flatMap (leBytes 4) with hbody
  have hlen : body.length = 4 * ids.length := by
    rw [hbody, length_leWords, List.length_map]
  refine ⟨hdr, body, ?_, hp, hlen, ?_⟩
  · unfold Hands Peer.copyIds Peer.sendGather
    rw [show Peer.packRequest OP_GATHER 0 reqId ids.length = some hdr
      from hpack]
    have henc : ((ids.map fun id => (id.toNat : Int)).flatMap fun id =>
        leBytes 4 (id % 2 ^ 32).toNat) = body := by
      rw [hbody, List.flatMap_map, List.flatMap_map]
      refine List.flatMap_congr fun id _ => ?_
      have := id.toNat_lt
      congr 1
      omega
    simp only [runs_bind, runs_modifyPeer, runs_peer, World.setPeer_self,
      henc]
    set req := splice (w.heap i).req HEADER body with hreq
    have hroom' : HEADER + 4 * ids.length ≤ req.length := by
      rw [hreq, length_splice (by omega)]
      exact hroom
    have hdata : (splice req 0 hdr).take (HEADER + 4 * ids.length)
        = hdr ++ body := by
      rw [take_splice_zero (by rw [hp.length]; exact Nat.le_add_right _ _)
        hroom', hp.length, ← hlen]
      congr 1
      show bytesAt req HEADER (HEADER + body.length - HEADER) = body
      rw [Nat.add_sub_cancel_left, hreq]
      exact bytesAt_splice (by omega)
    rw [hdata]
    refine sendall_sends.mono ?_ (fun _ _ h => h)
    intro _ w' h
    exact h
  · refine List.ext_getElem (by simp) fun k hk _ => ?_
    rw [List.length_map, List.length_range] at hk
    rw [List.getElem_map, List.getElem_range]
    apply UInt32.toNat_inj.mp
    rw [rdU32_toNat (by omega), hbody,
      natAt_leWords (by rw [List.length_map]; exact hk), List.getElem_map]
    exact Nat.mod_eq_of_lt ids[k].toNat_lt

end Requests

-- =========================================================== the answers

section Answers

variable (resp : List UInt8)

/-- A response header, as written and as either client reads it. -/
theorem header_unpacks (reqId status count : UInt32) :
    ∃ hdr, hdr.length = HDR_BYTES ∧
      Writes (headerStores reqId status count) 0 hdr ∧
      Peer.unpackHeader hdr = some [MAGIC_RESP, reqId.toNat, status.toNat,
        count.toNat] := by
  obtain ⟨hdr, hpack, hw⟩ := sendHeader_writes reqId status count
  exact ⟨hdr, length_of_pack hpack, hw, unpack_pack hpack⟩

/-- An answer with a body the server stored behind the header: what goes
out is the two, and every byte of it is stored by one field. -/
theorem answer_eq {reqId status count : UInt32} {hdr body : List UInt8}
    {ss : List Store} (hh : Writes (headerStores reqId status count) 0 hdr)
    (hlen : hdr.length = HDR_BYTES) (hb : Writes ss HDR_BYTES body)
    (hroom : HDR_BYTES + body.length ≤ resp.length) :
    response (stores resp ss) reqId status count body.length = hdr ++ body ∧
      (headerStores reqId status count ++ ss).map Prod.fst
        = List.range (HDR_BYTES + body.length) := by
  refine ⟨?_, ?_⟩
  · rw [response_eq (by rw [length_stores]; exact hroom) hh hlen,
      hb.stores hroom, bytesAt_splice hroom]
  · rw [List.map_append, hh.offsets, hb.offsets, hlen,
      List.range_eq_range']
    exact List.range'_append_1

end Answers

/-- Every field survives the wire, in both directions and for each of
the clients. -/
theorem wire_roundtrip {env : Env} (w : World env) (i : PeerId)
    {op arg reqId count : Nat} (hop : op < 2 ^ 8) (harg : arg < 2 ^ 16)
    (hid : reqId < 2 ^ 32) (hcount : count < 2 ^ 32) (ids : List UInt32)
    (hids : ids.length < 2 ^ 32)
    (hroom : HEADER + 4 * ids.length ≤ (w.heap i).req.length)
    (resp : List UInt8) (hresp : HDR_BYTES + ROW_BYTES ≤ resp.length)
    (rid status rows : UInt32) (s : Server) (pages served : UInt64)
    (rep : RechargeReport) :
    -- requests
    (∃ hdr, Peer.packRequest op arg reqId count = some hdr ∧
      Parses hdr op arg reqId count) ∧
    (∃ hdr body,
      Hands (do
        Peer.copyIds i (ids.map fun id => (id.toNat : Int))
        Peer.sendGather i reqId ids.length) w (hdr ++ body) ∧
      Parses hdr OP_GATHER 0 reqId ids.length ∧
      body.length = 4 * ids.length ∧
      (List.range ids.length).map (fun k : Nat => rdU32 body (4 * k))
        = ids) ∧
    (∃ data, Hands (Peer.sendBare i op reqId) w data ∧
      Parses data op 0 reqId 0) ∧
    (∃ hdr, Tools.packCall op arg reqId = some hdr ∧
      Parses hdr op arg reqId 0) ∧
    -- answers
    (∃ hdr, response resp rid status rows 0 = hdr ∧
      (headerStores rid status rows).map Prod.fst = List.range HDR_BYTES ∧
      Peer.unpackHeader hdr
        = some [MAGIC_RESP, rid.toNat, status.toNat, rows.toNat] ∧
      (Tools.checkAnswer rid.toNat hdr = .ok () ↔
        status = ST_OK ∧ rows = 0)) ∧
    (∃ hdr body,
      response (stores resp (fillStat s pages served HDR_BYTES)) rid ST_OK 0
        STAT_BYTES = hdr ++ body ∧
      (headerStores rid ST_OK 0 ++
        fillStat s pages served HDR_BYTES).map Prod.fst
          = List.range (HDR_BYTES + STAT_BYTES) ∧
      Peer.unpackHeader hdr = some [MAGIC_RESP, rid.toNat, 0, 0] ∧
      Peer.unpackStat body = some [s.baseRow.toNat, s.rowCount.toNat,
        ROW_BYTES, min pages.toNat (2 ^ 32 - 1), served.toNat] ∧
      Tools.stat body = some ⟨s.baseRow.toNat, s.rowCount.toNat, ROW_BYTES,
        min pages.toNat (2 ^ 32 - 1), served.toNat⟩) ∧
    (∃ hdr body,
      response (stores resp (fillRecharge rep HDR_BYTES)) rid ST_OK 0
        RECHG_BYTES = hdr ++ body ∧
      (headerStores rid ST_OK 0 ++ fillRecharge rep HDR_BYTES).map Prod.fst
        = List.range (HDR_BYTES + RECHG_BYTES) ∧
      Peer.unpackHeader hdr = some [MAGIC_RESP, rid.toNat, 0, 0] ∧
      Tools.recharge body = some ⟨rep.pagesBefore.toNat,
        rep.pagesAfter.toNat, rep.pagesRecharged.toNat,
        rep.slicesDone.toNat, rep.slicesTotal.toNat, rep.slicePages.toNat,
        rep.elapsedMs.toNat⟩) := by
  have hroom' : ∀ n, n ≤ ROW_BYTES → HDR_BYTES + n ≤ resp.length := by
    intro n hn
    omega
  refine ⟨pack_parses hop harg hid hcount,
    sendGather_hands w i ids hid hids hroom, sendBare_hands w i hop hid,
    pack_parses hop harg hid (by decide), ?_, ?_, ?_⟩
  · obtain ⟨hdr, hlen, hw, hu⟩ := header_unpacks rid status rows
    refine ⟨hdr, ?_, ?_, hu, ?_⟩
    · rw [response_eq (hroom' 0 (by decide)) hw hlen]
      simp [bytesAt]
    · rw [hw.offsets, hlen, List.range_eq_range']
    · unfold Tools.checkAnswer
      rw [show unpack [.I, .I, .I, .I] hdr = _ from hu]
      simp only [ne_eq, not_true_eq_false, or_self, if_false]
      have hs : status = ST_OK ↔ status.toNat = 0 :=
        ⟨fun h => by rw [h]; rfl, fun h => UInt32.toNat_inj.mp h⟩
      have hr : rows = 0 ↔ rows.toNat = 0 :=
        ⟨fun h => by rw [h]; rfl, fun h => UInt32.toNat_inj.mp h⟩
      rw [hs, hr]
      by_cases h0 : status.toNat = 0 <;> by_cases h1 : rows.toNat = 0 <;>
        simp [h0, h1]
  · obtain ⟨hdr, hlen, hw, hu⟩ := header_unpacks rid ST_OK 0
    obtain ⟨body, hpack, hb⟩ := fillStat_writes s pages served HDR_BYTES
    have hblen : body.length = STAT_BYTES := length_of_pack hpack
    obtain ⟨heq, hoffs⟩ := answer_eq resp hw hlen hb
      (hroom' _ (by rw [hblen]; decide))
    rw [hblen] at heq hoffs
    have hun := unpack_pack hpack
    exact ⟨hdr, body, heq, hoffs, hu, hun, by
      unfold Tools.stat; rw [hun]; rfl⟩
  · obtain ⟨hdr, hlen, hw, hu⟩ := header_unpacks rid ST_OK 0
    obtain ⟨body, hpack, hb⟩ := fillRecharge_writes rep HDR_BYTES
    have hblen : body.length = RECHG_BYTES := length_of_pack hpack
    obtain ⟨heq, hoffs⟩ := answer_eq resp hw hlen hb
      (hroom' _ (by rw [hblen]; decide))
    rw [hblen] at heq hoffs
    have hun := unpack_pack hpack
    exact ⟨hdr, body, heq, hoffs, hu, by
      unfold Tools.recharge; rw [hun]⟩

/-- A server of the two rows of the pair. -/
def bothRows : Server where
  map := List.replicate 320 7
  pageSize := 4096
  baseRow := 0
  rowCount := 2
  base32 := 0
  rows32 := 2
  maxRows := 4
  threads := 8

/-- The pair as constructed, sockets open, with room for two ids in the
request buffer of its first peer. -/
def reserved : World pairEnv := returned (Peer.reserve 0 2) paired

theorem wire_roundtrip_twoIds :
    (∃ hdr, Peer.packRequest 4 1024 7 0 = some hdr ∧
      Parses hdr 4 1024 7 0) ∧
    Returns (do
        Peer.copyIds 0 ([3, 1].map fun id : UInt32 => (id.toNat : Int))
        Peer.sendGather 0 7 2) reserved = true ∧
    (∃ hdr body,
      Hands (do
        Peer.copyIds 0 ([3, 1].map fun id : UInt32 => (id.toNat : Int))
        Peer.sendGather 0 7 2) reserved (hdr ++ body) ∧
      Parses hdr OP_GATHER 0 7 2 ∧ body.length = 4 * 2 ∧
      (List.range 2).map (fun k : Nat => rdU32 body (4 * k)) = [3, 1]) ∧
    Returns (Peer.sendBare 0 4 7) reserved = true ∧
    (∃ data, Hands (Peer.sendBare 0 4 7) reserved data ∧
      Parses data 4 0 7 0) ∧
    (∃ hdr, Tools.packCall 4 1024 7 = some hdr ∧ Parses hdr 4 1024 7 0) ∧
    (∃ hdr, response (List.replicate 176 1) 7 ST_BUSY 0 0 = hdr ∧
      (headerStores 7 ST_BUSY 0).map Prod.fst = List.range HDR_BYTES ∧
      Peer.unpackHeader hdr = some [MAGIC_RESP, 7, ST_BUSY.toNat, 0] ∧
      (Tools.checkAnswer 7 hdr = .ok () ↔
        ST_BUSY = ST_OK ∧ (0 : UInt32) = 0)) ∧
    (∃ hdr body,
      response (stores (List.replicate 176 1)
        (fillStat bothRows 5 9 HDR_BYTES)) 7 ST_OK 0 STAT_BYTES
          = hdr ++ body ∧
      (headerStores 7 ST_OK 0 ++ fillStat bothRows 5 9 HDR_BYTES).map Prod.fst
        = List.range (HDR_BYTES + STAT_BYTES) ∧
      Peer.unpackHeader hdr = some [MAGIC_RESP, 7, 0, 0] ∧
      Peer.unpackStat body = some [0, 2, ROW_BYTES, 5, 9] ∧
      Tools.stat body = some ⟨0, 2, ROW_BYTES, 5, 9⟩) ∧
    (∃ hdr body,
      response (stores (List.replicate 176 1)
        (fillRecharge ⟨1, 2, 3, 4, 5, 6, 7⟩ HDR_BYTES)) 7 ST_OK 0 RECHG_BYTES
          = hdr ++ body ∧
      (headerStores 7 ST_OK 0 ++
        fillRecharge ⟨1, 2, 3, 4, 5, 6, 7⟩ HDR_BYTES).map Prod.fst
          = List.range (HDR_BYTES + RECHG_BYTES) ∧
      Peer.unpackHeader hdr = some [MAGIC_RESP, 7, 0, 0] ∧
      Tools.recharge body = some ⟨1, 2, 3, 4, 5, 6, 7⟩) := by
  have hroom : HEADER + 4 * 2 ≤ (reserved.heap 0).req.length := by
    decide +kernel
  obtain ⟨hpack, hgather, hbare, hcall, hhdr, hstat, hrech⟩ :=
    wire_roundtrip reserved 0
      (by decide : 4 < 2 ^ 8) (by decide : 1024 < 2 ^ 16)
      (by decide : 7 < 2 ^ 32) (by decide : 0 < 2 ^ 32) [3, 1] (by decide)
      hroom (List.replicate 176 1)
      (by rw [List.length_replicate]; decide) 7 ST_BUSY 0 bothRows 5 9
      ⟨1, 2, 3, 4, 5, 6, 7⟩
  exact ⟨hpack, by decide +kernel, hgather, by decide +kernel, hbare, hcall,
    hhdr, hstat, hrech⟩

end PleRowServer.Wire
