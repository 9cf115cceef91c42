/-
rowserverd.c, byte order and message bodies: the loads and stores the
server reads a request with and writes an answer with, at the literal
offsets of the source.

A writer is the list of its byte stores. `Writes` says of such a list
that it covers its stretch of the buffer byte by byte, each once, so the
layout lemmas below (`sendHeader_writes`, `fillStat_writes`,
`fillRecharge_writes`) state at once what a message holds and that no
two fields overlap and no gap is left.
-/
import PleRowServer.Base.Words
import PleRowServer.Wire.Protocol

namespace PleRowServer.Daemon

open Base

-- ============================================================ constants

def REQ_MAGIC : UInt32 := 0x52454C50
def RESP_MAGIC : UInt32 := 0x50534552
def PROTO_VER : UInt8 := 1
def HDR_BYTES : Nat := 16
def STAT_BYTES : Nat := 32
def RECHG_BYTES : Nat := 40
def ROW_BYTES : Nat := 160

def ST_OK : UInt32 := 0
def ST_BAD_HEADER : UInt32 := 1
def ST_BAD_OP : UInt32 := 2
def ST_RANGE : UInt32 := 3
def ST_TOO_MANY : UInt32 := 4
def ST_INTERNAL : UInt32 := 5
def ST_BAD_PARAM : UInt32 := 6
def ST_BUSY : UInt32 := 7

def UINT32_MAX : Nat := 4294967295

-- ================================================================ state

/-- `struct server`, once main has filled it in. `map` is the mapping,
`map_len` its length. -/
structure Server where
  map : List UInt8
  pageSize : Nat
  baseRow : UInt64
  rowCount : UInt64
  base32 : UInt32
  rows32 : UInt32
  maxRows : UInt32
  threads : Nat

/-- `struct recharge_report`. -/
structure RechargeReport where
  pagesBefore : UInt64
  pagesAfter : UInt64
  pagesRecharged : UInt64
  slicesDone : UInt32
  slicesTotal : UInt32
  slicePages : UInt32
  elapsedMs : UInt32
deriving DecidableEq, Repr

-- ================================================================ loads

/-- `rd_u16`. -/
def rdU16 (p : List UInt8) (off : Nat) : UInt16 :=
  (p.getD off 0).toUInt16 ||| (p.getD (off + 1) 0).toUInt16 <<< 8

/-- `rd_u32`. -/
def rdU32 (p : List UInt8) (off : Nat) : UInt32 :=
  (p.getD off 0).toUInt32 ||| (p.getD (off + 1) 0).toUInt32 <<< 8 |||
    (p.getD (off + 2) 0).toUInt32 <<< 16 |||
    (p.getD (off + 3) 0).toUInt32 <<< 24

/-- What serve_conn reads out of a request header. -/
structure Header where
  magic : UInt32
  version : UInt8
  op : UInt8
  arg : UInt16
  reqId : UInt32
  count : UInt32
deriving DecidableEq, Repr

/-- The field reads of serve_conn. -/
def parseHeader (hdr : List UInt8) : Header where
  magic := rdU32 hdr 0
  version := hdr.getD 4 0
  op := hdr.getD 5 0
  arg := rdU16 hdr 6
  reqId := rdU32 hdr 8
  count := rdU32 hdr 12

-- =============================================================== stores

/-- `wr_u32`. -/
def wrU32 (p : Nat) (v : UInt32) : List Store :=
  [(p, v.toUInt8), (p + 1, (v >>> 8).toUInt8), (p + 2, (v >>> 16).toUInt8),
    (p + 3, (v >>> 24).toUInt8)]

/-- `wr_u64`. -/
def wrU64 (p : Nat) (v : UInt64) : List Store :=
  wrU32 p v.toUInt32 ++ wrU32 (p + 4) (v >>> 32).toUInt32

/-- The stores of send_response, into the front of its buffer. -/
def headerStores (reqId status count : UInt32) : List Store :=
  wrU32 0 RESP_MAGIC ++ wrU32 4 reqId ++ wrU32 8 status ++ wrU32 12 count

/-- What `send_response(fd, buf, req_id, status, count, body)` writes to
the connection. -/
def response (buf : List UInt8) (reqId status count : UInt32) (body : Nat) :
    List UInt8 :=
  (stores buf (headerStores reqId status count)).take (HDR_BYTES + body)

/-- The stores of fill_stat at `body`, `pages` being what resident_pages
returned. -/
def fillStat (s : Server) (pages served : UInt64) (body : Nat) :
    List Store :=
  wrU64 body s.baseRow ++ wrU64 (body + 8) s.rowCount ++
    wrU32 (body + 16) (UInt32.ofNat ROW_BYTES) ++
    wrU32 (body + 20) (if pages.toNat > UINT32_MAX then
      UInt32.ofNat UINT32_MAX else pages.toUInt32) ++
    wrU64 (body + 24) served

/-- The stores of fill_recharge at `body`. -/
def fillRecharge (rep : RechargeReport) (body : Nat) : List Store :=
  wrU64 body rep.pagesBefore ++ wrU64 (body + 8) rep.pagesAfter ++
    wrU64 (body + 16) rep.pagesRecharged ++
    wrU32 (body + 24) rep.slicesDone ++ wrU32 (body + 28) rep.slicesTotal ++
    wrU32 (body + 32) rep.slicePages ++ wrU32 (body + 36) rep.elapsedMs

-- ===================================================== what a load reads

/-- `rd_u32` reads the little-endian number at its offset. -/
theorem rdU32_toNat {p : List UInt8} {off : Nat} (h : off + 4 ≤ p.length) :
    (rdU32 p off).toNat = natAt p off 4 := by
  have hload := loads_eq 4 h
  simp only [List.range_succ, List.range_zero, List.nil_append,
    List.cons_append, List.map_cons, List.map_nil, Nat.add_zero] at hload
  rw [natAt, ← hload]
  exact toNat_or_four _ _ _ _

/-- `rdU16` reads the number its two bytes stand for. -/
theorem rdU16_toNat {p : List UInt8} {off : Nat} (h : off + 2 ≤ p.length) :
    (rdU16 p off).toNat = natAt p off 2 := by
  have hload := loads_eq 2 h
  simp only [List.range_succ, List.range_zero, List.nil_append,
    List.cons_append, List.map_cons, List.map_nil, Nat.add_zero] at hload
  rw [natAt, ← hload]
  exact toNat_or_two _ _

/-- One byte read is the number it stands for. -/
theorem getD_toNat {p : List UInt8} {off : Nat} (h : off + 1 ≤ p.length) :
    (p.getD off 0).toNat = natAt p off 1 := by
  have hload := loads_eq 1 h
  simp only [List.range_succ, List.range_zero, List.nil_append,
    List.map_cons, List.map_nil, Nat.add_zero] at hload
  rw [natAt, ← hload]
  simp [leNat]

-- =================================================== what a store writes

/-- `wrU32` writes the four little-endian bytes of its word. -/
theorem wrU32_writes (p : Nat) (v : UInt32) :
    Writes (wrU32 p v) p (leBytes 4 v.toNat) := by
  refine ⟨rfl, ?_⟩
  rw [← bytes32_eq]
  rfl

/-- `wrU64` writes the eight little-endian bytes of its word. -/
theorem wrU64_writes (p : Nat) (v : UInt64) :
    Writes (wrU64 p v) p (leBytes 8 v.toNat) := by
  have hlow : leBytes 4 v.toUInt32.toNat = leBytes 4 v.toNat := by
    rw [UInt64.toNat_toUInt32]
    exact leBytes_mod 4 v.toNat
  have hhigh : leBytes 4 (v >>> 32).toUInt32.toNat
      = leBytes 4 (v.toNat / 256 ^ 4) := by
    rw [UInt64.toNat_toUInt32, UInt64.toNat_shiftRight]
    refine (leBytes_mod 4 _).trans ?_
    show leBytes 4 (v.toNat >>> 32) = _
    rw [Nat.shiftRight_eq_div_pow]
    rfl
  have h := (wrU32_writes p v.toUInt32).append
    (wrU32_writes (p + 4) (v >>> 32).toUInt32) (by simp)
  rw [hlow, hhigh, ← leBytes_add] at h
  exact h

/-- What send_response stores is the packed response header. -/
theorem sendHeader_writes (reqId status count : UInt32) :
    ∃ bs, pack [.I, .I, .I, .I]
        [RESP_MAGIC.toNat, reqId.toNat, status.toNat, count.toNat]
          = some bs ∧
      Writes (headerStores reqId status count) 0 bs := by
  refine ⟨_, ?_, (((wrU32_writes 0 RESP_MAGIC).append
    (wrU32_writes 4 reqId) (by simp)).append
    (wrU32_writes 8 status) (by simp)).append
    (wrU32_writes 12 count) (by simp)⟩
  rw [pack_cons (by decide), pack_cons reqId.toNat_lt,
    pack_cons status.toNat_lt, pack_cons count.toNat_lt]
  simp [pack, Code.width]

/-- The page count STAT reports: saturated at the largest u32. -/
def residentField (pages : UInt64) : Nat := min pages.toNat UINT32_MAX

/-- What fill_stat stores is the packed STAT body. -/
theorem fillStat_writes (s : Server) (pages served : UInt64) (body : Nat) :
    ∃ bs, pack [.Q, .Q, .I, .I, .Q] [s.baseRow.toNat, s.rowCount.toNat,
          ROW_BYTES, residentField pages, served.toNat] = some bs ∧
      Writes (fillStat s pages served body) body bs := by
  have hp : (if pages.toNat > UINT32_MAX then UInt32.ofNat UINT32_MAX
      else pages.toUInt32).toNat = residentField pages := by
    unfold residentField
    split
    case isTrue hgt => rw [Nat.min_eq_right hgt.le]; rfl
    case isFalse hle =>
      rw [UInt64.toNat_toUInt32, Nat.min_eq_left (Nat.not_lt.mp hle)]
      exact Nat.mod_eq_of_lt (by unfold UINT32_MAX at hle; omega)
  refine ⟨_, ?_, ((((wrU64_writes body s.baseRow).append
    (wrU64_writes (body + 8) s.rowCount) (by simp)).append
    (wrU32_writes (body + 16) _) (by simp)).append
    (wrU32_writes (body + 20) _) (by simp)).append
    (wrU64_writes (body + 24) served) (by simp)⟩
  have hf : residentField pages < 256 ^ 4 := by
    unfold residentField UINT32_MAX
    omega
  rw [hp, pack_cons s.baseRow.toNat_lt, pack_cons s.rowCount.toNat_lt,
    pack_cons (by decide), pack_cons hf, pack_cons served.toNat_lt]
  simp [pack, Code.width, ROW_BYTES]

/-- What fill_recharge stores is the packed RECHARGE body. -/
theorem fillRecharge_writes (rep : RechargeReport) (body : Nat) :
    ∃ bs, pack [.Q, .Q, .Q, .I, .I, .I, .I] [rep.pagesBefore.toNat,
          rep.pagesAfter.toNat, rep.pagesRecharged.toNat,
          rep.slicesDone.toNat, rep.slicesTotal.toNat,
          rep.slicePages.toNat, rep.elapsedMs.toNat] = some bs ∧
      Writes (fillRecharge rep body) body bs := by
  refine ⟨_, ?_, ((((((wrU64_writes body rep.pagesBefore).append
    (wrU64_writes (body + 8) rep.pagesAfter) (by simp)).append
    (wrU64_writes (body + 16) rep.pagesRecharged) (by simp)).append
    (wrU32_writes (body + 24) rep.slicesDone) (by simp)).append
    (wrU32_writes (body + 28) rep.slicesTotal) (by simp)).append
    (wrU32_writes (body + 32) rep.slicePages) (by simp)).append
    (wrU32_writes (body + 36) rep.elapsedMs) (by simp)⟩
  rw [pack_cons rep.pagesBefore.toNat_lt, pack_cons rep.pagesAfter.toNat_lt,
    pack_cons rep.pagesRecharged.toNat_lt, pack_cons rep.slicesDone.toNat_lt,
    pack_cons rep.slicesTotal.toNat_lt, pack_cons rep.slicePages.toNat_lt,
    pack_cons rep.elapsedMs.toNat_lt]
  simp [pack, Code.width]

-- ====================================================== whole messages

/-- A header in front of what the buffer holds behind it. -/
theorem response_eq {buf : List UInt8} {reqId status count : UInt32}
    {body : Nat} (hroom : HDR_BYTES + body ≤ buf.length) {hdr : List UInt8}
    (h : Writes (headerStores reqId status count) 0 hdr)
    (hlen : hdr.length = HDR_BYTES) :
    response buf reqId status count body
      = hdr ++ bytesAt buf HDR_BYTES body := by
  unfold response
  rw [h.stores (by omega), take_splice_zero (by omega) hroom, hlen,
    Nat.add_sub_cancel_left]
  rfl

/-- The header of a request reads as the packed fields. -/
theorem parseHeader_pack {op arg reqId count : Nat} {hdr : List UInt8}
    (h : pack [.I, .B, .B, .H, .I, .I]
      [Wire.MAGIC_REQ, Wire.VERSION, op, arg, reqId, count] = some hdr) :
    (parseHeader hdr).magic = REQ_MAGIC ∧
      (parseHeader hdr).version = PROTO_VER ∧
      (parseHeader hdr).op.toNat = op ∧
      (parseHeader hdr).arg.toNat = arg ∧
      (parseHeader hdr).reqId.toNat = reqId ∧
      (parseHeader hdr).count.toNat = count := by
  have hlen : hdr.length = 16 := length_of_pack h
  have hf := fieldsAt_of_pack h
  simp only [fieldsAt, Code.width, List.cons.injEq, and_true] at hf
  obtain ⟨hm, hv, ho, ha, hr, hc⟩ := hf
  unfold parseHeader
  refine ⟨?_, ?_, ?_, ?_, ?_, ?_⟩
  · apply UInt32.toNat_inj.mp
    rw [rdU32_toNat (by omega), hm]
    rfl
  · apply UInt8.toNat_inj.mp
    rw [getD_toNat (by omega), hv]
    rfl
  · exact (getD_toNat (by omega)).trans ho
  · exact (rdU16_toNat (by omega)).trans ha
  · exact (rdU32_toNat (by omega)).trans hr
  · exact (rdU32_toNat (by omega)).trans hc

end PleRowServer.Daemon
