/-
tools/recharge_cache.py, the class Client: one request of 16 bytes, one
answer of a header and a body of fixed size.
-/
import PleRowServer.Wire.Protocol

namespace PleRowServer.Tools

open Base Wire

/-- Why a call of the tool raises, apart from the transport. -/
inductive CallError
  | badResponse (magic reqId : Nat)
  | status (status : Nat)
  | rows (count : Nat)
  | structError
deriving DecidableEq, Repr

/-- `(self.req_id + 1) & 0xFFFFFFFF`. -/
def nextReqId (reqId : Nat) : Nat := (reqId + 1) % 2 ^ 32

/-- `struct.pack("<IBBHII", MAGIC_REQ, VERSION, op, arg, req_id, 0)`. -/
def packCall (op arg reqId : Nat) : Option (List UInt8) :=
  pack [.I, .B, .B, .H, .I, .I] [MAGIC_REQ, VERSION, op, arg, reqId, 0]

/-- What `_call` makes of the header it reads back. -/
def checkAnswer (reqId : Nat) (hdr : List UInt8) : Except CallError Unit :=
  match unpack [.I, .I, .I, .I] hdr with
  | some [magic, rid, status, count] =>
      if magic ≠ MAGIC_RESP ∨ rid ≠ reqId then
        .error (.badResponse magic rid)
      else if status ≠ 0 then .error (.status status)
      else if count ≠ 0 then .error (.rows count)
      else .ok ()
  | _ => .error .structError

/-- The dictionary `stat` returns. -/
structure StatDict where
  baseRow : Nat
  rowCount : Nat
  rowBytes : Nat
  residentPages : Nat
  servedRequests : Nat
deriving DecidableEq, Repr

/-- `stat`, on the body `_call` returns. -/
def stat (body : List UInt8) : Option StatDict :=
  match unpack [.Q, .Q, .I, .I, .Q] body with
  | some [base, rows, rowBytes, resident, served] =>
      some ⟨base, rows, rowBytes, resident, served⟩
  | _ => none

/-- The dictionary `recharge` returns. -/
structure RechargeDict where
  pagesBefore : Nat
  pagesAfter : Nat
  pagesRecharged : Nat
  slicesDone : Nat
  slicesTotal : Nat
  slicePages : Nat
  elapsedMs : Nat
deriving DecidableEq, Repr

/-- `recharge`, on the body `_call` returns. -/
def recharge (body : List UInt8) : Option RechargeDict :=
  match unpack [.Q, .Q, .Q, .I, .I, .I, .I] body with
  | some [before, after, recharged, done, total, slicePages, ms] =>
      some ⟨before, after, recharged, done, total, slicePages, ms⟩
  | _ => none

end PleRowServer.Tools
