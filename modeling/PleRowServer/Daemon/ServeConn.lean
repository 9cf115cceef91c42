/-
rowserverd.c, one connection: `read_full`, `write_full`, `drain`,
`send_response` and `serve_conn`, as programs over the reads and writes
they make.

A read hands over one chunk of the incoming stream, of any length up to
what was asked, or none: the peer closed, a signal, the receive timeout
or an error. A write takes some of what it is offered. Every loop runs
at most `fuel` rounds, and one that runs out leaves the connection where
it stands (`Stop.waiting`), so the runs for all `fuel` are all finite
beginnings of everything the thread may do.

The sweep of a RECHARGE is one action here: what it does to the mapping
is in Recharge.lean, and only its status and its report are answered.
-/
import PleRowServer.Daemon.Gather
import PleRowServer.Base.Prog

namespace PleRowServer.Daemon

open Base

-- =========================================================== constants

def OP_GATHER : UInt8 := 1
def OP_PING : UInt8 := 2
def OP_STAT : UInt8 := 3
def OP_RECHARGE : UInt8 := 4
def MAX_DRAIN_BYTES : Nat := 64 * 2 ^ 20

-- ============================================================= actions

/-- One call of a connection's thread. -/
inductive Sock
  /-- `read(fd, p, n)` -/
  | read (n : Nat)
  /-- `write(fd, p, n)`, of these bytes -/
  | write (data : List UInt8)
  /-- `atomic_fetch_add(&served_requests, 1)` -/
  | count
  /-- `atomic_load(&served_requests)` -/
  | served
  /-- `resident_pages(s)` -/
  | resident
  /-- `recharge_map(s, arg, &rep)` -/
  | recharge (arg : UInt16)

/-- What a read returns: at least one byte, and no more than asked. -/
inductive ReadAnswer (n : Nat)
  | data (bs : List UInt8) (some : bs ≠ []) (le : bs.length ≤ n)
  | eof
  | eintr
  | eagain
  | error

/-- What a write of `n` bytes returns. -/
inductive WriteAnswer (n : Nat)
  | wrote (k : Nat) (some : 0 < k) (le : k ≤ n)
  | zero
  | eintr
  | error

/-- What a call returns. -/
def Sock.Reply : Sock → Type
  | .read n => ReadAnswer n
  | .write data => WriteAnswer data.length
  | .count => Unit
  | .served => UInt64
  | .resident => UInt64
  | .recharge _ => UInt32 × RechargeReport

/-- The thread of one connection. -/
abbrev Serving (α : Type) := Prog Sock Sock.Reply α

def readFd (n : Nat) : Serving (ReadAnswer n) := Prog.perform (Sock.read n)

def writeFd (data : List UInt8) : Serving (WriteAnswer data.length) :=
  Prog.perform (Sock.write data)

def countRequest : Serving Unit := Prog.perform Sock.count
def servedRequests : Serving UInt64 := Prog.perform Sock.served
def callResident : Serving UInt64 := Prog.perform Sock.resident

def callRecharge (arg : UInt16) : Serving (UInt32 × RechargeReport) :=
  Prog.perform (Sock.recharge arg)

-- =========================================================== socket io

/-- What `read_full` returns; `spent` when it is still reading. -/
inductive Rd
  | ok (bs : List UInt8)
  | eof
  | timeout
  | err
  | spent
deriving DecidableEq

/-- The loop of `read_full`, `got` of `n` bytes read. -/
def readLoop (n : Nat) : Nat → List UInt8 → Serving Rd
  | fuel, got =>
      if n ≤ got.length then pure (.ok got)
      else match fuel with
        | 0 => pure .spent
        | fuel + 1 => do
            match ← readFd (n - got.length) with
            | .data bs _ _ => readLoop n fuel (got ++ bs)
            | .eof => pure (if got = [] then .eof else .err)
            | .eintr => readLoop n fuel got
            | .eagain => pure (if got = [] then .timeout else .err)
            | .error => pure .err

/-- `read_full(fd, buf, n)`: the bytes it left in `buf`. -/
def readFull (fuel n : Nat) : Serving Rd := readLoop n fuel []

/-- What `write_full`, `drain` and `send_response` return. -/
inductive Io
  | ok
  | err
  | spent
deriving DecidableEq

/-- The loop of `write_full`, with `data` still to send. -/
def writeLoop : Nat → List UInt8 → Serving Io
  | fuel, data =>
      if data = [] then pure .ok
      else match fuel with
        | 0 => pure .spent
        | fuel + 1 => do
            match ← writeFd data with
            | .wrote k _ _ => writeLoop fuel (data.drop k)
            | .eintr => writeLoop fuel data
            | .zero => pure .err
            | .error => pure .err

/-- `write_full`. -/
def writeFull (fuel : Nat) (data : List UInt8) : Serving Io :=
  writeLoop fuel data

/-- The loop of `drain`, and what it leaves in its scratch buffer. -/
def drainLoop (fuel : Nat) :
    Nat → Nat → List UInt8 → Serving (List UInt8 × Io)
  | rounds, bytes, scratch =>
      if bytes = 0 then pure (scratch, .ok)
      else match rounds with
        | 0 => pure (scratch, .spent)
        | rounds + 1 => do
            let n := if bytes < scratch.length then bytes
              else scratch.length
            match ← readFull fuel n with
            | .ok bs =>
                drainLoop fuel rounds (bytes - n) (splice scratch 0 bs)
            | .spent => pure (scratch, .spent)
            | _ => pure (scratch, .err)

/-- `drain`. -/
def drain (fuel : Nat) (scratch : List UInt8) (bytes : Nat) :
    Serving (List UInt8 × Io) :=
  if MAX_DRAIN_BYTES < bytes then pure (scratch, .err)
  else drainLoop fuel fuel bytes scratch

/-- `send_response`: the buffer with the header in it, and how the write
went. -/
def sendResponse (fuel : Nat) (buf : List UInt8)
    (reqId status count : UInt32) (body : Nat) :
    Serving (List UInt8 × Io) := do
  let buf := stores buf (headerStores reqId status count)
  return (buf, ← writeFull fuel (buf.take (HDR_BYTES + body)))

-- ============================================================== serving

/-- The two buffers of a connection. -/
structure Buffers where
  resp : List UInt8
  ids : List UInt8

/-- Why a connection's loop ended, or that it has not. -/
inductive Stop
  | waiting
  /-- the peer closed between requests -/
  | eof
  /-- a read failed -/
  | cut
  | badHeader
  /-- the ids were not, or could not be, drained -/
  | oversize
  /-- a response could not be written -/
  | unwritten
  /-- there were no buffers -/
  | starved
  /-- an access outside its buffer -/
  | fault (f : Fault)
deriving DecidableEq

/-- How the loop goes on after a request. -/
inductive Next
  | go (b : Buffers)
  | stop (why : Stop)

/-- `if (send_response(..) != 0) break;` -/
def respond (fuel : Nat) (b : Buffers) (reqId status count : UInt32)
    (body : Nat) : Serving Next := do
  match ← sendResponse fuel b.resp reqId status count body with
  | (resp, .ok) => pure (.go { b with resp := resp })
  | (_, .err) => pure (.stop .unwritten)
  | (_, .spent) => pure (.stop .waiting)

/-- `send_response(..); break;` -/
def part (fuel : Nat) (b : Buffers) (reqId status : UInt32) (why : Stop) :
    Serving Next := do
  match ← sendResponse fuel b.resp reqId status 0 0 with
  | (_, .spent) => pure (.stop .waiting)
  | _ => pure (.stop why)

/-- The part of the loop for a GATHER of at most `max_rows` ids. -/
def serveGather (s : Server) (fuel : Nat) (b : Buffers)
    (reqId count : UInt32) : Serving Next := do
  let ids ← if 0 < count then readFull fuel (4 * count.toNat)
    else pure (.ok [])
  match ids with
  | .spent => pure (.stop .waiting)
  | .ok bs =>
      let ids := splice b.ids 0 bs
      match gatherRows s ids count b.resp (UInt64.ofNat HDR_BYTES) with
      | .error f => pure (.stop (.fault f))
      | .ok (st, resp) =>
          if st ≠ ST_OK then respond fuel ⟨resp, ids⟩ reqId st 0 0
          else
            respond fuel ⟨resp, ids⟩ reqId ST_OK count
              (count.toNat * ROW_BYTES)
  | _ => pure (.stop .cut)

/-- The part of the loop behind the drain, for every other op. -/
def serveBare (s : Server) (fuel : Nat) (b : Buffers) (h : Header) :
    Serving Next :=
  if h.op = OP_PING then respond fuel b h.reqId ST_OK 0 0
  else if h.op = OP_STAT then do
    let pages ← callResident
    let served ← servedRequests
    let resp := stores b.resp (fillStat s pages served HDR_BYTES)
    respond fuel { b with resp := resp } h.reqId ST_OK 0 STAT_BYTES
  else if h.op = OP_RECHARGE then do
    let (rst, rep) ← callRecharge h.arg
    if rst ≠ ST_OK then respond fuel b h.reqId rst 0 0
    else
      let resp := stores b.resp (fillRecharge rep HDR_BYTES)
      respond fuel { b with resp := resp } h.reqId ST_OK 0 RECHG_BYTES
  else respond fuel b h.reqId ST_BAD_OP 0 0

/-- Bytes of ids a header announces. -/
def Header.idBytes (h : Header) : Nat := 4 * h.count.toNat

/-- The body of the loop, from a whole header on. -/
def serveHeader (s : Server) (fuel : Nat) (b : Buffers) (h : Header) :
    Serving Next := do
  if h.magic ≠ REQ_MAGIC ∨ h.version ≠ PROTO_VER then
    part fuel b h.reqId ST_BAD_HEADER .badHeader
  else
    countRequest
    if h.op = OP_GATHER ∧ ¬ h.count > s.maxRows then
      serveGather s fuel b h.reqId h.count
    else
      let drained ← if h.op = OP_GATHER ∨ 0 < h.count then
          drain fuel b.ids h.idBytes
        else pure (b.ids, .ok)
      match drained with
      | (_, .spent) => pure (.stop .waiting)
      | (ids, .err) =>
          part fuel { b with ids := ids } h.reqId ST_TOO_MANY .oversize
      | (ids, .ok) =>
          if h.op = OP_GATHER then
            respond fuel { b with ids := ids } h.reqId ST_TOO_MANY 0 0
          else serveBare s fuel { b with ids := ids } h

/-- The request loop of `serve_conn`. -/
def serveLoop (s : Server) (fuel : Nat) : Nat → Buffers → Serving Stop
  | 0, _ => pure .waiting
  | rounds + 1, b => do
      match ← readFull fuel HDR_BYTES with
      | .eof => pure .eof
      | .timeout => serveLoop s fuel rounds b
      | .err => pure .cut
      | .spent => pure .waiting
      | .ok hdr =>
          match ← serveHeader s fuel b (parseHeader hdr) with
          | .stop why => pure why
          | .go b => serveLoop s fuel rounds b

/-- A connection without buffers: the first header is answered and the
connection goes. -/
def serveStarved (fuel : Nat) : Serving Stop := do
  match ← readFull fuel HDR_BYTES with
  | .ok hdr =>
      match ← sendResponse fuel hdr (rdU32 hdr 8) ST_INTERNAL 0 0 with
      | (_, .spent) => pure .waiting
      | _ => pure .starved
  | .spent => pure .waiting
  | _ => pure .starved

/-- `serve_conn`, from its two allocations on. -/
def serveConn (s : Server) (fuel : Nat) (b : Option Buffers) : Serving Stop :=
  match b with
  | none => serveStarved fuel
  | some b => serveLoop s fuel fuel b

end PleRowServer.Daemon
