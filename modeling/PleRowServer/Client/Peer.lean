/-
`_Peer` of client/ple_remote.py: one row server's socket, the range it
owns and its reusable buffers, with every method the table calls.

# Objects

Python's peers are mutable objects referred to from the table's list,
from the pairs a gather works on and from `_drain`'s dictionary, so the
state keeps them in a heap keyed by `PeerId` and a method takes the key.
`World` is the heap, the table object, the staging memory and the
history of what was asked of the environment.

# Buffers

`req` and `rows` are the byte buffers themselves: `send_gather` packs a
header over the first sixteen bytes of whatever `req` holds, and
`pump_rows` receives into `rows` at `_rd_got`, leaving the bytes beyond
as an earlier gather left them. The header scratch `_hdr_in` is always
filled before it is read, so `_recv_exact` returns the bytes instead.
-/
import PleRowServer.Base.Runs
import PleRowServer.Wire.Protocol
import PleRowServer.Client.Env
import Mathlib.Logic.Function.Basic

namespace PleRowServer.Client

open Base Wire

-- ================================================================= state

/-- `_Peer`. -/
structure Peer where
  host : String
  port : Nat
  addr : Addr
  sock : Option ConnId := none
  timeout : ℚ := 0
  /-- `_armed`: the timeout last set on the socket -/
  armed : ℚ := 0
  deadline : Option ℚ := none
  answered : Bool := false
  baseRow : Nat := 0
  rowCount : Nat := 0
  rowBytes : Nat := 0
  residentPages : Nat := 0
  servedRequests : Nat := 0
  cap : Nat := 0
  pending : Option Nat := none
  req : List UInt8 := []
  /-- the bytes behind `rows` and `rows_mv` -/
  rows : List UInt8 := []
  rdWant : Nat := 0
  rdGot : Nat := 0

/-- `str(peer)`. -/
def Peer.name (p : Peer) : String := s!"{p.host}:" ++ toString p.port

/-- What STAT reports. -/
structure Stat where
  peer : String
  baseRow : Nat
  rowCount : Nat
  rowBytes : Nat
  residentPages : Nat
  servedRequests : Nat
deriving DecidableEq, Repr

/-- A two-dimensional uint8 tensor: its rows and how many there are. -/
structure Buf where
  cap : Nat
  row : Nat → List UInt8

/-- `PLERemoteTable`. `staging` and `stagingNp` name the memory that the
tensor `_staging` and its numpy handle `_staging_np` point at. -/
structure RemoteTable where
  rowBytes : Nat
  rowsTotal : Nat
  maxRows : Int
  timeout : ℚ
  connectTimeout : ℚ
  connectDeadline : ℚ
  gatherDeadline : ℚ
  peers : List PeerId
  reqId : Nat := 0
  failed : Option String := none
  staging : Option Nat := none
  stagingNp : Option Nat := none
  sel : List (List Nat) := []

/-- The client process and its history. -/
structure World (env : Env) where
  heap : PeerId → Peer
  table : RemoteTable
  /-- tensor memory by allocation number -/
  bufs : Nat → Buf
  allocs : Nat
  hist : History env

variable {env : Env}

/-- A client program: it may raise, and keeps the state either way. -/
abbrev M (env : Env) := EStateM Exn (World env)

namespace World

/-- What happened so far. -/
abbrev tr (w : World env) : Trace := w.hist.tr

/-- The same state after one more entry. -/
def push (w : World env) (e : Ev) (he : env.Produces w.tr e) : World env :=
  { w with hist := w.hist.push e he }

/-- The same state with another peer object at `i`. -/
def setPeer (w : World env) (i : PeerId) (p : Peer) : World env :=
  { w with heap := Function.update w.heap i p }

end World

-- ========================================================= system calls

/-- A mark in the history. -/
def mark (e : Ev) (he : ∀ tr, env.Produces tr e) : M env Unit :=
  modify fun w => w.push e (he w.tr)

/-- `raise`. -/
def raise {α : Type} (e : Exn) : M env α := do
  mark (.raised e) (env.produces_raised · e)
  throw e

/-- `time.monotonic()`. -/
def now : M env ℚ :=
  modifyGet fun w =>
    (env.now w.tr, w.push (.now (env.now w.tr)) (env.produces_now w.tr))

/-- `time.sleep(t)`. -/
def sleep (t : ℚ) : M env Unit := do
  let r ← modifyGet fun w =>
    (env.sleep w.tr t,
      w.push (.slept t (env.sleep w.tr t)) (env.produces_slept w.tr t))
  match r with
  | .ok => pure ()
  | .fault why => raise (.transport why)
  | .interrupt => raise .interrupted

/-- `sock.settimeout(t)`. -/
def settimeout (c : ConnId) (t : ℚ) : M env Unit :=
  mark (.settimeout c t) (env.produces_settimeout · c t)

/-- The connection a create_connection to peer `i` opens next. -/
def World.nextConn (w : World env) (i : PeerId) : ConnId :=
  ⟨i, Trace.bound w.tr⟩

/-- The bare connect of the socket layer. -/
def sysConnect (i : PeerId) (addr : Addr) (timeout : ℚ) :
    M env (ConnId × Done) :=
  modifyGet fun w =>
    let c := w.nextConn i
    let r := env.connect w.tr c addr timeout
    ((c, r), w.push (.connect c addr timeout r)
      (env.produces_connect w.tr rfl addr timeout))

/-- `socket.create_connection`, to peer `i` at `addr`. -/
def createConnection (i : PeerId) (addr : Addr) (timeout : ℚ) :
    M env ConnId := do
  if timeout < 0 then raise .badTimeout
  let (c, r) ← sysConnect i addr timeout
  match r with
  | .ok => pure c
  | .fault why => raise (.transport why)
  | .interrupt => raise .interrupted

/-- The bare getpeername of the socket layer. -/
def sysPeername (c : ConnId) : M env (Except String Addr) :=
  modifyGet fun w =>
    (env.peername w.tr c,
      w.push (.peername c (env.peername w.tr c)) (env.produces_peername w.tr c))

/-- `sock.getpeername()`. -/
def getpeername (c : ConnId) : M env Addr := do
  match ← sysPeername c with
  | .ok addr => pure addr
  | .error why => raise (.transport why)

/-- The bare recv of the socket layer. -/
def sysRecv (c : ConnId) (want : Nat) : M env Got :=
  modifyGet fun w =>
    let r := (env.recv w.tr c want).clip want
    (r, w.push (.recv c want r) (env.produces_recv w.tr c want))

/-- The bare sendall of the socket layer. -/
def sysSend (c : ConnId) (data : List UInt8) : M env Sent :=
  modifyGet fun w =>
    let r := env.send w.tr c data
    (r, w.push (.send c data r) (env.produces_send w.tr c data))

/-- The bare select of the socket layer. -/
def sysSelect (cs : List ConnId) (wait : ℚ) : M env Ready :=
  modifyGet fun w =>
    let r := (env.select w.tr cs wait).among cs
    (r, w.push (.select cs wait r) (env.produces_select w.tr cs wait))

/-- `sock.close()`, as an RST when `abort`. -/
def sysClose (c : ConnId) (abort : Bool) : M env Unit :=
  mark (.close c abort) (env.produces_close · c abort)

-- ======================================================== peer methods

/-- The object behind a reference. -/
def peer (i : PeerId) : M env Peer := do return (← get).heap i

/-- Assign attributes of a peer object. -/
def modifyPeer (i : PeerId) (f : Peer → Peer) : M env Unit :=
  modify fun w => w.setPeer i (f (w.heap i))

namespace Peer

/-- `self.sock`, where a method of it is about to be called. -/
def socket (i : PeerId) : M env ConnId := do
  match (← peer i).sock with
  | some c => pure c
  | none => raise .noSocket

/-- `_Peer.connect`. -/
def connect (i : PeerId) (connectTimeout timeout : ℚ) : M env Unit := do
  let c ← createConnection i (← peer i).addr connectTimeout
  if timeout < 0 then raise .badTimeout
  settimeout c timeout
  modifyPeer i fun p =>
    { p with sock := some c, timeout := timeout, armed := timeout }
  let addr ← getpeername c
  modifyPeer i fun p => { p with addr := addr }

/-- `_Peer.close`. -/
def close (i : PeerId) (abort : Bool) : M env Unit := do
  let p ← peer i
  modifyPeer i fun p => { p with sock := none, pending := none }
  match p.sock with
  | none => pure ()
  | some c => sysClose c abort

/-- What `_arm` computes before it touches the socket. -/
def budget (p : Peer) : M env ℚ := do
  match p.deadline with
  | none => pure p.timeout
  | some deadline =>
      let budget := min p.timeout (deadline - (← now))
      if budget ≤ 0 then raise (.deadlinePassed p.name)
      pure budget

/-- `_Peer._arm`. -/
def arm (i : PeerId) : M env Unit := do
  let p ← peer i
  let budget ← budget p
  if budget ≠ p.armed then
    settimeout (← socket i) budget
    modifyPeer i fun p => { p with armed := budget }

/-- `_Peer._recv`: the bytes one recv_into of at most `want` stored. -/
def recv (i : PeerId) (want : Nat) : M env (List UInt8) := do
  arm i
  let p ← peer i
  match ← sysRecv (← socket i) want with
  | .data bs => pure bs
  | .timeout => raise (.noData p.name p.armed)
  | .fault why => raise (.transport why)
  | .interrupt => raise .interrupted

/-- `self._arm()` and `self.sock.sendall(data)`. -/
def sendall (i : PeerId) (data : List UInt8) : M env Unit := do
  arm i
  match ← sysSend (← socket i) data with
  | .all => pure ()
  | .fault why _ => raise (.transport why)
  | .interrupt _ => raise .interrupted

/-- `_Peer.reserve`. `memoryview.cast` refuses a buffer of zero-byte
rows, so a table of them never gets past here. -/
def reserve (i : PeerId) (rows : Nat) : M env Unit := do
  let p ← peer i
  if rows ≤ p.cap then pure ()
  else
    let cap := max rows 4096
    modifyPeer i fun p => { p with
      req := List.replicate (HEADER + 4 * cap) 0 }
    if p.rowBytes = 0 then raise .castZeros
    modify fun w =>
      { w with allocs := w.allocs + 1 }.setPeer i { w.heap i with
        rows := (List.range (cap * p.rowBytes)).map (env.uninit w.allocs)
        cap := cap }

/-- `np.copyto(peer.req_ids[:k], ids, casting="unsafe")`: each id's low
32 bits, from offset 16 of `req`. -/
def copyIds (i : PeerId) (ids : List Int) : M env Unit :=
  modifyPeer i fun p => { p with
    req := splice p.req HEADER
      (ids.flatMap fun id => leBytes 4 (id % 2 ^ 32).toNat) }

/-- `struct.pack("<IBBHII", MAGIC_REQ, VERSION, op, arg, req_id, count)`. -/
def packRequest (op arg reqId count : Nat) : Option (List UInt8) :=
  pack [.I, .B, .B, .H, .I, .I] [MAGIC_REQ, VERSION, op, arg, reqId, count]

/-- `_Peer.send_gather`. -/
def sendGather (i : PeerId) (reqId count : Nat) : M env Unit := do
  match packRequest OP_GATHER 0 reqId count with
  | none => raise .structError
  | some hdr =>
      modifyPeer i fun p => { p with req := splice p.req 0 hdr }
      let p ← peer i
      sendall i (p.req.take (HEADER + 4 * count))
      modifyPeer i fun p => { p with pending := some reqId }

/-- `_Peer.send_bare`. -/
def sendBare (i : PeerId) (op reqId : Nat) : M env Unit := do
  match packRequest op 0 reqId 0 with
  | none => raise .structError
  | some hdr =>
      sendall i hdr
      modifyPeer i fun p => { p with pending := some reqId }

/-- The loop of `_recv_exact`. Every round that returns adds a byte, so
`want` rounds are enough. -/
def recvLoop (i : PeerId) (want : Nat) :
    Nat → List UInt8 → M env (List UInt8)
  | rounds, got =>
      if want ≤ got.length then pure got
      else match rounds with
        | 0 => raise .outOfRounds
        | rounds + 1 => do
            let bs ← recv i (want - got.length)
            if bs = [] then
              raise (.closedAfter (← peer i).name got.length want)
            recvLoop i want rounds (got ++ bs)

/-- `_Peer._recv_exact`. -/
def recvExact (i : PeerId) (want : Nat) : M env (List UInt8) :=
  recvLoop i want want []

/-- `struct.unpack_from("<IIII", self._hdr_in)`. -/
def unpackHeader (hdr : List UInt8) : Option (List Nat) :=
  unpack [.I, .I, .I, .I] hdr

/-- The checks of `_read_header` on the four fields. -/
def checkHeader (i : PeerId) (magic reqId status count : Nat) :
    M env Nat := do
  let p ← peer i
  if magic ≠ MAGIC_RESP then raise (.badMagic p.name magic)
  if some reqId ≠ p.pending then raise (.outOfSync p.name reqId p.pending)
  modifyPeer i fun p => { p with pending := none }
  if status ≠ 0 then raise (.rejected p.name status)
  pure count

/-- `_Peer._read_header`. -/
def readHeader (i : PeerId) : M env Nat := do
  match unpackHeader (← recvExact i HEADER) with
  | some [magic, reqId, status, count] =>
      checkHeader i magic reqId status count
  | _ => raise .structError

/-- `_Peer.begin_rows`. -/
def beginRows (i : PeerId) (count : Nat) : M env Unit := do
  let got ← readHeader i
  if got ≠ count then raise (.rowCount (← peer i).name got count)
  modifyPeer i fun p => { p with
    rdWant := count * p.rowBytes, rdGot := 0 }

/-- `_Peer.pump_rows`. -/
def pumpRows (i : PeerId) : M env Bool := do
  let p ← peer i
  let bs ← recv i (p.rdWant - p.rdGot)
  if bs = [] then raise (.closedAfter p.name p.rdGot p.rdWant)
  modifyPeer i fun p => { p with
    rows := splice p.rows p.rdGot bs
    rdGot := p.rdGot + bs.length
    answered := decide (p.rdWant ≤ p.rdGot + bs.length) }
  return (← peer i).answered

/-- The loop of `finish_rows`; every round that returns adds a byte. -/
def finishLoop (i : PeerId) : Nat → M env Unit
  | 0 => do
      let p ← peer i
      if p.rdGot < p.rdWant then raise .outOfRounds
  | rounds + 1 => do
      let p ← peer i
      if p.rdGot < p.rdWant then
        let _ ← pumpRows i
        finishLoop i rounds

/-- `_Peer.finish_rows`. -/
def finishRows (i : PeerId) : M env Unit := do
  let p ← peer i
  finishLoop i (p.rdWant - p.rdGot)

/-- `_Peer.read_ack`. -/
def readAck (i : PeerId) : M env Unit := do
  if (← readHeader i) ≠ 0 then raise (.ackRows (← peer i).name)

/-- `struct.unpack("<QQIIQ", body)`. -/
def unpackStat (body : List UInt8) : Option (List Nat) :=
  unpack [.Q, .Q, .I, .I, .Q] body

/-- `_Peer.query_stat`. -/
def queryStat (i : PeerId) (reqId : Nat) : M env Stat := do
  sendBare i OP_STAT reqId
  if (← readHeader i) ≠ 0 then raise (.statRows (← peer i).name)
  match unpackStat (← recvExact i STAT_BODY) with
  | some [base, rows, rowBytes, residentPages, served] =>
      return ⟨(← peer i).name, base, rows, rowBytes, residentPages, served⟩
  | _ => raise .structError

end Peer

end PleRowServer.Client
