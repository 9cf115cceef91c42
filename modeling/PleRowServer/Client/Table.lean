/-
`PLERemoteTable` of client/ple_remote.py: construction, the gather with
its partition, exchange and retries, and the calls that share its
sockets.

# Two halves of a gather

`gather_cpu` takes its output view and checks `_failed` before it takes
the table lock, and does everything else under the lock. The model keeps
the two halves apart (`gatherEnter`, `gatherLocked`), so that one thread
runs them back to back (`gatherCpu`) and several threads interleave
them.

# Loops

`_exchange`, `_partition` and the staging of requests recurse over the
lists the source iterates. `_connect` retries until a clock it does not
control passes a deadline, so it recurses on `Env.rounds`; `_drain`
cannot run longer than the bytes it still expects, so it recurses on
their number.
-/
import PleRowServer.Client.Peer
import Mathlib.Data.List.Sort

namespace PleRowServer.Client

open Base Wire

variable {env : Env}

/-- `GATHER_ATTEMPTS`. -/
def GATHER_ATTEMPTS : Nat := 3

/-- A peer and the positions of the ids it owns. -/
abbrev Share := PeerId × List Nat

/-- A tensor as the caller holds it: which memory, how many rows. -/
structure View where
  buf : Nat
  n : Nat
deriving DecidableEq, Repr

/-- The rows a view shows. -/
def View.read (v : View) (w : World env) : List (List UInt8) :=
  (List.range v.n).map (w.bufs v.buf).row

/-- `rows[sel] = values`, `values` being `k` rows of `rb` bytes. -/
def Buf.scatter (b : Buf) (sel : List Nat) (rb : Nat) (values : List UInt8) :
    Buf :=
  { b with row := fun r =>
      if r ∈ sel then bytesAt values (sel.idxOf r * rb) rb else b.row r }

namespace RemoteTable

/-- The table object. -/
def self : M env RemoteTable := do return (← get).table

/-- Assign attributes of the table object. -/
def modifySelf (f : RemoteTable → RemoteTable) : M env Unit :=
  modify fun w => { w with table := f w.table }

-- ============================================================= connect

/-- `_next_req_id`, on behalf of peer `i`. -/
def nextReqId (i : PeerId) : M env Nat := do
  modifySelf fun t => { t with reqId := (t.reqId + 1) % 2 ^ 32 }
  let t ← self
  mark (.drew i t.reqId) (env.produces_drew · i _)
  return t.reqId

/-- The retry loop of `_connect`. -/
def connectLoop (i : PeerId) (deadline : ℚ) : Nat → ℚ → M env Unit
  | 0, _ => raise .outOfRounds
  | rounds + 1, pause => do
      let left := deadline - (← now)
      let t ← self
      catching Exn.isOS
        (Peer.connect i (min t.connectTimeout (max left (1 / 1000))) t.timeout)
        fun exc => do
          let left := deadline - (← now)
          if left ≤ 0 then raise (.unreachable (← peer i).name exc.text)
          sleep (min pause left)
          connectLoop i deadline rounds (min (pause * 2) 5)

/-- `_connect`. -/
def connect (i : PeerId) (deadline : ℚ) : M env Unit :=
  connectLoop i deadline env.rounds (1 / 2)

/-- `_check_range`. -/
def checkRange (i : PeerId) (stat : Stat) : M env Unit := do
  let p ← peer i
  if (stat.baseRow, stat.rowCount, stat.rowBytes)
      ≠ (p.baseRow, p.rowCount, p.rowBytes) then
    raise (.movedRange p.name p.baseRow p.rowCount stat.baseRow stat.rowCount)
  modifyPeer i fun p => { p with
    residentPages := stat.residentPages
    servedRequests := stat.servedRequests }

/-- `_apply_stat`. -/
def applyStat (i : PeerId) (stat : Stat) : M env Unit := do
  modifyPeer i fun p => { p with
    baseRow := stat.baseRow
    rowCount := stat.rowCount
    rowBytes := stat.rowBytes
    residentPages := stat.residentPages
    servedRequests := stat.servedRequests }
  let p ← peer i
  let t ← self
  if p.rowBytes ≠ t.rowBytes then
    raise (.rowBytes p.name p.rowBytes t.rowBytes)
  if p.rowCount = 0 then raise (.emptyRange p.name)

/-- The loop of `_check_split`: the row the next peer has to start at. -/
def splitLoop : List PeerId → Nat → M env Nat
  | [], expect => pure expect
  | i :: is, expect => do
      let p ← peer i
      if p.baseRow ≠ expect then
        raise (.split (if expect < p.baseRow then "gap" else "overlap")
          p.name p.baseRow expect)
      splitLoop is (expect + p.rowCount)

/-- `f"{p}@{p.base_row:,}+{p.row_count:,}"`, joined over the peers. -/
def describePeers (heap : PeerId → Peer) (is : List PeerId) : String :=
  ", ".intercalate (is.map fun i =>
    (heap i).name ++ "@" ++ commas (heap i).baseRow ++ "+" ++
      commas (heap i).rowCount)

/-- `_check_split`. The sort is stable, as Python's is. -/
def checkSplit : M env Unit := do
  let w ← get
  let sorted := w.table.peers.insertionSort
    fun i j => (w.heap i).baseRow ≤ (w.heap j).baseRow
  modifySelf fun t => { t with peers := sorted }
  let expect ← splitLoop sorted 0
  if expect ≠ w.table.rowsTotal then
    raise (.cover expect w.table.rowsTotal (describePeers w.heap sorted))

/-- `_check_usable`. -/
def checkUsable : M env Unit := do
  match (← self).failed with
  | none => pure ()
  | some why => raise (.unusable why)

-- ============================================================== gather

/-- `_staging_for`. A pinned and a pageable allocation differ in nothing
the table reads. -/
def stagingFor (n : Nat) : M env View := do
  let w ← get
  let grow : M env View := do
    let m := w.allocs
    modify fun w => { w with
      allocs := m + 1
      bufs := Function.update w.bufs m
        { cap := max n 4096
          row := fun r => (List.range w.table.rowBytes).map fun k =>
            env.uninit m (r * w.table.rowBytes + k) }
      table := { w.table with staging := some m, stagingNp := some m } }
    return ⟨m, n⟩
  match w.table.staging with
  | none => grow
  | some m => if (w.bufs m).cap < n then grow else pure ⟨m, n⟩

/-- `np.flatnonzero((base <= ids) & (ids < base + count))`. -/
def owned (p : Peer) (ids : List Int) : List Nat :=
  (List.range ids.length).filter fun j =>
    decide ((p.baseRow : Int) ≤ ids.getD j 0 ∧
      ids.getD j 0 < p.baseRow + p.rowCount)

/-- The loop of `_partition`. -/
def partitionLoop (ids : List Int) : List PeerId → Nat → Nat → M env Nat
  | [], _, routed => pure routed
  | i :: is, at_, routed => do
      let p ← peer i
      let sel := owned p ids
      if (← self).maxRows < sel.length then
        raise (.overMaxRows p.name sel.length (← self).maxRows)
      modifySelf fun t => { t with sel := t.sel.set at_ sel }
      partitionLoop ids is (at_ + 1) (routed + sel.length)

/-- `_partition`: the number of ids routed. -/
def partition (ids : List Int) : M env Nat := do
  partitionLoop ids (← self).peers 0 0

/-- `_raise_unroutable`. -/
def raiseUnroutable (ids : List Int) : M env Unit := do
  let t ← self
  let missing := (List.range ids.length).filter fun j => j ∉ t.sel.flatten
  let first := missing.headD 0
  raise (.unroutable missing.length t.rowsTotal (ids.getD first 0) first)

/-- The loop that fills each asked peer's request buffer; returns the
peers with a share, in table order. -/
def stageLoop (ids : List Int) : List Share → M env (List Share)
  | [] => pure []
  | (i, sel) :: rest => do
      if sel.length = 0 then stageLoop ids rest
      else
        Peer.reserve i sel.length
        Peer.copyIds i (sel.map fun j => ids.getD j 0)
        return (i, sel) :: (← stageLoop ids rest)

/-- One round of `_drain` over the sockets select reported. -/
def pumpReady : List ConnId → List (ConnId × PeerId) →
    M env (List (ConnId × PeerId))
  | [], waiting => pure waiting
  | c :: cs, waiting =>
      match waiting.lookup c with
      | none => pumpReady cs waiting
      | some i => do
          if ← Peer.pumpRows i then
            pumpReady cs (waiting.filter (·.1 ≠ c))
          else pumpReady cs waiting

/-- `", ".join(str(peer) for peer in waiting.values())`. -/
def waitingNames (heap : PeerId → Peer) (waiting : List (ConnId × PeerId)) :
    String :=
  ", ".intercalate (waiting.map fun (_, i) => (heap i).name)

/-- What `_drain` raises when select has nothing for it. -/
def drainTimeout (waiting : List (ConnId × PeerId)) (wait : ℚ) :
    M env Unit := do
  let names := waitingNames (← get).heap waiting
  if 0 < wait then raise (.silent names wait) else raise (.unanswered names)

/-- The loop of `_drain`. -/
def drainLoop (deadline : ℚ) : Nat → List (ConnId × PeerId) → M env Unit
  | rounds, waiting =>
      if waiting = [] then pure ()
      else match rounds with
        | 0 => raise .outOfRounds
        | rounds + 1 => do
            let wait := min (← self).timeout (deadline - (← now))
            if 0 < wait then
              match ← sysSelect (waiting.map Prod.fst) wait with
              | .fault why => raise (.transport why)
              | .beyond => raise .beyondSetSize
              | .interrupt => raise .interrupted
              | .ready cs => do
                  if cs = [] then drainTimeout waiting wait
                  drainLoop deadline rounds (← pumpReady cs waiting)
            else
              drainTimeout waiting wait

/-- `{peer.sock: peer for peer in peers}`. -/
def waitingOf (heap : PeerId → Peer) (is : List PeerId) :
    List (ConnId × PeerId) :=
  is.filterMap fun i => (heap i).sock.map fun c => (c, i)

/-- `_drain`. A round pumps at least one byte, so the bytes expected
bound the rounds. -/
def drain (is : List PeerId) (deadline : ℚ) : M env Unit := do
  let w ← get
  drainLoop deadline ((is.map fun i => (w.heap i).rdWant).sum + 1)
    (waitingOf w.heap is)

/-- First pass of an attempt over one peer: forget the last answer,
reconnect a peer that has no socket and refuse it if its range moved. -/
def ready (deadline : ℚ) (s : Share) : M env Unit := do
  modifyPeer s.1 fun p => { p with answered := false }
  match (← peer s.1).sock with
  | some _ => pure ()
  | none => do
      connect s.1 deadline
      checkRange s.1 (← Peer.queryStat s.1 (← nextReqId s.1))

/-- Second pass: send the request. -/
def ask (s : Share) : M env Unit := do
  Peer.sendGather s.1 (← nextReqId s.1) s.2.length

/-- Third pass: take the header of the answer. -/
def begin_ (s : Share) : M env Unit :=
  Peer.beginRows s.1 s.2.length

/-- The bodies of the answers. -/
def finish (todo : List Share) (deadline : ℚ) : M env Unit := do
  if 1 < todo.length then drain (todo.map Prod.fst) deadline
  else match todo with
    | [] => raise .noPeer
    | s :: _ => Peer.finishRows s.1

/-- The `try` block of one attempt. -/
def attempt (n : Nat) (todo : List Share) (deadline : ℚ) : M env Unit := do
  forEach (ready deadline) todo
  forEach ask todo
  forEach begin_ todo
  finish todo deadline
  if 1 < n then let _ ← now

/-- The `except OSError` clause of attempt `n`: drop every connection
still owed an answer, and say who is left to ask. -/
def giveUp (n : Nat) (todo : List Share) (deadline : ℚ) (exc : Exn) :
    M env (List Share) := do
  mark (.caught exc (todo.map Prod.fst)) (env.produces_caught · exc _)
  let w ← get
  let todo := todo.filter fun s => !(w.heap s.1).answered
  forEach (fun s => Peer.close s.1 true) todo
  if n = GATHER_ATTEMPTS then raise exc
  if deadline ≤ (← now) then raise exc
  return todo

/-- The attempts of `_exchange`, with `left` of them still to run. -/
def attempts (deadline : ℚ) : Nat → List Share → M env Unit
  | 0, _ => pure ()
  | left + 1, todo => do
      let n := GATHER_ATTEMPTS - left
      mark (.attempt n (todo.map Prod.fst)) (env.produces_attempt · n _)
      catching Exn.isOS (attempt n todo deadline) fun exc => do
        attempts deadline left (← giveUp n todo deadline exc)

/-- Set the deadline of every peer of a gather. -/
def setDeadlines (active : List Share) (d : Option ℚ) (w : World env) :
    World env :=
  { w with heap := fun i =>
      if i ∈ active.map Prod.fst then { w.heap i with deadline := d }
      else w.heap i }

/-- `_exchange`. -/
def exchange (active : List Share) : M env Unit := do
  let deadline := (← now) + (← self).gatherDeadline
  modify (setDeadlines active (some deadline))
  cleaning (attempts deadline GATHER_ATTEMPTS active)
    (setDeadlines active none)

/-- One peer's answer, written to its positions of staging memory `m`. -/
def place (m : Nat) (s : Share) : M env Unit :=
  modify fun w =>
    let rows := (w.heap s.1).rows
    let buf := (w.bufs m).scatter s.2 w.table.rowBytes rows
    { w with bufs := Function.update w.bufs m buf }

/-- Write every answer to its positions of `self._staging_np`. The
staging only grows, so it has the rows this call asked for. -/
def scatter (active : List Share) : M env Unit := do
  match (← self).stagingNp with
  | none => raise .noStaging
  | some m => forEach (place m) active

/-- Record why the table is no longer usable and raise on. -/
def poison {α : Type} (exc : Exn) : M env α := do
  modifySelf fun t => { t with failed := some exc.report }
  throw exc

/-- `gather_cpu` up to the table lock: the output view and the usability
check. -/
def gatherEnter (ids : List Int) : M env View := do
  let out ← stagingFor ids.length
  if ids = [] then pure out
  else
    checkUsable
    pure out

/-- `gather_cpu` under the table lock. -/
def gatherLocked (ids : List Int) : M env Unit := do
  mark .call env.produces_call
  if (← partition ids) ≠ ids.length then raiseUnroutable ids
  let t ← self
  catching Exn.isException
    (do
      let active ← stageLoop ids (t.peers.zip (← self).sel)
      exchange active
      scatter active)
    poison

/-- `gather_cpu`, by one thread. -/
def gatherCpu (ids : List Int) : M env View := do
  let out ← gatherEnter ids
  if ids = [] then pure out
  else
    gatherLocked ids
    pure out

/-- `gather`: the rows are copied out of the staging, into a fresh
tensor or into `out` of the given number of rows. -/
def gather (ids : List Int) (out : Option Nat) :
    M env (List (List UInt8)) := do
  let rows ← gatherCpu ids
  let copy := rows.read (← get)
  match out with
  | none => pure copy
  | some m =>
      if m < rows.n ∧ rows.n ≠ 1 then raise .shape
      pure (copy.take m)

/-- A number torch can take as an int64. -/
abbrev IsInt64 (n : Int) : Prop :=
  -((2 ^ 63 : Nat) : Int) ≤ n ∧ n < (2 ^ 63 : Nat)

/-- `torch.arange(start, stop, dtype=torch.int64)`, `n` ids. -/
@[irreducible]
def arange (start : Int) (n : Nat) : M env (List Int) :=
  if IsInt64 start ∧ IsInt64 (start + n) then
    pure ((List.range n).map fun j : Nat => start + j)
  else raise .beyondInt64

/-- The loop of `read_rows_contiguous`, `done` of `count` rows read. -/
def readLoop (start : Int) (count step : Nat) :
    Nat → List (List UInt8) → M env (List (List UInt8))
  | rounds, buf =>
      if count ≤ buf.length then pure buf
      else match rounds with
        | 0 => raise .outOfRounds
        | rounds + 1 => do
            let n := min step (count - buf.length)
            let rows ← gatherCpu (← arange (start + buf.length) n)
            readLoop start count step rounds (buf ++ rows.read (← get))

/-- `read_rows_contiguous`. Its buffer is `torch.empty` of `count`
rows. -/
def readRowsContiguous (start count chunkRows : Int) :
    M env (List (List UInt8)) := do
  if count ≤ 0 then pure []
  else if ¬ IsInt64 count then raise .beyondInt64
  else
    let step := (max 1 (min chunkRows (← self).maxRows)).toNat
    readLoop start count.toNat step count.toNat []

-- ================================================================ info

/-- `ping`. -/
def ping : M env Unit := do
  mark .call env.produces_call
  checkUsable
  let t ← self
  catching Exn.isException
    (do
      forEach (fun i => do Peer.sendBare i OP_PING (← nextReqId i)) t.peers
      forEach Peer.readAck t.peers)
    poison

/-- `[peer.query_stat(self._next_req_id()) for peer in peers]`. -/
def queryAll : List PeerId → M env (List Stat)
  | [] => pure []
  | i :: is => do
      let stat ← Peer.queryStat i (← nextReqId i)
      return stat :: (← queryAll is)

/-- `stat`. The range check sits outside the handler that marks the
table. -/
def stat : M env (List Stat) := do
  mark .call env.produces_call
  checkUsable
  let t ← self
  let stats ← catching Exn.isException (queryAll t.peers) poison
  forEach (fun (i, st) => checkRange i st) (t.peers.zip stats)
  return stats

/-- `close`. -/
def close : M env Unit := do
  mark .call env.produces_call
  forEach (fun i => Peer.close i false) (← self).peers
  modifySelf fun t => { t with failed := t.failed.or (some "closed") }

-- ======================================================== construction

/-- The arguments of `__init__` after their defaults are filled in. -/
structure Config where
  peers : List Addr
  rowsTotal : Nat
  rowBytes : Nat
  maxRows : Int
  timeout : ℚ
  connectTimeout : ℚ
  connectDeadline : ℚ
  gatherDeadline : ℚ

/-- The objects `__init__` has built when it starts to connect. -/
def initial (env : Env) (cfg : Config) : World env where
  heap i :=
    let addr := cfg.peers.getD i ("", 0)
    { host := addr.1, port := addr.2, addr := addr }
  table :=
    { rowBytes := cfg.rowBytes, rowsTotal := cfg.rowsTotal
      maxRows := cfg.maxRows, timeout := cfg.timeout
      connectTimeout := cfg.connectTimeout
      connectDeadline := cfg.connectDeadline
      gatherDeadline := cfg.gatherDeadline
      peers := List.range cfg.peers.length
      sel := List.replicate cfg.peers.length [] }
  bufs _ := { cap := 0, row := fun _ => [] }
  allocs := 0
  hist := .empty env

/-- Connect one peer and learn its range. -/
def enroll (deadline : ℚ) (i : PeerId) : M env Unit := do
  connect i deadline
  applyStat i (← Peer.queryStat i (← nextReqId i))

/-- `__init__` from the first connect on. -/
def init : M env Unit := do
  let t ← self
  catching Exn.isException
    (do
      let deadline := (← now) + t.connectDeadline
      forEach (enroll deadline) t.peers
      checkSplit)
    fun exc => do
      forEach (fun i => Peer.close i false) (← self).peers
      throw exc

end RemoteTable

end PleRowServer.Client
