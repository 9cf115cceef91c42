/-
What the client raises. One constructor per raise site of
client/ple_remote.py, holding the values its message is built from; the
class decides which handler sees it (`isOS` is the `except OSError` of a
gather's retry loop, `isException` the `except Exception` around it) and
`text` is the message.

Times are rationals where the source has floats, so `fixed1` rounds the
exact value half to even.
-/
import Mathlib.Data.Rat.Floor
import Mathlib.Algebra.Order.Field.Rat

namespace PleRowServer.Client

/-- Exception classes the client raises or lets through. `base` is
KeyboardInterrupt or SystemExit from a signal handler: not a subclass of
Exception. -/
inductive Cls
  | os | timeout | connection | runtime | value | index | type | attribute
  | struct | base | unbounded
deriving DecidableEq, Repr

/-- One constructor per raise site. -/
inductive Exn
  /-- an OSError out of connect, send, recv, select or getpeername -/
  | transport (why : String)
  /-- `_arm`: nothing is left of the gather deadline -/
  | deadlinePassed (peer : String)
  /-- `_recv`: the socket timeout fired -/
  | noData (peer : String) (armed : ℚ)
  /-- `_connect` -/
  | unreachable (peer : String) (why : String)
  /-- `_drain`: select came back empty -/
  | silent (names : String) (wait : ℚ)
  /-- `_drain`: the deadline passed before select -/
  | unanswered (names : String)
  /-- recv returned no bytes -/
  | closedAfter (peer : String) (got want : Nat)
  /-- `_read_header`: the peer rejected the request -/
  | rejected (peer : String) (status : Nat)
  /-- `_read_header` -/
  | badMagic (peer : String) (magic : Nat)
  /-- `_read_header` -/
  | outOfSync (peer : String) (reqId : Nat) (pending : Option Nat)
  /-- `begin_rows` -/
  | rowCount (peer : String) (got count : Nat)
  /-- `query_stat` -/
  | statRows (peer : String)
  /-- `read_ack` -/
  | ackRows (peer : String)
  /-- `_check_range` -/
  | movedRange (peer : String) (base rows base' rows' : Nat)
  /-- `_apply_stat` -/
  | rowBytes (peer : String) (got want : Nat)
  /-- `_apply_stat` -/
  | emptyRange (peer : String)
  /-- `_check_split`: a gap or an overlap -/
  | split (kind peer : String) (base expect : Nat)
  /-- `_check_split`: the peers do not add up -/
  | cover (expect : Nat) (total : Nat) (peers : String)
  /-- `_check_usable` -/
  | unusable (why : String)
  /-- `_partition` -/
  | overMaxRows (peer : String) (rows : Nat) (maxRows : Int)
  /-- `_raise_unroutable` -/
  | unroutable (missing total : Nat) (id : Int) (position : Nat)
  /-- struct.pack on a value its field cannot hold -/
  | structError
  /-- memoryview.cast on a buffer of zero-byte rows -/
  | castZeros
  /-- a method of `self.sock` while it is None -/
  | noSocket
  /-- settimeout on a negative number -/
  | badTimeout
  /-- `todo[0]` of an empty list -/
  | noPeer
  /-- a subscript of `self._staging_np` while it is None -/
  | noStaging
  /-- `copy_` into an `out` with too few rows -/
  | shape
  /-- torch on a size or an id that is no int64 -/
  | beyondInt64
  /-- select on a descriptor at or beyond FD_SETSIZE -/
  | beyondSetSize
  /-- KeyboardInterrupt or SystemExit out of a blocking call -/
  | interrupted
  /-- not a Python exception: the model's connect loop used up its
  allowance of rounds -/
  | outOfRounds
deriving DecidableEq, Repr

/-- The class of what a raise site raises. A rejection is a
ConnectionError for status 5 alone. -/
def Exn.cls : Exn → Cls
  | .transport _ => .os
  | .deadlinePassed _ | .noData .. | .unreachable .. | .silent ..
  | .unanswered _ => .timeout
  | .closedAfter .. => .connection
  | .rejected _ status => if status = 5 then .connection else .runtime
  | .badMagic .. | .outOfSync .. | .rowCount .. | .statRows _ | .ackRows _
  | .movedRange .. | .rowBytes .. | .emptyRange _ | .split .. | .cover ..
  | .unusable _ | .shape | .beyondInt64 => .runtime
  | .overMaxRows .. | .badTimeout | .beyondSetSize => .value
  | .unroutable .. | .noPeer => .index
  | .structError => .struct
  | .castZeros | .noStaging => .type
  | .noSocket => .attribute
  | .interrupted => .base
  | .outOfRounds => .unbounded

/-- `except OSError` catches it. -/
def Exn.isOS (e : Exn) : Bool :=
  match e.cls with
  | .os | .timeout | .connection => true
  | _ => false

/-- `except Exception` catches it. -/
def Exn.isException (e : Exn) : Bool :=
  match e.cls with
  | .base | .unbounded => false
  | _ => true

-- ============================================================= messages

/-- `type(exc).__name__`. -/
def Cls.name : Cls → String
  | .os => "OSError"
  | .timeout => "TimeoutError"
  | .connection => "ConnectionError"
  | .runtime => "RuntimeError"
  | .value => "ValueError"
  | .index => "IndexError"
  | .type => "TypeError"
  | .attribute => "AttributeError"
  | .struct => "error"
  | .base => "KeyboardInterrupt"
  | .unbounded => ""

/-- `f"{n:,}"`. -/
def commas (n : Nat) : String :=
  if n < 1000 then toString n
  else
    let low := toString (n % 1000)
    commas (n / 1000) ++ "," ++
      String.ofList (List.replicate (3 - low.length) '0') ++ low
decreasing_by omega

/-- `f"{n:,}"` of an integer. -/
def commasInt (n : Int) : String :=
  (if n < 0 then "-" else "") ++ commas n.natAbs

/-- The nearest integer, ties to even. -/
def roundEven (q : ℚ) : Int :=
  let f := ⌊q⌋
  let r := q - f
  if r < 1 / 2 then f
  else if 1 / 2 < r then f + 1
  else if f % 2 = 0 then f else f + 1

/-- `f"{q:.1f}"`. -/
def fixed1 (q : ℚ) : String :=
  let tenths := (roundEven (|q| * 10)).toNat
  (if q < 0 then "-" else "") ++ toString (tenths / 10) ++ "." ++
    toString (tenths % 10)

/-- `_STATUS`. -/
def statusText : Nat → String
  | 1 => "bad magic or version"
  | 2 => "unknown op"
  | 3 => "row id outside that server's range"
  | 4 => "row count above the server's max_rows"
  | 5 => "server internal error"
  | _ => "unknown status"

/-- `f"{n:08x}"`. -/
def hex8 (n : Nat) : String :=
  let ds := String.ofList (Nat.toDigits 16 n)
  String.ofList (List.replicate (8 - ds.length) '0') ++ ds

/-- `str(exc)`. -/
def Exn.text : Exn → String
  | .transport why => why
  | .deadlinePassed peer => s!"PLE remote {peer}: gather deadline passed"
  | .noData peer armed =>
      s!"PLE remote {peer}: no data for " ++ fixed1 armed ++ "s"
  | .unreachable peer why =>
      s!"PLE remote {peer}: still unreachable at the deadline ({why})"
  | .silent names wait =>
      s!"PLE remote: no data from {names} for " ++ fixed1 wait ++ "s"
  | .unanswered names =>
      s!"PLE remote: gather deadline passed with {names} unanswered"
  | .closedAfter peer got want =>
      s!"PLE remote {peer}: connection closed after {got} of {want} bytes"
  | .rejected peer status =>
      s!"PLE remote {peer}: status {status} (" ++ statusText status ++ ")"
  | .badMagic peer magic =>
      s!"PLE remote {peer}: response magic 0x" ++ hex8 magic ++
        ", expected 0x50534552"
  | .outOfSync peer reqId pending =>
      s!"PLE remote {peer}: response for request {reqId}, expected " ++
        (match pending with
          | none => "None"
          | some id => toString id) ++ " (stream out of sync)"
  | .rowCount peer got count =>
      s!"PLE remote {peer}: returned {got} rows for a request of {count}"
  | .statRows peer => s!"PLE remote {peer}: STAT response carried row data"
  | .ackRows peer =>
      s!"PLE remote {peer}: header-only response carried row data"
  | .movedRange peer base rows base' rows' =>
      s!"PLE remote: {peer} changed its range under us: " ++
        commas base ++ "+" ++ commas rows ++ " -> " ++ commas base' ++
        "+" ++ commas rows'
  | .rowBytes peer got want =>
      s!"PLE remote {peer}: serves {got} byte rows, table is {want}"
  | .emptyRange peer => s!"PLE remote {peer}: serves an empty row range"
  | .split kind peer base expect =>
      s!"PLE remote: {kind} in the table split: {peer} starts at row " ++
        commas base ++ ", expected " ++ commas expect
  | .cover expect total peers =>
      "PLE remote: peers cover " ++ commas expect ++
        " rows, table has " ++ commas total ++ s!" (peers: {peers})"
  | .unusable why =>
      s!"PLE remote table is not usable ({why}); rebuild it to reconnect"
  | .overMaxRows peer rows maxRows =>
      "PLE remote: " ++ commas rows ++ s!" rows for {peer} exceeds max_rows " ++
        commasInt maxRows ++
        "; raise it on the servers and in PLE_REMOTE_MAX_ROWS"
  | .unroutable missing total id position =>
      s!"PLE remote: {missing} row id(s) outside the served table [0, " ++
        commas total ++ s!"): id {id} at position {position}"
  | .structError => "argument out of range"
  | .castZeros =>
      "memoryview: cannot cast view with zeros in shape or strides"
  | .noSocket => "'NoneType' object has no attribute"
  | .badTimeout => "Timeout value out of range"
  | .noPeer => "list index out of range"
  | .noStaging => "'NoneType' object is not subscriptable"
  | .shape => "The size of tensor a must match the size of tensor b"
  | .beyondInt64 => "Overflow when unpacking long long"
  | .beyondSetSize => "filedescriptor out of range in select()"
  | .interrupted => ""
  | .outOfRounds => ""

/-- What a failed call leaves in `_failed`:
`f"{type(exc).__name__}: {exc}"`. -/
def Exn.report (e : Exn) : String := e.cls.name ++ ": " ++ e.text

end PleRowServer.Client
