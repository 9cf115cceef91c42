/-
The world around the client: its network, its clock and the memory it
is handed, as one adversary that answers every blocking call from the
whole history of calls so far.

# Histories

An `Env` is a strategy. Nothing in it is assumed honest or live: a recv
may return any bytes, any chunk of them, nothing (the peer closed), a
socket timeout, an OSError, or be broken off by a signal handler's
exception. Quantifying over `Env` is quantifying over every peer, every
fragmentation, every order of readiness and every schedule of faults at
once. What a particular peer can do is a predicate on `Env` (see
Honest.lean), never a change to the client's model.

`History` is the list of calls made and answers given, in order, packed
with the proof that this environment gave them. A history nobody could
have produced cannot be built, so no later proof carries that fact.

# Connection identity

A connection is named by the peer it leads to and a number no earlier
call mentions (`Trace.bound`), which is what a fresh socket object is:
distinct from every socket before it, whether or not that one is open.

# Marks

`call`, `drew`, `attempt`, `caught` and `raised` are no system calls.
They mark in the history where a public call starts, where a request id
is drawn and for which peer, where `_exchange` starts an attempt, where
its `except OSError` clause takes over, and where an exception is
raised. The client never reads the history, so a mark cannot influence
it.
-/
import PleRowServer.Client.Errors
import Mathlib.Data.List.Dedup
import Mathlib.Data.Set.Insert

namespace PleRowServer.Client

-- ============================================================ identities

/-- A peer object, named by its place in the configured list. -/
abbrev PeerId := Nat

/-- An address, as create_connection takes and getpeername returns it. -/
abbrev Addr := String × Nat

/-- A connection: the peer it leads to and a number. -/
structure ConnId where
  peer : PeerId
  n : Nat
deriving DecidableEq, Repr

-- =============================================================== answers

/-- How a connect or a sleep ends. -/
inductive Done
  | ok
  | fault (why : String)
  | interrupt
deriving DecidableEq, Repr

/-- How a sendall ends; a broken one may have put some of its bytes on
the wire. -/
inductive Sent
  | all
  | fault (why : String) (n : Nat)
  | interrupt (n : Nat)
deriving DecidableEq, Repr

/-- How a recv ends; `data []` is the peer's close. -/
inductive Got
  | data (bs : List UInt8)
  | timeout
  | fault (why : String)
  | interrupt
deriving DecidableEq, Repr

/-- How a select ends; `ready []` is its timeout, and `beyond` a
descriptor that no fd_set has a place for. -/
inductive Ready
  | ready (cs : List ConnId)
  | fault (why : String)
  | beyond
  | interrupt
deriving DecidableEq, Repr

/-- A recv of at most `want` bytes returns at most `want`. -/
def Got.clip (want : Nat) : Got → Got
  | .data bs => .data (bs.take want)
  | r => r

/-- A select reports sockets it was asked about, each once. -/
def Ready.among (cs : List ConnId) : Ready → Ready
  | .ready rs => .ready (rs.filter (· ∈ cs)).dedup
  | r => r

/-- What a select reports, it was asked about. -/
theorem Ready.mem_of_among {cs rs : List ConnId} {r : Ready} {c : ConnId}
    (h : .ready rs = r.among cs) (hc : c ∈ rs) : c ∈ cs := by
  cases r with
  | ready rs' =>
      obtain rfl := Ready.ready.inj h
      simpa using (List.mem_filter.mp (List.mem_dedup.mp hc)).2
  | fault why => cases h
  | beyond => cases h
  | interrupt => cases h

-- ================================================================ events

/-- One entry of a history. -/
inductive Ev
  | call
  | drew (i : PeerId) (n : Nat)
  | attempt (n : Nat) (todo : List PeerId)
  | caught (e : Exn) (todo : List PeerId)
  | raised (e : Exn)
  | now (t : ℚ)
  | slept (t : ℚ) (r : Done)
  | connect (c : ConnId) (addr : Addr) (timeout : ℚ) (r : Done)
  | settimeout (c : ConnId) (t : ℚ)
  | peername (c : ConnId) (r : Except String Addr)
  | send (c : ConnId) (data : List UInt8) (r : Sent)
  | recv (c : ConnId) (want : Nat) (r : Got)
  | select (cs : List ConnId) (wait : ℚ) (r : Ready)
  | close (c : ConnId) (abort : Bool)
deriving DecidableEq

/-- Everything that happened, oldest first. -/
abbrev Trace := List Ev

/-- The connection an entry is about. -/
def Ev.conn : Ev → Option ConnId
  | .connect c _ _ _ | .settimeout c _ | .peername c _ | .send c _ _
  | .recv c _ _ | .close c _ => some c
  | _ => none

/-- An entry that work on the peers `S` may make: about the connections
of no other peer, no start of a call, and no attempt with nobody to
ask. -/
def Ev.Of (S : Set PeerId) : Ev → Prop
  | .call => False
  | .drew i _ => i ∈ S
  | .attempt _ todo => todo ≠ []
  | .caught _ todo => ∀ i ∈ todo, i ∈ S
  | e => ∀ c, e.conn = some c → c.peer ∈ S

/-- A number above that of every connection mentioned so far. -/
def Trace.bound : Trace → Nat
  | [] => 0
  | e :: tr => max (match e.conn with
      | some c => c.n + 1
      | none => 0) (Trace.bound tr)

/-- A connection that is mentioned is below the bound. -/
theorem Trace.lt_bound {tr : Trace} {e : Ev} {c : ConnId} (he : e ∈ tr)
    (hc : e.conn = some c) : c.n < Trace.bound tr := by
  induction tr with
  | nil => cases he
  | cons e' tr ih =>
      simp only [Trace.bound]
      rcases List.mem_cons.mp he with rfl | he
      · simp only [hc]; omega
      · have := ih he; omega

-- ====================================================== the environment

/-- What answers the client's calls, given the history so far. -/
structure Env where
  /-- create_connection, to the address of the peer of `c` -/
  connect : Trace → ConnId → Addr → ℚ → Done
  peername : Trace → ConnId → Except String Addr
  send : Trace → ConnId → List UInt8 → Sent
  recv : Trace → ConnId → Nat → Got
  select : Trace → List ConnId → ℚ → Ready
  sleep : Trace → ℚ → Done
  /-- time.monotonic -/
  now : Trace → ℚ
  /-- byte `k` of the `m`-th allocation that is not initialised -/
  uninit : Nat → Nat → UInt8
  /-- rounds of the connect loop the model unrolls -/
  rounds : Nat

/-- A network where every connect and send succeeds and no peer ever
says anything. -/
def Env.silent : Env where
  connect _ _ _ _ := .ok
  peername _ _ := .error "not connected"
  send _ _ _ := .all
  recv _ _ _ := .data []
  select _ _ _ := .ready []
  sleep _ _ := .ok
  now _ := 0
  uninit _ _ := 0
  rounds := 1

/-- The entry is the one this environment makes at this history. -/
def Env.Produces (env : Env) (tr : Trace) : Ev → Prop
  | .now t => t = env.now tr
  | .slept t r => r = env.sleep tr t
  | .connect c addr timeout r =>
      c.n = Trace.bound tr ∧ r = env.connect tr c addr timeout
  | .peername c r => r = env.peername tr c
  | .send c data r => r = env.send tr c data
  | .recv c want r => r = (env.recv tr c want).clip want
  | .select cs wait r => r = (env.select tr cs wait).among cs
  | _ => True

section Produces

variable (env : Env) (tr : Trace)

/-- A note of the client's own may always be made. -/
theorem Env.produces_call : env.Produces tr .call := trivial

theorem Env.produces_drew (i : PeerId) (n : Nat) :
    env.Produces tr (.drew i n) := trivial

theorem Env.produces_attempt (n : Nat) (todo : List PeerId) :
    env.Produces tr (.attempt n todo) := trivial

theorem Env.produces_caught (e : Exn) (todo : List PeerId) :
    env.Produces tr (.caught e todo) := trivial

theorem Env.produces_raised (e : Exn) : env.Produces tr (.raised e) := trivial

/-- The clock may read what it reads. -/
theorem Env.produces_now : env.Produces tr (.now (env.now tr)) := rfl

/-- A sleep may take as long as it takes. -/
theorem Env.produces_slept (t : ℚ) :
    env.Produces tr (.slept t (env.sleep tr t)) := rfl

/-- A connect on a new number may get its answer. -/
theorem Env.produces_connect {c : ConnId} (hc : c.n = Trace.bound tr)
    (addr : Addr) (t : ℚ) :
    env.Produces tr (.connect c addr t (env.connect tr c addr t)) :=
  ⟨hc, rfl⟩

/-- A timeout may always be set. -/
theorem Env.produces_settimeout (c : ConnId) (t : ℚ) :
    env.Produces tr (.settimeout c t) := trivial

/-- A socket may tell its peer's name. -/
theorem Env.produces_peername (c : ConnId) :
    env.Produces tr (.peername c (env.peername tr c)) := rfl

/-- A send may get its answer. -/
theorem Env.produces_send (c : ConnId) (data : List UInt8) :
    env.Produces tr (.send c data (env.send tr c data)) := rfl

/-- A read may get no more than it asked for. -/
theorem Env.produces_recv (c : ConnId) (want : Nat) :
    env.Produces tr (.recv c want ((env.recv tr c want).clip want)) := rfl

/-- A selection may name those asked about. -/
theorem Env.produces_select (cs : List ConnId) (t : ℚ) :
    env.Produces tr (.select cs t ((env.select tr cs t).among cs)) := rfl

/-- A socket may always be closed. -/
theorem Env.produces_close (c : ConnId) (abort : Bool) :
    env.Produces tr (.close c abort) := trivial

end Produces

/-- A trace this environment can have produced. -/
inductive Env.Produced (env : Env) : Trace → Prop
  | nil : env.Produced []
  | snoc {tr : Trace} {e : Ev} : env.Produced tr → env.Produces tr e →
      env.Produced (tr ++ [e])

/-- A trace with the proof that the environment produced it. -/
structure History (env : Env) where
  tr : Trace
  ok : env.Produced tr

/-- The history before the first call. -/
def History.empty (env : Env) : History env := ⟨[], .nil⟩

/-- One more entry. -/
def History.push {env : Env} (h : History env) (e : Ev)
    (he : env.Produces h.tr e) : History env :=
  ⟨h.tr ++ [e], h.ok.snoc he⟩

/-- An entry is added at the end. -/
@[simp] theorem History.push_tr {env : Env} (h : History env) (e : Ev)
    (he : env.Produces h.tr e) : (h.push e he).tr = h.tr ++ [e] := rfl

/-- Every entry of a produced trace is the environment's answer at the
entries before it. -/
theorem Env.Produced.produces {env : Env} {tr a b : Trace} {e : Ev}
    (h : env.Produced tr) (hs : tr = a ++ e :: b) :
    env.Produced a ∧ env.Produces a e := by
  induction h generalizing a e b with
  | nil => simp at hs
  | snoc hp he ih =>
      rename_i tr₀ e₀
      rcases List.eq_nil_or_concat b with rfl | ⟨b', x, rfl⟩
      · obtain ⟨rfl, hx⟩ := List.append_inj' hs rfl
        simp only [List.cons.injEq, and_true] at hx
        exact ⟨hp, hx ▸ he⟩
      · have h' : tr₀ ++ [e₀] = (a ++ e :: b') ++ [x] := by simpa using hs
        exact ih (List.append_inj' h' rfl).1

/-- A produced trace was produced entry by entry. -/
theorem Env.Produced.grows {env : Env} {tr tr' : Trace}
    (h : env.Produced tr') (hp : tr <+: tr') : env.Produced tr := by
  induction h with
  | nil => rw [List.prefix_nil.mp hp]; exact .nil
  | snoc ht he ih =>
      rcases List.prefix_concat_iff.mp hp with rfl | hp
      · exact ht.snoc he
      · exact ih hp

/-- The clock of time.monotonic: it never goes back, and a sleep that
returned lasted as long as it was asked to. -/
structure Env.Timely (env : Env) : Prop where
  mono : ∀ tr e, env.Produced (tr ++ [e]) → env.now tr ≤ env.now (tr ++ [e])
  sleeps : ∀ tr t, env.Produced (tr ++ [.slept t .ok]) →
    env.now tr + t ≤ env.now (tr ++ [.slept t .ok])

/-- Later on the clock shows no less. -/
theorem Env.Timely.le {env : Env} (h : env.Timely) {tr tr' : Trace}
    (ht : env.Produced tr') (hp : tr <+: tr') : env.now tr ≤ env.now tr' := by
  induction ht with
  | nil => rw [List.prefix_nil.mp hp]
  | snoc ht he ih =>
      rcases List.prefix_concat_iff.mp hp with rfl | hp
      · exact le_refl _
      · exact (ih hp).trans (h.mono _ _ (ht.snoc he))

end PleRowServer.Client
