/-
Peers that are what they claim to be. A peer is honest on a connection
if what the client was given on it is the beginning of what a thread of
its rowserverd can have written, having read a beginning of what it was
sent: whatever the fragmentation, the delays and the faults on the way,
bytes come from the server's program and from nowhere else.

`Env.served` is a network of such servers on which nothing fails.
-/
import PleRowServer.Client.Line
import PleRowServer.Client.Table
import PleRowServer.Daemon.Replies

namespace PleRowServer.Client

open Base Wire Daemon

variable {env : Env} {servers : PeerId → Server} {tr : Trace} {c : ConnId}

-- ================================================================ honesty

/-- What the client was given on `c` can have come from a thread of
`s`. -/
def Plays (s : Server) (b : Option Buffers) (tr : Trace) (c : ConnId) :
    Prop :=
  ∃ fuel run stop, Prog.Does (serveConn s fuel b) run stop ∧
    readBytes run <+: sentOn tr c ∧ gotOn tr c <+: writtenBytes run

/-- Every connection leads to a thread of its peer's server, which may
have failed to allocate its buffers. -/
def Honest (servers : PeerId → Server) (tr : Trace) : Prop :=
  ∀ c, ∃ b, (∀ b', b = some b' → Sized (servers c.peer) b') ∧
    Plays (servers c.peer) b tr c

/-- None of the threads did. -/
def Supplied (servers : PeerId → Server) (tr : Trace) : Prop :=
  ∀ c, ∃ b, Sized (servers c.peer) b ∧ Plays (servers c.peer) (some b) tr c

theorem Supplied.honest (h : Supplied servers tr) : Honest servers tr := by
  intro c
  obtain ⟨b, hb, hp⟩ := h c
  refine ⟨some b, fun b' hb' => ?_, hp⟩
  obtain rfl := Option.some.inj hb'
  exact hb

/-- A supplied server's bytes are the beginning of a reply stream. -/
theorem Supplied.replies (hr : ∀ i, Ranged (servers i))
    (h : Supplied servers tr) (c : ConnId) :
    ∃ out, Replies (Answers (servers c.peer)) (Parts (servers c.peer))
      (sentOn tr c) out ∧ gotOn tr c <+: out := by
  obtain ⟨b, hb, fuel, run, stop, hdoes, ⟨more, hread⟩, hgot⟩ := h c
  obtain ⟨xs, tail, rest, hs⟩ :=
    serveLoop_session (hr c.peer) fuel b run stop hb hdoes
  obtain ⟨out, hout, hwrote⟩ := hs.replies
  refine ⟨out, ?_, hgot.trans hwrote⟩
  rw [← hread]
  exact hout.extend (fun _ m _ hp => hp.extend m) more

/-- An honest peer's are. -/
theorem Honest.replies (hr : ∀ i, Ranged (servers i))
    (h : Honest servers tr) (c : ConnId) :
    ∃ out, Replies (Answers (servers c.peer)) (fun _ => Refuses)
      (sentOn tr c) out ∧ gotOn tr c <+: out := by
  obtain ⟨b, hb, fuel, run, stop, hdoes, ⟨more, hread⟩, hgot⟩ := h c
  have hthread : ∃ out, Replies (Answers (servers c.peer)) (fun _ => Refuses)
      (readBytes run) out ∧ writtenBytes run <+: out := by
    cases b with
    | none => exact serveStarved_replies hdoes
    | some b =>
        obtain ⟨xs, tail, rest, hs⟩ :=
          serveLoop_session (hr c.peer) fuel b run stop (hb b rfl) hdoes
        obtain ⟨out, hout, hwrote⟩ := hs.replies
        exact ⟨out, hout.mono (fun _ _ h => h) (fun _ _ h => h.1), hwrote⟩
  obtain ⟨out, hout, hwrote⟩ := hthread
  refine ⟨out, ?_, hgot.trans hwrote⟩
  rw [← hread]
  exact hout.extend (fun _ _ _ h => h) more

-- ========================================================= served networks

/-- What a server has answered by the time it was sent `sent`, with
nothing resident. -/
def served (s : Server) (sent : List UInt8) : List UInt8 :=
  (requests s sent).flatMap (answerTo s .unseen)

theorem served_mono (s : Server) (sent more : List UInt8) :
    served s sent <+: served s (sent ++ more) := by
  obtain ⟨later, hlater⟩ := requests_mono (s := s) sent more
  unfold served
  rw [← hlater, List.flatMap_append]
  exact List.prefix_append _ _

/-- A network of servers on which nothing fails: every recv is given
what its server has answered and was not yet handed over. -/
def Env.served (servers : PeerId → Server) : Env where
  connect _ _ _ _ := .ok
  peername _ c := .ok ("peer", c.peer)
  send _ _ _ := .all
  recv tr c want := .data <|
    ((Client.served (servers c.peer) (sentOn tr c)).drop
      (gotOn tr c).length).take want
  select _ cs _ := .ready cs
  sleep _ _ := .ok
  now _ := 0
  uninit _ _ := 0
  rounds := 1

/-- Reading on hands over what is next. -/
theorem prefix_next {got out : List UInt8} (h : got <+: out) (n : Nat) :
    got ++ (out.drop got.length).take n <+: out := by
  obtain ⟨rest, rfl⟩ := h
  rw [List.drop_left]
  exact (List.prefix_append_right_inj got).mpr (List.take_prefix n rest)

/-- What the peers of `env` answer is as if nothing failed, whatever else
the network does. -/
def Env.Feeds (env : Env) (servers : PeerId → Server) : Prop :=
  ∀ tr c want, env.recv tr c want = (Env.served servers).recv tr c want

theorem Env.Feeds.got {env : Env} (hf : env.Feeds servers)
    (h : env.Produced tr) (c : ConnId) :
    gotOn tr c <+: Client.served (servers c.peer) (sentOn tr c) := by
  induction h with
  | nil => exact List.nil_prefix
  | @snoc tr e _ he ih =>
      rw [sentOn_snoc, gotOn_snoc]
      have hmore := ih.trans (served_mono (servers c.peer) (sentOn tr c)
        (e.sentOn c))
      have hquiet : e.gotOn c = [] →
          gotOn tr c ++ e.gotOn c <+: Client.served (servers c.peer)
            (sentOn tr c ++ e.sentOn c) := by
        intro h0
        rw [h0, List.append_nil]
        exact hmore
      cases e with
      | recv c' want r =>
          by_cases hc : c' = c
          · subst hc
            obtain rfl : r = (((Env.served servers).recv tr c' want).clip
              want) := by
              rw [← hf]
              exact he
            have hs : (Ev.recv c' want (((Env.served servers).recv tr c'
                want).clip want)).sentOn c' = [] := rfl
            rw [hs, List.append_nil]
            simp only [Env.served, Got.clip, Ev.gotOn, if_true, List.take_take,
              min_self]
            exact prefix_next ih want
          · have hne : (Ev.recv c' want r).conn ≠ some c := fun h =>
              hc (Option.some.inj h)
            exact hquiet (Ev.streams_of_conn_ne hne).2
      | _ => exact hquiet rfl

/-- Such peers are honest, and have their buffers. -/
theorem Env.Feeds.supplied {env : Env} (hf : env.Feeds servers)
    (hr : ∀ i, Ranged (servers i)) (h : env.Produced tr) :
    Supplied servers tr := by
  intro c
  have hb : Sized (servers c.peer)
      ⟨List.replicate (respSize (servers c.peer)).toNat 0,
        List.replicate (idsSize (servers c.peer)).toNat 0⟩ :=
    ⟨List.length_replicate, List.length_replicate⟩
  obtain ⟨fuel, run, hdoes, hread, hwrote⟩ :=
    serveConn_gives (hr c.peer) hb .unseen
      fun x (hx : x ∈ requests _ (sentOn tr c)) => requests_admits hx
  refine ⟨_, hb, fuel, run, .eof, hdoes, ?_, ?_⟩
  · rw [hread]
    exact requests_initial _
  · rw [hwrote]
    exact hf.got h c

/-- The servers of a network on which nothing fails are honest, and have
their buffers. -/
theorem Env.served_supplied (hr : ∀ i, Ranged (servers i))
    (h : (Env.served servers).Produced tr) : Supplied servers tr :=
  Env.Feeds.supplied (fun _ _ _ => rfl) hr h

-- ================================================================ a pair

/-- Two servers of one row each, rows 0 and 1. -/
def pairHost (i : PeerId) : Host where
  file _ := some ⟨List.replicate 160 (if i = 0 then 7 else 8), by
    rw [List.length_replicate]
    decide⟩
  fstat := true
  mmap := true
  pageSize := 4096
  socket := true
  bind _ := true
  listen := true

def pairOpts (i : PeerId) : List Opt :=
  [.file "half.bin", .baseRow (some (if i = 0 then 0 else 1)),
    .rowCount (some 1), .maxRows (some 4)]

/-- What main makes of them. -/
def pairServer (i : PeerId) : Server where
  map := List.replicate 160 (if i = 0 then 7 else 8)
  pageSize := 4096
  baseRow := if i = 0 then 0 else 1
  rowCount := 1
  base32 := if i = 0 then 0 else 1
  rows32 := 1
  maxRows := 4
  threads := 8

set_option maxRecDepth 2000 in
theorem pair_accepts (i : PeerId) :
    accepts (pairOpts i) (pairHost i) = .ok (pairServer i) := by
  cases i <;> rfl

/-- The network they make. -/
def pairEnv : Env := .served pairServer

end PleRowServer.Client
