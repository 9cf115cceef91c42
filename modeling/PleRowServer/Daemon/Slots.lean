/-
rowserverd.c, the accept loop and the life of a connection thread as far
as `live_conns`, the accepted descriptors and the conn records go.

# Steps

Main and the connection threads share nothing but the atomic counter, so
a state is the counter, where main is and where each connection is, and
a step is one atomic operation or system call of one of them, with
whatever outcome. Main keeps the connection it is handling in hand (its
`cfd` and `c`); a connection it has started, or is done with, is in
`conns`.

# The count

Main takes a slot before it knows whether there is one and gives it back
on each of its three ways out. `Pc.slots` says when main itself holds
one; the rest of the counter is the threads that have not made their
last step (`Inv.live`).
-/
import PleRowServer.Base.Lts

namespace PleRowServer.Daemon

open Base

-- ================================================================ states

/-- The errors accept is told apart by. -/
inductive Errno
  | EINTR | ECONNABORTED | EMFILE | ENFILE
  | other (n : Nat)
deriving DecidableEq, Repr

/-- How a system call or an allocation ends. -/
inductive Outcome
  | ok
  | fail (e : Errno)
deriving DecidableEq, Repr

/-- Where the thread of a connection is. -/
inductive Stage
  /-- pthread_create has not succeeded -/
  | unstarted
  /-- about to allocate its two buffers -/
  | starting
  /-- about to `free(arg)`; whether the allocation succeeded -/
  | allocated (ok : Bool)
  /-- without buffers: answering one header -/
  | answering
  /-- in the request loop -/
  | serving
  /-- at `done`, about to free the buffers -/
  | done
  /-- about to `close(c.fd)` -/
  | closing
  /-- about to decrement `live_conns` -/
  | leaving
  | ended
deriving DecidableEq, Repr

/-- One accepted connection: its thread, and how often its descriptor
was closed and its conn record allocated and freed. -/
structure Conn where
  stage : Stage := .unstarted
  closes : Nat := 0
  mallocs : Nat := 0
  frees : Nat := 0
deriving DecidableEq, Repr

/-- The thread has started and has not executed its last decrement. -/
def Conn.running (c : Conn) : Bool :=
  match c.stage with
  | .unstarted | .ended => false
  | _ => true

/-- Where main is, with the connection in hand. -/
inductive Pc
  /-- at `while (!stopping)` -/
  | head
  /-- about to call accept -/
  | accepting
  /-- in nanosleep, out of descriptors -/
  | backoff
  /-- about to add to `live_conns` -/
  | counting (c : Conn)
  /-- over the limit, about to take it back -/
  | refusing (c : Conn)
  /-- about to allocate the conn record -/
  | allocating (c : Conn)
  /-- no record, about to take it back -/
  | unallocated (c : Conn)
  /-- about to create the thread -/
  | creating (c : Conn)
  /-- no thread, about to take it back -/
  | uncreated (c : Conn)
  /-- no thread, about to free the record -/
  | freeing (c : Conn)
  /-- about to `close(cfd)` -/
  | closing (c : Conn)
  | shutdown
deriving DecidableEq, Repr

/-- The daemon, as far as connections go. -/
structure Slots where
  live : Int := 0
  stopping : Bool := false
  pc : Pc := .head
  conns : List Conn := []
deriving DecidableEq, Repr

/-- Who moves, and with what outcome. -/
inductive Act
  | signal
  | main (o : Outcome)
  | conn (n : Nat) (o : Outcome)
deriving DecidableEq, Repr

-- ================================================================= steps

/-- What main does about an accept that failed. -/
def acceptFailed : Errno → Pc
  | .EINTR | .ECONNABORTED => .head
  | .EMFILE | .ENFILE => .backoff
  | .other _ => .shutdown

/-- One step of main's loop. -/
def mainStep (threads : Nat) (s : Slots) (o : Outcome) : Option Slots :=
  match s.pc, o with
  | .head, .ok =>
      some { s with pc := if s.stopping then .shutdown else .accepting }
  | .accepting, .ok => some { s with pc := .counting {} }
  | .accepting, .fail e => some { s with pc := acceptFailed e }
  | .backoff, .ok => some { s with pc := .head }
  | .counting c, .ok =>
      some { s with
        live := s.live + 1
        pc := if s.live ≥ threads then .refusing c else .allocating c }
  | .refusing c, .ok => some { s with live := s.live - 1, pc := .closing c }
  | .allocating c, .ok =>
      some { s with pc := .creating { c with mallocs := c.mallocs + 1 } }
  | .allocating c, .fail _ => some { s with pc := .unallocated c }
  | .unallocated c, .ok =>
      some { s with live := s.live - 1, pc := .closing c }
  | .creating c, .ok =>
      some { s with
        pc := .head, conns := s.conns ++ [{ c with stage := .starting }] }
  | .creating c, .fail _ => some { s with pc := .uncreated c }
  | .uncreated c, .ok => some { s with live := s.live - 1, pc := .freeing c }
  | .freeing c, .ok =>
      some { s with pc := .closing { c with frees := c.frees + 1 } }
  | .closing c, .ok =>
      some { s with
        pc := .head, conns := s.conns ++ [{ c with closes := c.closes + 1 }] }
  | _, _ => none

/-- One step of a connection thread: the connection after it, and what
it subtracts from `live_conns`. In the request loop `ok` is one read or
write on the descriptor and `fail` any of the loop's exits. -/
def connStep (c : Conn) (o : Outcome) : Option (Conn × Int) :=
  match c.stage, o with
  | .starting, .ok => some ({ c with stage := .allocated true }, 0)
  | .starting, .fail _ => some ({ c with stage := .allocated false }, 0)
  | .allocated ok, .ok =>
      some ({ c with
        frees := c.frees + 1
        stage := if ok then .serving else .answering }, 0)
  | .serving, .ok => some (c, 0)
  | .serving, .fail _ => some ({ c with stage := .done }, 0)
  | .answering, .ok => some (c, 0)
  | .answering, .fail _ => some ({ c with stage := .done }, 0)
  | .done, .ok => some ({ c with stage := .closing }, 0)
  | .closing, .ok =>
      some ({ c with closes := c.closes + 1, stage := .leaving }, 0)
  | .leaving, .ok => some ({ c with stage := .ended }, 1)
  | _, _ => none

/-- One step of the daemon. -/
def slotStep (threads : Nat) (s : Slots) : Act → Option Slots
  | .signal => some { s with stopping := true }
  | .main o => mainStep threads s o
  | .conn n o =>
      match s.conns[n]? with
      | none => none
      | some c => (connStep c o).map fun r =>
          { s with live := s.live - r.2, conns := s.conns.set n r.1 }

/-- The daemon with `--threads threads`. -/
def daemon (threads : Nat) : Lts Slots Act := ⟨{}, slotStep threads⟩

/-- The threads that have started and not made their last step. -/
def Slots.running (s : Slots) : Nat := s.conns.countP Conn.running

-- ============================================================= invariant

/-- Main itself has added one to `live_conns` and not given it back. -/
def Pc.slots : Pc → Nat
  | .refusing _ | .allocating _ | .unallocated _ | .creating _
  | .uncreated _ => 1
  | _ => 0

/-- The slot main holds is one it may keep. -/
def Pc.admitted : Pc → Nat
  | .allocating _ | .unallocated _ | .creating _ | .uncreated _ => 1
  | _ => 0

/-- What has been released of the connection in hand. -/
def Pc.Held : Pc → Prop
  | .counting c | .refusing c | .allocating c | .unallocated c =>
      c.stage = .unstarted ∧ c.closes = 0 ∧ c.mallocs = 0 ∧ c.frees = 0
  | .creating c | .uncreated c | .freeing c =>
      c.stage = .unstarted ∧ c.closes = 0 ∧ c.mallocs = 1 ∧ c.frees = 0
  | .closing c => c.stage = .unstarted ∧ c.closes = 0 ∧
      c.frees = c.mallocs ∧ c.mallocs ≤ 1
  | _ => True

/-- What has been released of a connection main is done with. -/
def Conn.Ok (c : Conn) : Prop :=
  match c.stage with
  | .unstarted => c.closes = 1 ∧ c.frees = c.mallocs ∧ c.mallocs ≤ 1
  | .starting | .allocated _ => c.closes = 0 ∧ c.mallocs = 1 ∧ c.frees = 0
  | .answering | .serving | .done | .closing =>
      c.closes = 0 ∧ c.mallocs = 1 ∧ c.frees = 1
  | .leaving | .ended => c.closes = 1 ∧ c.mallocs = 1 ∧ c.frees = 1

/-- Between any two steps. -/
structure Inv (threads : Nat) (s : Slots) : Prop where
  live : s.live = s.running + s.pc.slots
  room : s.running + s.pc.admitted ≤ threads
  held : s.pc.Held
  conns : ∀ c ∈ s.conns, c.Ok

theorem inv_init (threads : Nat) : Inv threads {} :=
  ⟨rfl, Nat.zero_le _, trivial, by simp⟩

section Steps

variable {threads : Nat} {s s' : Slots}

/-- A connection handed over to its thread. -/
theorem running_start (s : Slots) (c : Conn) (pc : Pc) :
    Slots.running { s with
      pc := pc, conns := s.conns ++ [{ c with stage := .starting }] }
        = s.running + 1 := by
  simp [Slots.running, List.countP_append, Conn.running]

/-- A connection main is done with. -/
theorem running_finish (s : Slots) {c : Conn} (pc : Pc)
    (hc : c.stage = .unstarted) :
    Slots.running { s with
      pc := pc, conns := s.conns ++ [{ c with closes := c.closes + 1 }] }
        = s.running := by
  simp [Slots.running, List.countP_append, Conn.running, hc]

/-- A step that leaves the threads alone. -/
theorem Inv.keep (h : Inv threads s) (stopping : Bool) {live : Int} {pc : Pc}
    (hlive : live = s.running + pc.slots)
    (hroom : s.running + pc.admitted ≤ threads) (hheld : pc.Held) :
    Inv threads ⟨live, stopping, pc, s.conns⟩ :=
  ⟨hlive, hroom, hheld, h.conns⟩

theorem mainStep_inv {o : Outcome} (h : Inv threads s)
    (hs : mainStep threads s o = some s') : Inv threads s' := by
  obtain ⟨hlive, hroom, hheld, hconns⟩ := h
  have h : Inv threads s := ⟨hlive, hroom, hheld, hconns⟩
  unfold mainStep at hs
  split at hs
  case h_1 hpc =>
    rw [hpc] at hlive
    cases hs
    by_cases hstop : s.stopping = true
    · rw [if_pos hstop]
      exact h.keep _ hlive (by rw [hpc] at hroom; exact hroom) trivial
    · rw [if_neg hstop]
      exact h.keep _ hlive (by rw [hpc] at hroom; exact hroom) trivial
  case h_2 hpc =>
    rw [hpc] at hlive hroom
    cases hs
    exact h.keep _ hlive hroom ⟨rfl, rfl, rfl, rfl⟩
  case h_3 e hpc =>
    rw [hpc] at hlive hroom
    cases hs
    cases e <;> exact h.keep _ hlive hroom trivial
  case h_4 hpc =>
    rw [hpc] at hlive hroom
    cases hs
    exact h.keep _ hlive hroom trivial
  case h_5 c hpc =>
    rw [hpc] at hlive hroom hheld
    cases hs
    have hlive' : s.live + 1 = s.running + 1 := by
      rw [hlive]
      show (s.running : Int) + 0 + 1 = _
      omega
    by_cases hfull : s.live ≥ threads
    · rw [if_pos hfull]
      exact h.keep _ hlive' hroom hheld
    · rw [if_neg hfull]
      refine h.keep _ hlive' ?_ hheld
      show s.running + 1 ≤ threads
      omega
  case h_6 c hpc =>
    rw [hpc] at hlive hroom hheld
    cases hs
    obtain ⟨hst, hcl, hm, hf⟩ := hheld
    refine h.keep _ ?_ hroom ⟨hst, hcl, by rw [hf, hm], by rw [hm]; omega⟩
    rw [hlive]
    show (s.running : Int) + 1 - 1 = s.running + 0
    omega
  case h_7 c hpc =>
    rw [hpc] at hlive hroom hheld
    cases hs
    obtain ⟨hst, hcl, hm, hf⟩ := hheld
    exact h.keep _ hlive hroom ⟨hst, hcl, by simp only [hm], hf⟩
  case h_8 c e hpc =>
    rw [hpc] at hlive hroom hheld
    cases hs
    exact h.keep _ hlive hroom hheld
  case h_9 c hpc =>
    rw [hpc] at hlive hroom hheld
    cases hs
    obtain ⟨hst, hcl, hm, hf⟩ := hheld
    refine h.keep _ ?_ (Nat.le_of_lt hroom)
      ⟨hst, hcl, by rw [hf, hm], by rw [hm]; omega⟩
    rw [hlive]
    show (s.running : Int) + 1 - 1 = s.running + 0
    omega
  case h_10 c hpc =>
    rw [hpc] at hlive hroom hheld
    cases hs
    obtain ⟨hst, hcl, hm, hf⟩ := hheld
    refine ⟨?_, ?_, trivial, ?_⟩
    · rw [running_start s c .head, hlive]
      rfl
    · rw [running_start s c .head]
      exact hroom
    · intro c' hc'
      rcases List.mem_append.mp hc' with hc' | hc'
      · exact hconns c' hc'
      · rw [List.mem_singleton.mp hc']
        exact ⟨hcl, hm, hf⟩
  case h_11 c e hpc =>
    rw [hpc] at hlive hroom hheld
    cases hs
    exact h.keep _ hlive hroom hheld
  case h_12 c hpc =>
    rw [hpc] at hlive hroom hheld
    cases hs
    refine h.keep _ ?_ (Nat.le_of_lt hroom) hheld
    rw [hlive]
    show (s.running : Int) + 1 - 1 = s.running + 0
    omega
  case h_13 c hpc =>
    rw [hpc] at hlive hroom hheld
    cases hs
    obtain ⟨hst, hcl, hm, hf⟩ := hheld
    exact h.keep _ hlive hroom
      ⟨hst, hcl, by simp only [hf, hm], by simp only [hm]; omega⟩
  case h_14 c hpc =>
    rw [hpc] at hlive hroom hheld
    cases hs
    obtain ⟨hst, hcl, hf, hm⟩ := hheld
    refine ⟨?_, ?_, trivial, ?_⟩
    · rw [running_finish s .head hst, hlive]
      rfl
    · rw [running_finish s .head hst]
      exact hroom
    · intro c' hc'
      rcases List.mem_append.mp hc' with hc' | hc'
      · exact hconns c' hc'
      · rw [List.mem_singleton.mp hc']
        unfold Conn.Ok
        simp only [hst]
        exact ⟨by rw [hcl], hf, hm⟩
  case h_15 => cases hs

/-- A thread's step keeps its own account and gives its slot back
exactly when it ends. -/
theorem connStep_ok {c c' : Conn} {o : Outcome} {d : Int} (hc : c.Ok)
    (h : connStep c o = some (c', d)) :
    c'.Ok ∧ c.running = true ∧
      (d = 0 ∧ c'.running = true ∨ d = 1 ∧ c'.running = false) := by
  obtain ⟨stage, closes, mallocs, frees⟩ := c
  cases o with
  | ok =>
      cases stage with
      | unstarted => cases h
      | starting => cases h; exact ⟨hc, rfl, .inl ⟨rfl, rfl⟩⟩
      | allocated ok =>
          cases h
          obtain ⟨hcl, hm, hf⟩ := hc
          have hf' : frees + 1 = 1 := congrArg (· + 1) hf
          cases ok <;> exact ⟨⟨hcl, hm, hf'⟩, rfl, .inl ⟨rfl, rfl⟩⟩
      | answering => cases h; exact ⟨hc, rfl, .inl ⟨rfl, rfl⟩⟩
      | serving => cases h; exact ⟨hc, rfl, .inl ⟨rfl, rfl⟩⟩
      | done => cases h; exact ⟨hc, rfl, .inl ⟨rfl, rfl⟩⟩
      | closing =>
          cases h
          obtain ⟨hcl, hm, hf⟩ := hc
          exact ⟨⟨congrArg (· + 1) hcl, hm, hf⟩, rfl, .inl ⟨rfl, rfl⟩⟩
      | leaving => cases h; exact ⟨hc, rfl, .inr ⟨rfl, rfl⟩⟩
      | ended => cases h
  | fail e =>
      cases stage with
      | starting => cases h; exact ⟨hc, rfl, .inl ⟨rfl, rfl⟩⟩
      | answering => cases h; exact ⟨hc, rfl, .inl ⟨rfl, rfl⟩⟩
      | serving => cases h; exact ⟨hc, rfl, .inl ⟨rfl, rfl⟩⟩
      | _ => cases h

/-- A thread's step changes the number of running threads by what it
subtracts from the counter. -/
theorem running_set {n : Nat} {c c' : Conn} {d : Int}
    (hn : s.conns[n]? = some c) (hrun : c.running = true)
    (hd : d = 0 ∧ c'.running = true ∨ d = 1 ∧ c'.running = false)
    (pc : Pc) (live : Int) (stopping : Bool) :
    ((Slots.running ⟨live, stopping, pc, s.conns.set n c'⟩ : Nat) : Int)
        = s.running - d ∧
      Slots.running ⟨live, stopping, pc, s.conns.set n c'⟩ ≤ s.running := by
  obtain ⟨hlt, hget⟩ := List.getElem?_eq_some_iff.mp hn
  have hpos : 0 < s.conns.countP Conn.running :=
    List.countP_pos_iff.mpr ⟨c, List.mem_of_getElem? hn, hrun⟩
  unfold Slots.running
  rw [List.countP_set hlt, hget, if_pos hrun]
  rcases hd with ⟨rfl, hr⟩ | ⟨rfl, hr⟩
  · rw [if_pos hr]
    omega
  · rw [if_neg (by rw [hr]; decide)]
    omega

theorem slotStep_inv {a : Act} (h : Inv threads s)
    (hs : slotStep threads s a = some s') : Inv threads s' := by
  cases a with
  | signal =>
      cases hs
      exact h.keep true h.live h.room h.held
  | main o => exact mainStep_inv h hs
  | conn n o =>
      simp only [slotStep] at hs
      split at hs
      case h_1 => cases hs
      case h_2 c hn =>
        obtain ⟨⟨c', d⟩, hstep, rfl⟩ := Option.map_eq_some_iff.mp hs
        have hmem := List.mem_of_getElem? hn
        obtain ⟨hok, hrun, hd⟩ := connStep_ok (h.conns c hmem) hstep
        obtain ⟨heq, hle⟩ := running_set hn hrun hd
          s.pc (s.live - d) s.stopping
        refine ⟨?_, ?_, h.held, ?_⟩
        · show s.live - d = ((Slots.running ⟨_, _, _, _⟩ : Nat) : Int)
            + (s.pc.slots : Int)
          rw [heq, h.live]
          omega
        · exact Nat.le_trans (Nat.add_le_add_right hle _) h.room
        · intro c₁ hc₁
          rcases List.mem_or_eq_of_mem_set hc₁ with hc₁ | rfl
          · exact h.conns c₁ hc₁
          · exact hok

/-- Every reachable state is accounted for. -/
theorem reach_inv (h : (daemon threads).Reach s) : Inv threads s :=
  h.invariant (inv_init threads) fun _ _ _ hi hs => slotStep_inv hi hs

/-- The connection in hand. -/
def Pc.hand : Pc → Option Conn
  | .counting c | .refusing c | .allocating c | .unallocated c
  | .creating c | .uncreated c | .freeing c | .closing c => some c
  | _ => none

/-- Main has just refused the connection in hand. -/
def Pc.refused : Pc → Bool
  | .refusing _ => true
  | _ => false

/-- serve_conn is at a point where it uses its descriptor. -/
def Conn.usesFd (c : Conn) : Bool :=
  match c.stage with
  | .answering | .serving | .closing => true
  | _ => false

theorem Pc.Held.once {pc : Pc} {c : Conn} (h : pc.Held)
    (hc : pc.hand = some c) :
    c.closes = 0 ∧ c.frees ≤ c.mallocs ∧ c.mallocs ≤ 1 := by
  cases pc with
  | head => cases hc
  | accepting => cases hc
  | backoff => cases hc
  | shutdown => cases hc
  | counting c' | refusing c' | allocating c' | unallocated c' =>
      cases hc
      obtain ⟨-, hcl, hm, hf⟩ := h
      omega
  | creating c' | uncreated c' | freeing c' =>
      cases hc
      obtain ⟨-, hcl, hm, hf⟩ := h
      omega
  | closing c' =>
      cases hc
      obtain ⟨-, hcl, hf, hm⟩ := h
      omega

theorem Conn.Ok.once {c : Conn} (h : c.Ok) :
    c.closes ≤ 1 ∧ c.frees ≤ c.mallocs ∧ c.mallocs ≤ 1 := by
  obtain ⟨stage, closes, mallocs, frees⟩ := c
  cases stage <;> simp only [Conn.Ok] at h <;> simp only <;> omega

/-- Done with: the descriptor closed, the record freed if there was
one. -/
theorem Conn.Ok.released {c : Conn} (h : c.Ok) (hr : c.running = false) :
    c.closes = 1 ∧ c.frees = c.mallocs := by
  obtain ⟨stage, closes, mallocs, frees⟩ := c
  cases stage with
  | unstarted => exact ⟨h.1, h.2.1⟩
  | ended => exact ⟨h.1, h.2.2.trans h.2.1.symm⟩
  | _ => cases hr

theorem Conn.Ok.opened {c : Conn} (h : c.Ok) (hu : c.usesFd = true) :
    c.closes = 0 := by
  obtain ⟨stage, closes, mallocs, frees⟩ := c
  cases stage with
  | answering => exact h.1
  | serving => exact h.1
  | closing => exact h.1
  | _ => cases hu

/-- Main refuses a connection only off a full counter. -/
theorem mainStep_refuses {o : Outcome} (hs : mainStep threads s o = some s')
    (hr : s'.pc.refused = true) :
    ∃ c, s.pc = .counting c ∧ s.live ≥ threads := by
  unfold mainStep at hs
  split at hs
  case h_1 hpc =>
    cases hs
    by_cases hstop : s.stopping = true
    · simp [hstop, Pc.refused] at hr
    · simp [hstop, Pc.refused] at hr
  case h_3 e hpc =>
    cases hs
    cases e <;> cases hr
  case h_5 c hpc =>
    cases hs
    by_cases hfull : s.live ≥ threads
    · exact ⟨c, hpc, hfull⟩
    · simp [hfull, Pc.refused] at hr
  all_goals first
    | cases hs; cases hr
    | cases hs

/-- In every run of the accept loop and its threads: before each accept
the counter is the number of threads that still hold a slot, and no more
than there are slots; only a full house is refused; every descriptor and
every record is released once, and no later than its connection is done
with; and no thread uses a closed descriptor. -/
theorem slots_accounted (h : (daemon threads).Reach s) :
    (s.pc = .accepting →
      s.live = s.running ∧ 0 ≤ s.live ∧ s.live ≤ threads) ∧
    (∀ o s', (daemon threads).step s (.main o) = some s' →
      s'.pc.refused = true → s.running = threads) ∧
    (∀ c, c ∈ s.conns ∨ s.pc.hand = some c →
      c.closes ≤ 1 ∧ c.frees ≤ c.mallocs ∧ c.mallocs ≤ 1) ∧
    (∀ c ∈ s.conns, c.running = false →
      c.closes = 1 ∧ c.frees = c.mallocs) ∧
    (∀ c ∈ s.conns, c.usesFd = true → c.closes = 0) := by
  have hi := reach_inv h
  refine ⟨fun hpc => ?_, fun o s' hs href => ?_, fun c hc => ?_,
    fun c hc hr => (hi.conns c hc).released hr,
    fun c hc hu => (hi.conns c hc).opened hu⟩
  · have hlive := hi.live
    have hroom := hi.room
    rw [hpc] at hlive hroom
    simp only [Pc.slots, Pc.admitted] at hlive hroom
    omega
  · obtain ⟨c, hpc, hfull⟩ := mainStep_refuses hs href
    have hlive := hi.live
    have hroom := hi.room
    rw [hpc] at hlive hroom
    simp only [Pc.slots, Pc.admitted] at hlive hroom
    omega
  · rcases hc with hc | hc
    · exact (hi.conns c hc).once
    · obtain ⟨hcl, hf, hm⟩ := hi.held.once hc
      omega

/-- One slot, taken, and a second connection just accepted. -/
def fullHouse : Slots where
  live := 1
  pc := .counting {}
  conns := [{ stage := .starting, mallocs := 1 }]

theorem slots_accounted_fullHouse :
    (∀ o s', (daemon 1).step fullHouse (.main o) = some s' →
      s'.pc.refused = true → fullHouse.running = 1) ∧
    (∀ c ∈ fullHouse.conns, c.usesFd = true → c.closes = 0) := by
  have hrun : (daemon 1).run (daemon 1).init
      (List.replicate 7 (.main .ok)) = some fullHouse := by decide
  obtain ⟨-, hfull, -, -, hused⟩ := slots_accounted (.of_run .init hrun)
  exact ⟨hfull, hused⟩

end Steps

end PleRowServer.Daemon
