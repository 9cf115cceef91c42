/-
rowserverd.c, main from the accept loop on: what the process exits with,
and whether it was asked to.

Past the loop main closes the listening socket and returns 0, whichever
way the loop was left. Two ways leave it: the check of `stopping`, and
an accept that failed with an error the source neither retries nor backs
off from. Supervisors that restart on failure only see the first number.
-/
import PleRowServer.Daemon.Slots

namespace PleRowServer.Daemon

open Base

variable {threads : Nat} {s s' : Slots} {acts : List Act} {a : Act}

/-- What main has returned since it began to listen, if it has. -/
def exitStatus (s : Slots) : Option Nat :=
  match s.pc with
  | .shutdown => some 0
  | _ => none

/-- In this run main leaves its loop for an exit status of 0 only after
a stop signal was delivered. -/
def StopsWhenAsked (threads : Nat) (acts : List Act) : Prop :=
  ∀ before a after s s', acts = before ++ a :: after →
    (daemon threads).run {} before = some s →
    (daemon threads).step s a = some s' →
    exitStatus s = none → exitStatus s' = some 0 → Act.signal ∈ before

/-- In this run no accept fails with an error the source gives up on
before a stop signal was delivered. -/
def NoOddErrno (threads : Nat) (acts : List Act) : Prop :=
  ∀ before n after s, acts = before ++ .main (.fail (.other n)) :: after →
    (daemon threads).run {} before = some s → s.pc = .accepting →
    Act.signal ∈ before

/-- Only a signal sets `stopping`. -/
theorem stopping_asked {s : Slots}
    (h : (daemon threads).run s acts = some s')
    (hs : s'.stopping = true) : s.stopping = true ∨ .signal ∈ acts := by
  induction acts generalizing s with
  | nil =>
      obtain rfl := Option.some.inj h
      exact .inl hs
  | cons a acts ih =>
      obtain ⟨t, ht, hrun⟩ := Option.bind_eq_some_iff.mp h
      rcases ih hrun with hstop | hmem
      case inr => exact .inr (by simp [hmem])
      cases a with
      | signal => exact .inr (by simp)
      | main o =>
          refine .inl ?_
          change mainStep threads s o = some t at ht
          unfold mainStep at ht
          split at ht <;> first
            | (cases ht; exact hstop)
            | cases ht
      | conn n o =>
          refine .inl ?_
          simp only [daemon, slotStep] at ht
          split at ht
          case h_1 => cases ht
          case h_2 c hc =>
            obtain ⟨r, -, rfl⟩ := Option.map_eq_some_iff.mp ht
            exact hstop

/-- The two ways out of the loop. -/
theorem leaves_cases (h : (daemon threads).step s a = some s')
    (hs : exitStatus s = none) (hs' : exitStatus s' = some 0) :
    s.stopping = true ∨
      s.pc = .accepting ∧ ∃ n, a = .main (.fail (.other n)) := by
  cases a with
  | signal =>
      obtain rfl := Option.some.inj h
      have : exitStatus s = some 0 := hs'
      rw [hs] at this
      cases this
  | conn n o =>
      simp only [daemon, slotStep] at h
      split at h
      case h_1 => cases h
      case h_2 c hc =>
        obtain ⟨r, -, rfl⟩ := Option.map_eq_some_iff.mp h
        have : exitStatus s = some 0 := hs'
        rw [hs] at this
        cases this
  | main o =>
      change mainStep threads s o = some s' at h
      unfold mainStep at h
      split at h
      case h_1 hpc =>
        cases h
        by_cases hstop : s.stopping = true
        · exact .inl hstop
        · simp [exitStatus, hstop] at hs'
      case h_3 e hpc =>
        cases h
        cases e with
        | other n => exact .inr ⟨hpc, n, rfl⟩
        | _ => simp [exitStatus, acceptFailed] at hs'
      case h_5 c hpc =>
        cases h
        by_cases hfull : s.live ≥ threads
        · simp [exitStatus, hfull] at hs'
        · simp [exitStatus, hfull] at hs'
      all_goals first
        | (cases h; simp [exitStatus] at hs')
        | cases h

/-- Main exits with 0 unasked exactly in the runs in which an accept
fails unasked with an error it gives up on. -/
theorem stops_when_asked (threads : Nat) (acts : List Act) :
    StopsWhenAsked threads acts ↔ NoOddErrno threads acts := by
  constructor
  · intro h before n after s heq hrun hpc
    have hstep : (daemon threads).step s (.main (.fail (.other n)))
        = some { s with pc := .shutdown } := by
      show mainStep threads s _ = _
      unfold mainStep
      rw [hpc]
      rfl
    refine h before _ after s _ heq hrun hstep ?_ rfl
    unfold exitStatus
    rw [hpc]
  · intro h before a after s s' heq hrun hstep hs hs'
    rcases leaves_cases hstep hs hs' with hstop | ⟨hpc, n, rfl⟩
    · exact (stopping_asked hrun hstop).resolve_left (by simp)
    · exact h before n after s heq hrun hpc

/-- The first accept fails with ENOMEM. -/
def outOfMemory : List Act := [.main .ok, .main (.fail (.other 12))]

theorem stops_unasked : ¬ StopsWhenAsked 8 outOfMemory := by
  intro h
  have := h [.main .ok] (.main (.fail (.other 12))) [] _ _ rfl rfl rfl rfl
    rfl
  simp at this

end PleRowServer.Daemon
