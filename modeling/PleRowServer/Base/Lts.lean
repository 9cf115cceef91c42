/-
State machines given by what each action does, and the induction every
safety proof about one is an instance of: what holds at the start and
survives each step holds of every state a run reaches.
-/

namespace PleRowServer.Base

universe u v

variable {σ : Type u} {α : Type v}

/-- A machine: where it starts, and what an action does; `none` where
the action is not possible. -/
structure Lts (σ : Type u) (α : Type v) where
  init : σ
  step : σ → α → Option σ

namespace Lts

variable {m : Lts σ α} {s s' : σ}

/-- The states some run reaches. -/
inductive Reach (m : Lts σ α) : σ → Prop
  | init : Reach m m.init
  | step {s s' : σ} (a : α) : Reach m s → m.step s a = some s' → Reach m s'

/-- The invariant rule. -/
theorem Reach.invariant {I : σ → Prop} (h : Reach m s) (h₀ : I m.init)
    (hs : ∀ s a s', I s → m.step s a = some s' → I s') : I s := by
  induction h with
  | init => exact h₀
  | step a _ heq ih => exact hs _ a _ ih heq

/-- The state after some actions, if they are possible in turn. -/
def run (m : Lts σ α) : σ → List α → Option σ
  | s, [] => some s
  | s, a :: as => (m.step s a).bind fun s => run m s as

theorem Reach.of_run {as : List α} (h : Reach m s)
    (hr : m.run s as = some s') : Reach m s' := by
  induction as generalizing s with
  | nil => obtain rfl := Option.some.inj hr; exact h
  | cons a as ih =>
      obtain ⟨t, ht, hr⟩ := Option.bind_eq_some_iff.mp hr
      exact ih (.step a h ht) hr

end Lts

end PleRowServer.Base
