/-
Programs as trees of actions: what a thread does next, and how it goes
on for each answer it may get. One such tree gives both readings of a
function: its complete runs on its own (`Does`), and its next step among
other threads' (its constructor).

# Two rules

A complete run of a sequence is a run of each part (`does_bind`), so a
loop's traces are found by induction on its rounds. For interleavings
what counts is what a thread may do at each point: `Safe` threads a
local state through a program and asks that every action be permitted
there. It composes over sequences (`safe_bind`) and survives each step
by definition, so an invariant over all interleavings needs one
`Safe` proof for the program and one argument for each kind of action.
-/
import Mathlib.Data.List.Basic

namespace PleRowServer.Base

/-- A program over the actions `A`, action `a` being answered by an
`R a`. -/
inductive Prog (A : Type) (R : A → Type) (α : Type) : Type
  | ret (x : α)
  | act (a : A) (k : R a → Prog A R α)

/-- An action and its answer. -/
abbrev Did (A : Type) (R : A → Type) := (a : A) × R a

namespace Prog

variable {A : Type} {R : A → Type} {α β : Type}

/-- Sequencing. -/
def bind : Prog A R α → (α → Prog A R β) → Prog A R β
  | .ret x, f => f x
  | .act a k, f => .act a fun r => (k r).bind f

instance : Monad (Prog A R) where
  pure := .ret
  bind := bind

/-- One action. -/
def perform (a : A) : Prog A R (R a) :=
  .act a .ret

-- ======================================================= complete runs

/-- A complete run: what was done, and the result. -/
inductive Does : Prog A R α → List (Did A R) → α → Prop
  | ret (x : α) : Does (.ret x) [] x
  | act {a : A} {k : R a → Prog A R α} (r : R a) {tr : List (Did A R)}
      {x : α} : Does (k r) tr x → Does (.act a k) (⟨a, r⟩ :: tr) x

/-- A program that is over does nothing. -/
@[simp] theorem does_pure {x y : α} {tr : List (Did A R)} :
    Does (pure x : Prog A R α) tr y ↔ tr = [] ∧ y = x := by
  constructor
  · intro h; cases h; exact ⟨rfl, rfl⟩
  · intro h
    obtain ⟨rfl, rfl⟩ := h
    exact .ret y

/-- A run of a sequence is a run of each part. -/
theorem does_bind {p : Prog A R α} {f : α → Prog A R β}
    {tr : List (Did A R)} {y : β} :
    Does (p >>= f) tr y ↔ ∃ a b x, tr = a ++ b ∧ Does p a x ∧
      Does (f x) b y := by
  constructor
  · intro h
    induction p generalizing tr with
    | ret x => exact ⟨[], tr, x, rfl, .ret x, h⟩
    | act a k ih =>
        cases h with
        | act r h =>
            obtain ⟨t, b, x, rfl, hk, hf⟩ := ih r h
            exact ⟨_ :: t, b, x, rfl, .act r hk, hf⟩
  · intro h
    obtain ⟨a, b, x, rfl, hp, hf⟩ := h
    induction hp with
    | ret x => exact hf
    | act r _ ih => exact .act r (ih hf)

/-- A choice of a first part before a common rest. -/
theorem does_bind_ite {c : Prop} [Decidable c] {p q : Prog A R α}
    {f : α → Prog A R β} {tr : List (Did A R)} {y : β}
    (h : Does (if c then p >>= f else q >>= f) tr y) :
    ∃ a b x, tr = a ++ b ∧ Does (if c then p else q) a x ∧
      Does (f x) b y := by
  split
  case isTrue hc =>
    rw [if_pos hc] at h
    exact does_bind.mp h
  case isFalse hc =>
    rw [if_neg hc] at h
    exact does_bind.mp h

/-- A call is its own run. -/
theorem does_perform {a : A} {tr : List (Did A R)} {r : R a} :
    Does (perform a) tr r ↔ tr = [⟨a, r⟩] := by
  constructor
  · intro h
    cases h with
    | act r h => cases h; rfl
  · intro h
    rw [h]
    exact .act r (.ret r)

/-- The run whose `n`-th action is answered by the table `answers n`, the
actions counted from `n` on. -/
def runFrom (answers : Nat → ∀ a, R a) :
    Nat → Prog A R α → List (Did A R) × α
  | _, .ret x => ([], x)
  | n, .act a k =>
      let (tr, x) := (k (answers n a)).runFrom answers (n + 1)
      (⟨a, answers n a⟩ :: tr, x)

/-- The run that a numbered oracle gives is a run of the program. -/
theorem does_runFrom (answers : Nat → ∀ a, R a) (p : Prog A R α) :
    ∀ n, Does p (p.runFrom answers n).1 (p.runFrom answers n).2 := by
  induction p with
  | ret x => exact fun _ => .ret x
  | act a k ih => exact fun n => .act _ (ih (answers n a) (n + 1))

/-- Every reply in that run is the oracle's, at some number. -/
theorem runFrom_answers (answers : Nat → ∀ a, R a) (p : Prog A R α) :
    ∀ n, ∀ d ∈ (p.runFrom answers n).1, ∃ k, d.2 = answers k d.1 := by
  induction p with
  | ret x => simp [runFrom]
  | act a k ih =>
      intro n d hd
      rcases List.mem_cons.mp hd with rfl | hd
      · exact ⟨n, rfl⟩
      · exact ih (answers n a) (n + 1) d hd

/-- The run in which every action is answered by one table. -/
def runWith (answers : ∀ a, R a) (p : Prog A R α) : List (Did A R) × α :=
  p.runFrom (fun _ => answers) 0

/-- The run that an oracle gives is a run of the program. -/
theorem does_runWith (answers : ∀ a, R a) (p : Prog A R α) :
    Does p (p.runWith answers).1 (p.runWith answers).2 :=
  does_runFrom (fun _ => answers) p 0

/-- Every reply in that run is the oracle's. -/
theorem runWith_answers (answers : ∀ a, R a) (p : Prog A R α) :
    ∀ d ∈ (p.runWith answers).1, d.2 = answers d.1 := by
  intro d hd
  obtain ⟨-, h⟩ := runFrom_answers (fun _ => answers) p 0 d hd
  exact h

-- ============================================================ long runs

/-- A run that ends in `bad` has made at least `n` calls. -/
def Spends (n : Nat) (bad : α → Prop) (p : Prog A R α) : Prop :=
  ∀ tr x, Does p tr x → bad x → n ≤ tr.length

/-- Whoever makes so many calls makes fewer. -/
theorem Spends.le {n m : Nat} {bad : α → Prop} {p : Prog A R α}
    (h : Spends n bad p) (hle : m ≤ n) : Spends m bad p :=
  fun tr x hd hx => Nat.le_trans hle (h tr x hd hx)

/-- No calls are made by any program. -/
theorem spends_zero {bad : α → Prop} {p : Prog A R α} : Spends 0 bad p :=
  fun _ _ _ _ => Nat.zero_le _

/-- A good end takes none. -/
theorem spends_pure {n : Nat} {bad : α → Prop} {x : α} (hx : ¬ bad x) :
    Spends n bad (pure x : Prog A R α) := by
  intro tr y h hy
  obtain ⟨-, rfl⟩ := does_pure.mp h
  exact absurd hy hx

/-- Either the first part has made the calls, or the rest makes what is
missing. -/
theorem Spends.bind {n : Nat} {bad' : α → Prop} {bad : β → Prop}
    {p : Prog A R α} {f : α → Prog A R β} (hp : Spends n bad' p)
    (hf : ∀ tr x, Does p tr x → ¬ bad' x →
      Spends (n - tr.length) bad (f x)) : Spends n bad (p >>= f) := by
  intro tr y h hy
  obtain ⟨a, b, x, rfl, ha, hb⟩ := does_bind.mp h
  rw [List.length_append]
  by_cases hx : bad' x
  · have := hp a x ha hx
    omega
  · have := hf a x ha hx b y hb hy
    omega

/-- One call before the rest. -/
theorem Spends.act {n : Nat} {bad : β → Prop} {a : A}
    {f : R a → Prog A R β} (hf : ∀ r, Spends n bad (f r)) :
    Spends (n + 1) bad (perform a >>= f) := by
  intro tr y h hy
  obtain ⟨t, b, x, rfl, ht, hb⟩ := does_bind.mp h
  obtain rfl := does_perform.mp ht
  have := hf x b y hb hy
  rw [List.length_append, List.length_singleton]
  omega

-- ========================================================= safe programs

section Safe

variable {G : Type} (ok : G → A → Prop) (next : G → (a : A) → R a → G)

/-- From the local state `g` every action is permitted where it stands,
whatever the answers before it, and the program ends in `Q`. -/
def Safe (Q : α → G → Prop) : Prog A R α → G → Prop
  | .ret x, g => Q x g
  | .act a k, g => ok g a ∧ ∀ r, Safe Q (k r) (next g a r)

variable {ok next}

/-- Safety is that of the first part, and of the second from there. -/
theorem safe_bind {Q : β → G → Prop} {p : Prog A R α}
    {f : α → Prog A R β} {g : G} :
    Safe ok next Q (p >>= f) g
      ↔ Safe ok next (fun x g => Safe ok next Q (f x) g) p g := by
  induction p generalizing g with
  | ret x => exact Iff.rfl
  | act a k ih =>
      show (ok g a ∧ ∀ r, Safe ok next Q (k r >>= f) (next g a r)) ↔ _
      simp only [ih]
      rfl

/-- What holds at the end may be weakened. -/
theorem Safe.mono {Q Q' : α → G → Prop} {p : Prog A R α} {g : G}
    (h : Safe ok next Q p g) (hQ : ∀ x g, Q x g → Q' x g) :
    Safe ok next Q' p g := by
  induction p generalizing g with
  | ret x => exact hQ x g h
  | act a k ih => exact ⟨h.1, fun r => ih r (h.2 r)⟩

end Safe

end Prog

end PleRowServer.Base
