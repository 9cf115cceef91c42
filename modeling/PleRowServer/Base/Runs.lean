/-
Programs over a state that may raise: the outcome rules every later
proof is assembled from. A program is an `EStateM`; `Runs m s Q E` says
that from `s` it either returns into `Q` or raises into `E`, so one
statement covers both exits and a caller never has to re-run the callee
to learn what a failure left behind.

# The sweep rule

Almost every loop of an event-driven client visits each member of a
finite set once and changes only that member's share of the state.
`Runs.sweep` is that loop's rule: if each visit takes its own member
from `A` to `B` and keeps the others' `A` and `B`, then a whole sweep
takes every member from `A` to `B`, and a sweep that raises has split
the list into done, failing and untouched members. Nothing about the
order of the list or the shape of the state enters.
-/
import Mathlib.Data.List.Nodup

namespace PleRowServer.Base

universe u

variable {σ ε ε' α β ι : Type u}

-- =========================================================== outcomes

/-- From `s`, `m` returns into `Q` or raises into `E`. -/
def Runs (m : EStateM ε σ α) (s : σ) (Q : α → σ → Prop)
    (E : ε → σ → Prop) : Prop :=
  match m s with
  | .ok a s' => Q a s'
  | .error e s' => E e s'

/-- Consequence: both exits may be weakened. -/
theorem Runs.mono {m : EStateM ε σ α} {s : σ} {Q Q' : α → σ → Prop}
    {E E' : ε → σ → Prop} (h : Runs m s Q E)
    (hQ : ∀ a s', Q a s' → Q' a s') (hE : ∀ e s', E e s' → E' e s') :
    Runs m s Q' E' := by
  unfold Runs at h ⊢
  split <;> simp_all

/-- Two facts about one run hold together. -/
theorem Runs.and {m : EStateM ε σ α} {s : σ} {Q Q' : α → σ → Prop}
    {E E' : ε → σ → Prop} (h : Runs m s Q E) (h' : Runs m s Q' E') :
    Runs m s (fun a s' => Q a s' ∧ Q' a s')
      (fun e s' => E e s' ∧ E' e s') := by
  unfold Runs at h h' ⊢
  split <;> simp_all

/-- The most that can be said of a run. -/
theorem Runs.self (m : EStateM ε σ α) (s : σ) :
    Runs m s (fun a s' => m s = .ok a s') (fun e s' => m s = .error e s') := by
  unfold Runs
  split
  case h_1 he => exact he
  case h_2 he => exact he

/-- A value is returned as it stands. -/
@[simp] theorem runs_pure {a : α} {s : σ} {Q : α → σ → Prop}
    {E : ε → σ → Prop} :
    Runs (pure a : EStateM ε σ α) s Q E ↔ Q a s := Iff.rfl

/-- An exception leaves the state alone. -/
@[simp] theorem runs_throw {e : ε} {s : σ} {Q : α → σ → Prop}
    {E : ε → σ → Prop} :
    Runs (throw e : EStateM ε σ α) s Q E ↔ E e s := Iff.rfl

/-- Reading the state returns it as it is. -/
@[simp] theorem runs_get {s : σ} {Q : σ → σ → Prop} {E : ε → σ → Prop} :
    Runs (get : EStateM ε σ σ) s Q E ↔ Q s s := Iff.rfl

/-- Setting the state leaves the one given. -/
@[simp] theorem runs_set {s t : σ} {Q : PUnit → σ → Prop}
    {E : ε → σ → Prop} :
    Runs (set t : EStateM ε σ PUnit) s Q E ↔ Q ⟨⟩ t := Iff.rfl

/-- Changing the state leaves its image. -/
@[simp] theorem runs_modify {f : σ → σ} {s : σ} {Q : PUnit → σ → Prop}
    {E : ε → σ → Prop} :
    Runs (modify f : EStateM ε σ PUnit) s Q E ↔ Q ⟨⟩ (f s) := Iff.rfl

/-- Changing the state for a value returns the value as well. -/
@[simp] theorem runs_modifyGet {f : σ → α × σ} {s : σ}
    {Q : α → σ → Prop} {E : ε → σ → Prop} :
    Runs (modifyGet f : EStateM ε σ α) s Q E ↔ Q (f s).1 (f s).2 := Iff.rfl

/-- Of two programs in a row the second starts where the first returned.
-/
theorem runs_bind {m : EStateM ε σ α} {f : α → EStateM ε σ β} {s : σ}
    {Q : β → σ → Prop} {E : ε → σ → Prop} :
    Runs (m >>= f) s Q E ↔ Runs m s (fun a s' => Runs (f a) s' Q E) E := by
  simp only [Runs, Bind.bind, EStateM.bind]
  cases m s <;> rfl

/-- Sequencing: the first program's two exits feed the second program
and the common raise. -/
theorem Runs.bind {m : EStateM ε σ α} {f : α → EStateM ε σ β} {s : σ}
    {P : α → σ → Prop} {F : ε → σ → Prop} {Q : β → σ → Prop}
    {E : ε → σ → Prop} (h : Runs m s P F)
    (hf : ∀ a s', P a s' → Runs (f a) s' Q E)
    (hE : ∀ e s', F e s' → E e s') : Runs (m >>= f) s Q E :=
  runs_bind.mpr (h.mono hf hE)

-- ================================================ handlers and cleanup

/-- `try m except p: h`: an exception that `p` selects goes to `h`, any
other one passes. -/
def catching (p : ε → Bool) (m : EStateM ε σ α) (h : ε → EStateM ε σ α) :
    EStateM ε σ α := fun s =>
  match m s with
  | .ok a s' => .ok a s'
  | .error e s' => if p e then h e s' else .error e s'

/-- The handler rule: what the body raises is either handled or
passed on. -/
theorem Runs.catching {p : ε → Bool} {m : EStateM ε σ α}
    {h : ε → EStateM ε σ α} {s : σ} {Q : α → σ → Prop}
    {F E : ε → σ → Prop} (hm : Runs m s Q F)
    (hh : ∀ e s', F e s' → p e = true → Runs (h e) s' Q E)
    (hp : ∀ e s', F e s' → p e = false → E e s') :
    Runs (catching p m h) s Q E := by
  unfold Runs at hm ⊢
  unfold Base.catching
  cases hms : m s with
  | ok a s' => simpa [hms] using hm
  | error e s' =>
      rw [hms] at hm
      cases hpe : p e with
      | true => simpa [hpe, Runs] using hh e s' hm hpe
      | false => simpa [hpe] using hp e s' hm hpe

/-- `try m finally c` for a cleanup that cannot fail. -/
def cleaning (m : EStateM ε σ α) (c : σ → σ) : EStateM ε σ α := fun s =>
  match m s with
  | .ok a s' => .ok a (c s')
  | .error e s' => .error e (c s')

/-- What is cleaned up is so on both ways out. -/
@[simp] theorem runs_cleaning {m : EStateM ε σ α} {c : σ → σ} {s : σ}
    {Q : α → σ → Prop} {E : ε → σ → Prop} :
    Runs (cleaning m c) s Q E
      ↔ Runs m s (fun a s' => Q a (c s')) (fun e s' => E e (c s')) := by
  unfold Runs cleaning
  cases m s <;> rfl

-- =============================================================== loops

/-- `for x in xs: f x`. -/
def forEach (f : ι → EStateM ε σ PUnit) : List ι → EStateM ε σ PUnit
  | [] => pure ⟨⟩
  | x :: xs => do f x; forEach f xs

/-- A loop whose body never leaves an invariant never leaves it. -/
theorem Runs.forEach {f : ι → EStateM ε σ PUnit} {I : σ → Prop}
    {E : ε → σ → Prop} {xs : List ι}
    (hf : ∀ x ∈ xs, ∀ s, I s → Runs (f x) s (fun _ s' => I s') E) :
    ∀ s, I s → Runs (forEach f xs) s (fun _ s' => I s') E := by
  induction xs with
  | nil => intro s hs; exact hs
  | cons x xs ih =>
      intro s hs
      refine Runs.bind (hf x (by simp) s hs) ?_ (fun _ _ h => h)
      intro _ s' hs'
      exact ih (fun y hy => hf y (by simp [hy])) s' hs'

/-- How a sweep that raised left its list: members done, the failing
one, members not reached. -/
structure Halted (A B : ι → σ → Prop) (F : ι → ε → σ → Prop)
    (xs : List ι) (e : ε) (s : σ) : Prop where
  split : ∃ pre x post, xs = pre ++ x :: post ∧ (∀ y ∈ pre, B y s) ∧
    F x e s ∧ ∀ y ∈ post, A y s

/-- The sweep rule. `K x` is what a visit to `x` keeps: both its exits
stay inside it, and it carries the `A` and `B` of every member apart
from `x`. `I rest` is the invariant of the whole with `rest` still to
visit. -/
theorem Runs.sweep {f : ι → EStateM ε σ PUnit} {A B : ι → σ → Prop}
    {F : ι → ε → σ → Prop} {K : ι → σ → σ → Prop} {I : List ι → σ → Prop}
    {J : ε → σ → Prop} {apart : ι → ι → Prop} {xs : List ι}
    (hap : xs.Pairwise apart) (hsymm : ∀ x y, apart x y → apart y x)
    (hstep : ∀ pre x rest, xs = pre ++ x :: rest → ∀ s,
      I (x :: rest) s → A x s →
      Runs (f x) s (fun _ s' => (I rest s' ∧ B x s') ∧ K x s s')
        (fun e s' => (J e s' ∧ F x e s') ∧ K x s s'))
    (hA : ∀ x y s s', K x s s' → apart x y → A y s → A y s')
    (hB : ∀ x y s s', K x s s' → apart x y → B y s → B y s') :
    ∀ s, I xs s → (∀ x ∈ xs, A x s) →
      Runs (Base.forEach f xs) s (fun _ s' => I [] s' ∧ ∀ x ∈ xs, B x s')
        (fun e s' => J e s' ∧ Halted A B F xs e s') := by
  -- generalised over the members already done, whose `B` must survive
  suffices H : ∀ (done : List ι) s, (done ++ xs).Pairwise apart → I xs s →
      (∀ y ∈ done, B y s) → (∀ x ∈ xs, A x s) →
      Runs (Base.forEach f xs) s
        (fun _ s' => I [] s' ∧ ∀ x ∈ done ++ xs, B x s')
        (fun e s' => J e s' ∧ ∃ pre x post, xs = pre ++ x :: post ∧
          (∀ y ∈ done ++ pre, B y s') ∧ F x e s' ∧ ∀ y ∈ post, A y s') by
    intro s hI hAs
    refine (H [] s (by simpa using hap) hI (by simp) hAs).mono ?_ ?_
    · intro _ s' h; simpa using h
    · rintro e s' ⟨hJ, pre, x, post, hxs, hpre, hF, hpost⟩
      exact ⟨hJ, ⟨pre, x, post, hxs, by simpa using hpre, hF, hpost⟩⟩
  clear hap
  induction xs with
  | nil =>
      intro done s _ hI hdone _
      exact ⟨hI, by simpa using hdone⟩
  | cons x xs ih =>
      intro done s hap hI hdone hAs
      obtain ⟨-, hcons, hcross⟩ := List.pairwise_append.mp hap
      have hxd : ∀ y ∈ done, apart x y := fun y hy =>
        hsymm y x (hcross y hy x (by simp))
      have hxx : ∀ y ∈ xs, apart x y := (List.pairwise_cons.mp hcons).1
      refine Runs.bind (hstep [] x xs rfl s hI (hAs x (by simp))) ?_ ?_
      · rintro _ s' ⟨⟨hI', hBx⟩, hK⟩
        have := ih (fun pre z rest hz => hstep (x :: pre) z rest (by simp [hz]))
          (done ++ [x]) s'
          (by simpa using hap) hI'
          (by
            intro y hy
            rcases List.mem_append.mp hy with hy | hy
            · exact hB x y s s' hK (hxd y hy) (hdone y hy)
            · rw [List.mem_singleton.mp hy]; exact hBx)
          (fun y hy => hA x y s s' hK (hxx y hy) (hAs y (by simp [hy])))
        refine this.mono ?_ ?_
        · intro _ t ht; simpa using ht
        · rintro e t ⟨hJ, pre, z, post, hxs, hpre, hF, hpost⟩
          exact ⟨hJ, x :: pre, z, post, by simp [hxs], by simpa using hpre,
            hF, hpost⟩
      · rintro e s' ⟨⟨hJ, hF⟩, hK⟩
        refine ⟨hJ, [], x, xs, by simp, ?_, hF, ?_⟩
        · intro y hy
          have hy' : y ∈ done := by simpa using hy
          exact hB x y s s' hK (hxd y hy') (hdone y hy')
        · intro y hy
          exact hA x y s s' hK (hxx y hy) (hAs y (by simp [hy]))

-- ========================================================== invariants

/-- From `I`, `m` returns in `I` or raises into `J`. -/
def Stays (I : σ → Prop) (J : ε → σ → Prop) (m : EStateM ε σ α) : Prop :=
  ∀ s, I s → Runs m s (fun _ s' => I s') J

namespace Stays

variable {I : σ → Prop} {J : ε → σ → Prop} {m : EStateM ε σ α}

/-- A value keeps everything. -/
theorem pure (a : α) : Stays I J (Pure.pure a : EStateM ε σ α) :=
  fun _ h => h

/-- A look at the state keeps it. -/
theorem get : Stays I J (MonadState.get : EStateM ε σ σ) := fun _ h => h

/-- One program after another keeps the state. -/
theorem bind {f : α → EStateM ε σ β} (h : Stays I J m)
    (hf : ∀ a, Stays I J (f a)) : Stays I J (m >>= f) :=
  fun s hs => (h s hs).bind (fun a s' hs' => hf a s' hs') fun _ _ h => h

/-- A choice does if the branch taken does. -/
theorem ite {c : Prop} [Decidable c] {m' : EStateM ε σ α}
    (h : c → Stays I J m) (h' : ¬ c → Stays I J m') :
    Stays I J (if c then m else m') := by
  split
  case isTrue hc => exact h hc
  case isFalse hc => exact h' hc

/-- A statement made under a condition, and what follows it. -/
theorem guard {c : Prop} [Decidable c] {m : EStateM ε σ PUnit}
    {k : PUnit → EStateM ε σ β} (h : c → Stays I J m)
    (hk : Stays I J (k ⟨⟩)) :
    Stays I J (if c then m >>= k else k ⟨⟩) :=
  .ite (fun hc => (h hc).bind fun _ => hk) fun _ => hk

/-- A handler does if it finds its way back. -/
theorem catching {p : ε → Bool} {hd : ε → EStateM ε σ α}
    (h : Stays I J m)
    (hh : ∀ e s, J e s → p e = true → Runs (hd e) s (fun _ s' => I s') J) :
    Stays I J (Base.catching p m hd) :=
  fun s hs => (h s hs).catching hh fun _ _ h _ => h

/-- A loop does if its body does. -/
theorem forEach {f : ι → EStateM ε σ PUnit} {xs : List ι}
    (h : ∀ x ∈ xs, Stays I J (f x)) : Stays I J (Base.forEach f xs) :=
  Runs.forEach h

end Stays

/-- Whichever way it ends, `m` stays in `I`. -/
abbrev Keeps (I : σ → Prop) (m : EStateM ε σ α) : Prop :=
  Stays I (fun _ => I) m

/-- A handler that stays in `I` too. -/
theorem Keeps.catching {I : σ → Prop} {p : ε → Bool} {m : EStateM ε σ α}
    {hd : ε → EStateM ε σ α} (h : Keeps I m) (hh : ∀ e, Keeps I (hd e)) :
    Keeps I (Base.catching p m hd) :=
  Stays.catching h fun e s hs _ => hh e s hs

end PleRowServer.Base
