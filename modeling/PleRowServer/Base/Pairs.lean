/-
Two runs side by side. `Alike R Q m m'` says that from states related by
`R` the programs `m` and `m'` end the same way: both return, values
related by `Q` and states by `R`, or both raise the same exception, again
in related states. Programs that are one text but for the values it binds
are alike by these rules, one for each construct; so what a program's
course does not depend on can be changed under it.
-/
import PleRowServer.Base.Runs

namespace PleRowServer.Base

universe u

variable {σ ε α β α' β' ι : Type u}

/-- The two runs end the same way. -/
def Pair (m : EStateM ε σ α) (s : σ) (m' : EStateM ε σ β) (t : σ)
    (Q : α → β → σ → σ → Prop) (E : ε → σ → σ → Prop) : Prop :=
  match m s, m' t with
  | .ok a s', .ok b t' => Q a b s' t'
  | .error e s', .error e' t' => e = e' ∧ E e s' t'
  | _, _ => False

/-- How two runs can end the same way. -/
theorem pair_iff {m : EStateM ε σ α} {s t : σ} {m' : EStateM ε σ β}
    {Q : α → β → σ → σ → Prop} {E : ε → σ → σ → Prop} :
    Pair m s m' t Q E ↔
      (∃ a s' b t', m s = .ok a s' ∧ m' t = .ok b t' ∧ Q a b s' t') ∨
        ∃ e s' t', m s = .error e s' ∧ m' t = .error e t' ∧ E e s' t' := by
  unfold Pair
  cases m s with
  | ok a s' => cases m' t with
    | ok b t' => simp
    | error e t' => simp
  | error e s' => cases m' t with
    | ok b t' => simp
    | error e' t' =>
        simp only [EStateM.Result.error.injEq, reduceCtorEq, false_and,
          exists_false, false_or, and_false]
        constructor
        · rintro ⟨rfl, h⟩
          exact ⟨e, s', t', ⟨rfl, rfl⟩, ⟨rfl, rfl⟩, h⟩
        · rintro ⟨_, _, _, ⟨rfl, rfl⟩, ⟨rfl, rfl⟩, h⟩
          exact ⟨rfl, h⟩

/-- What is known of how they end may be weakened. -/
theorem Pair.mono {m : EStateM ε σ α} {s t : σ} {m' : EStateM ε σ β}
    {Q Q' : α → β → σ → σ → Prop} {E E' : ε → σ → σ → Prop}
    (h : Pair m s m' t Q E) (hQ : ∀ a b s' t', Q a b s' t' → Q' a b s' t')
    (hE : ∀ e s' t', E e s' t' → E' e s' t') : Pair m s m' t Q' E' := by
  rw [pair_iff] at h ⊢
  rcases h with ⟨a, s', b, t', hm, hm', h⟩ | ⟨e, s', t', hm, hm', h⟩
  · exact .inl ⟨a, s', b, t', hm, hm', hQ a b s' t' h⟩
  · exact .inr ⟨e, s', t', hm, hm', hE e s' t' h⟩

/-- Only how the programs end counts. -/
theorem Pair.of_eq {m n : EStateM ε σ α} {m' n' : EStateM ε σ β}
    {s t s' t' : σ} {Q : α → β → σ → σ → Prop} {E : ε → σ → σ → Prop}
    (h : m s = n s') (h' : m' t = n' t') (hp : Pair n s' n' t' Q E) :
    Pair m s m' t Q E := by
  unfold Pair at hp ⊢
  rwa [h, h']

/-- Two runs that cannot raise. -/
theorem Pair.of_runs {m : EStateM ε σ α} {m' : EStateM ε σ β} {s t : σ}
    {P : α → σ → Prop} {P' : β → σ → Prop} {Q : α → β → σ → σ → Prop}
    {E : ε → σ → σ → Prop} (h : Runs m s P fun _ _ => False)
    (h' : Runs m' t P' fun _ _ => False)
    (hq : ∀ a b s' t', P a s' → P' b t' → Q a b s' t') :
    Pair m s m' t Q E := by
  unfold Runs at h h'
  unfold Pair
  cases hm : m s with
  | ok a s' =>
      cases hm' : m' t with
      | ok b t' =>
          rw [hm] at h
          rw [hm'] at h'
          exact hq a b s' t' h h'
      | error e t' => rw [hm'] at h'; exact h'.elim
  | error e s' => rw [hm] at h; exact h.elim

/-- Two runs that go on after ending alike. -/
theorem Pair.bind {m : EStateM ε σ α} {s t : σ} {m' : EStateM ε σ β}
    {k : α → EStateM ε σ α'} {k' : β → EStateM ε σ β'}
    {P : α → β → σ → σ → Prop} {Q : α' → β' → σ → σ → Prop}
    {E : ε → σ → σ → Prop} (h : Pair m s m' t P E)
    (hk : ∀ a b s' t', P a b s' t' → Pair (k a) s' (k' b) t' Q E) :
    Pair (m >>= k) s (m' >>= k') t Q E := by
  rcases pair_iff.mp h with ⟨a, s', b, t', hm, hm', h⟩ |
    ⟨e, s', t', hm, hm', h⟩
  · have hnext := hk a b s' t' h
    unfold Pair at hnext ⊢
    simpa only [Bind.bind, EStateM.bind, hm, hm'] using hnext
  · unfold Pair
    simp only [Bind.bind, EStateM.bind, hm, hm']
    exact ⟨trivial, h⟩

/-- Two runs under a handler each; what both let through comes out of
both. -/
theorem Pair.catching {p : ε → Bool} {m : EStateM ε σ α} {s t : σ}
    {m' : EStateM ε σ β} {hd : ε → EStateM ε σ α} {hd' : ε → EStateM ε σ β}
    {Q : α → β → σ → σ → Prop} {F E : ε → σ → σ → Prop}
    (h : Pair m s m' t Q F)
    (hh : ∀ e s' t', F e s' t' → p e = true →
      Pair (hd e) s' (hd' e) t' Q E)
    (hp : ∀ e s' t', F e s' t' → p e = false → E e s' t') :
    Pair (Base.catching p m hd) s (Base.catching p m' hd') t Q E := by
  rcases pair_iff.mp h with ⟨a, s', b, t', hm, hm', h⟩ |
    ⟨e, s', t', hm, hm', h⟩
  · unfold Base.catching Pair
    simpa only [hm, hm'] using h
  · cases hpe : p e with
    | true =>
        have hnext := hh e s' t' h hpe
        unfold Pair at hnext ⊢
        unfold Base.catching
        simpa only [hm, hm', hpe, if_true] using hnext
    | false =>
        unfold Pair Base.catching
        simpa [hm, hm', hpe] using hp e s' t' h hpe

/-- From related states to related states, by related values or the same
exception. -/
def Alike (R : σ → σ → Prop) (Q : α → β → Prop) (m : EStateM ε σ α)
    (m' : EStateM ε σ β) : Prop :=
  ∀ s t, R s t →
    Pair m s m' t (fun a b s' t' => Q a b ∧ R s' t') fun _ s' t' => R s' t'

namespace Alike

variable {R : σ → σ → Prop} {Q : α → β → Prop}
  {m n : EStateM ε σ α} {m' n' : EStateM ε σ β}

/-- Values that are related. -/
theorem pure {a : α} {b : β} (h : Q a b) :
    Alike R Q (Pure.pure a : EStateM ε σ α) (Pure.pure b) :=
  fun _ _ hr => ⟨h, hr⟩

/-- Both throw the same exception. -/
theorem throw (e : ε) :
    Alike R Q (MonadExcept.throw e : EStateM ε σ α) (MonadExcept.throw e) :=
  fun _ _ hr => ⟨rfl, hr⟩

/-- Changes of the state that keep it related. -/
theorem update {f f' : σ → σ} (h : ∀ s t, R s t → R (f s) (f' t)) :
    Alike R Eq (modify f : EStateM ε σ PUnit) (modify f') :=
  fun s t hr => ⟨rfl, h s t hr⟩

/-- Changes of the state that keep it related and give related values. -/
theorem sample {f : σ → α × σ} {f' : σ → β × σ}
    (h : ∀ s t, R s t → Q (f s).1 (f' t).1 ∧ R (f s).2 (f' t).2) :
    Alike R Q (modifyGet f : EStateM ε σ α) (modifyGet f') :=
  fun s t hr => h s t hr

/-- Where the states themselves are read. -/
theorem get {k : σ → EStateM ε σ α} {k' : σ → EStateM ε σ β}
    (h : ∀ s t, R s t → Alike R Q (k s) (k' t)) :
    Alike R Q (MonadState.get >>= k) (MonadState.get >>= k') :=
  fun s t hr => h s t hr s t hr

/-- One program after another. -/
theorem bind {P : α → β → Prop} {k : α → EStateM ε σ α'}
    {k' : β → EStateM ε σ β'} {Q : α' → β' → Prop} (h : Alike R P m m')
    (hk : ∀ a b, P a b → Alike R Q (k a) (k' b)) :
    Alike R Q (m >>= k) (m' >>= k') :=
  fun s t hr => (h s t hr).bind fun a b s' t' hp => hk a b hp.1 s' t' hp.2

/-- Where the two bind the same value. -/
theorem bindEq {m : EStateM ε σ α} {m' : EStateM ε σ α}
    {k : α → EStateM ε σ α'} {k' : α → EStateM ε σ β'} {Q : α' → β' → Prop}
    (h : Alike R Eq m m') (hk : ∀ a, Alike R Q (k a) (k' a)) :
    Alike R Q (m >>= k) (m' >>= k') :=
  h.bind fun a _ hab => hab ▸ hk a

/-- A choice that both make the same way. -/
theorem ite {c : Prop} [Decidable c] (h : c → Alike R Q m m')
    (h' : ¬ c → Alike R Q n n') :
    Alike R Q (if c then m else n) (if c then m' else n') := by
  split
  case isTrue hc => exact h hc
  case isFalse hc => exact h' hc

/-- A statement made under a condition, and what follows it. -/
theorem guard {c : Prop} [Decidable c] {m m' : EStateM ε σ PUnit}
    {k : PUnit → EStateM ε σ α} {k' : PUnit → EStateM ε σ β}
    (h : c → Alike R Eq m m') (hk : Alike R Q (k ⟨⟩) (k' ⟨⟩)) :
    Alike R Q (if c then m >>= k else k ⟨⟩)
      (if c then m' >>= k' else k' ⟨⟩) :=
  .ite (fun hc => (h hc).bindEq fun _ => hk) fun _ => hk

/-- A handler on each side. -/
theorem catching {p : ε → Bool} {hd : ε → EStateM ε σ α}
    {hd' : ε → EStateM ε σ β} (h : Alike R Q m m')
    (hh : ∀ e, Alike R Q (hd e) (hd' e)) :
    Alike R Q (Base.catching p m hd) (Base.catching p m' hd') :=
  fun s t hr => (h s t hr).catching (fun e s' t' hr _ => hh e s' t' hr)
    fun _ _ _ hr _ => hr

/-- Work that is done on every way out. -/
theorem cleaning {c c' : σ → σ} (h : Alike R Q m m')
    (hc : ∀ s t, R s t → R (c s) (c' t)) :
    Alike R Q (Base.cleaning m c) (Base.cleaning m' c') := by
  intro s t hr
  rcases pair_iff.mp (h s t hr) with ⟨a, s', b, t', hm, hm', h⟩ |
    ⟨e, s', t', hm, hm', h⟩
  · unfold Base.cleaning Pair
    simp only [hm, hm']
    exact ⟨h.1, hc _ _ h.2⟩
  · unfold Base.cleaning Pair
    simp only [hm, hm']
    exact ⟨trivial, hc _ _ h⟩

/-- Both go over the same list in the same way. -/
theorem forEach {f f' : ι → EStateM ε σ PUnit} {xs : List ι}
    (h : ∀ x ∈ xs, Alike R Eq (f x) (f' x)) :
    Alike R Eq (Base.forEach f xs) (Base.forEach f' xs) := by
  induction xs with
  | nil => exact .pure rfl
  | cons x xs ih =>
      exact (h x (by simp)).bindEq fun _ => ih fun y hy => h y (by simp [hy])

end Alike

end PleRowServer.Base
