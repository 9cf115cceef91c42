/-
What one attempt of `_exchange` does to the peers it asks: the three
passes are three sweeps over the shares, each taking every peer from one
stage to the next, and `_drain` or `finish_rows` takes the last. A sweep
that raises leaves some peers a stage ahead of others, but all of them
torn; only the bodies are read past that point, so `Spoilt` is all the
retry loop has to know.
-/
import PleRowServer.Client.DrainSpec

namespace PleRowServer.Client

open Base Wire

variable {env : Env} {geo : PeerId → Geometry} {w w' : World env}
  {T D : ℚ} {k k' : Nat} {ids : List Int}
  {todo : List Share} {e : Exn}

/-- Where an attempt starts: nobody asked yet, and no peer without a
connection ahead of one whose flag still stands from before. -/
structure Outset (geo : PeerId → Geometry) (T D : ℚ)
    (k : Nat) (ids : List Int)
    (todo : List Share) (w : World env) : Prop where
  nodup : (todo.map Prod.fst).Nodup
  nonneg : 0 ≤ T
  timeout : w.table.timeout = T
  unasked : ∀ s ∈ todo, Todo geo T k s.1 w
  staged : ∀ s ∈ todo, Staged geo ids s w
  deadline : ∀ s ∈ todo, (w.heap s.1).deadline = some D
  stale : todo.Pairwise fun s s' =>
    (w.heap s.1).sock = none → (w.heap s'.1).answered = false

/-- Two shares of different peers. -/
def Apart (s s' : Share) : Prop := s.1 ≠ s'.1

/-- The peers asked are different ones. -/
theorem Outset.apart (h : Outset geo T D k ids todo w) :
    todo.Pairwise Apart := by
  have := h.nodup
  rwa [List.Nodup, List.pairwise_map] at this

/-- Why an attempt fails. -/
def Reason (geo : PeerId → Geometry) (T D : ℚ) (todo : List Share)
    (w w' : World env) : Prop :=
  (∃ s ∈ todo, (w.heap s.1).sock = none) ∨
    (∃ s ∈ todo, 2 ^ 32 ≤ s.2.length) ∨ Trouble geo T (some D) w w'

/-- How an attempt fails. -/
structure Foiled (geo : PeerId → Geometry) (T D : ℚ)
    (k : Nat) (ids : List Int)
    (todo : List Share) (n : Nat) (w : World env) (e : Exn)
    (w' : World env) : Prop where
  fail : Fail (peersOf todo) e w w'
  spoilt : Spoilt geo T k ids todo e w'
  owing : ∃ s ∈ todo, (w'.heap s.1).answered = false
  reason : Reason geo T D todo w w'
  bounded : env.Timely → Enough D env.rounds w → e ≠ .outOfRounds
  drew : Drew n w w'

/-- A torn peer, for `Spoilt`. -/
theorem Lost.spoilt {s : Share} (h : Lost geo T k s.1 e w) :
    (Answered geo T k ids s w ∨ Torn geo T k s.1 w) ∧
      Clear e (w.line geo s.1) := ⟨.inr h.toTorn, h.clear⟩

/-- A torn peer is spoilt for the attempt. -/
theorem Torn.spoilt {s : Share} (h : Torn geo T k s.1 w)
    (hp : (w.line geo s.1).phase ≠ .doubt) :
    (Answered geo T k ids s w ∨ Torn geo T k s.1 w) ∧
      Clear e (w.line geo s.1) := ⟨.inr h, .inr (.inr hp)⟩

/-- A peer that is asked is not in doubt. -/
theorem Asked.phase_ne {s : Share} (h : Asked geo T k ids s w) :
    (w.line geo s.1).phase ≠ .doubt := by
  obtain ⟨req, hp, -⟩ := h.phase
  rw [hp]
  simp

/-- First pass: every peer gets to a connection it may be asked on. -/
theorem firstPass_spec (h : Outset geo T D k ids todo w) :
    Runs (forEach (RemoteTable.ready D) todo) w
      (fun _ w' => (Step (peersOf todo) w w' ∧ Drew todo.length w w') ∧
        ∀ s ∈ todo, Poised geo T k s.1 w')
      (fun e w' => Foiled geo T D k ids todo todo.length w e w') := by
  have hswept := Runs.sweep (f := RemoteTable.ready D)
    (A := fun s v => Todo geo T k s.1 v ∧ v.heap s.1 = w.heap s.1)
    (B := fun s v => Poised geo T k s.1 v)
    (F := fun s e v => Lost geo T k s.1 e v ∧
      (w.heap s.1).sock = none ∧
      (env.Timely → Enough D env.rounds w → e ≠ .outOfRounds))
    (K := fun s v v' => Sole geo s.1 v v')
    (I := fun rest v => Step (peersOf todo) w v ∧
      ∃ n, n + rest.length ≤ todo.length ∧ Drew n w v)
    (J := fun e v => Fail (peersOf todo) e w v ∧ Drew todo.length w v)
    h.apart (fun _ _ hne => Ne.symm hne) ?_ ?_ ?_ w
    ⟨.refl w _, 0, by omega, .none rfl 0⟩ (fun s hs => ⟨h.unasked s hs, rfl⟩)
  case refine_1 =>
    rintro pre s rest hxs v ⟨hstep, n, hn, hdrew⟩ ⟨htodo, hheap⟩
    have hs : s ∈ todo := by rw [hxs]; simp
    refine (ready_spec h.nonneg (by rw [hstep.table, h.timeout]) htodo
      (by rw [hheap]; exact (h.staged s hs).geometry)).mono ?_ ?_
    · rintro _ v' ⟨hs', hp, hd⟩
      refine ⟨⟨⟨hstep.trans (hs'.mono (single_subset hs)), n + 1, ?_,
        hdrew.trans hd⟩, hp⟩, hs'.sole geo⟩
      simp only [List.length_cons] at hn; omega
    · rintro e v' ⟨hf, hu, hd⟩
      refine ⟨⟨⟨hstep.fail (hf.mono (single_subset hs)),
        (hdrew.trans hd).mono ?_⟩, hu.toLost, ?_, ?_⟩, hf.sole geo⟩
      · simp only [List.length_cons] at hn; omega
      · rw [← hheap]; exact hu.unconnected
      · exact fun ht hen => hu.bounded ht (hen.later ht hstep.grows)
  case refine_2 =>
    rintro x y v v' hK hne ⟨ht, hh⟩
    obtain ⟨hh', hl'⟩ := hK y.1 (Ne.symm hne)
    exact ⟨ht.congr hh' hl', hh'.trans hh⟩
  case refine_3 =>
    rintro x y v v' hK hne hp
    obtain ⟨hh', hl'⟩ := hK y.1 (Ne.symm hne)
    exact hp.congr hh' hl'
  refine hswept.mono ?_ ?_
  · rintro _ w' ⟨⟨hstep, n, hn, hd⟩, hB⟩
    exact ⟨⟨hstep, hd.mono (by omega)⟩, hB⟩
  · rintro e w' ⟨⟨hfail, hd⟩, ⟨pre, x, post, hxs, hpre, ⟨hl, hsock, hb⟩, hpost⟩⟩
    have hx : x ∈ todo := by rw [hxs]; simp
    refine ⟨hfail, ?_, ⟨x, hx, hl.flag⟩, .inl ⟨x, hx, hsock⟩, hb, hd⟩
    intro s hs
    rw [hxs] at hs
    rcases List.mem_append.mp hs with hs | hs
    · have hp := hpre s hs
      exact hp.torn.spoilt (by rw [hp.idle]; simp)
    · rcases List.mem_cons.mp hs with rfl | hs
      · exact hl.spoilt
      · -- not visited: its flag is as it was, and the failing peer had
        -- no connection
        obtain ⟨ht, hh⟩ := hpost s hs
        have hstale := h.stale
        rw [hxs] at hstale
        have hflag := (List.pairwise_cons.mp
          (List.pairwise_append.mp hstale).2.1).1 s hs hsock
        exact Torn.spoilt ⟨ht.toOwed, by rw [hh]; exact hflag⟩
          (by rw [ht.idle]; simp)

/-- Second pass: every peer is asked, one request id each, in order. -/
theorem secondPass_spec (hap : todo.Pairwise Apart)
    (hdl : ∀ s ∈ todo, (w.heap s.1).deadline = some D)
    (hst : ∀ s ∈ todo, Staged geo ids s w)
    (h : ∀ s ∈ todo, Poised geo T k s.1 w) :
    Runs (forEach RemoteTable.ask todo) w
      (fun _ w' => (Step (peersOf todo) w w' ∧ Drew todo.length w w') ∧
        ∀ s ∈ todo, Asked geo T (k + 1) ids s w')
      (fun e w' => Foiled geo T D (k + 1) ids todo todo.length w e w') := by
  have hswept := Runs.sweep (f := RemoteTable.ask)
    (A := fun s v => Poised geo T k s.1 v)
    (B := fun s v => Asked geo T (k + 1) ids s v)
    (F := fun s e v => Lost geo T (k + 1) s.1 e v ∧
      (2 ^ 32 ≤ s.2.length ∨ Trouble geo T (some D) w v) ∧ e ≠ .outOfRounds)
    (K := fun s v v' => Sole geo s.1 v v')
    (I := fun rest v => Step (peersOf todo) w v ∧
      ∃ n, n + rest.length ≤ todo.length ∧ Drew n w v)
    (J := fun e v => Fail (peersOf todo) e w v ∧ Drew todo.length w v)
    hap (fun _ _ hne => Ne.symm hne) ?_ ?_ ?_ w
    ⟨.refl w _, 0, by omega, .none rfl 0⟩ h
  case refine_1 =>
    rintro pre s rest hxs v ⟨hstep, n, hn, hdrew⟩ hpoised
    have hs : s ∈ todo := by rw [hxs]; simp
    simp only [List.length_cons] at hn
    refine (ask_spec hpoised ((hst s hs).kept (hstep.kept s.1))).mono ?_ ?_
    · rintro _ v' ⟨hs', ha, hd⟩
      exact ⟨⟨⟨hstep.trans (hs'.mono (single_subset hs)), n + 1, by omega,
        hdrew.trans hd⟩, ha⟩, hs'.sole geo⟩
    · rintro e v' ⟨hf, hl, hc, hne, hd⟩
      refine ⟨⟨⟨hstep.fail (hf.mono (single_subset hs)),
        (hdrew.trans hd).mono (by omega)⟩, hl, ?_, hne⟩, hf.sole geo⟩
      refine hc.imp_right fun hc => (hc (some D) ?_).after hstep.grows
      rw [(hstep.kept s.1).deadline, hdl s hs]
  case refine_2 =>
    rintro x y v v' hK hne hp
    obtain ⟨hh', hl'⟩ := hK y.1 (Ne.symm hne)
    exact hp.congr hh' hl'
  case refine_3 =>
    rintro x y v v' hK hne ha
    obtain ⟨hh', hl'⟩ := hK y.1 (Ne.symm hne)
    exact ha.congr hh' hl'
  refine hswept.mono ?_ ?_
  · rintro _ w' ⟨⟨hstep, n, hn, hd⟩, hB⟩
    exact ⟨⟨hstep, hd.mono (by omega)⟩, hB⟩
  · rintro e w' ⟨⟨hfail, hd⟩, ⟨pre, x, post, hxs, hpre, ⟨hl, hc, hne⟩, hpost⟩⟩
    have hx : x ∈ todo := by rw [hxs]; simp
    refine ⟨hfail, ?_, ⟨x, hx, hl.flag⟩,
      .inr (hc.imp_left fun hb => ⟨x, hx, hb⟩), fun _ _ => hne, hd⟩
    intro s hs
    rw [hxs] at hs
    rcases List.mem_append.mp hs with hs | hs
    · have ha := hpre s hs
      exact ha.torn.spoilt ha.phase_ne
    · rcases List.mem_cons.mp hs with rfl | hs
      · exact hl.spoilt
      · have hp := hpost s hs
        exact (hp.torn.mono (Nat.le_succ k)).spoilt (by rw [hp.idle]; simp)

/-- Third pass: every peer's answer has its header in. -/
theorem thirdPass_spec (hap : todo.Pairwise Apart)
    (hdl : ∀ s ∈ todo, (w.heap s.1).deadline = some D)
    (hst : ∀ s ∈ todo, Staged geo ids s w)
    (h : ∀ s ∈ todo, Asked geo T k ids s w) :
    Runs (forEach RemoteTable.begin_ todo) w
      (fun _ w' => (Step (peersOf todo) w w' ∧ Drew 0 w w') ∧
        ∀ s ∈ todo, Reading geo T k ids s w')
      (fun e w' => Foiled geo T D k ids todo 0 w e w') := by
  have hswept := Runs.sweep (f := RemoteTable.begin_)
    (A := fun s v => Asked geo T k ids s v)
    (B := fun s v => Reading geo T k ids s v)
    (F := fun s e v => Lost geo T k s.1 e v ∧
      Trouble geo T (some D) w v ∧ e ≠ .outOfRounds)
    (K := fun s v v' => Sole geo s.1 v v')
    (I := fun _ v => Step (peersOf todo) w v ∧ Drew 0 w v)
    (J := fun e v => Fail (peersOf todo) e w v ∧ Drew 0 w v)
    hap (fun _ _ hne => Ne.symm hne) ?_ ?_ ?_ w ⟨.refl w _, .none rfl 0⟩ h
  case refine_1 =>
    rintro pre s rest hxs v ⟨hstep, hdrew⟩ hasked
    have hs : s ∈ todo := by rw [hxs]; simp
    refine (begin_spec hasked ((hst s hs).kept (hstep.kept s.1))).mono ?_ ?_
    · rintro _ v' ⟨hs', hr, -, hn⟩
      exact ⟨⟨⟨hstep.trans (hs'.mono (single_subset hs)),
        hdrew.trans (.none hn 0)⟩, hr⟩, hs'.sole geo⟩
    · rintro e v' ⟨hf, hn⟩
      refine ⟨⟨⟨hstep.fail (hf.fail.mono (single_subset hs)),
        hdrew.trans (.none hn 0)⟩, hf.toLost, ?_, hf.bounded⟩,
        hf.fail.sole geo⟩
      refine (hf.cause (some D) ?_).after hstep.grows
      rw [(hstep.kept s.1).deadline, hdl s hs]
  case refine_2 =>
    rintro x y v v' hK hne ha
    obtain ⟨hh', hl'⟩ := hK y.1 (Ne.symm hne)
    exact ha.congr hh' hl'
  case refine_3 =>
    rintro x y v v' hK hne hr
    obtain ⟨hh', hl'⟩ := hK y.1 (Ne.symm hne)
    exact hr.congr hh' hl'
  refine hswept.mono (fun _ _ h => h) ?_
  rintro e w' ⟨⟨hfail, hd⟩, ⟨pre, x, post, hxs, hpre, ⟨hl, hc, hne⟩, hpost⟩⟩
  refine ⟨hfail, ?_, ⟨x, by rw [hxs]; simp, hl.flag⟩, .inr (.inr hc),
    fun _ _ => hne, hd⟩
  intro s hs
  rw [hxs] at hs
  rcases List.mem_append.mp hs with hs | hs
  · have hr := hpre s hs
    exact hr.torn.spoilt hr.phase
  · rcases List.mem_cons.mp hs with rfl | hs
    · exact hl.spoilt
    · have ha := hpost s hs
      exact ha.torn.spoilt ha.phase_ne

/-- The bodies, through `_drain` or `finish_rows`. -/
theorem bodies_spec (hne : todo ≠ []) (hnd : (todo.map Prod.fst).Nodup)
    (hT : w.table.timeout = T)
    (hdl : ∀ s ∈ todo, (w.heap s.1).deadline = some D)
    (h : ∀ s ∈ todo, Reading geo T k ids s w) :
    Runs (RemoteTable.finish todo D) w
      (fun _ w' => (Step (peersOf todo) w w' ∧ Drew 0 w w') ∧
        ∀ s ∈ todo, Answered geo T k ids s w')
      (fun e w' => Foiled geo T D k ids todo 0 w e w') := by
  unfold RemoteTable.finish
  split
  case isTrue =>
    refine (drain_spec hnd hT hdl h).mono ?_ ?_
    · exact fun _ w' h => ⟨⟨h.1, .none h.2.2 0⟩, h.2.1⟩
    · exact fun e w' hu => ⟨hu.fail, hu.spoilt, hu.owing, .inr (.inr hu.cause),
        fun _ _ => hu.bounded, .none hu.undrawn 0⟩
  case isFalse hlen =>
    obtain ⟨s, rfl⟩ : ∃ s, todo = [s] := by
      cases todo with
      | nil => exact absurd rfl hne
      | cons s rest =>
          cases rest with
          | nil => exact ⟨s, rfl⟩
          | cons s' rest => simp at hlen
    have hsub : ({s.1} : Set PeerId) ⊆ peersOf [s] := single_subset (by simp)
    refine (finish_spec (h s (by simp))).mono ?_ ?_
    · rintro _ w' ⟨hs, ha, hn⟩
      refine ⟨⟨hs.mono hsub, .none hn 0⟩, ?_⟩
      intro s' hs'
      rw [List.mem_singleton.mp hs']
      exact ha
    · rintro e w' ⟨hf, hn⟩
      refine ⟨hf.fail.mono hsub, ?_, ⟨s, by simp, hf.flag⟩, .inr (.inr
        (hf.cause (some D) (hdl s (by simp)))), fun _ _ => hf.bounded,
        .none hn 0⟩
      intro s' hs'
      rw [List.mem_singleton.mp hs']
      exact hf.toLost.spoilt

/-- More GATHERs may have been allowed. -/
theorem Spoilt.mono (h : Spoilt geo T k ids todo e w)
    (hk : k ≤ k') :
    Spoilt geo T k' ids todo e w := by
  intro s hs
  obtain ⟨ho, hc⟩ := h s hs
  refine ⟨ho.imp (fun ha => ?_) (fun ht => ht.mono hk), hc⟩
  exact ⟨ha.toBody.mono hk, ha.full⟩

/-- A failure after steps that succeeded. -/
theorem Foiled.after {m n : Nat} {w'' : World env}
    (hs : Step (peersOf todo) w w') (hd : Drew m w w')
    (h : Foiled geo T D k ids todo n w' e w'')
    (hsock : ∀ s ∈ todo, (w'.heap s.1).sock ≠ none) :
    Foiled geo T D k ids todo (m + n) w e w'' where
  fail := hs.fail h.fail
  spoilt := h.spoilt
  owing := h.owing
  reason := by
    rcases h.reason with ⟨s, hs', hn⟩ | hb | hc
    · exact absurd hn (hsock s hs')
    · exact .inr (.inl hb)
    · exact .inr (.inr (hc.after hs.grows))
  bounded ht hen := h.bounded ht (hen.later ht hs.grows)
  drew := hd.trans h.drew

/-- One attempt: every peer's answer is in, or the attempt is spoilt. -/
theorem attempt_spec {n : Nat} (hne : todo ≠ [])
    (h : Outset geo T D k ids todo w) :
    Runs (RemoteTable.attempt n todo D) w
      (fun _ w' => Step (peersOf todo) w w' ∧ Drew (2 * todo.length) w w' ∧
        ∀ s ∈ todo, Answered geo T (k + 1) ids s w')
      (fun e w' => Foiled geo T D (k + 1) ids todo (2 * todo.length) w e w') := by
  unfold RemoteTable.attempt
  refine Runs.bind (firstPass_spec h) ?_ ?_
  case refine_2 =>
    intro e w' hf
    exact ⟨hf.fail, hf.spoilt.mono (Nat.le_succ k), hf.owing, hf.reason, hf.bounded,
      hf.drew.mono (by omega)⟩
  rintro _ w₁ ⟨⟨hs₁, hd₁⟩, hpoised⟩
  have hsock₁ : ∀ s ∈ todo, (w₁.heap s.1).sock ≠ none := by
    intro s hs
    rw [(hpoised s hs).linked.sock]
    exact (hpoised s hs).on
  have hdl₁ : ∀ s ∈ todo, (w₁.heap s.1).deadline = some D := by
    intro s hs
    rw [(hs₁.kept s.1).deadline, h.deadline s hs]
  refine Runs.bind (secondPass_spec h.apart hdl₁
    (fun s hs => (h.staged s hs).kept (hs₁.kept s.1)) hpoised) ?_ ?_
  case refine_2 =>
    intro e w' hf
    have := Foiled.after hs₁ hd₁ hf hsock₁
    exact ⟨this.fail, this.spoilt, this.owing, this.reason, this.bounded,
      this.drew.mono (by omega)⟩
  rintro _ w₂ ⟨⟨hs₂, hd₂⟩, hasked⟩
  have hsock₂ : ∀ s ∈ todo, (w₂.heap s.1).sock ≠ none := by
    intro s hs
    rw [(hasked s hs).linked.sock]
    exact (hasked s hs).on
  have hs₁₂ := hs₁.trans hs₂
  have hd₁₂ := hd₁.trans hd₂
  have hdl₂ : ∀ s ∈ todo, (w₂.heap s.1).deadline = some D := by
    intro s hs
    rw [(hs₁₂.kept s.1).deadline, h.deadline s hs]
  refine Runs.bind (thirdPass_spec h.apart hdl₂
    (fun s hs => (h.staged s hs).kept (hs₁₂.kept s.1)) hasked) ?_ ?_
  case refine_2 =>
    intro e w' hf
    have := Foiled.after hs₁₂ hd₁₂ hf hsock₂
    exact ⟨this.fail, this.spoilt, this.owing, this.reason, this.bounded,
      this.drew.mono (by omega)⟩
  rintro _ w₃ ⟨⟨hs₃, hd₃⟩, hreading⟩
  have hsock₃ : ∀ s ∈ todo, (w₃.heap s.1).sock ≠ none := by
    intro s hs
    obtain ⟨c, hon⟩ := (hreading s hs).on
    rw [hon.sock]
    simp
  have hs₁₃ := hs₁₂.trans hs₃
  have hd₁₃ := hd₁₂.trans hd₃
  refine Runs.bind (bodies_spec hne h.nodup (by rw [hs₁₃.table, h.timeout])
    (fun s hs => by rw [(hs₁₃.kept s.1).deadline, h.deadline s hs]) hreading)
    ?_ ?_
  case refine_2 =>
    intro e w' hf
    have := Foiled.after hs₁₃ hd₁₃ hf hsock₃
    exact ⟨this.fail, this.spoilt, this.owing, this.reason, this.bounded,
      this.drew.mono (by omega)⟩
  rintro _ w₄ ⟨⟨hs₄, hd₄⟩, hanswered⟩
  have hs := hs₁₃.trans hs₄
  have hd : Drew (2 * todo.length) w w₄ := (hd₁₃.trans hd₄).mono (by omega)
  split
  case isFalse => exact ⟨hs, hd, hanswered⟩
  case isTrue =>
    simp only [runs_bind, runs_now]
    intro t ht
    refine ⟨hs.trans (.push ht (by intro c hc; cases hc) (by simp)),
      hd.trans (.none (by simp) 0), fun s hs' => ?_⟩
    exact (hanswered s hs').congr rfl (line_mute ht trivial _)

end PleRowServer.Client
