/-
What `_exchange` does: the retry loop around one attempt. After an
OSError the peers whose flag is down are torn, and are closed before
anything else happens; the next attempt asks exactly them. So when the
loop returns every peer is answered, and when it raises, every peer not
answered was closed by the handler or stands where the error that is no
OSError left it.
-/
import PleRowServer.Client.AttemptSpec

namespace PleRowServer.Client

open Base Wire

variable {env : Env} {geo : PeerId → Geometry} {w w' w'' : World env}
  {T D : ℚ} {k k' : Nat} {ids : List Int}
  {todo : List Share} {e : Exn}

/-- A torn peer with no connection. -/
structure Dropped (geo : PeerId → Geometry) (T : ℚ)
    (k : Nat) (i : PeerId) (w : World env) :
    Prop extends Torn geo T k i w where
  conn : (w.line geo i).conn = none

section Dropping

variable {i : PeerId}

/-- That a peer was dropped is a matter of the peer and its line. -/
theorem Dropped.congr (h : Dropped geo T k i w)
    (hh : w'.heap i = w.heap i) (hl : w'.line geo i = w.line geo i) :
    Dropped geo T k i w' :=
  ⟨h.toTorn.congr hh hl, by rw [hl]; exact h.conn⟩

/-- A peer that was dropped can be asked anew. -/
theorem Dropped.unasked (h : Dropped geo T k i w) : Todo geo T k i w :=
  ⟨h.toOwed, h.linked.closed h.conn, fun c hc => by
    rw [h.conn] at hc; cases hc⟩

/-- Closing a torn peer drops it. -/
theorem Torn.close (h : Torn geo T k i w) (hc : Closed geo T i w w') :
    Dropped geo T k i w' :=
  ⟨⟨⟨hc.linked, hc.owed.trans h.owed, by rw [hc.asked]; exact h.asked⟩,
    hc.flag.trans h.flag⟩, hc.conn⟩

end Dropping

/-- The handler's mark puts the connections still owed an answer in
doubt, and touches no other. -/
theorem line_caught (he) (i : PeerId) :
    (w.push (.caught e (todo.map Prod.fst)) he).line geo i
      = if i ∈ todo.map Prod.fst then (w.line geo i).onCaught
        else w.line geo i := by
  simp [World.line, lineStep]

/-- A torn peer stays torn when the fault is handled. -/
theorem Torn.caught {i : PeerId} (h : Torn geo T k i w) (he) :
    Torn geo T k i (w.push (.caught e (todo.map Prod.fst)) he) := by
  have hcases : ((w.push (.caught e (todo.map Prod.fst)) he).line geo i
      = w.line geo i) ∨ ((w.line geo i).conn ≠ none ∧
        (w.push (.caught e (todo.map Prod.fst)) he).line geo i
          = (w.line geo i).lost) := by
    rw [line_caught he]
    split
    case isFalse => exact .inl rfl
    case isTrue =>
      unfold Line.onCaught
      rw [if_neg (by simp [h.owed])]
      split
      case isTrue => exact .inl rfl
      case isFalse hn => exact .inr ⟨hn, rfl⟩
  rcases hcases with hsame | ⟨hn, hlost⟩
  · exact h.congr rfl hsame
  · refine ⟨⟨⟨?_, ?_, h.linked.timeout, ?_⟩, ?_, ?_⟩, h.flag⟩ <;> rw [hlost]
    · exact h.linked.sock
    · exact h.linked.good
    · exact fun hno => absurd hno hn
    · exact h.owed
    · exact h.asked

/-- A peer that answered has answered when a fault is handled. -/
theorem Answered.caught {s : Share} (h : Answered geo T k ids s w)
    (he) : Answered geo T k ids s
      (w.push (.caught e (todo.map Prod.fst)) he) := by
  refine h.congr rfl ?_
  rw [line_caught he]
  obtain ⟨c, l, req, ans, -, -, -, -, hl, -⟩ := h.line
  split
  case isFalse => rfl
  case isTrue => simp [Line.onCaught, hl]

/-- A peer after the handler of a failed attempt, by its flag. -/
def Placed (geo : PeerId → Geometry) (T : ℚ)
    (k : Nat) (ids : List Int) (s : Share)
    (w : World env) : Bool → Prop
  | true => Answered geo T k ids s w
  | false => Dropped geo T k s.1 w

/-- Either is a matter of the peer and its line. -/
theorem Placed.congr {s : Share} {flag : Bool}
    (h : Placed geo T k ids s w flag) (hh : w'.heap s.1 = w.heap s.1)
    (hl : w'.line geo s.1 = w.line geo s.1) :
    Placed geo T k ids s w' flag := by
  cases flag with
  | true => exact Answered.congr h hh hl
  | false => exact Dropped.congr h hh hl

/-- What the handler of a failed attempt leaves. -/
structure Handled (geo : PeerId → Geometry) (T : ℚ)
    (k : Nat) (ids : List Int)
    (todo : List Share) (w w' : World env) : Prop where
  step : Step (peersOf todo) w w'
  each : ∀ s ∈ todo, Placed geo T k ids s w' (w.heap s.1).answered
  drew : Drew 0 w w'

/-- Entries no line shows change nothing of it. -/
theorem Handled.push (h : Handled geo T k ids todo w w') {x : Ev} (hx)
    (hm : x.Mute) (ho : x.Of (peersOf todo)) (hp : x.Plain) :
    Handled geo T k ids todo w (w'.push x hx) where
  step := h.step.trans (.push hx ho hp)
  each s hs := (h.each s hs).congr rfl (line_mute hx hm _)
  drew := h.drew.trans (.none (drawn_push hx hp) 0)

/-- The peers whose flag is down. -/
def unanswered (todo : List Share) (w : World env) : List Share :=
  todo.filter fun s => !(w.heap s.1).answered

/-- The shares left are those whose peer has not answered. -/
theorem mem_unanswered {s : Share} :
    s ∈ unanswered todo w ↔ s ∈ todo ∧ (w.heap s.1).answered = false := by
  simp [unanswered]

/-- `close` for every peer whose flag is down. -/
theorem closing_spec (hnd : (todo.map Prod.fst).Nodup)
    (h : ∀ s ∈ todo, Answered geo T k ids s w ∨
      Torn geo T k s.1 w) :
    Runs (forEach (fun s => Peer.close s.1 true) (unanswered todo w)) w
      (fun _ w' => Handled geo T k ids todo w w') (fun _ _ => False) := by
  have hsub : (unanswered todo w).Sublist todo := List.filter_sublist
  have hap : (unanswered todo w).Pairwise Apart := by
    have := hnd.sublist (hsub.map Prod.fst)
    rwa [List.Nodup, List.pairwise_map] at this
  have hswept := Runs.sweep (f := fun s : Share => Peer.close s.1 true)
    (A := fun s v => Torn geo T k s.1 v)
    (B := fun s v => Dropped geo T k s.1 v)
    (F := fun _ _ _ => False) (K := fun s v v' => Sole geo s.1 v v')
    (I := fun _ v => (Step (peersOf todo) w v ∧ Drew 0 w v) ∧
      ∀ s ∈ todo, (w.heap s.1).answered = true →
        Answered geo T k ids s v)
    (J := fun _ _ => False) hap (fun _ _ hne => Ne.symm hne) ?_ ?_ ?_ w
    ⟨⟨.refl w _, .none rfl 0⟩, ?_⟩ ?_
  case refine_1 =>
    rintro pre s rest hxs v ⟨⟨hstep, hd⟩, hdone⟩ ht
    obtain ⟨hs, hflag⟩ := mem_unanswered.mp
      (show s ∈ unanswered todo w by rw [hxs]; simp)
    refine (close_spec (E := fun _ _ => False) ht.linked ht.owed).mono ?_
      (fun _ _ hf => hf.elim)
    rintro _ v' hc
    have hsole := hc.step.sole geo
    refine ⟨⟨⟨⟨hstep.trans (hc.step.mono (single_subset hs)),
      hd.trans (.none hc.undrawn 0)⟩, ?_⟩, ht.close hc⟩, hsole⟩
    intro s' hs' hflag'
    obtain ⟨hh, hl⟩ := hsole s'.1 (by
      intro heq
      rw [heq, hflag] at hflag'
      cases hflag')
    exact (hdone s' hs' hflag').congr hh hl
  case refine_2 =>
    rintro x y v v' hK hne ht
    obtain ⟨hh', hl'⟩ := hK y.1 (Ne.symm hne)
    exact ht.congr hh' hl'
  case refine_3 =>
    rintro x y v v' hK hne hd
    obtain ⟨hh', hl'⟩ := hK y.1 (Ne.symm hne)
    exact hd.congr hh' hl'
  case refine_4 =>
    intro s hs hflag
    refine (h s hs).resolve_right fun ht => ?_
    rw [ht.flag] at hflag
    cases hflag
  case refine_5 =>
    intro s hs
    obtain ⟨hs, hflag⟩ := mem_unanswered.mp hs
    refine (h s hs).resolve_left fun ha => ?_
    rw [ha.flag] at hflag
    cases hflag
  refine hswept.mono ?_ (fun _ _ hf => hf.1)
  rintro _ w' ⟨⟨⟨hstep, hd⟩, hdone⟩, hdropped⟩
  refine ⟨hstep, fun s hs => ?_, hd⟩
  cases hflag : (w.heap s.1).answered with
  | true => exact hdone s hs hflag
  | false => exact hdropped s (mem_unanswered.mpr ⟨hs, hflag⟩)

/-- The handler of a failed attempt drops every peer still owed its
answer and says who they are, or raises on. -/
theorem giveUp_spec {n : Nat} (hnd : (todo.map Prod.fst).Nodup)
    (h : ∀ s ∈ todo, Answered geo T k ids s w ∨
      Torn geo T k s.1 w) :
    Runs (RemoteTable.giveUp n todo D e) w
      (fun todo' w' => n ≠ GATHER_ATTEMPTS ∧
        todo' = unanswered todo w ∧ Handled geo T k ids todo w w')
      (fun e' w' => e' = e ∧ Fail (peersOf todo) e w w' ∧
        (∀ s ∈ todo, Placed geo T k ids s w' (w.heap s.1).answered) ∧
        Drew 0 w w') := by
  unfold RemoteTable.giveUp
  simp only [runs_bind, runs_mark, runs_get]
  set w₁ := w.push (.caught e (todo.map Prod.fst))
    (env.produces_caught w.tr e _) with hw₁
  have hs₁ : Step (peersOf todo) w w₁ := by
    refine .push _ ?_ (by simp)
    intro i hi
    obtain ⟨s, hs, rfl⟩ := List.mem_map.mp hi
    exact mem_peersOf hs
  have h₁ : ∀ s ∈ todo, Answered geo T k ids s w₁ ∨
      Torn geo T k s.1 w₁ := fun s hs =>
    (h s hs).imp (fun ha => ha.caught _) (fun ht => ht.caught _)
  refine Runs.mono (closing_spec hnd h₁) ?_ (fun _ _ hf => hf.elim)
  rintro _ w₂ ⟨hs₂, heach, hd₂⟩
  have hhand : Handled geo T k ids todo w w₂ :=
    ⟨hs₁.trans hs₂, heach, (Drew.none (by simp [hw₁]) 0).trans hd₂⟩
  have hraise : ∀ v : World env, Handled geo T k ids todo w v →
      let v' := v.push (.raised e) (env.produces_raised v.tr e)
      e = e ∧ Fail (peersOf todo) e w v' ∧
        (∀ s ∈ todo, Placed geo T k ids s v' (w.heap s.1).answered) ∧
        Drew 0 w v' :=
    fun v hv => ⟨rfl, hv.step.fail (.raise v _ e),
      fun s hs => (hv.each s hs).congr rfl (line_raise _ _ _),
      hv.drew.trans (.none (by simp) 0)⟩
  split
  case isTrue => exact hraise w₂ hhand
  case isFalse hn =>
    simp only [runs_bind, runs_now]
    intro t ht
    have hhand' := hhand.push ht trivial (by intro c hc; cases hc) (by simp)
    split
    case isTrue => exact hraise _ hhand'
    case isFalse => exact ⟨hn, rfl, hhand'⟩

-- ============================================================== retries

/-- How the retry loop, or the exchange, ends by raising. -/
structure Ended (geo : PeerId → Geometry) (T D : ℚ) (k : Nat)
    (ids : List Int) (todo : List Share) (n : Nat) (w : World env)
    (e : Exn) (w' : World env) : Prop where
  fail : Fail (peersOf todo) e w w'
  each : ∀ s ∈ todo, Answered geo T k ids s w' ∨
    Torn geo T k s.1 w' ∧
      (e.isOS = true → (w'.line geo s.1).conn = none) ∧
      (e.isException = true → (w'.line geo s.1).phase ≠ .doubt)
  reason : Reason geo T D todo w w'
  bounded : env.Timely → Enough D env.rounds w → e ≠ .outOfRounds
  drew : Drew n w w'

section Retries

/-- A reason is one also for more that came after it. -/
theorem Reason.before (h : Reason geo T D todo w w') (hp : w.tr <+: w'.tr)
    (hp' : w'.tr <+: w''.tr) : Reason geo T D todo w w'' :=
  h.imp_right (.imp_right fun hc => hc.before hp hp')

/-- More GATHERs may have been allowed. -/
theorem Answered.mono {s : Share} (h : Answered geo T k ids s w)
    (hk : k ≤ k') : Answered geo T k' ids s w := ⟨h.toBody.mono hk, h.full⟩

/-- Fewer shares are of fewer peers. -/
theorem peersOf_mono {todo' : List Share} (h : ∀ s ∈ todo', s ∈ todo) :
    peersOf todo' ⊆ peersOf todo := by
  rintro i ⟨s, hs, rfl⟩
  exact mem_peersOf (h s hs)

/-- The next attempt starts on the peers the handler dropped. -/
theorem Handled.outset (h : Handled geo T k ids todo w w')
    (hnd : (todo.map Prod.fst).Nodup) (hT : 0 ≤ T)
    (htab : w.table.timeout = T)
    (hst : ∀ s ∈ todo, Staged geo ids s w)
    (hdl : ∀ s ∈ todo, (w.heap s.1).deadline = some D) :
    Outset geo T D k ids (unanswered todo w) w' := by
  have hdrop : ∀ s ∈ unanswered todo w, s ∈ todo ∧
      Dropped geo T k s.1 w' := by
    intro s hs
    obtain ⟨hs, hflag⟩ := mem_unanswered.mp hs
    have := h.each s hs
    rw [hflag] at this
    exact ⟨hs, this⟩
  refine ⟨?_, hT, by rw [h.step.table, htab], ?_, ?_, ?_, ?_⟩
  · exact hnd.sublist (List.filter_sublist.map Prod.fst)
  · exact fun s hs => (hdrop s hs).2.unasked
  · exact fun s hs => (hst s (hdrop s hs).1).kept (h.step.kept s.1)
  · intro s hs
    rw [(h.step.kept s.1).deadline, hdl s (hdrop s hs).1]
  · refine List.Pairwise.imp_of_mem ?_
      (List.pairwise_of_forall fun _ _ => trivial)
    intro s s' _ hs' _ _
    exact (hdrop s' hs').2.flag

/-- A failure seen from before entries that touched no object. -/
theorem Foiled.since {n : Nat} (h : Foiled geo T D k ids todo n w' e w'')
    (hs : Step (peersOf todo) w w') (hheap : w'.heap = w.heap)
    (hd : Drew 0 w w') : Foiled geo T D k ids todo n w e w'' where
  fail := hs.fail h.fail
  spoilt := h.spoilt
  owing := h.owing
  reason := by
    have := h.reason
    unfold Reason at this ⊢
    rw [hheap] at this
    exact this.imp_right (.imp_right fun hc => hc.after hs.grows)
  bounded ht hen := h.bounded ht (hen.later ht hs.grows)
  drew := (hd.trans h.drew).mono (by omega)

/-- More GATHERs and more draws may be allowed. -/
theorem Ended.mono {n n' : Nat} (h : Ended geo T D k ids todo n w e w')
    (hk : k ≤ k') (hn : n ≤ n') : Ended geo T D k' ids todo n' w e w' :=
  ⟨h.fail, fun s hs => (h.each s hs).imp (fun ha => ha.mono hk)
    (.imp_left fun ht => ht.mono hk), h.reason, h.bounded, h.drew.mono hn⟩

/-- What an attempt that raised leaves once its handler has run and
raised on. -/
theorem Ended.handled {n : Nat} {w₁ : World env}
    (hf : Foiled geo T D k ids todo n w e w₁) (hos : e.isOS = true)
    (hfail : Fail (peersOf todo) e w₁ w')
    (hplaced : ∀ s ∈ todo, Placed geo T k ids s w' (w₁.heap s.1).answered)
    (hd : Drew 0 w₁ w') : Ended geo T D k ids todo n w e w' where
  fail := (hf.fail.step hos).fail hfail
  each s hs := by
    have hp := hplaced s hs
    cases hflag : (w₁.heap s.1).answered with
    | true => rw [hflag] at hp; exact .inl hp
    | false =>
        rw [hflag] at hp
        have hp : Dropped geo T k s.1 w' := hp
        refine .inr ⟨hp.toTorn, fun _ => hp.conn, fun _ => ?_⟩
        rw [hp.linked.closed hp.conn]
        simp
  reason := hf.reason.before hf.fail.grows hfail.grows
  bounded := hf.bounded
  drew := hf.drew.trans hd

/-- An attempt that ended by an error no handler of the loop takes. -/
theorem Ended.foiled {n : Nat} (hf : Foiled geo T D k ids todo n w e w')
    (hos : e.isOS = false) : Ended geo T D k ids todo n w e w' where
  fail := hf.fail
  each s hs := by
    obtain ⟨ho, hc⟩ := hf.spoilt s hs
    refine ho.imp_right fun ht => ⟨ht, fun h => ?_, fun h => ?_⟩
    · rw [hos] at h; cases h
    · rcases hc with hc | hc | hc
      · rw [hos] at hc; cases hc
      · rw [hc] at h; cases h
      · exact hc
  reason := hf.reason
  bounded := hf.bounded
  drew := hf.drew

/-- A peer answered before the handler ran is none of those asked
again. -/
theorem Handled.keeps (h : Handled geo T k ids todo w w') {s : Share}
    (hs : s ∈ todo) (hflag : (w.heap s.1).answered = true) :
    Answered geo T k ids s w' ∧ s.1 ∉ peersOf (unanswered todo w) := by
  have hp := h.each s hs
  rw [hflag] at hp
  refine ⟨hp, ?_⟩
  rintro ⟨s', hs', heq⟩
  have := (mem_unanswered.mp hs').2
  rw [heq, hflag] at this
  cases this

/-- The peers left are some of those asked. -/
theorem peersOf_unanswered :
    peersOf (unanswered todo w) ⊆ peersOf todo :=
  peersOf_mono fun _ hs => (mem_unanswered.mp hs).1

/-- A later attempt that raised, seen from the first. -/
theorem Ended.later {n m : Nat} {w₁ : World env}
    (hf : Foiled geo T D k ids todo m w e w₁)
    (hos : e.isOS = true) (h : Handled geo T k ids todo w₁ w') {e' : Exn}
    (h' : Ended geo T D k' ids (unanswered todo w₁) n w' e' w'')
    (hk : k ≤ k') : Ended geo T D k' ids todo (m + n) w e' w'' := by
  have hstep : Step (peersOf todo) w w' := (hf.fail.step hos).trans h.step
  refine ⟨hstep.fail (h'.fail.mono peersOf_unanswered), fun s hs => ?_, ?_, ?_, ?_⟩
  · by_cases hflag : (w₁.heap s.1).answered = true
    case neg =>
      exact h'.each s (mem_unanswered.mpr ⟨hs, by simpa using hflag⟩)
    case pos =>
      obtain ⟨ha, hout⟩ := h.keeps hs hflag
      exact .inl ((ha.congr (h'.fail.heap hout)
        (h'.fail.line geo hout)).mono hk)
  · exact hf.reason.before hf.fail.grows
      (h.step.grows.trans h'.fail.grows)
  · exact fun ht hen => h'.bounded ht (hen.later ht hstep.grows)
  · exact ((hf.drew.trans h.drew).trans h'.drew).mono (by omega)

/-- The retry loop, `left` attempts to go: every peer's answer is in, or
every peer without one was closed, or stands where an error that is no
OSError left it. -/
theorem attempts_spec :
    ∀ (left k : Nat) (todo : List Share) (w : World env),
      0 < left → left ≤ GATHER_ATTEMPTS → todo ≠ [] →
      Outset geo T D k ids todo w →
      Runs (RemoteTable.attempts D left todo) w
        (fun _ w' => Step (peersOf todo) w w' ∧
          Drew (2 * left * todo.length) w w' ∧
          ∀ s ∈ todo, Answered geo T (k + left) ids s w')
        (fun e w' => Ended geo T D (k + left) ids todo
          (2 * left * todo.length) w e w') := by
  intro left
  induction left with
  | zero => intro k todo w h; exact absurd h (Nat.lt_irrefl 0)
  | succ left ih =>
      intro k todo w _ hleft hne h
      unfold RemoteTable.attempts
      simp only [runs_bind, runs_mark]
      set n := GATHER_ATTEMPTS - left with hn
      set w₁ := w.push (.attempt n (todo.map Prod.fst))
        (env.produces_attempt w.tr n _) with hw₁
      have hs₁ : Step (peersOf todo) w w₁ :=
        .push _ (by simpa [Ev.Of] using hne) (by simp)
      have h₁ : Outset geo T D k ids todo w₁ := by
        refine ⟨h.nodup, h.nonneg, h.timeout, fun s hs => ?_,
          fun s hs => (h.staged s hs).kept (hs₁.kept s.1), h.deadline,
          h.stale⟩
        exact (h.unasked s hs).congr rfl
          (line_mute (x := .attempt n (todo.map Prod.fst)) _ trivial _)
      have hd₁ : Drew 0 w w₁ := .none (by simp [hw₁]) 0
      have htry : Runs (RemoteTable.attempt n todo D) w₁
          (fun _ w' => Step (peersOf todo) w w' ∧
            Drew (2 * (left + 1) * todo.length) w w' ∧
            ∀ s ∈ todo, Answered geo T (k + (left + 1)) ids s w')
          (fun e w' =>
            Foiled geo T D (k + 1) ids todo (2 * todo.length) w e w') := by
        refine (attempt_spec hne h₁).mono ?_ (fun e w' hf => hf.since hs₁ rfl hd₁)
        rintro _ w' ⟨hs, hd, ha⟩
        refine ⟨hs₁.trans hs, (hd₁.trans hd).mono ?_,
          fun s hs => (ha s hs).mono (by omega)⟩
        rw [Nat.mul_add, Nat.add_mul]
        omega
      refine Runs.catching htry ?_ ?_
      case refine_2 =>
        intro e w' hf hos
        exact (Ended.foiled hf hos).mono (by omega) (by
          rw [Nat.mul_add, Nat.add_mul]; omega)
      -- the handler: drop who is still owed, then try again on them
      intro e w₂ hf hos
      refine Runs.bind (giveUp_spec (n := n) h.nodup
        (fun s hs => (hf.spoilt s hs).1)) ?_ ?_
      case refine_2 =>
        rintro e' w' ⟨rfl, hfail, hplaced, hd⟩
        exact (Ended.handled hf hos hfail hplaced hd).mono (by omega) (by
          rw [Nat.mul_add, Nat.add_mul]; omega)
      rintro todo' w₃ ⟨hn3, rfl, hh⟩
      have hsw : Step (peersOf todo) w w₂ := hf.fail.step hos
      have hne' : unanswered todo w₂ ≠ [] := by
        obtain ⟨s, hs, hflag⟩ := hf.owing
        exact List.ne_nil_of_mem (mem_unanswered.mpr ⟨hs, hflag⟩)
      have hout : Outset geo T D (k + 1) ids (unanswered todo w₂) w₃ :=
        hh.outset h.nodup h.nonneg (by rw [hsw.table, h.timeout])
          (fun s hs => (h.staged s hs).kept (hsw.kept s.1))
          (fun s hs => by rw [(hsw.kept s.1).deadline, h.deadline s hs])
      have hlen : (unanswered todo w₂).length ≤ todo.length :=
        List.length_filter_le _ _
      have hsum : 2 * todo.length + 2 * left * (unanswered todo w₂).length
          ≤ 2 * (left + 1) * todo.length := by
        have := Nat.mul_le_mul_left (2 * left) hlen
        rw [Nat.mul_add, Nat.add_mul]
        omega
      have hk : k + 1 + left = k + (left + 1) := by omega
      refine (ih (k + 1) (unanswered todo w₂) w₃ (by omega) (by omega) hne'
        hout).mono ?_ ?_
      · rintro _ w' ⟨hs, hd, ha⟩
        refine ⟨(hsw.trans hh.step).trans (hs.mono peersOf_unanswered),
          ((hf.drew.trans hh.drew).trans hd).mono (by omega), ?_⟩
        intro s hs'
        by_cases hflag : (w₂.heap s.1).answered = true
        case neg =>
          exact hk ▸ ha s (mem_unanswered.mpr ⟨hs', by simpa using hflag⟩)
        case pos =>
          obtain ⟨ha', hout'⟩ := hh.keeps hs' hflag
          exact (ha'.congr (hs.heap hout') (hs.line geo hout')).mono
            (by omega)
      · intro e' w' he
        exact (Ended.later hf hos hh he (by omega)).mono hk.le hsum

end Retries

-- ============================================================ deadlines

/-- The same peer but for its deadline. -/
def Peer.Dated (p p' : Peer) : Prop := ∃ d, p' = { p with deadline := d }

section Deadlines

variable {active : List Share} {i : PeerId} {d : Option ℚ}

/-- The peers asked are given the deadline. -/
theorem setDeadlines_heap_of_mem {s : Share} (h : s ∈ active)
    (w : World env) : (RemoteTable.setDeadlines active d w).heap s.1
      = { w.heap s.1 with deadline := d } :=
  if_pos (List.mem_map_of_mem h)

/-- The peers that are not asked are given no deadline. -/
theorem setDeadlines_heap_of_not_mem (h : i ∉ peersOf active)
    (w : World env) :
    (RemoteTable.setDeadlines active d w).heap i = w.heap i := by
  refine if_neg fun hi => h ?_
  obtain ⟨s, hs, rfl⟩ := List.mem_map.mp hi
  exact mem_peersOf hs

/-- Giving deadlines changes nothing but deadlines. -/
theorem setDeadlines_dated (w : World env) (i : PeerId) :
    (w.heap i).Dated ((RemoteTable.setDeadlines active d w).heap i) := by
  by_cases hi : i ∈ active.map Prod.fst
  · exact ⟨d, if_pos hi⟩
  · exact ⟨_, if_neg hi⟩

/-- A peer with a new deadline stays linked. -/
theorem Linked.dated (h : Linked geo T i w)
    (hh : (w.heap i).Dated (w'.heap i))
    (hl : w'.line geo i = w.line geo i) : Linked geo T i w' := by
  obtain ⟨d, hd⟩ := hh
  refine ⟨by rw [hd, hl]; exact h.sock, by rw [hl]; exact h.good, ?_, ?_⟩
  · rw [hd]; exact h.timeout
  · rw [hl]; exact h.closed

/-- A peer ready to be asked is so with a new deadline. -/
theorem Todo.dated (h : Todo geo T k i w)
    (hh : (w.heap i).Dated (w'.heap i))
    (hl : w'.line geo i = w.line geo i) : Todo geo T k i w' :=
  ⟨⟨h.linked.dated hh hl, by rw [hl]; exact h.owed, by
    rw [hl]; exact h.asked⟩, by rw [hl]; exact h.idle, by
    rw [hl]; exact h.conn⟩

/-- A torn peer is torn with a new deadline. -/
theorem Torn.dated (h : Torn geo T k i w)
    (hh : (w.heap i).Dated (w'.heap i))
    (hl : w'.line geo i = w.line geo i) : Torn geo T k i w' := by
  refine ⟨⟨h.linked.dated hh hl, by rw [hl]; exact h.owed, by
    rw [hl]; exact h.asked⟩, ?_⟩
  obtain ⟨d, hd⟩ := hh
  rw [hd]
  exact h.flag

/-- A staged peer is staged with a new deadline. -/
theorem Staged.dated {s : Share} (h : Staged geo ids s w)
    (hh : (w.heap s.1).Dated (w'.heap s.1)) : Staged geo ids s w' := by
  obtain ⟨d, hd⟩ := hh
  refine ⟨?_, h.wide, h.ask, ?_, ?_, ?_⟩ <;> rw [hd]
  · exact h.geometry
  · exact h.req
  · exact h.rows
  · exact h.bytes

/-- A peer that answered has answered with a new deadline. -/
theorem Answered.dated {s : Share} (h : Answered geo T k ids s w)
    (hh : (w.heap s.1).Dated (w'.heap s.1))
    (hl : w'.line geo s.1 = w.line geo s.1) :
    Answered geo T k ids s w' := by
  obtain ⟨⟨⟨c, l, req, got, ho, hr, hp, hf⟩, ht⟩, hfull⟩ := h
  obtain ⟨d, hd⟩ := hh
  refine ⟨⟨⟨c, l, req, got, ho, hr, hp, ?_⟩, by rw [hd]; exact ht⟩, by
    rw [hd]; exact hfull⟩
  refine ⟨?_, by rw [hl]; exact hf.line, hf.header, ?_, ?_, ?_, ?_, ?_,
    ?_, ?_⟩ <;> rw [hd]
  · exact hf.sock
  · exact hf.want
  · exact hf.length
  · exact hf.le
  · exact hf.room
  · exact hf.rows
  · exact hf.flag
  · exact hf.pending

/-- Work under a deadline that is set before and cleared after it is
work without. -/
theorem Moves.undated {evs : Trace}
    (h : Moves (peersOf active) evs (RemoteTable.setDeadlines active d w) w')
    (hnone : ∀ s ∈ active, (w.heap s.1).deadline = none) :
    Moves (peersOf active) evs w
      (RemoteTable.setDeadlines active none w') where
  tr := h.tr
  of := h.of
  heap j hj := by
    rw [setDeadlines_heap_of_not_mem hj, h.heap j hj,
      setDeadlines_heap_of_not_mem hj]
  table := h.table
  bufs := h.bufs
  allocs := h.allocs
  kept j := by
    have hk := h.kept j
    by_cases hj : j ∈ active.map Prod.fst
    case pos =>
      obtain ⟨s, hs, rfl⟩ := List.mem_map.mp hj
      rw [setDeadlines_heap_of_mem hs] at hk ⊢
      exact ⟨hk.geometry, (hnone s hs).symm, hk.cap, hk.ids, hk.reqLength,
        hk.rowsLength⟩
    case neg =>
      have hout : j ∉ peersOf active := fun hp => hj <| by
        obtain ⟨s, hs, rfl⟩ := hp
        exact List.mem_map_of_mem hs
      rw [setDeadlines_heap_of_not_mem hout] at hk ⊢
      exact hk
  ids := h.ids

end Deadlines

-- ============================================================= exchange

/-- Where an exchange starts: `Outset` before a deadline is set. -/
structure Primed (geo : PeerId → Geometry) (T : ℚ) (ids : List Int)
    (active : List Share) (w : World env) : Prop where
  nodup : (active.map Prod.fst).Nodup
  nonneg : 0 ≤ T
  timeout : w.table.timeout = T
  unasked : ∀ s ∈ active, Todo geo T 0 s.1 w
  staged : ∀ s ∈ active, Staged geo ids s w
  deadline : ∀ s ∈ active, (w.heap s.1).deadline = none
  stale : active.Pairwise fun s s' =>
    (w.heap s.1).sock = none → (w.heap s'.1).answered = false

/-- `_exchange` gets every peer's answer, or raises as its retry loop
does; the deadline it worked under is gone either way. -/
theorem exchange_spec {active : List Share} (hne : active ≠ [])
    (h : Primed geo T ids active w) :
    Runs (RemoteTable.exchange active) w
      (fun _ w' => Step (peersOf active) w w' ∧
        Drew (6 * active.length) w w' ∧
        ∀ s ∈ active, Answered geo T 3 ids s w')
      (fun e w' => Ended geo T (env.now w.tr + w.table.gatherDeadline) 3 ids
        active (6 * active.length) w e w') := by
  unfold RemoteTable.exchange
  simp only [runs_bind, runs_now, runs_self, runs_modify]
  intro t ht
  set w₁ := w.push (.now t) ht with hw₁
  set D := t + w₁.table.gatherDeadline with hD
  have hD' : env.now w.tr + w.table.gatherDeadline = D := by
    rw [hD, show t = env.now w.tr from ht]; rfl
  rw [hD', runs_cleaning]
  set w₂ := RemoteTable.setDeadlines active (some D) w₁ with hw₂
  have hs₁ : Step (peersOf active) w w₁ :=
    .push ht (by intro c hc; cases hc) (by simp)
  have hl₁ : ∀ j, w₂.line geo j = w.line geo j := fun j =>
    line_mute ht trivial j
  have hdate : ∀ j, (w.heap j).Dated (w₂.heap j) := fun j =>
    setDeadlines_dated w₁ j
  have hout : Outset geo T D 0 ids active w₂ := by
    refine ⟨h.nodup, h.nonneg, h.timeout, fun s hs => ?_, fun s hs => ?_,
      fun s hs => by rw [hw₂, setDeadlines_heap_of_mem hs], ?_⟩
    · exact (h.unasked s hs).dated (hdate _) (hl₁ _)
    · exact (h.staged s hs).dated (hdate _)
    · refine h.stale.imp fun {s s'} hss hnone => ?_
      obtain ⟨d, hd⟩ := hdate s.1
      obtain ⟨d', hd'⟩ := hdate s'.1
      rw [hd] at hnone
      rw [hd']
      exact hss hnone
  have hdate' : ∀ (v : World env) (j : PeerId),
      (v.heap j).Dated ((RemoteTable.setDeadlines active none v).heap j) :=
    fun v j => setDeadlines_dated v j
  have hdrew : ∀ {n : Nat} {v : World env}, Drew n w₂ v →
      Drew n w (RemoteTable.setDeadlines active none v) := fun hd =>
    ((show Drew 0 w w₂ from .none (drawn_push ht trivial) 0).trans hd).mono
      (by omega)
  refine (attempts_spec GATHER_ATTEMPTS 0 active w₂ (by decide) le_rfl hne
    hout).mono ?_ ?_
  · rintro _ w' ⟨⟨evs, hm, hc⟩, hd, ha⟩
    refine ⟨hs₁.trans ⟨evs, hm.undated h.deadline, hc⟩, hdrew hd,
      fun s hs => (ha s hs).dated (hdate' w' s.1) rfl⟩
  · rintro e w' ⟨⟨evs, hm, hc⟩, heach, hreason, hbound, hd⟩
    refine ⟨hs₁.fail ⟨evs, hm.undated h.deadline, hc⟩, fun s hs => ?_, ?_,
      fun hty hen => hbound hty (hen.later hty hs₁.grows), hdrew hd⟩
    · exact (heach s hs).imp (fun ha => ha.dated (hdate' w' s.1) rfl)
        (.imp_left fun ht => ht.dated (hdate' w' s.1) rfl)
    · refine .imp ?_ (.imp_right fun hcause => ?_) hreason
      · rintro ⟨s, hs, hnone⟩
        obtain ⟨d, hd⟩ := hdate s.1
        rw [hd] at hnone
        exact ⟨s, hs, hnone⟩
      · exact hcause.after hs₁.grows

end PleRowServer.Client
