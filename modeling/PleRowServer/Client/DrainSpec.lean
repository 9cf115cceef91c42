/-
What `_drain` does: it reads every body as its bytes arrive, in whatever
order select reports the sockets, and returns once all of them are in.

`Draining` is the loop's invariant. The list of sockets still waited for
is exactly the list of peers whose body is not all in, so a socket is
never read after its answer's last byte. `Pending` is its measure: the
body bytes still expected, of which every round that returns reads one.
-/
import PleRowServer.Client.Stages
import Mathlib.Algebra.Order.BigOperators.Group.List

namespace PleRowServer.Client

open Base Wire

variable {env : Env} {geo : PeerId → Geometry} {w₀ w w' : World env}
  {T D : ℚ} {k : Nat} {ids : List Int}
  {todo : List Share} {e : Exn}

/-- The peers of some shares. -/
def peersOf (todo : List Share) : Set PeerId := {i | ∃ s ∈ todo, s.1 = i}

theorem mem_peersOf {s : Share} (h : s ∈ todo) : s.1 ∈ peersOf todo :=
  ⟨s, h, rfl⟩

theorem single_subset {s : Share} (h : s ∈ todo) :
    ({s.1} : Set PeerId) ⊆ peersOf todo := by
  rintro i rfl
  exact mem_peersOf h

/-- How a failed attempt leaves its peers: each has its answer or is
torn, and the flag tells which. -/
def Spoilt (geo : PeerId → Geometry) (T : ℚ)
    (k : Nat) (ids : List Int)
    (todo : List Share) (e : Exn) (w : World env) : Prop :=
  ∀ s ∈ todo, (Answered geo T k ids s w ∨ Torn geo T k s.1 w) ∧
    Clear e (w.line geo s.1)

theorem Answered.clear {s : Share} (h : Answered geo T k ids s w)
    (e : Exn) : Clear e (w.line geo s.1) := by
  obtain ⟨c, l, req, ans, -, -, -, -, hl, -⟩ := h.line
  refine .inr (.inr ?_)
  rw [hl]
  simp

theorem Reading.clear {s : Share} (h : Reading geo T k ids s w)
    (e : Exn) : Clear e (w.line geo s.1) := .inr (.inr h.phase)

/-- A body is read from the connection of its own peer. -/
theorem Reading.on {s : Share} (h : Reading geo T k ids s w) :
    ∃ c, On geo s.1 c w := by
  obtain ⟨⟨⟨c, l, req, got, ho, -, -, hf⟩, -⟩, -⟩ := h
  exact ⟨c, hf.on ho⟩

/-- The invariant of `_drain`. -/
structure Draining (geo : PeerId → Geometry) (T : ℚ)
    (k : Nat) (ids : List Int)
    (todo : List Share) (w₀ : World env) (waiting : List (ConnId × PeerId))
    (w : World env) : Prop where
  step : Step (peersOf todo) w₀ w
  undrawn : drawn w.tr = drawn w₀.tr
  wait : ∀ x ∈ waiting, ∃ s ∈ todo, s.1 = x.2 ∧
    (w.heap s.1).sock = some x.1 ∧ Reading geo T k ids s w
  rest : ∀ s ∈ todo, Answered geo T k ids s w ∨
    ∃ c, (w.heap s.1).sock = some c ∧ (c, s.1) ∈ waiting

/-- Body bytes still expected. -/
def Pending (todo : List Share) (w : World env) : Nat :=
  (todo.map fun s => (w.heap s.1).rdWant - (w.heap s.1).rdGot).sum

/-- How `_drain` fails. -/
structure Undrained (geo : PeerId → Geometry) (T D : ℚ)
    (k : Nat) (ids : List Int)
    (todo : List Share) (w₀ : World env) (e : Exn) (w : World env) :
    Prop where
  fail : Fail (peersOf todo) e w₀ w
  spoilt : Spoilt geo T k ids todo e w
  owing : ∃ s ∈ todo, (w.heap s.1).answered = false
  cause : Trouble geo T (some D) w₀ w
  bounded : e ≠ .outOfRounds
  undrawn : drawn w.tr = drawn w₀.tr

section Drain

variable {waiting : List (ConnId × PeerId)}

/-- A share is known by its peer. -/
theorem share_inj (hnd : (todo.map Prod.fst).Nodup) {s s' : Share}
    (h : s ∈ todo) (h' : s' ∈ todo) (hs : s.1 = s'.1) : s = s' :=
  List.inj_on_of_nodup_map hnd h h' hs

theorem Draining.reading (hnd : (todo.map Prod.fst).Nodup)
    (h : Draining geo T k ids todo w₀ waiting w) {s : Share} (hs : s ∈ todo)
    {c : ConnId} (hm : (c, s.1) ∈ waiting) :
    Reading geo T k ids s w ∧ (w.heap s.1).sock = some c ∧
      c.peer = s.1 := by
  obtain ⟨s', hs', heq, hsock, hr⟩ := h.wait _ hm
  obtain rfl := share_inj hnd hs' hs heq
  obtain ⟨c', hon⟩ := hr.on
  have : c' = c := Option.some.inj (hon.sock.symm.trans hsock)
  exact ⟨hr, hsock, this ▸ hon.peer⟩

theorem Draining.spoilt (hnd : (todo.map Prod.fst).Nodup)
    (h : Draining geo T k ids todo w₀ waiting w) (e : Exn) :
    Spoilt geo T k ids todo e w := by
  intro s hs
  rcases h.rest s hs with ha | ⟨c, -, hm⟩
  · exact ⟨.inl ha, ha.clear e⟩
  · have hr := (h.reading hnd hs hm).1
    exact ⟨.inr hr.torn, hr.clear e⟩

/-- Entries no line shows keep the invariant. -/
theorem Draining.push (h : Draining geo T k ids todo w₀ waiting w) {x : Ev}
    (hx) (hm : x.Mute) (ho : x.Of (peersOf todo)) (hp : x.Plain) :
    Draining geo T k ids todo w₀ waiting (w.push x hx) where
  step := h.step.trans (.push hx ho hp)
  undrawn := (drawn_push hx hp).trans h.undrawn
  wait y hy := by
    obtain ⟨s, hs, heq, hsock, hrd⟩ := h.wait y hy
    exact ⟨s, hs, heq, hsock, hrd.congr rfl (line_mute hx hm _)⟩
  rest s hs := (h.rest s hs).imp_left fun ha =>
    ha.congr rfl (line_mute hx hm _)

/-- `raise` out of `_drain`. -/
theorem Draining.raise (hnd : (todo.map Prod.fst).Nodup)
    (h : Draining geo T k ids todo w₀ waiting w) (hw : waiting ≠ [])
    (hc : Trouble geo T (some D) w₀ w) (he : e ≠ .outOfRounds) :
    Undrained geo T D k ids todo w₀ e
      (w.push (.raised e) (env.produces_raised w.tr e)) where
  fail := h.step.fail (.raise w _ e)
  spoilt s hs := by
    obtain ⟨ho, hcl⟩ := h.spoilt hnd e s hs
    refine ⟨ho.imp (fun ha => ha.congr rfl (line_raise _ _ _))
      (fun ht => ht.congr rfl (line_raise _ _ _)), ?_⟩
    rw [line_raise]; exact hcl
  owing := by
    obtain ⟨x, hx⟩ := List.exists_mem_of_ne_nil waiting hw
    obtain ⟨s, hs, -, -, hr⟩ := h.wait x hx
    exact ⟨s, hs, hr.torn.flag⟩
  cause := hc.before h.step.grows (List.prefix_append _ _)
  bounded := he
  undrawn := by simpa using h.undrawn

/-- What one peer's pump does to the peers waited for. -/
theorem Draining.pumped (hnd : (todo.map Prod.fst).Nodup)
    (h : Draining geo T k ids todo w₀ waiting w) {s : Share} (hs : s ∈ todo)
    {c : ConnId} (hm : (c, s.1) ∈ waiting) {full : Bool}
    (hstep : Step {s.1} w w')
    (hsock : (w'.heap s.1).sock = (w.heap s.1).sock)
    (hbody : if full then Answered geo T k ids s w'
      else Reading geo T k ids s w')
    (hn : drawn w'.tr = drawn w.tr) :
    Draining geo T k ids todo w₀
      (if full then waiting.filter (·.1 ≠ c) else waiting) w' := by
  have hsole : Sole geo s.1 w w' := hstep.sole geo
  obtain ⟨-, hcs, hcp⟩ := h.reading hnd hs hm
  refine ⟨h.step.trans (hstep.mono (single_subset hs)), hn.trans h.undrawn,
    ?_, ?_⟩
  · intro x hx
    have hxw : x ∈ waiting := by
      split at hx
      · exact (List.mem_filter.mp hx).1
      · exact hx
    obtain ⟨s', hs', heq, hsock', hr⟩ := h.wait x hxw
    by_cases hsame : s'.1 = s.1
    case pos =>
      obtain rfl := share_inj hnd hs' hs hsame
      have hxc : x.1 = c := Option.some.inj (hsock'.symm.trans hcs)
      cases full with
      | true =>
          have := (List.mem_filter.mp hx).2
          simp [hxc] at this
      | false => exact ⟨s', hs', heq, hsock.trans hsock', hbody⟩
    case neg =>
      obtain ⟨hh, hl⟩ := hsole s'.1 hsame
      exact ⟨s', hs', heq, by rw [hh]; exact hsock', hr.congr hh hl⟩
  · intro s' hs'
    by_cases hsame : s'.1 = s.1
    case pos =>
      obtain rfl := share_inj hnd hs' hs hsame
      cases full with
      | true => exact .inl hbody
      | false => exact .inr ⟨c, hsock.trans hcs, hm⟩
    case neg =>
      obtain ⟨hh, hl⟩ := hsole s'.1 hsame
      refine (h.rest s' hs').imp (fun ha => ha.congr hh hl) ?_
      rintro ⟨c', hc', hm'⟩
      refine ⟨c', by rw [hh]; exact hc', ?_⟩
      split
      case isFalse => exact hm'
      case isTrue =>
        refine List.mem_filter.mpr ⟨hm', decide_eq_true ?_⟩
        -- two peers never share a connection
        rintro rfl
        exact hsame ((h.reading hnd hs' hm').2.2.symm.trans hcp)

/-- A pump reads at least one of the bytes expected. -/
theorem Pending.pumped {s : Share} (hs : s ∈ todo)
    (hnd : (todo.map Prod.fst).Nodup) (hsole : Sole geo s.1 w w')
    (hwant : (w'.heap s.1).rdWant = (w.heap s.1).rdWant)
    (hgot : (w.heap s.1).rdGot < (w'.heap s.1).rdGot)
    (hlt : (w.heap s.1).rdGot < (w.heap s.1).rdWant) :
    Pending todo w' < Pending todo w := by
  refine List.sum_lt_sum _ _ ?_ ⟨s, hs, by rw [hwant]; omega⟩
  intro s' hs'
  by_cases hsame : s'.1 = s.1
  case pos =>
    obtain rfl := share_inj hnd hs' hs hsame
    rw [hwant]; omega
  case neg => rw [(hsole s'.1 hsame).1]

/-- A pump that failed ends `_drain`. -/
theorem Draining.failed (hnd : (todo.map Prod.fst).Nodup)
    (h : Draining geo T k ids todo w₀ waiting w) {s : Share} (hs : s ∈ todo)
    (hD : (w₀.heap s.1).deadline = some D)
    (hf : Failed geo T k s.1 e w w')
    (hn : drawn w'.tr = drawn w.tr) :
    Undrained geo T D k ids todo w₀ e w' where
  fail := h.step.fail (hf.fail.mono (single_subset hs))
  spoilt s' hs' := by
    by_cases hsame : s'.1 = s.1
    case pos =>
      obtain rfl := share_inj hnd hs' hs hsame
      exact ⟨.inr hf.toTorn, hf.clear⟩
    case neg =>
      obtain ⟨hh, hl⟩ := hf.fail.sole geo s'.1 hsame
      obtain ⟨ho, hcl⟩ := h.spoilt hnd e s' hs'
      exact ⟨ho.imp (fun ha => ha.congr hh hl) (fun ht => ht.congr hh hl), by
        rw [hl]; exact hcl⟩
  owing := ⟨s, hs, hf.flag⟩
  cause := (hf.cause (some D) (by
    rw [(h.step.kept s.1).deadline, hD])).after h.step.grows
  bounded := hf.bounded
  undrawn := hn.trans h.undrawn

/-- One round of `_drain` over the sockets select reported. -/
theorem pumpReady_spec (hnd : (todo.map Prod.fst).Nodup)
    (hD : ∀ s ∈ todo, (w₀.heap s.1).deadline = some D) :
    ∀ (cs : List ConnId) (waiting : List (ConnId × PeerId)) (w : World env),
      Draining geo T k ids todo w₀ waiting w →
      Runs (RemoteTable.pumpReady cs waiting) w
        (fun waiting' w' => Draining geo T k ids todo w₀ waiting' w' ∧
          Pending todo w' ≤ Pending todo w ∧
          (∀ c ∈ cs.head?, c ∈ waiting.map Prod.fst →
            Pending todo w' < Pending todo w))
        (fun e w' => Undrained geo T D k ids todo w₀ e w') := by
  intro cs
  induction cs with
  | nil => intro waiting w h; exact ⟨h, le_rfl, by simp⟩
  | cons c cs ih =>
      intro waiting w h
      unfold RemoteTable.pumpReady
      cases hlook : waiting.lookup c with
      | none =>
          refine (ih waiting w h).mono ?_ (fun _ _ h => h)
          rintro waiting' w' ⟨h', hle, -⟩
          refine ⟨h', hle, ?_⟩
          -- select never reports a socket it was not asked about
          intro c' hc' hm
          obtain rfl : c = c' := by simpa using hc'
          obtain ⟨x, hx, rfl⟩ := List.mem_map.mp hm
          have := List.lookup_eq_none_iff.mp hlook x hx
          simp at this
      | some i =>
          obtain ⟨l₁, l₂, rfl, -⟩ := List.lookup_eq_some_iff.mp hlook
          have hm : (c, i) ∈ l₁ ++ (c, i) :: l₂ := by simp
          obtain ⟨s, hs, rfl, hsock, hr⟩ := h.wait _ hm
          simp only [runs_bind]
          refine Runs.mono (pump_spec hr) ?_
            (fun e w' hf => h.failed hnd hs (hD s hs) hf.1 hf.2)
          rintro full w' ⟨hstep, hsock', hwant, hgot, hbody, hn⟩
          have h' := h.pumped hnd hs hm hstep hsock' hbody hn
          have hlt := Pending.pumped hs hnd (hstep.sole geo) hwant
            hgot hr.lt
          cases full with
          | true =>
              refine (ih _ w' h').mono ?_ (fun _ _ h => h)
              rintro waiting' w'' ⟨h'', hle, -⟩
              exact ⟨h'', by omega, fun _ _ _ => by omega⟩
          | false =>
              refine (ih _ w' h').mono ?_ (fun _ _ h => h)
              rintro waiting' w'' ⟨h'', hle, -⟩
              exact ⟨h'', by omega, fun _ _ _ => by omega⟩

/-- `_drain` without a socket to read gives up. -/
theorem drainTimeout_spec (hnd : (todo.map Prod.fst).Nodup)
    (h : Draining geo T k ids todo w₀ waiting w) (hw : waiting ≠ [])
    (hc : Trouble geo T (some D) w₀ w) (wait : ℚ)
    {Q : Unit → World env → Prop} :
    Runs (RemoteTable.drainTimeout waiting wait) w Q
      (fun e w' => Undrained geo T D k ids todo w₀ e w') := by
  unfold RemoteTable.drainTimeout
  simp only [runs_bind, runs_get]
  split
  · exact h.raise hnd hw hc (by simp)
  · exact h.raise hnd hw hc (by simp)

/-- The loop of `_drain` ends with every body in. -/
theorem drainLoop_spec (hnd : (todo.map Prod.fst).Nodup)
    (hT : w₀.table.timeout = T)
    (hD : ∀ s ∈ todo, (w₀.heap s.1).deadline = some D) :
    ∀ (rounds : Nat) (waiting : List (ConnId × PeerId)) (w : World env),
      Draining geo T k ids todo w₀ waiting w → Pending todo w < rounds →
      Runs (RemoteTable.drainLoop D rounds waiting) w
        (fun _ w' => Step (peersOf todo) w₀ w' ∧
          (∀ s ∈ todo, Answered geo T k ids s w') ∧
          drawn w'.tr = drawn w₀.tr)
        (fun e w' => Undrained geo T D k ids todo w₀ e w') := by
  intro rounds
  induction rounds with
  | zero => intro waiting w _ hlt; omega
  | succ rounds ih =>
      intro waiting w h hlt
      unfold RemoteTable.drainLoop
      split
      case isTrue hw =>
        subst hw
        refine ⟨h.step, fun s hs => ?_, h.undrawn⟩
        exact (h.rest s hs).resolve_right (by simp)
      case isFalse hw =>
        have hTw : w.table.timeout = T := by rw [h.step.table, hT]
        simp only [runs_bind, runs_self, runs_now, hTw]
        intro t ht
        have h₁ : Draining geo T k ids todo w₀ waiting (w.push (.now t) ht) :=
          h.push ht trivial (by intro c hc; cases hc) (by simp)
        split
        case isFalse hle =>
          refine drainTimeout_spec hnd h₁ hw (.inl ?_) _
          refine Faulted.after (.push ht ⟨D, rfl, not_lt.mp hle⟩) h.step.grows
        case isTrue =>
          simp only [runs_bind, runs_sysSelect]
          intro r hr
          have h₂ : Draining geo T k ids todo w₀ waiting
              ((w.push (.now t) ht).push
                (.select (waiting.map Prod.fst) (min T (D - t)) r) hr) :=
            h₁.push hr trivial (by intro c hc; cases hc) (by simp)
          have hfault : (∀ cs, r = .ready cs → cs = []) →
              Trouble geo T (some D) w₀ ((w.push (.now t) ht).push
                (.select (waiting.map Prod.fst) (min T (D - t)) r) hr) :=
            fun hnone => .inl (Faulted.after (.push hr hnone) h₁.step.grows)
          cases r with
          | fault why => exact h₂.raise hnd hw (hfault (by simp)) (by simp)
          | beyond => exact h₂.raise hnd hw (hfault (by simp)) (by simp)
          | interrupt => exact h₂.raise hnd hw (hfault (by simp)) (by simp)
          | ready cs =>
              by_cases hcs : cs = []
              case pos =>
                simp only [hcs, if_true, runs_bind]
                refine drainTimeout_spec hnd (hcs ▸ h₂) hw ?_ _
                subst hcs
                exact hfault (by simp)
              case neg =>
                obtain ⟨c, cs', rfl⟩ := List.exists_cons_of_ne_nil hcs
                have hmem : c ∈ waiting.map Prod.fst :=
                  Ready.mem_of_among hr (by simp)
                simp only [hcs, if_false, runs_bind]
                refine Runs.mono (pumpReady_spec hnd hD _ _ _ h₂) ?_
                  (fun _ _ h => h)
                rintro waiting' w' ⟨h', -, hprog⟩
                have := hprog c (by simp) hmem
                exact ih waiting' w' h' (by
                  change Pending todo w' < Pending todo w at this
                  omega)

/-- What select is asked about first: every peer's socket. -/
theorem mem_waitingOf {heap : PeerId → Peer} {is : List PeerId}
    {x : ConnId × PeerId} :
    x ∈ RemoteTable.waitingOf heap is
      ↔ x.2 ∈ is ∧ (heap x.2).sock = some x.1 := by
  obtain ⟨c, i⟩ := x
  simp only [RemoteTable.waitingOf, List.mem_filterMap, Option.map_eq_some_iff,
    Prod.mk.injEq]
  constructor
  · rintro ⟨j, hj, c', hc', rfl, rfl⟩; exact ⟨hj, hc'⟩
  · rintro ⟨hi, hc⟩; exact ⟨i, hi, c, hc, rfl, rfl⟩

/-- `_drain` reads every body. -/
theorem drain_spec (hnd : (todo.map Prod.fst).Nodup)
    (hT : w.table.timeout = T)
    (hD : ∀ s ∈ todo, (w.heap s.1).deadline = some D)
    (h : ∀ s ∈ todo, Reading geo T k ids s w) :
    Runs (RemoteTable.drain (todo.map Prod.fst) D) w
      (fun _ w' => Step (peersOf todo) w w' ∧
        (∀ s ∈ todo, Answered geo T k ids s w') ∧
        drawn w'.tr = drawn w.tr)
      (fun e w' => Undrained geo T D k ids todo w e w') := by
  unfold RemoteTable.drain
  simp only [runs_bind, runs_get, List.map_map]
  refine drainLoop_spec hnd hT hD _ _ w ⟨.refl w _, rfl, ?_, ?_⟩ ?_
  · intro x hx
    obtain ⟨hm, hsock⟩ := mem_waitingOf.mp hx
    obtain ⟨s, hs, heq⟩ := List.mem_map.mp hm
    exact ⟨s, hs, heq, by rw [heq]; exact hsock, h s hs⟩
  · intro s hs
    obtain ⟨c, hon⟩ := (h s hs).on
    exact .inr ⟨c, hon.sock, mem_waitingOf.mpr
      ⟨List.mem_map_of_mem hs, hon.sock⟩⟩
  · refine Nat.lt_succ_of_le (List.sum_le_sum fun s _ => ?_)
    simp only [Function.comp_apply]
    omega

end Drain

end PleRowServer.Client
