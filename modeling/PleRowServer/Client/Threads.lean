/-
Several threads on one table. `gather_cpu` takes its output view and
makes its check before it has the table lock; every other call does
everything under it. So a call is one step or two, and any number of
threads interleave these steps.

# Fail-stop

A check made before the lock is taken may be out of date once it is. A
gather that entered an unmarked table runs under the lock whatever
happened to the table in between: on sockets that a failed call left out
of sync, or on none, which it then opens again. Nothing else can touch a
peer of a marked table, so this is the only way (`fail_stop`).
-/
import PleRowServer.Client.Usage

namespace PleRowServer.Client

open Base Wire
open RemoteTable (Config)

variable {env : Env} {w w' w'' : World env} {ids : List Int}
  {is : List PeerId} {α : Type}

-- ================================================================ threads

/-- What a thread does of a call in one step. -/
inductive Part
  /-- `gather_cpu` up to the table lock -/
  | enter (ids : List Int)
  /-- `gather_cpu` under it -/
  | locked
  | ping
  | stat
  | close
deriving DecidableEq, Repr

/-- A table in use by several threads, and what each of them has entered:
the ids of a gather and the view it will return. -/
structure Threads (env : Env) where
  world : World env
  entered : Nat → Option (List Int × View)

/-- The threads before their first call. -/
def Threads.start (w : World env) : Threads env := ⟨w, fun _ => none⟩

namespace Threads

/-- Thread `t` runs `m`. If `m` returns, `f` says what the thread has
entered, and if not it has entered nothing. -/
def after (s : Threads env) (t : Nat) (m : M env α)
    (f : α → Option (List Int × View)) : Outcome × Threads env :=
  match m s.world with
  | .ok a w => (.returned, ⟨w, Function.update s.entered t (f a)⟩)
  | .error e w => (.raised e, ⟨w, Function.update s.entered t none⟩)

/-- One step of thread `t`; `none` where the thread is not at it. -/
def step (s : Threads env) (t : Nat) (p : Part) :
    Option (Outcome × Threads env) :=
  match p, s.entered t with
  | .enter ids, none =>
      some (s.after t (RemoteTable.gatherEnter ids) fun out =>
        if ids = [] then none else some (ids, out))
  | .locked, some (ids, _) =>
      some (s.after t (RemoteTable.gatherLocked ids) fun _ => none)
  | .ping, none => some (s.after t RemoteTable.ping fun _ => none)
  | .stat, none => some (s.after t RemoteTable.stat fun _ => none)
  | .close, none => some (s.after t RemoteTable.close fun _ => none)
  | _, _ => none

variable {s s' s'' : Threads env} {t : Nat} {p : Part} {o : Outcome}
  {l : List (Part × Outcome)}

/-- What is known of a program is known of a step that runs it. -/
theorem after_spec {m : M env α} {f : α → Option (List Int × View)}
    {Q : α → World env → Prop} {E : Exn → World env → Prop}
    (h : Runs m s.world Q E) (ha : s.after t m f = (o, s')) :
    (∃ a, o = .returned ∧ Q a s'.world ∧
        s'.entered = Function.update s.entered t (f a)) ∨
      ∃ e, o = .raised e ∧ E e s'.world ∧
        s'.entered = Function.update s.entered t none := by
  unfold after at ha
  unfold Runs at h
  split at ha
  case h_1 a v he =>
    rw [he] at h
    obtain ⟨rfl, rfl⟩ := Prod.mk.inj ha
    exact .inl ⟨a, rfl, h, rfl⟩
  case h_2 e v he =>
    rw [he] at h
    obtain ⟨rfl, rfl⟩ := Prod.mk.inj ha
    exact .inr ⟨e, rfl, h, rfl⟩

/-- The runs from `s` whose steps `ok` admits, with how each step
ended. -/
inductive Run (ok : Threads env → Nat → Part → Outcome → Threads env → Prop)
    (s : Threads env) : List (Part × Outcome) → Threads env → Prop
  | refl : Run ok s [] s
  | snoc {s' s'' : Threads env} {t : Nat} {p : Part} {o : Outcome}
      {l : List (Part × Outcome)} : Run ok s l s' →
      s'.step t p = some (o, s'') → ok s' t p o s'' →
      Run ok s (l ++ [(p, o)]) s''

/-- The run rule: what every step admitted keeps holds after a run. -/
theorem Run.induct {ok} {I : Threads env → Prop} (h : Run ok s l s')
    (h₀ : I s) (hstep : ∀ s s' t p o, I s → s.step t p = some (o, s') →
      ok s t p o s' → I s') : I s' := by
  induction h with
  | refl => exact h₀
  | snoc _ hs hok ih => exact hstep _ _ _ _ _ ih hs hok

end Threads

-- ============================================================== fail-stop

/-- Traffic with a peer: a connection to it, bytes to it, bytes from
it. -/
def Ev.Traffic : Ev → Prop
  | .connect _ _ _ _ | .send _ _ _ | .recv _ _ _ => True
  | _ => False

/-- From `w` to `w'` there was no traffic, and the table is marked as it
was. -/
structure Still (w w' : World env) : Prop where
  failed : w'.table.failed = w.table.failed
  quiet : ∃ evs, w'.tr = w.tr ++ evs ∧ ∀ ev ∈ evs, ¬ ev.Traffic

theorem Still.refl (w : World env) : Still w w := ⟨rfl, [], by simp, by simp⟩

theorem Still.trans (h : Still w w') (h' : Still w' w'') : Still w w'' := by
  obtain ⟨hf, evs, htr, hq⟩ := h
  obtain ⟨hf', evs', htr', hq'⟩ := h'
  refine ⟨hf'.trans hf, evs ++ evs', by rw [htr', htr, List.append_assoc], ?_⟩
  intro ev hev
  rcases List.mem_append.mp hev with hev | hev
  · exact hq ev hev
  · exact hq' ev hev

theorem Still.push {ev : Ev} {he} (h : ¬ ev.Traffic) :
    Still w (w.push ev he) := by
  refine ⟨rfl, [ev], rfl, fun ev' hev => ?_⟩
  rw [List.mem_singleton.mp hev]
  exact h

theorem Still.called (w : World env) : Still w w.called :=
  .push (by simp [Ev.Traffic])

theorem Still.raise {e : Exn} {he} (h : Still w w') :
    Still w (w'.push (.raised e) he) :=
  h.trans (.push (by simp [Ev.Traffic]))

theorem Entered.still {out : View} {n : Nat} (h : Entered w out n w') :
    Still w w' := ⟨h.failed, [], by rw [h.tr, List.append_nil], by simp⟩

/-- `_check_usable` refuses a marked table. -/
theorem checkUsable_marked (hf : w.table.failed ≠ none) :
    Runs RemoteTable.checkUsable w (fun _ _ => False)
      (fun _ w' => Still w w') := by
  refine checkUsable_spec.mono ?_ ?_
  · intro _ w' h
    exact hf h.2
  · intro e w' h
    obtain ⟨-, rfl⟩ := h
    exact (Still.refl w).raise

/-- `_Peer.close` is no traffic. -/
theorem close_still {i : PeerId} {abort : Bool} (h : Still w w')
    {E : Exn → World env → Prop} :
    Runs (Peer.close i abort) w' (fun _ w'' => Still w w'') E := by
  unfold Peer.close
  simp only [runs_bind, runs_peer, runs_modifyPeer]
  have hset : Still w (w'.setPeer i
      { w'.heap i with sock := none, pending := none }) :=
    ⟨h.failed, h.quiet⟩
  cases (w'.heap i).sock with
  | none => exact hset
  | some c => exact hset.trans (.push (by simp [Ev.Traffic]))

/-- `close` is no traffic, and marks the table. -/
theorem closeAll_still {E : Exn → World env → Prop} :
    Runs RemoteTable.close w (fun _ w' => w'.table.failed ≠ none ∧
      ∃ v, Still w v ∧ w'.tr = v.tr) E := by
  unfold RemoteTable.close
  simp only [runs_bind, runs_mark, runs_self]
  refine Runs.mono (Runs.forEach (fun _ _ _ h => close_still h) w.called
    (Still.called w)) ?_ (fun _ _ h => h)
  intro _ v hv
  simp only [runs_modifySelf]
  refine ⟨?_, v, hv, rfl⟩
  show v.table.failed.or (some "closed") ≠ none
  cases v.table.failed <;> simp

/-- The ids are not for this table: the share of some peer is over
max_rows, or the peers' ranges do not have every id. -/
def Unrouted (ids : List Int) (w : World env) : Prop :=
  (∃ i ∈ w.table.peers,
      w.table.maxRows < ((w.ranges i).owned ids).length) ∨
    (routed w.ranges ids w.table.peers).length ≠ ids.length

/-- `_partition` finds out which, on any table. -/
theorem partitionLoop_still (ids : List Int) :
    ∀ (is : List PeerId) (at_ n : Nat) (w : World env),
      Runs (RemoteTable.partitionLoop ids is at_ n) w
        (fun r w' => Still w w' ∧ r = n + (routed w.ranges ids is).length ∧
          ∀ i ∈ is, (((w.ranges i).owned ids).length : Int)
            ≤ w.table.maxRows)
        (fun _ w' => Still w w') := by
  intro is
  induction is with
  | nil =>
      intro at_ n w
      exact ⟨.refl w, by simp [routed], by simp⟩
  | cons i is ih =>
      intro at_ n w
      unfold RemoteTable.partitionLoop
      simp only [runs_bind, runs_peer, runs_self,
        owned_eq (show (w.heap i).geometry = w.ranges i from rfl)]
      split
      case isTrue hover =>
        simp only [runs_bind, runs_self, runs_raise]
        exact (Still.refl w).raise
      case isFalse hfit =>
        simp only [runs_bind]
        refine (ih (at_ + 1) _ (w.withSel (w.table.sel.set at_
          ((w.ranges i).owned ids)))).mono ?_ ?_
        · intro r v h
          obtain ⟨hv, rfl, hmax⟩ := h
          refine ⟨⟨hv.failed, hv.quiet⟩, ?_, ?_⟩
          · simp only [routed, List.map_cons, List.flatten_cons,
              List.length_append, Nat.add_assoc]
            rfl
          · intro j hj
            rcases List.mem_cons.mp hj with rfl | hj
            · exact not_lt.mp hfit
            · exact hmax j hj
        · intro e v h
          exact ⟨h.failed, h.quiet⟩

/-- A gather of ids that are not for the table raises under the lock
before it is of any consequence to a peer. -/
theorem gatherLocked_unrouted (h : Unrouted ids w) :
    Runs (RemoteTable.gatherLocked ids) w (fun _ _ => False)
      (fun _ w' => Still w w') := by
  unfold RemoteTable.gatherLocked RemoteTable.partition
  simp only [runs_bind, runs_mark, runs_self]
  refine (partitionLoop_still ids w.table.peers 0 0 w.called).mono ?_ ?_
  · intro r v hv
    obtain ⟨hv, rfl, hmax⟩ := hv
    rw [Nat.zero_add, if_pos]
    · unfold RemoteTable.raiseUnroutable
      simp only [runs_bind, runs_self, runs_raise]
      exact ((Still.called w).trans hv).raise
    · rcases h with ⟨i, hi, hover⟩ | hroute
      · exact absurd (hmax i hi) (not_le.mpr hover)
      · exact hroute
  · intro e v hv
    exact (Still.called w).trans hv

namespace Threads

variable {s s' s'' : Threads env} {t : Nat} {p : Part} {o : Outcome}
  {l : List (Part × Outcome)}

/-- What fail-stop asks of a run: the table stays marked, there is no
traffic, and every gather, ping and stat of it raises. -/
structure Stopped (s : Threads env) (l : List (Part × Outcome))
    (s' : Threads env) : Prop where
  marked : s'.world.table.failed ≠ none
  quiet : ∃ evs, s'.world.tr = s.world.tr ++ evs ∧ ∀ ev ∈ evs, ¬ ev.Traffic
  raises : ∀ p o, (p, o) ∈ l → p ≠ .close → p ≠ .enter [] →
    ∃ e, o = .raised e

/-- A gather takes the lock of a marked table only for ids that are not
for it. -/
def Barrier (s : Threads env) (t : Nat) (p : Part) (_ : Outcome)
    (_ : Threads env) : Prop :=
  p = .locked → s.world.table.failed ≠ none →
    ∀ ids out, s.entered t = some (ids, out) → Unrouted ids s.world

theorem Stopped.single (hf : s'.world.table.failed ≠ none)
    (h : Still s.world w) (htr : s'.world.tr = w.tr)
    (hr : p ≠ .close → p ≠ .enter [] → ∃ e, o = .raised e) :
    Stopped s [(p, o)] s' := by
  refine ⟨hf, by rw [htr]; exact h.quiet, fun p' o' hp => ?_⟩
  obtain ⟨rfl, rfl⟩ := Prod.mk.inj (List.mem_singleton.mp hp)
  exact hr

/-- A step that raises without traffic. -/
theorem Stopped.refused (hf : s.world.table.failed ≠ none) {m : M env α}
    {f : α → Option (List Int × View)}
    (hm : Runs m s.world (fun _ _ => False) (fun _ w' => Still s.world w'))
    (ha : some (s.after t m f) = some (o, s')) : Stopped s [(p, o)] s' := by
  rcases after_spec hm (Option.some.inj ha) with
    ⟨a, -, hfalse, -⟩ | ⟨e, rfl, hv, -⟩
  · exact hfalse.elim
  · exact .single (by rw [hv.failed]; exact hf) hv rfl fun _ _ => ⟨e, rfl⟩

theorem Stopped.trans {l' : List (Part × Outcome)} (h : Stopped s l s')
    (h' : Stopped s' l' s'') : Stopped s (l ++ l') s'' := by
  obtain ⟨evs, htr, hq⟩ := h.quiet
  obtain ⟨evs', htr', hq'⟩ := h'.quiet
  refine ⟨h'.marked, ⟨evs ++ evs', by rw [htr', htr, List.append_assoc],
    ?_⟩, ?_⟩
  · intro ev hev
    exact (List.mem_append.mp hev).elim (hq ev) (hq' ev)
  · intro p o hpo
    exact (List.mem_append.mp hpo).elim (h.raises p o) (h'.raises p o)

/-- One step of any thread on a marked table. -/
theorem step_stopped (hf : s.world.table.failed ≠ none)
    (h : s.step t p = some (o, s')) (hb : Barrier s t p o s') :
    Stopped s [(p, o)] s' := by
  have hcheck : ∀ w, Still s.world w →
      Runs RemoteTable.checkUsable w (fun _ _ => False)
        (fun _ w' => Still s.world w') := fun w hw =>
    (checkUsable_marked (by rw [hw.failed]; exact hf)).mono
      (fun _ _ h => h) fun _ _ h => hw.trans h
  unfold step at h
  split at h
  case h_1 ids _ =>
    have hstage : Runs (RemoteTable.stagingFor ids.length) s.world _
        (fun _ _ => False) := stagingFor_spec ids.length
    by_cases hids : ids = []
    case neg =>
      refine .refused hf ?_ h
      unfold RemoteTable.gatherEnter
      refine hstage.bind (fun out v hv => ?_) fun _ _ h => h.elim
      rw [if_neg hids]
      exact (hcheck v hv.still).bind (fun _ _ h => h.elim) fun _ _ h => h
    -- an empty request is no gather: its view is all it gets
    have hrun : Runs (RemoteTable.gatherEnter ids) s.world
        (fun _ w' => Still s.world w') (fun _ _ => False) := by
      unfold RemoteTable.gatherEnter
      refine hstage.bind (fun out v hv => ?_) fun _ _ h => h
      rw [if_pos hids]
      exact hv.still
    rcases after_spec hrun (Option.some.inj h) with
      ⟨a, -, hv, -⟩ | ⟨e, -, hfalse, -⟩
    · refine .single (by rw [hv.failed]; exact hf) hv rfl fun _ hne => ?_
      exact absurd (by rw [hids]) hne
    · exact hfalse.elim
  case h_2 ids out he =>
    exact .refused hf (gatherLocked_unrouted (hb rfl hf ids out he)) h
  case h_3 _ =>
    refine .refused hf ?_ h
    unfold RemoteTable.ping
    simp only [runs_bind, runs_mark]
    exact (hcheck _ (.called _)).mono (fun _ _ h => h.elim) fun _ _ h => h
  case h_4 _ =>
    refine .refused hf ?_ h
    unfold RemoteTable.stat
    simp only [runs_bind, runs_mark]
    exact (hcheck _ (.called _)).mono (fun _ _ h => h.elim) fun _ _ h => h
  case h_5 _ =>
    have hclose : Runs RemoteTable.close s.world _ (fun _ _ => False) :=
      closeAll_still
    rcases after_spec hclose (Option.some.inj h) with
      ⟨a, -, hv, -⟩ | ⟨e, -, hfalse, -⟩
    · obtain ⟨hm, v, hstill, htr⟩ := hv
      exact .single hm hstill htr fun hne => absurd rfl hne
    · exact hfalse.elim
  case h_6 => cases h

/-- Once the table is marked, by whichever call, no step of any thread
is any traffic and every gather, ping and stat raises, as long as no
gather that entered before the mark takes the lock with ids that are for
the table. -/
theorem fail_stop (hf : s.world.table.failed ≠ none)
    (h : Run Barrier s l s') : Stopped s l s' := by
  induction h with
  | refl => exact ⟨hf, ⟨[], by simp, by simp⟩, by simp⟩
  | snoc _ hstep hb ih => exact ih.trans (step_stopped ih.marked hstep hb)

/-- The state a step leads to. -/
def next (s : Threads env) (t : Nat) (p : Part) : Threads env :=
  match s.step t p with
  | some (_, s') => s'
  | none => s

theorem step_next (h : (s.step t p).map Prod.fst = some o) :
    s.step t p = some (o, s.next t p) := by
  unfold next
  cases hs : s.step t p with
  | none => rw [hs] at h; cases h
  | some r =>
      rw [hs] at h
      obtain rfl := Option.some.inj h
      rfl

/-- Every step. -/
def Any (_ : Threads env) (_ : Nat) (_ : Part) (_ : Outcome)
    (_ : Threads env) : Prop := True

/-- Thread 0 enters a gather of an id that is no row of the pair, and
thread 1 closes the table. -/
def shut : Threads pairEnv :=
  ((start paired).next 0 (.enter [7])).next 1 .close

/-- Thread 0 gets its IndexError, and thread 1 is refused a ping. -/
theorem fail_stop_shut : shut.world.table.failed ≠ none ∧
    Run Barrier shut [(.locked, .raised (.unroutable 1 2 7 0)),
        (.ping, .raised (.unusable "closed"))]
      ((shut.next 0 .locked).next 1 .ping) ∧
    Stopped shut [(.locked, .raised (.unroutable 1 2 7 0)),
        (.ping, .raised (.unusable "closed"))]
      ((shut.next 0 .locked).next 1 .ping) := by
  have hf : shut.world.table.failed ≠ none := by decide +kernel
  have hbar : Barrier shut 0 .locked (.raised (.unroutable 1 2 7 0))
      (shut.next 0 .locked) := by
    intro _ _ ids out he
    have hids : (shut.entered 0).map Prod.fst = some [7] := by decide +kernel
    rw [he] at hids
    obtain rfl : ids = [7] := Option.some.inj hids
    exact .inr (by decide +kernel)
  have hrun : Run Barrier shut [(.locked, .raised (.unroutable 1 2 7 0)),
        (.ping, .raised (.unusable "closed"))]
      ((shut.next 0 .locked).next 1 .ping) :=
    .snoc (.snoc .refl (step_next (by decide +kernel)) hbar)
      (step_next (by decide +kernel)) fun hp => by cases hp
  exact ⟨hf, hrun, fail_stop hf hrun⟩

/-- Thread 0 enters a gather of the pair's first row, and thread 1 closes
the table before thread 0 has the lock. -/
def overtaken : Threads pairEnv :=
  ((start paired).next 0 (.enter [0])).next 1 .close

/-- The gather then opens a closed table again, and returns. -/
theorem fail_stop_overtaken :
    ¬ ∀ (l₀ l : List (Part × Outcome)) (s s' : Threads pairEnv),
      Run Any (start paired) l₀ s → s.world.table.failed ≠ none →
      Run Any s l s' → Stopped s l s' := by
  intro h
  have hrun : Run Any (start paired)
      [(.enter [0], .returned), (.close, .returned)] overtaken :=
    .snoc (.snoc .refl (step_next (by decide +kernel)) trivial)
      (step_next (by decide +kernel)) trivial
  have hf : overtaken.world.table.failed ≠ none := by decide +kernel
  have hgather : Run Any overtaken [(.locked, .returned)]
      (overtaken.next 0 .locked) :=
    .snoc .refl (step_next (by decide +kernel)) trivial
  obtain ⟨e, he⟩ := (h _ _ _ _ hrun hf hgather).raises .locked .returned
    (by simp) (by simp) (by simp)
  cases he

end Threads

end PleRowServer.Client
