/-
The view a gather returns, when threads interleave. `gather_cpu` takes
the view of the staging before it has the table lock, and under the lock
it writes to whatever the staging is by then. Another gather that enters
in between and asks for more rows than there is room for replaces the
staging, and the first one's rows go where its caller does not look.

The rows a gather writes are right all the same (`Gathered.read`), and
it writes to no other memory (`Gathered.rows`), so what decides is
whether the view is of the staging at that moment, and if it is not, what
it showed before (`views_filled`).
-/
import PleRowServer.Client.Live
import PleRowServer.Client.Threads

namespace PleRowServer.Client.Threads

open Base Wire
open RemoteTable (Config)

variable {env : Env} {w₀ w w' : World env} {ids : List Int} {T : ℚ}
  {cfg : Config} {s s' : Threads env} {t : Nat} {p : Part} {o : Outcome}
  {l : List (Part × Outcome)} {table : Nat → List UInt8} {out : View}
  {α : Type}

-- ==================================================== runs without faults

/-- A step without a fault: it ends in an Exception if in any, and marks
nothing. -/
def Faultless (_ : Threads env) (_ : Nat) (_ : Part) (o : Outcome)
    (s' : Threads env) : Prop := o.Ordinary ∧ s'.world.table.failed = none

/-- What holds between the steps of such a run: the table is in sync, and
every view is as long as its request. -/
structure Steady (w₀ : World env) (T : ℚ) (s : Threads env) : Prop where
  good : Good w₀.ranges T s.world
  setup : s.world.table.setup = w₀.table.setup
  entered : ∀ t ids out, s.entered t = some (ids, out) →
    ids ≠ [] ∧ out.n = ids.length

/-- Thread `t` has entered `r` since. -/
theorem Steady.update {r : Option (List Int × View)} (h : Steady w₀ T s)
    (hg : Good w₀.ranges T s'.world)
    (hset : s'.world.table.setup = s.world.table.setup)
    (he : s'.entered = Function.update s.entered t r)
    (hr : ∀ ids out, r = some (ids, out) → ids ≠ [] ∧ out.n = ids.length) :
    Steady w₀ T s' := by
  refine ⟨hg, hset.trans h.setup, fun t' ids out heq => ?_⟩
  rw [he] at heq
  by_cases ht : t' = t
  · subst ht
    rw [Function.update_self] at heq
    exact hr ids out heq
  · rw [Function.update_of_ne ht] at heq
    exact h.entered t' ids out heq

/-- A program that keeps the table good, run in one step, keeps the
threads steady. -/
theorem Steady.after {m : M env α} {f : α → Option (List Int × View)}
    (h : Steady w₀ T s)
    (hm : Runs m s.world (fun a w' => (w'.table.setup = s.world.table.setup ∧
        Good w₀.ranges T w') ∧
        ∀ ids out, f a = some (ids, out) → ids ≠ [] ∧ out.n = ids.length)
      (fun e w' => w'.table.setup = s.world.table.setup ∧
        (e.isException = true → Good w₀.ranges T w')))
    (ho : o.Ordinary) (ha : some (s.after t m f) = some (o, s')) :
    Steady w₀ T s' := by
  rcases after_spec hm (Option.some.inj ha) with
    ⟨a, rfl, ⟨⟨hset, hg⟩, hf⟩, hent⟩ | ⟨e, rfl, ⟨hset, hg⟩, hent⟩
  · exact h.update hg hset hent hf
  · exact h.update (hg ho) hset hent fun _ _ he => by cases he

/-- One step on an unmarked table. -/
theorem Steady.step (h : Steady w₀ T s) (hf : s.world.table.failed = none)
    (hs : s.step t p = some (o, s')) (ho : o.Ordinary) :
    Steady w₀ T s' := by
  unfold Threads.step at hs
  split at hs
  case h_1 ids _ =>
    refine h.after ?_ ho hs
    unfold RemoteTable.gatherEnter
    have hstage : Runs (RemoteTable.stagingFor ids.length) s.world _
        (fun _ _ => False) := stagingFor_spec ids.length
    refine hstage.bind ?_ fun _ _ h => h.elim
    intro out v hv
    have hgood : v.table.setup = s.world.table.setup ∧ Good w₀.ranges T v :=
      ⟨hv.setup, hv.good h.good⟩
    by_cases hids : ids = []
    · rw [if_pos hids]
      refine ⟨hgood, fun ids' out' he => ?_⟩
      rw [if_pos hids] at he
      cases he
    · rw [if_neg hids]
      refine Runs.bind checkUsable_spec ?_ ?_
      · intro _ v' hv'
        rw [hv'.1]
        refine ⟨hgood, fun ids' out' he => ?_⟩
        rw [if_neg hids] at he
        obtain ⟨rfl, rfl⟩ := Prod.mk.inj (Option.some.inj he)
        exact ⟨hids, hv.rows⟩
      · intro e v' hv'
        obtain ⟨⟨why, hmark, -⟩, -⟩ := hv'
        rw [hv.failed, hf] at hmark
        cases hmark
  case h_2 ids out he =>
    refine h.after ?_ ho hs
    refine (gatherLocked_spec h.good.sound (h.entered t ids out he).1
      (h.good.synced hf).fit).mono ?_ ?_
    · intro _ v hv
      obtain ⟨hl, hg⟩ := hv.left h.good
      exact ⟨⟨hl.setup, hg⟩, fun _ _ he => by cases he⟩
    · intro e v hv
      obtain ⟨hl, hg⟩ := hv.elim (·.ends h.good) (·.ends)
      exact ⟨hl.setup, hg⟩
  case h_3 _ =>
    refine h.after ((ping_spec h.good).mono ?_ ?_) ho hs
    · rintro _ v ⟨hv, -⟩
      exact ⟨⟨hv.1.setup, hv.2⟩, fun _ _ he => by cases he⟩
    · rintro e v ⟨hv, -⟩
      exact ⟨hv.1.setup, hv.2⟩
  case h_4 _ =>
    refine h.after ((stat_spec h.good).mono ?_ ?_) ho hs
    · rintro _ v ⟨hv, -⟩
      exact ⟨⟨hv.1.setup, hv.2⟩, fun _ _ he => by cases he⟩
    · rintro e v ⟨hv, -⟩
      exact ⟨hv.1.setup, hv.2⟩
  case h_5 _ =>
    have hclose : Runs RemoteTable.close s.world _ (fun _ _ => False) :=
      closeAll_spec h.good.sound
    refine h.after (hclose.mono ?_ fun _ _ h => h.elim) ho hs
    intro _ v hv
    exact ⟨⟨hv.1.setup, hv.1.marked hv.2⟩, fun _ _ he => by cases he⟩
  case h_6 => cases hs

/-- A run without faults. -/
theorem Run.steady (hc : Constructed env cfg w₀)
    (h : Run Faultless (start w₀) l s) :
    Steady w₀ cfg.timeout s ∧ s.world.table.failed = none := by
  obtain ⟨hg, hf⟩ := hc.good
  refine h.induct (I := fun s => Steady w₀ cfg.timeout s ∧
    s.world.table.failed = none)
    ⟨⟨hg, rfl, fun _ _ _ he => by cases he⟩, hf⟩ ?_
  intro s s' t p o hs hstep hok
  exact ⟨hs.1.step hs.2 hstep hok.1, hok.2⟩

-- ================================================================== views

/-- A gather under the lock writes to no memory but the staging. -/
theorem Gathered.unseen {geo : PeerId → Geometry}
    (h : Gathered geo T ids w w') {v : View}
    (hv : w.table.staging ≠ some v.buf) : v.read w' = v.read w := by
  obtain ⟨m, hm, hother, -⟩ := h.rows
  have hne : v.buf ≠ m := fun he => hv (by rw [hm, he])
  unfold View.read
  rw [hother v.buf hne]

/-- A gather that returns from the lock, in a run of a deployment without
faults. -/
theorem locked_view (d : Deployment table cfg.peers.length)
    (hc : Constructed env cfg w₀) (hd : d.Behind env)
    (h : Run Faultless (start w₀) l s)
    (he : s.entered t = some (ids, out))
    (hs : s.step t .locked = some (.returned, s')) :
    (s.world.table.staging = some out.buf →
        out.read s'.world = ids.map (fun id => table id.toNat)) ∧
      (s.world.table.staging ≠ some out.buf →
        out.read s'.world = out.read s.world) := by
  obtain ⟨hst, hf⟩ := h.steady hc
  obtain ⟨hids, hn⟩ := hst.entered t ids out he
  have hspec : Runs (RemoteTable.gatherLocked ids) s.world _ _ :=
    gatherLocked_spec hst.good.sound hids (hst.good.synced hf).fit
  unfold Threads.step at hs
  rw [he] at hs
  rcases after_spec hspec (Option.some.inj hs) with
    ⟨_, -, hg, -⟩ | ⟨e, ho, -⟩
  · refine ⟨fun hstag => ?_, fun hne => Gathered.unseen hg hne⟩
    exact (hg.read hc hd hst.good.sound hst.setup hstag hn).1
  · cases ho

/-- Over a deployment, whichever threads' gathers interleave, as long as
no fault marks the table: when a gather's part under the lock ends, the
view it will return shows the rows of its own ids exactly if that view is
of the table's staging of the moment, or showed these rows already. -/
theorem views_filled (d : Deployment table cfg.peers.length)
    (hc : Constructed env cfg w₀) (hd : d.Behind env)
    (h : Run Faultless (start w₀) l s)
    (he : s.entered t = some (ids, out))
    (hs : s.step t .locked = some (.returned, s')) :
    out.read s'.world = ids.map (fun id => table id.toNat) ↔
      s.world.table.staging = some out.buf ∨
        out.read s.world = ids.map (fun id => table id.toNat) := by
  obtain ⟨hin, hout⟩ := locked_view d hc hd h he hs
  by_cases hstag : s.world.table.staging = some out.buf
  · exact ⟨fun _ => .inl hstag, fun _ => hin hstag⟩
  · rw [hout hstag]
    exact ⟨.inr, fun h => h.resolve_left hstag⟩

/-- Thread 0 enters a gather of row 1 of the pair, and thread 1 one of
row 0. -/
def sharing : Threads pairEnv :=
  ((start paired).next 0 (.enter [1])).next 1 (.enter [0])

theorem views_filled_pair :
    sharing.world.table.staging = some 0 ∧
      ((View.mk 0 1).read (sharing.next 0 .locked).world
          = [(1 : Int)].map (fun id => pairTable id.toNat) ↔
        sharing.world.table.staging = some 0 ∨
          (View.mk 0 1).read sharing.world
            = [(1 : Int)].map (fun id => pairTable id.toNat)) := by
  have hrun : Run Faultless (start paired)
      [(.enter [1], .returned), (.enter [0], .returned)] sharing :=
    .snoc (.snoc .refl (step_next (by decide +kernel))
        ⟨trivial, by decide +kernel⟩)
      (step_next (by decide +kernel)) ⟨trivial, by decide +kernel⟩
  exact ⟨by decide +kernel, views_filled pairDeployment paired_constructed
    pair_serves.behind hrun (by decide +kernel)
    (step_next (by decide +kernel))⟩

/-- Thread 0 enters a gather of row 0 of the pair, and thread 1 one of
more rows than there is room for. -/
def outgrown : Threads pairEnv :=
  ((start paired).next 0 (.enter [0])).next 1
    (.enter (List.replicate 4097 0))

/-- Thread 0 gets memory that was never written. -/
theorem views_filled_outgrown :
    ¬ ∀ (l : List (Part × Outcome)) (s s' : Threads pairEnv) (t : Nat)
        (ids : List Int) (out : View),
      Run Faultless (start paired) l s → s.entered t = some (ids, out) →
      s.step t .locked = some (.returned, s') →
      out.read s'.world = ids.map (fun id => pairTable id.toNat) := by
  intro h
  have hrun : Run Faultless (start paired) [(.enter [0], .returned),
      (.enter (List.replicate 4097 0), .returned)] outgrown :=
    .snoc (.snoc .refl (step_next (by decide +kernel))
        ⟨trivial, by decide +kernel⟩)
      (step_next (by decide +kernel)) ⟨trivial, by decide +kernel⟩
  have he : outgrown.entered 0 = some ([0], ⟨0, 1⟩) := by decide +kernel
  have hs : outgrown.step 0 .locked
      = some (.returned, outgrown.next 0 .locked) :=
    step_next (by decide +kernel)
  have hne : outgrown.world.table.staging ≠ some 0 := by decide +kernel
  have hrows := h _ _ _ _ _ _ hrun he hs
  obtain ⟨-, hout⟩ := locked_view pairDeployment paired_constructed
    pair_serves.behind hrun he hs
  rw [hout hne] at hrows
  have hfirst : ((outgrown.world.bufs 0).row 0).head? = some 0 := by
    decide +kernel
  have hrow : (outgrown.world.bufs 0).row 0 = pairTable 0 :=
    (List.cons.inj hrows).1
  rw [hrow] at hfirst
  cases hfirst

end PleRowServer.Client.Threads
