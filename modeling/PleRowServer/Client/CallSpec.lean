/-
What the public calls do to a built table, each with both exits. A
table is `Good` if, as long as it is not marked, every peer is settled;
every call keeps that unless it is interrupted.
-/
import PleRowServer.Client.GatherSpec

namespace PleRowServer.Client

open Base Wire

variable {env : Env} {geo : PeerId → Geometry} {w w' w'' : World env}
  {T : ℚ} {ids : List Int} {i : PeerId} {e : Exn} {is : List PeerId}

/-- A sound table, in sync unless it is marked. -/
structure Good (geo : PeerId → Geometry) (T : ℚ) (w : World env) :
    Prop where
  sound : Sound geo T w
  synced : w.table.failed = none → Synced geo w

-- =============================================================== gather

/-- The state in which `gather_cpu` holds its output view: nothing has
happened but, at most, a larger staging. -/
structure Entered (w : World env) (out : View) (n : Nat) (v : World env) :
    Prop where
  hist : v.hist = w.hist
  heap : v.heap = w.heap
  setup : v.table.setup = w.table.setup
  reqId : v.table.reqId = w.table.reqId
  sel : v.table.sel = w.table.sel
  failed : v.table.failed = w.table.failed
  rows : out.n = n
  staging : v.table.staging = some out.buf
  handle : w.table.stagingNp = w.table.staging →
    v.table.stagingNp = some out.buf

section Entering

variable {out : View} {n : Nat}

/-- Entering is no entry of the history. -/
theorem Entered.tr (h : Entered w out n w') : w'.tr = w.tr := by
  unfold World.tr
  rw [h.hist]

/-- Entered or not, a call's history begins the same. -/
theorem Entered.called_tr (h : Entered w out n w') :
    w'.called.tr = w.called.tr := by
  rw [World.called, World.called, World.push_tr, World.push_tr, h.tr]

/-- Entered or not, its gather is due at the same time. -/
theorem Entered.due (h : Entered w out n w') : w'.due = w.due := by
  unfold World.due
  rw [h.called_tr, setup_gatherDeadline h.setup]

/-- Entering moves no line. -/
theorem Entered.line (h : Entered w out n w') (i : PeerId) :
    w'.line geo i = w.line geo i := line_of_tr h.tr i

/-- A sound table stays sound. -/
theorem Entered.sound (h : Entered w out n w') (hs : Sound geo T w) :
    Sound geo T w' := by
  refine hs.keep h.setup (by rw [h.sel]) ?_ (fun i => by rw [h.heap])
    (fun i => (hs.linked i).congr (by rw [h.heap]) (h.line i))
    (fun i => by rw [h.heap]; exact hs.roomy i)
    (fun i => by rw [h.heap]; exact hs.deadline i)
  rw [h.handle hs.handle, h.staging]

/-- Peers in sync stay in sync. -/
theorem Entered.synced (h : Entered w out n w') (hs : Synced geo w) :
    Synced geo w' := by
  intro i hi
  rw [setup_peers h.setup] at hi
  exact (hs i hi).congr (by rw [h.heap]) (by rw [h.line])

/-- A good table stays good. -/
theorem Entered.good (h : Entered w out n w') (hg : Good geo T w) :
    Good geo T w' :=
  ⟨h.sound hg.sound, fun hf => h.synced (hg.synced (h.failed ▸ hf))⟩

/-- Peers fit for the gather stay fit. -/
theorem Entered.fit (h : Entered w out n w') (hf : Fit geo ids w) :
    Fit geo ids w' := by
  have hp := setup_peers h.setup
  refine ⟨?_, ?_⟩
  · rw [hp]; intro s hs; rw [h.line]; exact hf.idle s hs
  · rw [hp, h.heap]; exact hf.stale

/-- `_staging_for` keeps the staging or replaces it by a larger one. -/
theorem stagingFor_spec (n : Nat) {E : Exn → World env → Prop} :
    Runs (RemoteTable.stagingFor n) w
      (fun out v => Entered w out n v) E := by
  unfold RemoteTable.stagingFor
  simp only [runs_bind, runs_get]
  cases hm : w.table.staging with
  | none =>
      simp only [runs_bind, runs_modify, runs_pure]
      exact ⟨rfl, rfl, rfl, rfl, rfl, rfl, rfl, rfl, fun _ => rfl⟩
  | some m =>
      simp only
      split
      · simp only [runs_bind, runs_modify, runs_pure]
        exact ⟨rfl, rfl, rfl, rfl, rfl, rfl, rfl, rfl, fun _ => rfl⟩
      · exact ⟨rfl, rfl, rfl, rfl, rfl, rfl, rfl, hm, fun h => h.trans hm⟩

/-- `_check_usable` lets an unmarked table through. -/
theorem checkUsable_spec :
    Runs RemoteTable.checkUsable w
      (fun _ w' => w' = w ∧ w.table.failed = none)
      (fun e w' => (∃ why, w.table.failed = some why ∧ e = .unusable why) ∧
        w' = w.push (.raised e) (env.produces_raised w.tr e)) := by
  unfold RemoteTable.checkUsable
  simp only [runs_bind, runs_self]
  cases hf : w.table.failed with
  | none => exact ⟨rfl, rfl⟩
  | some why => exact ⟨⟨why, rfl, rfl⟩, rfl⟩

/-- How `gather_cpu` is refused a marked table. -/
def Unusable (w : World env) (out : View) (n : Nat) (e : Exn)
    (w' : World env) : Prop :=
  ∃ v he why, Entered w out n v ∧ w.table.failed = some why ∧
    e = .unusable why ∧ w' = v.push (.raised e) he

/-- `gather_cpu`: an empty request returns at once, a marked table is
refused, and anything else is up to the locked half. -/
theorem gatherCpu_spec (hs : Sound geo T w)
    (hfit : w.table.failed = none → Fit geo ids w) :
    Runs (RemoteTable.gatherCpu ids) w
      (fun out w' => ∃ v, Entered w out ids.length v ∧
        (ids = [] ∧ w' = v ∨
          ids ≠ [] ∧ w.table.failed = none ∧ Gathered geo T ids v w'))
      (fun e w' => ids ≠ [] ∧ ∃ out,
        Unusable w out ids.length e w' ∨
        w.table.failed = none ∧ ∃ v, Entered w out ids.length v ∧
          (Declined geo T ids v e w' ∨ Wrecked geo T ids v e w')) := by
  unfold RemoteTable.gatherCpu RemoteTable.gatherEnter
  simp only [runs_bind]
  refine Runs.mono (stagingFor_spec ids.length (E := fun _ _ => False)) ?_
    (fun _ _ h => h.elim)
  rintro out v hv
  by_cases hids : ids = []
  case pos =>
    simp only [hids, if_true, runs_pure]
    exact ⟨v, hids ▸ hv, .inl ⟨trivial, rfl⟩⟩
  case neg =>
    simp only [hids, if_false, runs_bind]
    refine Runs.mono checkUsable_spec ?_ ?_
    case refine_2 =>
      rintro e w' ⟨⟨why, hf, rfl⟩, rfl⟩
      exact ⟨hids, out, .inl ⟨v, _, why, hv, hv.failed ▸ hf, rfl, rfl⟩⟩
    rintro _ _ ⟨rfl, hf⟩
    rw [hv.failed] at hf
    simp only [runs_pure]
    refine Runs.mono (gatherLocked_spec (hv.sound hs) hids
      (hv.fit (hfit hf))) ?_ ?_
    · intro _ w' hg
      exact ⟨_, hv, .inr ⟨hids, hf, hg⟩⟩
    · intro e w' he
      exact ⟨hids, out, .inr ⟨hf, _, hv, he⟩⟩

end Entering

end PleRowServer.Client
