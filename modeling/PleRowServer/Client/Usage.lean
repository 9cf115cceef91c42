/-
A constructed table used by one thread: the public calls as one kind of
step, and the states a sequence of them can reach. Which exceptions a
step may end in is a parameter: everything that only an interrupt can
break is stated for `Exn.isException`.
-/
import PleRowServer.Client.InitSpec

namespace PleRowServer.Client

open Base Wire
open RemoteTable (Config initial)

variable {env : Env} {geo : PeerId → Geometry} {w w₀ w' w'' : World env}
  {T : ℚ} {ids : List Int} {cfg : Config} {i : PeerId} {e : Exn}

-- ================================================================= calls

/-- A public call of the table. -/
inductive Op
  | gatherCpu (ids : List Int)
  | gather (ids : List Int) (out : Option Nat)
  | readRows (start count chunkRows : Int)
  | ping
  | stat
  | close
deriving DecidableEq, Repr

/-- The call, its result aside. -/
def Op.run : Op → M env Unit
  | .gatherCpu ids => do let _ ← RemoteTable.gatherCpu ids
  | .gather ids out => do let _ ← RemoteTable.gather ids out
  | .readRows start count chunkRows => do
      let _ ← RemoteTable.readRowsContiguous start count chunkRows
  | .ping => RemoteTable.ping
  | .stat => do let _ ← RemoteTable.stat
  | .close => RemoteTable.close

/-- How a call ends. -/
inductive Outcome
  | returned
  | raised (e : Exn)
deriving DecidableEq

/-- The call takes `w` to `w'` and ends so. -/
def Op.Takes (op : Op) (w : World env) : Outcome → World env → Prop
  | .returned, w' => op.run w = .ok () w'
  | .raised e, w' => op.run w = .error e w'

/-- How the call ends from `w`. -/
def Op.ends (op : Op) (w : World env) : Outcome :=
  match op.run w with
  | .ok _ _ => .returned
  | .error e _ => .raised e

/-- A call takes a state to where it ends. -/
theorem Op.takes_ends (op : Op) (w : World env) :
    op.Takes w (op.ends w) (returned op.run w) := by
  unfold Op.ends returned
  cases h : op.run w with
  | ok x w' => exact h
  | error e w' => exact h

/-- A specification of a call is one of every step it takes. -/
theorem Op.takes_spec {op : Op} {Q : Unit → World env → Prop}
    {E : Exn → World env → Prop} (h : Runs op.run w Q E) :
    (∀ w', op.Takes w .returned w' → Q () w') ∧
      ∀ e w', op.Takes w (.raised e) w' → E e w' := by
  unfold Runs at h
  refine ⟨fun w' hw => ?_, fun e w' hw => ?_⟩
  · rw [show op.run w = .ok () w' from hw] at h
    exact h
  · rw [show op.run w = .error e w' from hw] at h
    exact h

/-- A call that ended without an interrupt. -/
def Outcome.Ordinary : Outcome → Prop
  | .returned => True
  | .raised e => e.isException = true

/-- The states reached from `w₀` by calls whose outcomes `ok` admits. -/
inductive Used (ok : Outcome → Prop) (w₀ : World env) : World env → Prop
  | refl : Used ok w₀ w₀
  | call {w w' : World env} {op : Op} {o : Outcome} : Used ok w₀ w →
      op.Takes w o w' → ok o → Used ok w₀ w'

/-- What every call keeps holds in every state reached. -/
theorem Used.induct {ok : Outcome → Prop} {I : World env → Prop}
    (h : Used ok w₀ w) (h₀ : I w₀)
    (hstep : ∀ (op : Op) (o : Outcome) (v v' : World env), I v →
      op.Takes v o v' → ok o → I v') : I w := by
  induction h with
  | refl => exact h₀
  | call _ hop hok ih => exact hstep _ _ _ _ ih hop hok

-- ================================================= every call keeps Good

/-- Raised after a call whose work was done: the table is as it was. -/
theorem Left.raise (h : Left geo T w w') (hg : Good geo T w') (e : Exn)
    (he) : Ends geo T w e (w'.push (.raised e) he) := by
  have hl : ∀ i, (w'.push (.raised e) he).line geo i = w'.line geo i :=
    fun i => line_raise e he i
  have hs : Sound geo T (w'.push (.raised e) he) :=
    h.sound.keep rfl rfl h.sound.handle (fun _ => rfl)
      (fun i => (h.sound.linked i).congr rfl (hl i)) h.sound.roomy
      h.sound.deadline
  refine ⟨⟨hs, h.setup, fun i hi => by rw [hl]; exact h.others i hi⟩,
    fun _ => ⟨hs, fun hf i hi => ?_⟩⟩
  exact (hg.synced hf i hi).congr rfl (by rw [hl])

theorem Left.trans (h : Left geo T w w') (h' : Left geo T w' w'') :
    Left geo T w w'' :=
  ⟨h'.sound, h'.setup.trans h.setup, fun i hi =>
    (h'.others i (by rwa [setup_peers h.setup])).trans (h.others i hi)⟩

theorem Ends.after (h : Left geo T w w') (he : Ends geo T w' e w'') :
    Ends geo T w e w'' := ⟨h.trans he.1, he.2⟩

/-- What a gather does, it does to peers of the table. -/
theorem Called.left {evs : Trace}
    (h : Called (peersOf (shares geo ids w.table.peers)) evs w w')
    (hs : Sound geo T w') : Left geo T w w' := by
  refine ⟨hs, h.setup, fun i hi => h.phase fun hn => ?_⟩
  obtain ⟨s, hmem, rfl⟩ := hn
  exact hi (mem_shares.mp hmem).1

/-- The state `gather_cpu` holds its output view in. -/
theorem Entered.left {out : View} {n : Nat} (h : Entered w out n w')
    (hs : Sound geo T w) : Left geo T w w' :=
  ⟨h.sound hs, h.setup, fun i _ => by rw [h.line]⟩

/-- A gather that returned keeps the table in sync: the peers it asked
are answered, and it touched no other. -/
theorem Gathered.left (h : Gathered geo T ids w w') (hg : Good geo T w) :
    Left geo T w w' ∧ Good geo T w' := by
  obtain ⟨evs, hc, -, -⟩ := h.called
  have hleft : Left geo T w w' := hc.left h.sound
  refine ⟨hleft, h.sound, fun hf i hi => ?_⟩
  rw [h.failed] at hf
  rw [setup_peers hc.setup] at hi
  by_cases hs : i ∈ peersOf (shares geo ids w.table.peers)
  · obtain ⟨s, hs, rfl⟩ := hs
    exact (h.each s hs).settled
  · exact hc.settled hs (hg.synced hf i hi)

/-- A gather that was declined left every peer as it was. -/
theorem Declined.ends (h : Declined geo T ids w e w') (hg : Good geo T w) :
    Ends geo T w e w' := by
  obtain ⟨evs, hc, -, -⟩ := h.called
  refine ⟨hc.left h.sound, fun _ => ⟨h.sound, fun hf i hi => ?_⟩⟩
  rw [h.failed] at hf
  rw [setup_peers hc.setup] at hi
  refine (hg.synced hf i hi).called.congr (by rw [h.heap]; rfl) ?_
  have htr : w'.tr = (w.called.push (.raised e)
      (env.produces_raised w.called.tr e)).tr := by
    rw [h.tr]
    simp [World.called]
  rw [line_of_tr htr, line_raise]

/-- A gather that failed marked the table, or was interrupted. -/
theorem Wrecked.ends (h : Wrecked geo T ids w e w') :
    Ends geo T w e w' := by
  obtain ⟨evs, hc, -, -⟩ := h.called
  have hleft : Left geo T w w' := hc.left h.sound
  refine ⟨hleft, fun he => hleft.marked ?_⟩
  rw [h.failed, if_pos he]
  simp

/-- `gather_cpu`. -/
theorem gatherCpu_good (h : Good geo T w) :
    Runs (RemoteTable.gatherCpu ids) w
      (fun _ w' => Left geo T w w' ∧ Good geo T w') (Ends geo T w) := by
  have hspec : Runs (RemoteTable.gatherCpu ids) w _ _ :=
    gatherCpu_spec h.sound fun hf => (h.synced hf).fit
  refine hspec.mono ?_ ?_
  · intro out w' hw
    obtain ⟨v, hv, hcase⟩ := hw
    have hleft : Left geo T w v := hv.left h.sound
    have hgood := hv.good h
    rcases hcase with ⟨-, rfl⟩ | ⟨-, -, hg⟩
    · exact ⟨hleft, hgood⟩
    · obtain ⟨hl, hg'⟩ := hg.left hgood
      exact ⟨hleft.trans hl, hg'⟩
  · intro e w' hw
    obtain ⟨-, out, hcase⟩ := hw
    rcases hcase with ⟨v, he, why, hv, hf, rfl, rfl⟩ | ⟨hf, v, hv, hcase⟩
    · have hleft : Left geo T w v := hv.left h.sound
      exact hleft.raise (hv.good h) _ he
    · have hleft : Left geo T w v := hv.left h.sound
      rcases hcase with hd | hx
      · exact (hd.ends (hv.good h)).after hleft
      · exact hx.ends.after hleft

/-- `gather`: what it adds to `gather_cpu` is a copy. -/
theorem gather_good {out : Option Nat} (h : Good geo T w) :
    Runs (RemoteTable.gather ids out) w
      (fun _ w' => Left geo T w w' ∧ Good geo T w') (Ends geo T w) := by
  unfold RemoteTable.gather
  refine Runs.bind (gatherCpu_good h) ?_ (fun _ _ hv => hv)
  intro rows v hv
  simp only [runs_bind, runs_get]
  cases out with
  | none => exact hv
  | some m =>
      simp only
      split
      · simp only [runs_bind, runs_raise]
        exact hv.1.raise hv.2 _ _
      · exact hv

/-- torch makes the ids of a chunk if its ends are int64s. -/
theorem runs_arange {start : Int} {n : Nat} {Q : List Int → World env → Prop}
    {E : Exn → World env → Prop}
    (hfit : RemoteTable.IsInt64 start ∧ RemoteTable.IsInt64 (start + n) →
      Q ((List.range n).map fun j : Nat => start + j) w)
    (hover : ¬ (RemoteTable.IsInt64 start ∧
        RemoteTable.IsInt64 (start + n)) →
      E .beyondInt64 (w.push (.raised .beyondInt64)
        (env.produces_raised w.tr _))) :
    Runs (RemoteTable.arange start n) w Q E := by
  unfold RemoteTable.arange
  split
  case isTrue h => exact hfit h
  case isFalse h => exact runs_raise.mpr (hover h)

/-- The loop of `read_rows_contiguous`. -/
theorem readLoop_good {start : Int} {count step : Nat} :
    ∀ (rounds : Nat) (buf : List (List UInt8)) (w : World env),
      Good geo T w →
      Runs (RemoteTable.readLoop start count step rounds buf) w
        (fun _ w' => Left geo T w w' ∧ Good geo T w') (Ends geo T w) := by
  intro rounds
  induction rounds with
  | zero =>
      intro buf w h
      have hleft : Left geo T w w := .refl h.sound
      unfold RemoteTable.readLoop
      split
      · exact ⟨hleft, h⟩
      · simp only [runs_raise]
        exact hleft.raise h _ _
  | succ rounds ih =>
      intro buf w h
      have hleft : Left geo T w w := .refl h.sound
      unfold RemoteTable.readLoop
      split
      · exact ⟨hleft, h⟩
      · simp only [runs_bind]
        refine runs_arange (fun _ => ?_) fun _ => hleft.raise h _ _
        refine (gatherCpu_good h).mono ?_ (fun _ _ hv => hv)
        intro rows v hv
        simp only [runs_get]
        refine (ih _ v hv.2).mono ?_ ?_
        · intro _ u hu
          exact ⟨hv.1.trans hu.1, hu.2⟩
        · intro e u hu
          exact hu.after hv.1

/-- `read_rows_contiguous`. -/
theorem readRows_good {start count chunkRows : Int} (h : Good geo T w) :
    Runs (RemoteTable.readRowsContiguous start count chunkRows) w
      (fun _ w' => Left geo T w w' ∧ Good geo T w') (Ends geo T w) := by
  have hleft : Left geo T w w := .refl h.sound
  unfold RemoteTable.readRowsContiguous
  split
  · exact ⟨hleft, h⟩
  split
  · simp only [runs_raise]
    exact hleft.raise h _ _
  · simp only [runs_bind, runs_self]
    exact readLoop_good _ _ w h

/-- Every call keeps a good table good, unless it is interrupted. -/
theorem Op.good (op : Op) (h : Good geo T w) :
    Runs op.run w (fun _ w' => Left geo T w w' ∧ Good geo T w')
      (Ends geo T w) := by
  cases op with
  | gatherCpu ids =>
      exact Runs.bind (gatherCpu_good h) (fun _ _ hv => hv) (fun _ _ hv => hv)
  | gather ids out =>
      exact Runs.bind (gather_good h) (fun _ _ hv => hv) (fun _ _ hv => hv)
  | readRows start count chunkRows =>
      exact Runs.bind (readRows_good h) (fun _ _ hv => hv) (fun _ _ hv => hv)
  | ping => exact (ping_spec h).mono (fun _ _ hv => hv.1) fun _ _ hv => hv.1
  | stat =>
      exact Runs.bind (stat_spec h) (fun _ _ hv => hv.1) (fun _ _ hv => hv.1)
  | close =>
      refine (closeAll_spec h.sound (E := Ends geo T w)).mono ?_
        (fun _ _ hv => hv)
      intro _ w' hw
      exact ⟨hw.1, hw.1.marked hw.2⟩

-- ================================================================== runs

/-- Whatever calls are made of a constructed table, they leave it good
for the ranges it recorded. -/
theorem Used.left (hc : Constructed env cfg w₀)
    (h : Used Outcome.Ordinary w₀ w) : Left w₀.ranges cfg.timeout w₀ w ∧
      Good w₀.ranges cfg.timeout w := by
  obtain ⟨hg, -⟩ := hc.good
  refine h.induct (I := fun v => Left w₀.ranges cfg.timeout w₀ v ∧
    Good w₀.ranges cfg.timeout v) ⟨.refl hg.sound, hg⟩ ?_
  intro op o v v' hv hop hok
  obtain ⟨hret, hraise⟩ := Op.takes_spec (op.good hv.2)
  cases o with
  | returned =>
      obtain ⟨hl, hg'⟩ := hret v' hop
      exact ⟨hv.1.trans hl, hg'⟩
  | raised e =>
      obtain ⟨hl, hg'⟩ := hraise e v' hop
      exact ⟨hv.1.trans hl, hg' hok⟩

theorem Used.good (hc : Constructed env cfg w₀)
    (h : Used Outcome.Ordinary w₀ w) : Good w₀.ranges cfg.timeout w ∧
      w.table.setup = w₀.table.setup :=
  ⟨(h.left hc).2, (h.left hc).1.setup⟩

/-- Unless the table is marked, nothing is outstanding anywhere. -/
theorem Used.idle (hc : Constructed env cfg w₀)
    (h : Used Outcome.Ordinary w₀ w) (hf : w.table.failed = none)
    (i : PeerId) : (w.line w₀.ranges i).phase = .idle := by
  obtain ⟨hl, hg⟩ := h.left hc
  by_cases hi : i ∈ w.table.peers
  · exact (hg.synced hf i hi).idle
  · rw [hl.others i (by rwa [← setup_peers hl.setup])]
    exact hc.idle i

end PleRowServer.Client
