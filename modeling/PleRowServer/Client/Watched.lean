/-
A moved range, whichever call sees it.

A gather sees one on a connection it opens, `stat` on any it has. What is
seen is told from the history: a STAT answered since the call began that
shows another range than the one on record (`Saw`). `ping` sees none.

A gather that sees one marks the table (`gatherCpu_sees`), and no call
takes the mark away. `stat` looks at the answers outside the handler that
would mark it, so where every peer answers it raises and leaves the table
as usable as it was: `range_fatal` holds of every call but that one.
-/
import Mathlib.Data.List.Infix
import PleRowServer.Client.Moved
import PleRowServer.Client.Threads
import PleRowServer.Client.Discipline

namespace PleRowServer.Client

open Base Wire
open RemoteTable (Config initial)

variable {env : Env} {geo : PeerId → Geometry} {w w₀ w' v : World env}
  {g : Geometry} {l : Line} {i : PeerId} {c : ConnId} {e : Ev}
  {tr evs : Trace} {T : ℚ} {cfg : Config} {ids : List Int}

-- =========================================================== connections

/-- If the line is on `c` afterwards it was before, and nothing `c` has
answered is lost. -/
def Line.Lasts (c : ConnId) (l l' : Line) : Prop :=
  l'.conn = some c →
    l.conn = some c ∧ l'.fresh = l.fresh ∧ l.done <+: l'.done

/-- A line whose connection and answers are those it had. -/
theorem Line.Lasts.same {l' : Line} (hc : l'.conn = l.conn)
    (hf : l'.fresh = l.fresh) (hd : l'.done = l.done) : l.Lasts c l' :=
  fun h => ⟨hc ▸ h, hf, hd ▸ List.prefix_rfl⟩

/-- An entry that neither opens `c` nor starts a call leaves a line that
is still on `c` as fresh as it was, with what was done on it. -/
theorem lineStep_lasts (hopen : ¬ e.Opens c) (hcall : e ≠ .call) :
    l.Lasts c (lineStep g i l e) := by
  cases e with
  | call => exact absurd rfl hcall
  | drew k n =>
      simp only [lineStep]
      split <;> exact .same rfl rfl rfl
  | connect c' a t r =>
      cases r with
      | ok =>
          simp only [lineStep]
          split
          · exact fun h => absurd (Option.some.inj h) hopen
          · exact .same rfl rfl rfl
      | _ => exact .same rfl rfl rfl
  | send c' data r =>
      simp only [lineStep]
      split <;> exact .same rfl rfl rfl
  | recv c' want r =>
      simp only [lineStep]
      split
      case isFalse => exact .same rfl rfl rfl
      case isTrue =>
        unfold Line.onRecv
        split
        case h_2 => exact .same rfl rfl rfl
        case h_1 req got hph =>
          split
          case isFalse => exact .same rfl rfl rfl
          case isTrue =>
            cases r with
            | data bs =>
                simp only
                split
                case isTrue => exact .same rfl rfl rfl
                case isFalse =>
                  unfold Line.upTo
                  split
                  · exact fun h => ⟨h, rfl, List.prefix_append _ _⟩
                  · exact .same rfl rfl rfl
            | _ => exact .same rfl rfl rfl
  | close c' a =>
      simp only [lineStep, Line.onClose]
      split
      · split
        · exact fun h => by cases h
        · exact .same rfl rfl rfl
      · exact .same rfl rfl rfl
  | caught x todo =>
      simp only [lineStep, Line.onCaught]
      repeat' split
      all_goals exact .same rfl rfl rfl
  | _ => exact .same rfl rfl rfl

/-- A stretch of such entries leaves a line that is still on `c` so, too. -/
theorem after_lasts (hno : ∀ e ∈ evs, ¬ e.Opens c ∧ e ≠ .call) :
    l.Lasts c (l.after g i evs) := by
  induction evs generalizing l with
  | nil => exact .same rfl rfl rfl
  | cons e evs ih =>
      intro h
      obtain ⟨hopen, hcall⟩ := hno e (by simp)
      obtain ⟨hconn, hf, hd⟩ := ih (fun x hx => hno x (by simp [hx])) h
      obtain ⟨hconn', hf', hd'⟩ := lineStep_lasts hopen hcall hconn
      exact ⟨hconn', hf.trans hf', hd'.trans hd⟩

/-- Of a line as a call begins, nothing was answered since. -/
theorem Line.since_called (h : (w.called.line geo i).fresh = l.fresh) :
    (w.called.line geo i).since l
      = l.done.drop (w.called.line geo i).done.length := by
  have hf : (w.called.line geo i).fresh = false := by
    rw [line_called]
    rfl
  rw [Line.since, ← h, hf]
  rfl

/-- A round that came back saw a move only in the answers it was given. -/
theorem Round.unseen {P : PeerId → Exchange → Prop}
    (h : Round geo P w.called w') (hs : Sound geo T w)
    (hP : ∀ i x, P i x → opOf x.req = OP_STAT →
      statGeometry x.ans = geo i) :
    Unseen geo w.called.tr w'.tr := by
  rintro pre ⟨a, rfl⟩ hhi i hstray
  obtain ⟨evs, hm⟩ := h.moves
  rw [hm.tr, List.prefix_append_right_inj] at hhi
  obtain ⟨b, rfl⟩ := hhi
  have hof : ∀ e ∈ a ++ b, e.Of {i | i ∈ w.called.table.peers} := hm.of
  obtain ⟨y, hy, hop, hne⟩ := hstray
  by_cases hi : i ∈ w.called.table.peers
  case neg =>
    have hl : line (geo i) i (w.called.tr ++ a) = w.called.line geo i :=
      line_of_other (S := {i | i ∈ w.called.table.peers}) hi _
        fun e he => hof e (by simp [he])
    rw [hl, show line (geo i) i w.called.tr = w.called.line geo i from rfl,
      Line.since_called rfl, List.drop_length] at hy
    cases hy
  case pos =>
    obtain ⟨c, x, hconn, hx, hadds⟩ := h.each i hi
    have hlt : c.n < Trace.bound w.called.tr :=
      ((World.traced (hs.linked i).called.good).conn c hconn).2
    have hprod : env.Produced (w.called.tr ++ (a ++ b)) := by
      rw [← hm.tr]
      exact w'.hist.ok
    have hno : ∀ e ∈ a ++ b, ¬ e.Opens c ∧ e ≠ .call := by
      intro e he
      refine ⟨unopened hprod hlt e he, ?_⟩
      rintro rfl
      exact hof _ he
    have hend : w'.line geo i = (line (geo i) i (w.called.tr ++ a)).after
        (geo i) i b := by
      rw [← line_after, List.append_assoc, ← hm.tr]
      rfl
    have hlast : (line (geo i) i (w.called.tr ++ a)).Lasts c
        (w'.line geo i) := by
      rw [hend]
      exact after_lasts fun e he => hno e (by simp [he])
    obtain ⟨hmid, -, hdone⟩ := hlast (hadds.conn.trans hconn)
    have hfirst : (w.called.line geo i).Lasts c
        (line (geo i) i (w.called.tr ++ a)) := by
      rw [line_after]
      exact after_lasts fun e he => hno e (by simp [he])
    obtain ⟨-, hfresh, -⟩ := hfirst hmid
    -- all that was answered since is in the one answer of the round
    have hsub : y ∈ [x] := by
      rw [show line (geo i) i w.called.tr = w.called.line geo i from rfl,
        Line.since_called hfresh.symm] at hy
      have := (List.IsPrefix.drop hdone
        (w.called.line geo i).done.length).subset hy
      rwa [hadds.done, List.drop_left] at this
    obtain rfl := List.mem_singleton.mp hsub
    exact hne (hP i y hx hop)

-- ================================================================= marks

/-- Something has marked the table. -/
def Marked (w : World env) : Prop := w.table.failed ≠ none

/-- Work on the peers leaves the mark. -/
theorem Marked.still (h : Marked w) (hs : Still w w') : Marked w' := by
  unfold Marked
  rw [hs.failed]
  exact h

/-- An exception leaves the mark. -/
theorem Marked.raise {α : Type} (e : Exn) :
    Keeps Marked (Client.raise e : M env α) := fun _ hw => hw

/-- A gather of a marked table. -/
theorem Marked.gatherCpu (ids : List Int) :
    Keeps Marked (RemoteTable.gatherCpu ids : M env _) := by
  intro w hw
  by_cases hids : ids = []
  case neg =>
    obtain ⟨why, hf⟩ := Option.ne_none_iff_exists'.mp hw
    refine (gatherCpu_marked hf hids).mono (fun _ _ h => h.elim) ?_
    rintro e w' ⟨-, -, hf'⟩
    unfold Marked
    rw [hf']
    simp
  case pos =>
    unfold RemoteTable.gatherCpu RemoteTable.gatherEnter
    simp only [runs_bind]
    refine Runs.mono (stagingFor_spec ids.length (E := fun _ => Marked)) ?_
      fun _ _ h => h
    intro out v hv
    simp only [hids, if_true, runs_pure]
    exact hw.still hv.still

/-- A health check of one gets no further than `_check_usable`. -/
theorem Marked.checked {α : Type} {k : Unit → M env α} (h : Marked w) :
    Runs (do Client.mark .call env.produces_call
             RemoteTable.checkUsable >>= k) w
      (fun _ _ => False) (fun _ w' => Marked w') := by
  simp only [runs_bind, runs_mark]
  have hcalled : Marked w.called := h.still (.called w)
  exact (checkUsable_marked hcalled).mono (fun _ _ h => h.elim)
    fun _ _ hs => hcalled.still hs

/-- No call takes the mark away. -/
theorem Op.keeps_mark (op : Op) : Keeps Marked (op.run : M env _) := by
  cases op with
  | gatherCpu ids => exact .bind (Marked.gatherCpu ids) fun _ => .pure _
  | gather ids out =>
      exact .bind (gather_keeps Marked.raise Marked.gatherCpu ids out)
        fun _ => .pure _
  | readRows start count chunkRows =>
      exact .bind (readRows_keeps Marked.raise Marked.gatherCpu start count
        chunkRows) fun _ => .pure _
  | ping =>
      exact fun w hw => hw.checked.mono (fun _ _ h => h.elim) fun _ _ h => h
  | stat =>
      refine .bind (fun w hw => ?_) fun _ => .pure _
      exact hw.checked.mono (fun _ _ h => h.elim) fun _ _ h => h
  | close =>
      exact fun w _ => closeAll_still.mono (fun _ _ h => h.1) fun _ _ h => h

/-- After any calls a marked table refuses every gather that asks for
rows, and nothing is sent. -/
theorem Marked.refuses {ok : Outcome → Prop} {o : Outcome} (h : Marked w)
    (hu : Used ok w v) (hids : ids ≠ [])
    (ht : (Op.gatherCpu ids).Takes v o w') :
    ∃ e, o = .raised e ∧ w'.tr = v.tr ++ [.raised e] := by
  have hv : Marked v := hu.induct (I := Marked) h
    fun op _ u _ hm hop _ => Op.takes_keeps (op.keeps_mark u hm) hop
  obtain ⟨why, hf⟩ := Option.ne_none_iff_exists'.mp hv
  have hspec : Runs (Op.gatherCpu ids).run v (fun _ _ => False)
      (fun e w' => w'.tr = v.tr ++ [.raised e]) :=
    (gatherCpu_marked hf hids).bind (fun _ _ h => h.elim) fun _ _ h => h.2.1
  obtain ⟨hret, hraise⟩ := Op.takes_spec hspec
  cases o with
  | returned => exact (hret w' ht).elim
  | raised e => exact ⟨e, rfl, hraise e w' ht⟩

-- ================================================================= sights

/-- In the call that took `w` to `w'` a STAT was answered and showed
another range than the one on record. -/
def Saw (geo : PeerId → Geometry) (w w' : World env) : Prop :=
  ∃ pre, w.called.tr <+: pre ∧ pre <+: w'.tr ∧ ∃ i,
    (w.called.line geo i).Strayed (geo i) (line (geo i) i pre)

/-- What was seen was not unseen. -/
theorem Saw.not_unseen (h : Saw geo w w') : ¬ Unseen geo w.called.tr w'.tr := by
  obtain ⟨pre, hlo, hhi, i, hs⟩ := h
  exact fun hun => hun pre hlo hhi i hs

/-- The calls that use each connection for themselves. -/
def Op.Watched : Op → Prop
  | .gatherCpu _ | .ping | .stat => True
  | _ => False

/-- How a call that may see a move ends: it returns and saw none, or it
raises, and then it saw none, or marked the table, or is a `stat` that
every peer answered. -/
theorem Op.sees {op : Op} {o : Outcome} (hc : Constructed env cfg w₀)
    (hu : Used Outcome.Ordinary w₀ w) (hop : op.Watched)
    (h : op.Takes w o w') (ho : o.Ordinary) :
    Unseen w₀.ranges w.called.tr w'.tr ∨
      ∃ e, o = .raised e ∧
        (Marked w' ∨ op = .stat ∧ AllAnswered w₀.ranges w.called w') := by
  obtain ⟨hg, -⟩ := hu.good hc
  have hends : ∀ {E : Exn → World env → Prop}, Runs op.run w
      (fun _ v => Unseen w₀.ranges w.called.tr v.tr) E →
      (∀ e, o = .raised e → E e w' →
        Unseen w₀.ranges w.called.tr w'.tr ∨
          (Marked w' ∨ op = .stat ∧ AllAnswered w₀.ranges w.called w')) →
      Unseen w₀.ranges w.called.tr w'.tr ∨ ∃ e, o = .raised e ∧
        (Marked w' ∨ op = .stat ∧ AllAnswered w₀.ranges w.called w') := by
    intro E hspec hE
    obtain ⟨hret, hraise⟩ := Op.takes_spec hspec
    cases o with
    | returned => exact .inl (hret w' h)
    | raised e =>
        exact (hE e rfl (hraise e w' h)).imp_right fun hm => ⟨e, rfl, hm⟩
  cases op with
  | gatherCpu ids =>
      refine hends ((gatherCpu_sees hc hu).bind (fun _ _ h => h)
        fun _ _ h => h) ?_
      rintro e - (⟨-, hf⟩ | hun)
      · exact .inr (.inl (by simp [Marked, hf]))
      · exact .inl hun
  | ping =>
      refine hends ((ping_spec hg).mono (fun _ _ hv => ?_) fun _ _ h => h) ?_
      · refine hv.2.unseen hg.sound fun i x hx hstat => ?_
        rw [hx] at hstat
        cases hstat
      · rintro e rfl ⟨-, hm⟩
        exact .inr (.inl (hm ho))
  | stat =>
      refine hends ((stat_spec hg).bind (fun _ _ hv => ?_) fun _ _ h => h) ?_
      · exact hv.2.unseen hg.sound fun i x hx _ => hx.2
      · rintro e rfl ⟨-, hm⟩
        exact .inr ((hm ho).imp_right fun ha => ⟨rfl, ha⟩)
  | gather _ _ => exact hop.elim
  | readRows _ _ _ => exact hop.elim
  | close => exact hop.elim

/-- A range that moved is the end of whatever call sees it. And of the
table, unless the call is a `stat` that every peer answered: no gather after
it, whatever is called in between and however that ends, sends or reads
anything, and all raise. -/
theorem range_fatal {op : Op} {o : Outcome} (hc : Constructed env cfg w₀)
    (hu : Used Outcome.Ordinary w₀ w) (hop : op.Watched)
    (h : op.Takes w o w') (ho : o.Ordinary) (hsaw : Saw w₀.ranges w w') :
    (∃ e, o = .raised e) ∧
      (¬ (op = .stat ∧ AllAnswered w₀.ranges w.called w') →
        ∀ {ok : Outcome → Prop} {v : World env}, Used ok w' v →
        ∀ {ids : List Int} {o' : Outcome} {v' : World env}, ids ≠ [] →
        (Op.gatherCpu ids).Takes v o' v' →
        ∃ e, o' = .raised e ∧ v'.tr = v.tr ++ [.raised e]) := by
  obtain ⟨e, rfl, hmark⟩ :=
    (Op.sees hc hu hop h ho).resolve_left hsaw.not_unseen
  refine ⟨⟨e, rfl⟩, fun hne ok v hv ids o' v' hids ht => ?_⟩
  exact (hmark.resolve_right hne).refuses hv hids ht

-- =============================================================== two runs

instance (l₀ l : Line) : Decidable (l₀.Strayed g l) :=
  inferInstanceAs (Decidable (∃ x ∈ _, _))

/-- The call raises what is no interrupt, and by its end peer `i` has shown
a move. -/
def ends (op : Op) (geo : PeerId → Geometry) (i : PeerId) (w : World env) :
    Bool :=
  match op.run w with
  | .ok _ _ => false
  | .error e w' => e.isException && decide (w.called.tr <+: w'.tr) &&
      decide ((w.called.line geo i).Strayed (geo i) (w'.line geo i))

/-- A call that ends so saw a move, and raised. -/
theorem saw_of_ends {op : Op} (h : ends op geo i w = true) :
    ∃ e, op.Takes w (.raised e) (returned op.run w) ∧
      e.isException = true ∧ Saw geo w (returned op.run w) := by
  unfold ends at h
  unfold returned
  split at h
  case h_1 => cases h
  case h_2 e w' hrun =>
    simp only [Bool.and_eq_true, decide_eq_true_eq] at h
    obtain ⟨⟨he, hlo⟩, hs⟩ := h
    rw [hrun]
    exact ⟨e, hrun, he, w'.tr, hlo, List.prefix_rfl, i, hs⟩

/-- The gather that sees the range of peer 0 move is the last. -/
theorem range_fatal_shifted :
    ∃ e w', (Op.gatherCpu [1, 0, 1]).Takes shifted (.raised e) w' ∧
      Saw shifted.ranges shifted w' ∧
      (∃ e', Outcome.raised e = .raised e') ∧
      (¬ (Op.gatherCpu [1, 0, 1] = .stat ∧
          AllAnswered shifted.ranges shifted.called w') →
        ∀ {ok : Outcome → Prop} {v : World shifting}, Used ok w' v →
        ∀ {ids : List Int} {o' : Outcome} {v' : World shifting},
        ids ≠ [] → (Op.gatherCpu ids).Takes v o' v' →
        ∃ e, o' = .raised e ∧ v'.tr = v.tr ++ [.raised e]) := by
  obtain ⟨e, htakes, he, hsaw⟩ := saw_of_ends
    (show ends (.gatherCpu [1, 0, 1]) shifted.ranges 0 shifted = true by
      decide +kernel)
  exact ⟨e, _, htakes, hsaw,
    range_fatal shifted_constructed .refl trivial htakes he hsaw⟩

/-- The pair of servers, where peer 0 answers the second STAT on a
connection with the range of peer 1. -/
def relocating : Env :=
  { pairEnv with
    recv := fun tr c want =>
      let sent := sentOn tr c
      let out := served (pairServer c.peer) (sent.take HEADER) ++
        served (pairServer 1) ((sent.drop HEADER).take HEADER) ++
        served (pairServer c.peer) (sent.drop (2 * HEADER))
      .data ((out.drop (gotOn tr c).length).take want) }

/-- A table over it as it is constructed. -/
def relocated : World relocating :=
  returned RemoteTable.init (initial relocating pairConfig)

/-- `stat` sees the range of peer 0 move and raises, and the next gather
returns. -/
theorem range_fatal_health :
    Constructed relocating pairConfig relocated ∧
      ∃ e w₁ w₂, Op.stat.Takes relocated (.raised e) w₁ ∧
        e.isException = true ∧ Saw relocated.ranges relocated w₁ ∧
        (Op.gatherCpu [0]).Takes w₁ .returned w₂ := by
  have hinit : Returns RemoteTable.init (initial relocating pairConfig)
      = true := by
    decide +kernel
  obtain ⟨_, hx⟩ := Returns.run hinit
  obtain ⟨e, htakes, he, hsaw⟩ := saw_of_ends
    (show ends .stat relocated.ranges 0 relocated = true by decide +kernel)
  have hgather : Returns (Op.gatherCpu [0]).run
      (returned Op.stat.run relocated) = true := by
    decide +kernel
  obtain ⟨_, hy⟩ := Returns.run hgather
  exact ⟨⟨by decide, hx⟩, e, _, _, htakes, he, hsaw, hy⟩

end PleRowServer.Client
