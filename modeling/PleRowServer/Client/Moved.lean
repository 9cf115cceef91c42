/-
A peer that came back with another range.

A connection opened during a gather is asked for STAT before anything else
is asked on it, and an answer that shows another range than the one on
record (`Line.Moved`) must be the end of the gather. What has to be kept
is that no answer of the call so far has shown a move, on a connection
new or old (`Unseen`), and that no STAT is out whose answer could still
show it (`Level`): then no entry of the history but the sending of a STAT
can lead to one that does (`Line.Strayed.stays`).

# The one place it is not kept

From the sending of the STAT to its last bytes `Midway` holds in place of
`Level`. A fault on the way leaves a STAT out, on a connection the peer is
about to lose (`Loose`): the handler closes every connection still owed an
answer, and `Level` holds again (`giveUp_onward`). The last bytes either
show the range on record, or they show another (`Full`), and then
`_check_range` raises what no handler of an attempt takes (`Told`).
-/
import PleRowServer.Client.Sites
import PleRowServer.Client.Upkeep
import PleRowServer.Client.Refused

namespace PleRowServer.Client

open Base Wire
open RemoteTable (Config initial)

variable {env : Env} {geo : PeerId → Geometry} {w w₀ w' : World env} {D : ℚ}
  {i j : PeerId} {e : Exn} {g : Geometry} {l : Line} {tr tr₀ : Trace}
  {P : List PeerId} {todo : List Share}

-- ================================================================= lines

/-- A connection opened in this call has answered a STAT with another
range than `g`. -/
def Line.Moved (g : Geometry) (l : Line) : Prop :=
  l.fresh = true ∧ ∃ x ∈ l.done, opOf x.req = OP_STAT ∧ statGeometry x.ans ≠ g

/-- What was answered on the line's connection since the line was `l₀`. -/
def Line.since (l₀ l : Line) : List Exchange :=
  if l.fresh then l.done else l.done.drop l₀.done.length

/-- A STAT answered since then has shown another range than `g`. -/
def Line.Strayed (g : Geometry) (l₀ l : Line) : Prop :=
  ∃ x ∈ l₀.since l, opOf x.req = OP_STAT ∧ statGeometry x.ans ≠ g

/-- On a connection opened in this call every answer is one since. -/
theorem Line.strayed_of_moved (h : l.Moved g) (l₀ : Line) :
    l₀.Strayed g l := by
  obtain ⟨hf, x, hx, hop, hne⟩ := h
  exact ⟨x, by rwa [Line.since, if_pos hf], hop, hne⟩

/-- What was answered since was answered. -/
theorem Line.since_subset (l₀ l : Line) : l₀.since l ⊆ l.done := by
  unfold Line.since
  split
  · exact List.Subset.refl _
  · exact List.drop_subset _ _

/-- Nothing was answered on the connection at all. -/
theorem Line.not_strayed_of_done {l₀ : Line} (h : l.done = []) :
    ¬ l₀.Strayed g l := by
  rintro ⟨x, hx, -⟩
  have hmem := Line.since_subset l₀ l hx
  rw [h] at hmem
  cases hmem

/-- What the line's connection has answered says it all. -/
theorem Line.not_strayed_congr {l₀ l' : Line} (h : ¬ l₀.Strayed g l)
    (hf : l'.fresh = l.fresh) (hd : l'.done = l.done) :
    ¬ l₀.Strayed g l' := by
  unfold Line.Strayed Line.since at *
  rwa [hf, hd]

/-- A call begins with nothing answered since. -/
theorem Line.not_strayed_onCall {l₀ : Line} (h : ¬ l₀.Strayed g l) :
    ¬ l₀.Strayed g l.onCall := by
  rintro ⟨x, hx, hop, hne⟩
  have hdrop : x ∈ l.done.drop l₀.done.length := by
    simpa [Line.since, Line.onCall] using hx
  refine h ⟨x, ?_, hop, hne⟩
  unfold Line.since
  split
  · exact List.drop_subset _ _ hdrop
  · exact hdrop

/-- One more answer, which shows nothing. -/
theorem Line.not_strayed_snoc {l₀ l' : Line} {y : Exchange}
    (h : ¬ l₀.Strayed g l) (hf : l'.fresh = l.fresh)
    (hd : l'.done = l.done ++ [y])
    (hy : opOf y.req = OP_STAT → statGeometry y.ans = g) :
    ¬ l₀.Strayed g l' := by
  rintro ⟨x, hx, hop, hne⟩
  have hmem : x ∈ l₀.since l ∨ x = y := by
    unfold Line.since at hx ⊢
    rw [hf, hd] at hx
    split at hx
    case isTrue hfresh =>
      rw [if_pos hfresh]
      simpa using hx
    case isFalse hfresh =>
      rw [if_neg hfresh]
      rw [List.drop_append] at hx
      rcases List.mem_append.mp hx with hx | hx
      · exact .inl hx
      · exact .inr (List.mem_singleton.mp (List.drop_subset _ _ hx))
  rcases hmem with hx | rfl
  · exact h ⟨x, hx, hop, hne⟩
  · exact hne (hy hop)

/-- A STAT is out, and its answer may still come in. -/
def Line.Pending (l : Line) : Prop :=
  ∃ req got, l.phase = .asked req got ∧ opOf req = OP_STAT ∧
    got.length < HEADER + STAT_BODY

/-- A STAT sent to peer `i`. -/
def Ev.StatTo (i : PeerId) : Ev → Prop
  | .send c data _ => c.peer = i ∧ opOf data = OP_STAT
  | _ => False

/-- Where nothing is asked no STAT is. -/
theorem not_pending_of_phase (h : ∀ req got, l.phase ≠ .asked req got) :
    ¬ l.Pending := fun ⟨req, got, hp, _⟩ => h req got hp

/-- A whole STAT answer is of one length. -/
theorem length_of_accepted {rb : Nat} {req ans : List UInt8}
    (h : accepted rb req ans = true) (hop : opOf req = OP_STAT) :
    ans.length = HEADER + STAT_BODY := by
  obtain ⟨-, hlen⟩ := accepted_iff.mp h
  have hne : opOf req ≠ OP_GATHER := by rw [hop]; decide
  rw [hlen, bodyBytes, if_neg hne, if_pos hop]

/-- Without a STAT out, nothing but sending one leads to a moved range. -/
theorem Line.Strayed.stays {l₀ : Line} {ev : Ev} (hm : ¬ l₀.Strayed g l)
    (hp : ¬ l.Pending) (he : ¬ ev.StatTo i) :
    ¬ l₀.Strayed g (lineStep g i l ev) ∧ ¬ (lineStep g i l ev).Pending := by
  have hsame : ∀ {l' : Line}, l'.fresh = l.fresh → l'.done = l.done →
      ¬ l₀.Strayed g l' := Line.not_strayed_congr hm
  cases ev with
  | call => exact ⟨Line.not_strayed_onCall hm, hp⟩
  | drew k n =>
      simp only [lineStep]
      split <;> exact ⟨hm, hp⟩
  | connect c a t r =>
      cases r with
      | ok =>
          simp only [lineStep]
          split
          · exact ⟨Line.not_strayed_of_done rfl,
              not_pending_of_phase fun _ _ h => by cases h⟩
          · exact ⟨hm, hp⟩
      | _ => exact ⟨hm, hp⟩
  | send c data r =>
      simp only [lineStep]
      split
      case isFalse => exact ⟨hm, hp⟩
      case isTrue hc =>
        refine ⟨hsame rfl rfl, ?_⟩
        rintro ⟨req, got, hph, hop, hlen⟩
        cases r with
        | all =>
            obtain ⟨rfl, -⟩ : data = req ∧ _ := Phase.asked.inj hph
            exact he ⟨hc, hop⟩
        | fault why n => cases hph
        | interrupt n =>
            simp only [Line.onSend] at hph
            split at hph
            · exact hp ⟨req, got, hph, hop, hlen⟩
            · cases hph
  | recv c want r =>
      simp only [lineStep]
      split
      case isFalse => exact ⟨hm, hp⟩
      case isTrue hc =>
        unfold Line.onRecv
        split
        case h_2 => exact ⟨hsame rfl rfl, hp⟩
        case h_1 req got hph =>
          split
          case isFalse => exact ⟨hsame rfl rfl, hp⟩
          case isTrue =>
            have hdoubt : ¬ l₀.Strayed g { l with phase := .doubt } ∧
                ¬ Line.Pending { l with phase := .doubt } :=
              ⟨hsame rfl rfl, not_pending_of_phase fun _ _ h => by cases h⟩
            cases r with
            | timeout => exact hdoubt
            | fault why => exact hdoubt
            | interrupt => exact ⟨hm, hp⟩
            | data bs =>
                simp only
                split
                case isTrue => exact hdoubt
                case isFalse hbs =>
                  have hlong : opOf req = OP_STAT →
                      HEADER + STAT_BODY < (got ++ bs).length := by
                    intro hop
                    have hge : ¬ got.length < HEADER + STAT_BODY :=
                      fun hlt => hp ⟨req, got, hph, hop, hlt⟩
                    have hpos : 0 < bs.length :=
                      List.length_pos_iff.mpr hbs
                    rw [List.length_append]
                    omega
                  unfold Line.upTo
                  split
                  case isTrue hacc =>
                    refine ⟨Line.not_strayed_snoc hm rfl rfl fun hop => ?_,
                      not_pending_of_phase fun _ _ h => by cases h⟩
                    have := length_of_accepted hacc hop
                    have := hlong hop
                    omega
                  case isFalse =>
                    refine ⟨hsame rfl rfl, ?_⟩
                    rintro ⟨req', got', hph', hop, hlt⟩
                    obtain ⟨rfl, rfl⟩ := Phase.asked.inj hph'
                    have := hlong hop
                    omega
  | close c a =>
      simp only [lineStep, Line.onClose]
      split
      · split
        · exact ⟨Line.not_strayed_of_done rfl,
            not_pending_of_phase fun _ _ h => by cases h⟩
        · exact ⟨hm, hp⟩
      · exact ⟨hm, hp⟩
  | caught x l' =>
      simp only [lineStep, Line.onCaught]
      split
      · split
        · exact ⟨hm, hp⟩
        · split
          · exact ⟨hm, hp⟩
          · exact ⟨hsame rfl rfl,
              not_pending_of_phase fun _ _ h => by cases h⟩
      · exact ⟨hm, hp⟩
  | _ => exact ⟨hm, hp⟩

-- ================================================================ history

/-- No peer's range has moved at any point from `tr₀` on. -/
def Unmoved (geo : PeerId → Geometry) (tr₀ tr : Trace) : Prop :=
  ∀ pre, tr₀ <+: pre → pre <+: tr → ∀ i, ¬ (line (geo i) i pre).Moved (geo i)

/-- No STAT answered since `tr₀`, on whatever connection, has shown another
range than the one on record. -/
def Unseen (geo : PeerId → Geometry) (tr₀ tr : Trace) : Prop :=
  ∀ pre, tr₀ <+: pre → pre <+: tr → ∀ i,
    ¬ (line (geo i) i tr₀).Strayed (geo i) (line (geo i) i pre)

/-- A range nobody has seen move has moved on no new connection. -/
theorem Unseen.unmoved (h : Unseen geo tr₀ tr) : Unmoved geo tr₀ tr :=
  fun pre hlo hhi i hm => h pre hlo hhi i (Line.strayed_of_moved hm _)

/-- None is seen by now. -/
theorem Unseen.now (h : Unseen geo tr₀ tr) (hp : tr₀ <+: tr) (i : PeerId) :
    ¬ (line (geo i) i tr₀).Strayed (geo i) (line (geo i) i tr) :=
  h tr hp (List.prefix_refl _) i

/-- A history without a move has none after an entry that shows none. -/
theorem Unseen.snoc {ev : Ev} (h : Unseen geo tr₀ tr)
    (hm : ∀ i, ¬ (line (geo i) i tr₀).Strayed (geo i)
      (line (geo i) i (tr ++ [ev]))) :
    Unseen geo tr₀ (tr ++ [ev]) := by
  intro pre hlo hhi i
  rcases List.prefix_concat_iff.mp hhi with rfl | hpre
  · exact hm i
  · exact h pre hlo hpre i

/-- Nothing has moved since `w₀`, and no STAT is out that could show it. -/
structure Level (geo : PeerId → Geometry) (w₀ w : World env) : Prop where
  since : w₀.tr <+: w.tr
  past : Unseen geo w₀.tr w.tr
  still : ∀ i, ¬ (w.line geo i).Pending

/-- Whatever is put in the history but a STAT keeps it so. -/
theorem Level.push {ev : Ev} (h : Level geo w₀ w) (he)
    (hstat : ∀ i, ¬ ev.StatTo i) : Level geo w₀ (w.push ev he) := by
  have hstep : ∀ i, ¬ (line (geo i) i w₀.tr).Strayed (geo i)
        (line (geo i) i (w.tr ++ [ev])) ∧
      ¬ (line (geo i) i (w.tr ++ [ev])).Pending := by
    intro i
    rw [line_snoc]
    exact Line.Strayed.stays (h.past.now h.since i) (h.still i) (hstat i)
  have htr : (w.push ev he).tr = w.tr ++ [ev] := w.push_tr ev he
  refine ⟨?_, ?_, fun i => ?_⟩
  · rw [htr]
    exact h.since.trans (List.prefix_append _ _)
  · rw [htr]
    exact h.past.snoc fun i => (hstep i).1
  · unfold World.line
    rw [htr]
    exact (hstep i).2

/-- What leaves the history alone keeps it so. -/
theorem Level.congr (h : Level geo w₀ w) (ht : w'.tr = w.tr) :
    Level geo w₀ w' := by
  refine ⟨ht ▸ h.since, ht ▸ h.past, fun i => ?_⟩
  unfold World.line
  rw [ht]
  exact h.still i

-- ================================================================= calls

section Arming

variable {I : World env → Prop} {J : Exn → World env → Prop}

/-- `_arm`, from an invariant of what leaves the lines alone. -/
theorem arm_stays (hpush : ∀ w ev he, I w → Ev.Mute ev → I (w.push ev he))
    (hedit : ∀ w a, I w → I (w.setPeer i { w.heap i with armed := a }))
    (hraise : ∀ w e he, I w → J e (w.push (.raised e) he)) :
    Stays I J (Peer.arm i : M env _) := by
  have hr : ∀ {α : Type} (e : Exn), Stays I J (raise e : M env α) :=
    fun e w hw => hraise w e _ hw
  have hpeer : Stays I J (peer i : M env _) := fun _ hw => hw
  unfold Peer.arm
  refine .bind hpeer fun p => .bind ?_ fun budget => ?_
  · unfold Peer.budget
    split
    · exact .pure _
    · refine .bind ?_ fun t => .guard (fun _ => hr _) (.pure _)
      intro w hw
      rw [runs_now]
      exact fun t ht => hpush w _ ht hw trivial
  · refine .ite (fun _ => ?_) fun _ => .pure _
    refine .bind ?_ fun c => .bind (fun w hw => ?_) fun _ => ?_
    · unfold Peer.socket
      refine .bind hpeer fun p => ?_
      split
      · exact .pure _
      · exact hr _
    · exact hpush w _ _ hw trivial
    · exact fun w hw => hedit w _ hw

end Arming

-- ============================================================== exchange

/-- The history shows no move yet, and the ranges on record are the old
ones, for the peers asked. -/
structure Onward (geo : PeerId → Geometry) (w₀ : World env) (S : List Share)
    (w : World env) : Prop extends Level geo w₀ w where
  geometry : ∀ s ∈ S, (w.heap s.1).geometry = geo s.1

variable {S : List Share} {c : ConnId} {req got : List UInt8}

/-- An entry that asks for no STAT. -/
theorem Onward.push {ev : Ev} (h : Onward geo w₀ S w) (he)
    (hstat : ∀ i, ¬ ev.StatTo i) : Onward geo w₀ S (w.push ev he) :=
  ⟨h.toLevel.push he hstat, h.geometry⟩

/-- The ranges on record stand while none is edited. -/
theorem geometry_setPeer {p : Peer}
    (h : ∀ s ∈ S, (w.heap s.1).geometry = geo s.1)
    (hp : p.geometry = (w.heap i).geometry) :
    ∀ s ∈ S, ((w.setPeer i p).heap s.1).geometry = geo s.1 := by
  intro s hs
  by_cases hi : s.1 = i
  · subst hi
    rw [World.setPeer_self, hp]
    exact h s hs
  · rw [World.setPeer_ne _ hi]
    exact h s hs

/-- An edit of another field leaves the ranges on record. -/
theorem Onward.setPeer {p : Peer} (h : Onward geo w₀ S w)
    (hp : p.geometry = (w.heap i).geometry) :
    Onward geo w₀ S (w.setPeer i p) :=
  ⟨h.toLevel.congr rfl, geometry_setPeer h.geometry hp⟩

/-- A request id that is drawn leaves the ranges on record. -/
theorem Onward.draw (h : Onward geo w₀ S w) (i : PeerId) :
    Onward geo w₀ S (w.draw i) :=
  Onward.push (w := { w with table := { w.table with reqId := w.nextId } })
    ⟨h.toLevel.congr rfl, h.geometry⟩ _ (by intro k hk; exact hk)

/-- Peer `i` has just been connected, on `c`. -/
structure Opened (geo : PeerId → Geometry) (w₀ : World env) (S : List Share)
    (i : PeerId) (c : ConnId) (w : World env) : Prop
    extends Onward geo w₀ S w where
  sock : (w.heap i).sock = some c
  flag : (w.heap i).answered = false
  peer : c.peer = i
  conn : (w.line geo i).conn = some c
  fresh : (w.line geo i).fresh = true
  done : (w.line geo i).done = []

/-- `connect`, as far as that goes. -/
theorem connect_opens {ct t : ℚ} (h : Onward geo w₀ S w)
    (hflag : (w.heap i).answered = false) :
    Runs (Peer.connect i ct t) w (fun _ w' => ∃ c, Opened geo w₀ S i c w')
      (fun _ w' => Onward geo w₀ S w' ∧ (w'.heap i).answered = false) := by
  have hno : ∀ (ev : Ev), (∀ c d r, ev ≠ .send c d r) →
      ∀ k, ¬ ev.StatTo k := by
    intro ev hne k hs
    cases ev with
    | send c d r => exact hne c d r rfl
    | _ => exact hs
  have hraise : ∀ (v : World env) (e : Exn) (he), Onward geo w₀ S v →
      (v.heap i).answered = false →
      Onward geo w₀ S (v.push (.raised e) he) ∧
        ((v.push (.raised e) he).heap i).answered = false :=
    fun v e he hv hf => ⟨hv.push he (hno _ (by simp)), hf⟩
  unfold Peer.connect createConnection
  simp only [runs_bind, runs_peer]
  split
  case isTrue =>
    simp only [runs_bind, runs_raise]
    exact hraise w _ _ h hflag
  case isFalse =>
    simp only [runs_bind, runs_sysConnect]
    intro r hr
    have h₁ := h.push hr (hno _ (by simp))
    cases r with
    | fault why => exact hraise _ _ _ h₁ hflag
    | interrupt => exact hraise _ _ _ h₁ hflag
    | ok =>
        simp only [runs_pure]
        split
        case isTrue => exact hraise _ _ _ h₁ hflag
        case isFalse =>
          simp only [runs_bind, runs_settimeout, runs_modifyPeer]
          set c := w.nextConn i with hc
          set w₁ := w.push (.connect c (w.heap i).addr ct .ok) hr with hw₁
          set w₂ := w₁.push (.settimeout c t)
            (env.produces_settimeout w₁.tr c t) with hw₂
          set w₃ := w₂.setPeer i { w₂.heap i with
            sock := some c, timeout := t, armed := t } with hw₃
          have hline : w₃.line geo i = (w.line geo i).onConnect c := by
            rw [hw₃, line_setPeer, hw₂,
              line_mute (env.produces_settimeout w₁.tr c t) trivial, hw₁]
            unfold World.line
            rw [World.push_tr, line_snoc]
            simp [lineStep, hc, World.nextConn]
          have h₃ : Onward geo w₀ S w₃ :=
            (h₁.push _ (hno _ (by simp))).setPeer rfl
          have hflag₃ : (w₃.heap i).answered = false := by
            rw [hw₃, World.setPeer_self]
            exact hflag
          have hsock₃ : (w₃.heap i).sock = some c := by
            rw [hw₃, World.setPeer_self]
          unfold getpeername
          simp only [runs_bind, runs_sysPeername]
          intro r' hr'
          have h₄ := h₃.push hr' (hno _ (by simp))
          have hl₄ : (w₃.push (.peername c r') hr').line geo i
              = (w.line geo i).onConnect c :=
            (line_mute hr' trivial i).trans hline
          cases r' with
          | error why => exact hraise _ _ _ h₄ hflag₃
          | ok addr =>
              simp only [runs_pure]
              refine ⟨c, h₄.setPeer rfl, ?_, ?_, rfl, ?_, ?_, ?_⟩
              · rw [World.setPeer_self]
                exact hsock₃
              · rw [World.setPeer_self]
                exact hflag₃
              all_goals rw [line_setPeer, hl₄]
              all_goals rfl

/-- `_connect`. -/
theorem connectLoop_opens :
    ∀ (rounds : Nat) (pause : ℚ) (w : World env), Onward geo w₀ S w →
      (w.heap i).answered = false →
      Runs (RemoteTable.connectLoop i D rounds pause) w
        (fun _ w' => ∃ c, Opened geo w₀ S i c w')
        (fun _ w' => Onward geo w₀ S w') := by
  intro rounds
  induction rounds with
  | zero =>
      intro pause w h _
      exact h.push _ (by intro k hk; exact hk)
  | succ rounds ih =>
      intro pause w h hflag
      unfold RemoteTable.connectLoop
      simp only [runs_bind, runs_now, runs_self]
      intro t ht
      have h₁ := h.push ht (by intro k hk; exact hk)
      refine Runs.catching (connect_opens h₁ hflag) ?_ fun _ _ hx _ => hx.1
      rintro e w₂ ⟨h₂, hflag₂⟩ -
      simp only [runs_bind, runs_now]
      intro u hu
      have h₃ := h₂.push hu (by intro k hk; exact hk)
      have hsleep : Runs (sleep (min pause (D - u))) (w₂.push (.now u) hu)
          (fun _ v => Onward geo w₀ S v ∧ (v.heap i).answered = false)
          (fun _ v => Onward geo w₀ S v) := by
        refine runs_sleep (fun ht' => ⟨h₃.push ht' ?_, hflag₂⟩) ?_
        · intro k hk; exact hk
        · intro r ht' e he _ _
          exact (h₃.push ht' (by intro k hk; exact hk)).push he
            (by intro k hk; exact hk)
      split
      case isTrue =>
        simp only [runs_bind, runs_peer, runs_raise]
        exact h₃.push _ (by intro k hk; exact hk)
      case isFalse =>
        refine hsleep.bind (fun _ v hv => ih _ v hv.1 hv.2) fun _ _ hv => hv

-- ============================================================= the STAT

/-- Nothing has moved; a STAT that may be out is one of `l`'s, on the
connection the peer is about to lose. -/
structure Loose (geo : PeerId → Geometry) (w₀ : World env) (S l : List Share)
    (w : World env) : Prop where
  since : w₀.tr <+: w.tr
  past : Unseen geo w₀.tr w.tr
  geometry : ∀ s ∈ S, (w.heap s.1).geometry = geo s.1
  loose : ∀ i, (w.line geo i).Pending → i ∈ l.map Prod.fst ∧
    (w.heap i).answered = false ∧ ∃ c, c.peer = i ∧
      (w.heap i).sock = some c ∧ (w.line geo i).conn = some c

variable {l : List Share} {ans : List UInt8}

/-- Where nothing is asked, whoever is left may be let go. -/
theorem Onward.loose (h : Onward geo w₀ S w) : Loose geo w₀ S l w :=
  ⟨h.since, h.past, h.geometry, fun i hi => absurd hi (h.still i)⟩

/-- `got` of the answer to the STAT on `c` is in. -/
structure Midway (geo : PeerId → Geometry) (w₀ : World env) (S : List Share)
    (i : PeerId) (c : ConnId) (req got : List UInt8) (w : World env) :
    Prop where
  since : w₀.tr <+: w.tr
  past : Unseen geo w₀.tr w.tr
  geometry : ∀ s ∈ S, (w.heap s.1).geometry = geo s.1
  still : ∀ j, j ≠ i → ¬ (w.line geo j).Pending
  sock : (w.heap i).sock = some c
  flag : (w.heap i).answered = false
  peer : c.peer = i
  conn : (w.line geo i).conn = some c
  fresh : (w.line geo i).fresh = true
  done : (w.line geo i).done = []
  phase : (w.line geo i).phase = .asked req got
  op : opOf req = OP_STAT

/-- An entry that moves no byte shows nothing. -/
theorem Unseen.mute {x : Ev} (h : Unseen geo tr₀ tr) (hp : tr₀ <+: tr)
    (hx : x.Mute) : Unseen geo tr₀ (tr ++ [x]) := by
  apply h.snoc
  intro i
  rw [line_snoc, lineStep_of_mute hx]
  exact h.now hp i

/-- The history still begins where it did. -/
theorem prefix_push {x : Ev} (h : tr₀ <+: w.tr) (he) :
    tr₀ <+: (w.push x he).tr := by
  rw [World.push_tr]
  exact h.trans (List.prefix_append _ _)

/-- `Unseen.mute` for a state. -/
theorem Unseen.push {x : Ev} (h : Unseen geo tr₀ w.tr) (hp : tr₀ <+: w.tr)
    (he) (hx : x.Mute) : Unseen geo tr₀ (w.push x he).tr := by
  rw [World.push_tr]
  exact h.mute hp hx

/-- Entries that move no byte leave the peers let go as they are. -/
theorem Loose.push {x : Ev} (h : Loose geo w₀ S l w) (he) (hx : x.Mute) :
    Loose geo w₀ S l (w.push x he) := by
  refine ⟨prefix_push h.since he, h.past.push h.since he hx, h.geometry,
    fun i hi => ?_⟩
  rw [line_mute he hx] at hi ⊢
  exact h.loose i hi

/-- Entries that move no byte leave a STAT owed. -/
theorem Midway.push {x : Ev} (h : Midway geo w₀ S i c req got w) (he)
    (hx : x.Mute) : Midway geo w₀ S i c req got (w.push x he) := by
  have hl : ∀ j, (w.push x he).line geo j = w.line geo j := line_mute he hx
  exact ⟨prefix_push h.since he, h.past.push h.since he hx, h.geometry,
    fun j hj => by rw [hl]; exact h.still j hj, h.sock, h.flag, h.peer,
    by rw [hl]; exact h.conn, by rw [hl]; exact h.fresh,
    by rw [hl]; exact h.done, by rw [hl]; exact h.phase, h.op⟩

/-- A field that has no part in it may be edited while a STAT is owed. -/
theorem Midway.edit {p : Peer} (h : Midway geo w₀ S i c req got w)
    (hg : p.geometry = (w.heap i).geometry)
    (hs : p.sock = (w.heap i).sock) (ha : p.answered = (w.heap i).answered) :
    Midway geo w₀ S i c req got (w.setPeer i p) := by
  refine ⟨h.since, h.past, geometry_setPeer h.geometry hg, h.still, ?_, ?_,
    h.peer, h.conn, h.fresh, h.done, h.phase, h.op⟩
  · rw [World.setPeer_self, hs]
    exact h.sock
  · rw [World.setPeer_self, ha]
    exact h.flag

/-- A peer that owes a STAT may be let go. -/
theorem Midway.loose (h : Midway geo w₀ S i c req got w)
    (hi : i ∈ l.map Prod.fst) : Loose geo w₀ S l w := by
  refine ⟨h.since, h.past, h.geometry, fun j hj => ?_⟩
  by_cases hji : j = i
  · subst hji
    exact ⟨hi, h.flag, c, h.peer, h.sock, h.conn⟩
  · exact absurd hj (h.still j hji)

/-- Entries that move no byte leave a new connection new. -/
theorem Opened.push {x : Ev} (h : Opened geo w₀ S i c w) (he)
    (hx : x.Mute) : Opened geo w₀ S i c (w.push x he) := by
  have hl : (w.push x he).line geo i = w.line geo i := line_mute he hx i
  have hno : ∀ k, ¬ x.StatTo k := by
    intro k hk
    cases x with
    | send c d r => exact hx
    | _ => exact hk
  exact ⟨h.toOnward.push he hno, h.sock, h.flag, h.peer,
    by rw [hl]; exact h.conn, by rw [hl]; exact h.fresh,
    by rw [hl]; exact h.done⟩

/-- A field that has no part in it may be edited on a new connection. -/
theorem Opened.edit {p : Peer} (h : Opened geo w₀ S i c w)
    (hg : p.geometry = (w.heap i).geometry)
    (hs : p.sock = (w.heap i).sock) (ha : p.answered = (w.heap i).answered) :
    Opened geo w₀ S i c (w.setPeer i p) := by
  refine ⟨h.toOnward.setPeer hg, ?_, ?_, h.peer, h.conn, h.fresh, h.done⟩
  · rw [World.setPeer_self, hs]
    exact h.sock
  · rw [World.setPeer_self, ha]
    exact h.flag

/-- A request id may be drawn for a new connection. -/
theorem Opened.draw (h : Opened geo w₀ S i c w) :
    Opened geo w₀ S i c (w.draw i) := by
  have hl : (w.draw i).line geo i = _ := line_draw w i
  exact ⟨h.toOnward.draw i, h.sock, h.flag, h.peer,
    by rw [hl]; exact h.conn, by rw [hl]; exact h.fresh,
    by rw [hl]; exact h.done⟩

/-- The line of another peer takes no part. -/
theorem line_other {x : Ev} (he) (hx : x.Of {i}) {k : PeerId} (hk : k ≠ i) :
    (w.push x he).line geo k = w.line geo k := by
  unfold World.line
  rw [World.push_tr, line_snoc]
  exact lineStep_of_other (S := {i}) hk hx _

/-- What an entry about peer `i` alone keeps, where it shows nothing. -/
theorem Unseen.about {x : Ev} (h : Unseen geo tr₀ w.tr)
    (hp : tr₀ <+: w.tr) (he) (hx : x.Of {i})
    (hm : ¬ (line (geo i) i tr₀).Strayed (geo i)
      ((w.push x he).line geo i)) :
    Unseen geo tr₀ (w.push x he).tr := by
  have htr : (w.push x he).tr = w.tr ++ [x] := w.push_tr x he
  rw [htr]
  refine h.snoc fun k => ?_
  rw [← htr]
  by_cases hk : k = i
  · subst hk
    exact hm
  · have hl : (w.push x he).line geo k = w.line geo k := line_other he hx hk
    rw [show line (geo k) k (w.push x he).tr = (w.push x he).line geo k from
      rfl, hl]
    exact h.now hp k

/-- Sending the STAT. -/
theorem sendBare_midway {id : Nat} (h : Opened geo w₀ S i c w)
    (hi : i ∈ l.map Prod.fst) :
    Runs (Peer.sendBare i OP_STAT id) w
      (fun _ w' => ∃ req, Midway geo w₀ S i c req [] w')
      (fun _ w' => Loose geo w₀ S l w') := by
  unfold Peer.sendBare
  cases hpack : Peer.packRequest OP_STAT 0 id 0 with
  | none =>
      have hv := h.push (env.produces_raised w.tr .structError) trivial
      exact hv.toOnward.loose
  | some hdr =>
      obtain ⟨-, hasks⟩ := packRequest_asks hpack
        (show ([] : List UInt8).length = 4 * 0 from rfl)
      rw [List.append_nil] at hasks
      have harm : Stays (Opened geo w₀ S i c) (fun _ => Loose geo w₀ S l)
          (Peer.arm i : M env _) :=
        arm_stays (fun v x he hv hx => hv.push he hx)
          (fun v a hv => hv.edit rfl rfl rfl)
          fun v e he hv => (hv.push he trivial).toOnward.loose
      unfold Peer.sendall
      simp only [runs_bind]
      refine (harm w h).mono ?_ fun _ _ hv => hv
      intro _ v hv
      rw [runs_socket hv.sock]
      simp only [runs_sysSend]
      intro r hr
      have hof : (Ev.send c hdr r).Of {i} := by
        intro c' hc'
        cases hc'
        exact hv.peer
      have hline : (v.push (.send c hdr r) hr).line geo i
          = (v.line geo i).onSend (geo i) c hdr r := by
        unfold World.line
        rw [World.push_tr, line_snoc, lineStep, if_pos hv.peer]
      have hunmoved : ¬ (line (geo i) i w₀.tr).Strayed (geo i)
          ((v.push (.send c hdr r) hr).line geo i) := by
        rw [hline]
        exact Line.not_strayed_of_done hv.done
      have hpast := hv.past.about hv.since hr hof hunmoved
      have hstill : ∀ k, k ≠ i →
          ¬ ((v.push (.send c hdr r) hr).line geo k).Pending := by
        intro k hk
        rw [line_other hr hof hk]
        exact hv.still k
      have hfail : r ≠ .all →
          Loose geo w₀ S l (v.push (.send c hdr r) hr) := by
        intro hne
        refine ⟨prefix_push hv.since hr, hpast, hv.geometry, fun k hk => ?_⟩
        by_cases hki : k = i
        · subst hki
          rw [hline] at hk
          obtain ⟨req, got, hph, hop, hlt⟩ := hk
          refine absurd ⟨req, got, ?_, hop, hlt⟩ (hv.still k)
          cases r with
          | all => exact absurd rfl hne
          | fault why n => cases hph
          | interrupt n =>
              simp only [Line.onSend] at hph
              split at hph
              · exact hph
              · cases hph
        · exact absurd hk (hstill k hki)
      cases r with
      | fault why n => exact (hfail (by simp)).push _ trivial
      | interrupt n => exact (hfail (by simp)).push _ trivial
      | all =>
          simp only [runs_pure, runs_modifyPeer]
          refine ⟨hdr, Midway.edit ⟨prefix_push hv.since hr, hpast,
            hv.geometry, hstill, hv.sock, hv.flag, hv.peer, ?_, ?_, ?_, ?_,
            hasks.op⟩ rfl rfl rfl⟩
          all_goals rw [hline]
          · exact hv.conn
          · exact hv.fresh
          · exact hv.done
          · rfl

/-- The whole answer is in: nothing moved until its last bytes came, and
what they may have shown. -/
structure Full (geo : PeerId → Geometry) (w₀ : World env) (S : List Share)
    (i : PeerId) (ans : List UInt8) (w : World env) : Prop where
  last : ∃ tr x, w.tr = tr ++ [x] ∧ w₀.tr <+: tr ∧ Unseen geo w₀.tr tr
  geometry : ∀ s ∈ S, (w.heap s.1).geometry = geo s.1
  still : ∀ j, ¬ (w.line geo j).Pending
  others : ∀ j, j ≠ i →
    ¬ (line (geo j) j w₀.tr).Strayed (geo j) (w.line geo j)
  fresh : (w.line geo i).fresh = true
  shown : (w.line geo i).Moved (geo i) → statGeometry ans ≠ geo i

/-- The connection asked is new, so what it showed since is all it
showed. -/
theorem Full.moved_iff (h : Full geo w₀ S i ans w) (l₀ : Line) :
    l₀.Strayed (geo i) (w.line geo i) ↔ (w.line geo i).Moved (geo i) := by
  refine ⟨fun hs => ⟨h.fresh, ?_⟩, fun hm => Line.strayed_of_moved hm l₀⟩
  obtain ⟨x, hx, hop⟩ := hs
  exact ⟨x, Line.since_subset l₀ _ hx, hop⟩

/-- An answer that shows the range on record is nothing to stop for. -/
theorem Full.onward (h : Full geo w₀ S i ans w)
    (hm : ¬ (w.line geo i).Moved (geo i)) : Onward geo w₀ S w := by
  obtain ⟨tr, x, htr, hpre, hpast⟩ := h.last
  refine ⟨⟨?_, ?_, h.still⟩, h.geometry⟩
  · rw [htr]
    exact hpre.trans (List.prefix_append _ _)
  · rw [htr]
    refine hpast.snoc fun k => ?_
    rw [← htr]
    by_cases hk : k = i
    · subst hk
      exact mt (h.moved_iff _).mp hm
    · exact h.others k hk

/-- An answer to a STAT that has come in so far, or in full. -/
def Incoming (geo : PeerId → Geometry) (w₀ : World env) (S : List Share)
    (i : PeerId) (c : ConnId) (req ans : List UInt8) (w : World env) : Prop :=
  (ans.length < HEADER + STAT_BODY → Midway geo w₀ S i c req ans w) ∧
    (ans.length = HEADER + STAT_BODY → Full geo w₀ S i ans w)

section Receive

variable {want : Nat} {r : Got}

/-- What a receive of the answer makes of the line it is on. -/
theorem Midway.recv_line (h : Midway geo w₀ S i c req got w) (hr) :
    (w.push (.recv c want r) hr).line geo i
      = (w.line geo i).onRecv (geo i) c r := by
  unfold World.line
  rw [World.push_tr, line_snoc, lineStep, if_pos h.peer]

/-- What is read is read from the peer. -/
theorem Midway.recv_of (h : Midway geo w₀ S i c req got w) :
    (Ev.recv c want r).Of {i} := by
  intro c' hc'
  cases hc'
  exact h.peer

/-- The other lines are as they were. -/
theorem Midway.recv_still (h : Midway geo w₀ S i c req got w) (hr) {k : PeerId}
    (hk : k ≠ i) : ¬ ((w.push (.recv c want r) hr).line geo k).Pending := by
  rw [line_other hr h.recv_of hk]
  exact h.still k hk

/-- A receive that ends the answer where it is, or in doubt. -/
theorem Midway.lost (h : Midway geo w₀ S i c req got w)
    (hi : i ∈ l.map Prod.fst) (hr)
    (hsame : (w.line geo i).onRecv (geo i) c r = w.line geo i ∨
      (w.line geo i).onRecv (geo i) c r
        = { w.line geo i with phase := .doubt }) :
    Loose geo w₀ S l (w.push (.recv c want r) hr) := by
  have hline := h.recv_line hr
  have hunmoved : ¬ (line (geo i) i w₀.tr).Strayed (geo i)
      ((w.push (.recv c want r) hr).line geo i) := by
    rw [hline]
    rcases hsame with hs | hs <;> rw [hs] <;>
      exact Line.not_strayed_of_done h.done
  refine ⟨prefix_push h.since hr, h.past.about h.since hr h.recv_of hunmoved,
    h.geometry, fun k hk => ?_⟩
  by_cases hki : k = i
  · subst hki
    refine ⟨hi, h.flag, c, h.peer, h.sock, ?_⟩
    rw [hline]
    rcases hsame with hs | hs <;> rw [hs] <;> exact h.conn
  · exact absurd hk (h.recv_still hr hki)

/-- One that brings more of it. -/
theorem Midway.more {bs : List UInt8} (h : Midway geo w₀ S i c req got w) (hr)
    (hline : (w.push (.recv c want r) hr).line geo i
      = (w.line geo i).upTo (geo i) req (got ++ bs))
    (hlt : (got ++ bs).length < HEADER + STAT_BODY) :
    Midway geo w₀ S i c req (got ++ bs) (w.push (.recv c want r) hr) := by
  have hnot : ¬ accepted (geo i).rowBytes req (got ++ bs) = true := by
    intro hacc
    have := length_of_accepted hacc h.op
    omega
  rw [Line.upTo, if_neg hnot] at hline
  refine ⟨prefix_push h.since hr, h.past.about h.since hr h.recv_of ?_,
    h.geometry, fun k hk => h.recv_still hr hk, h.sock, h.flag, h.peer,
    ?_, ?_, ?_, ?_, h.op⟩
  · rw [hline]
    exact Line.not_strayed_of_done h.done
  all_goals rw [hline]
  · exact h.conn
  · exact h.fresh
  · exact h.done

/-- One that brings the last of it. -/
theorem Midway.full {bs : List UInt8} (h : Midway geo w₀ S i c req got w) (hr)
    (hline : (w.push (.recv c want r) hr).line geo i
      = (w.line geo i).upTo (geo i) req (got ++ bs))
    (hfull : (got ++ bs).length = HEADER + STAT_BODY) :
    Full geo w₀ S i (got ++ bs) (w.push (.recv c want r) hr) := by
  have hdone : ∀ x ∈ (w.line geo i).done, False := by
    rw [h.done]
    intro x hx
    cases hx
  refine ⟨⟨w.tr, _, World.push_tr _ _ _, h.since, h.past⟩, h.geometry,
    fun k => ?_, fun k hk => ?_, ?_, ?_⟩
  · by_cases hki : k = i
    · subst hki
      rw [hline, Line.upTo]
      split
      · exact not_pending_of_phase fun _ _ h => by cases h
      · rintro ⟨req', got', hph, -, hlt⟩
        obtain ⟨-, rfl⟩ := Phase.asked.inj hph
        omega
    · exact h.recv_still hr hki
  · rw [line_other hr h.recv_of hk]
    exact h.past.now h.since k
  · rw [hline, Line.upTo]
    split <;> exact h.fresh
  · rw [hline, Line.upTo]
    split
    · rintro ⟨-, x, hx, -, hne⟩
      rcases List.mem_append.mp hx with hx | hx
      · exact absurd hx fun hx => hdone x hx
      · obtain rfl := List.mem_singleton.mp hx
        exact hne
    · rintro ⟨-, x, hx, -⟩
      exact absurd hx fun hx => hdone x hx

end Receive

/-- One receive of its answer. -/
theorem recv_reads {want : Nat} (h : Midway geo w₀ S i c req got w)
    (hi : i ∈ l.map Prod.fst) :
    Runs (Peer.recv i want) w
      (fun bs w' => bs.length ≤ want ∧ (bs = [] → Loose geo w₀ S l w') ∧
        (bs ≠ [] → Incoming geo w₀ S i c req (got ++ bs) w'))
      (fun _ w' => Loose geo w₀ S l w') := by
  have harm : Stays (Midway geo w₀ S i c req got)
      (fun _ => Loose geo w₀ S l) (Peer.arm i : M env _) :=
    arm_stays (fun v x he hv hx => hv.push he hx)
      (fun v a hv => hv.edit rfl rfl rfl)
      fun v e he hv => (hv.push he trivial).loose hi
  unfold Peer.recv
  simp only [runs_bind]
  refine (harm w h).mono ?_ fun _ _ hv => hv
  intro _ v hv
  simp only [runs_peer]
  rw [runs_socket hv.sock]
  simp only [runs_sysRecv]
  intro r hr
  have hclip : r = (env.recv v.tr c want).clip want := hr
  cases r with
  | timeout =>
      refine (hv.lost hi hr (.inr ?_)).push _ trivial
      simp [Line.onRecv, hv.phase, hv.conn]
  | fault why =>
      refine (hv.lost hi hr (.inr ?_)).push _ trivial
      simp [Line.onRecv, hv.phase, hv.conn]
  | interrupt =>
      refine (hv.lost hi hr (.inl ?_)).push _ trivial
      simp [Line.onRecv, hv.phase, hv.conn]
  | data bs =>
      have hon : (v.line geo i).onRecv (geo i) c (.data bs)
          = if bs = [] then { v.line geo i with phase := .doubt }
            else (v.line geo i).upTo (geo i) req (got ++ bs) := by
        simp [Line.onRecv, hv.phase, hv.conn]
      simp only [runs_pure]
      have hlen : bs.length ≤ want := by
        cases hrec : env.recv v.tr c want with
        | data bs' =>
            rw [hrec] at hclip
            obtain rfl := Got.data.inj hclip
            exact List.length_take_le _ _
        | _ => rw [hrec] at hclip; cases hclip
      refine ⟨hlen, fun hnil => hv.lost hi hr (.inr ?_), fun hne => ?_⟩
      · rw [hon, if_pos hnil]
      · have hline := hv.recv_line hr
        rw [hon, if_neg hne] at hline
        exact ⟨fun hlt => hv.more hr hline hlt,
          fun hfull => hv.full hr hline hfull⟩

/-- An exact read of the next part of it. -/
theorem recvLoop_reads {want : Nat} (pre : List UInt8)
    (hi : i ∈ l.map Prod.fst)
    (hwant : pre.length + want ≤ HEADER + STAT_BODY) :
    ∀ (rounds : Nat) (got : List UInt8) (w : World env),
      Incoming geo w₀ S i c req (pre ++ got) w → got.length ≤ want →
      Runs (Peer.recvLoop i want rounds got) w
        (fun bs w' => bs.length = want ∧
          Incoming geo w₀ S i c req (pre ++ bs) w')
        (fun _ w' => Loose geo w₀ S l w') := by
  intro rounds
  induction rounds with
  | zero =>
      intro got w h hle
      unfold Peer.recvLoop
      split
      case isTrue hge => exact ⟨Nat.le_antisymm hle hge, h⟩
      case isFalse hlt =>
        have hmid := h.1 (by rw [List.length_append]; omega)
        exact (hmid.loose hi).push _ trivial
  | succ rounds ih =>
      intro got w h hle
      unfold Peer.recvLoop
      split
      case isTrue hge => exact ⟨Nat.le_antisymm hle hge, h⟩
      case isFalse hlt =>
        have hmid := h.1 (by rw [List.length_append]; omega)
        simp only [runs_bind]
        refine (recv_reads hmid hi).mono ?_ fun _ _ hv => hv
        rintro bs v ⟨hbs, hnil, hne⟩
        split
        case isTrue hb =>
          simp only [runs_bind, runs_peer, runs_raise]
          exact (hnil hb).push _ trivial
        case isFalse hb =>
          refine ih (got ++ bs) v ?_ ?_
          · rw [← List.append_assoc]
            exact hne hb
          · rw [List.length_append]
            omega

/-- More of the answer may come in. -/
theorem Midway.reads (h : Midway geo w₀ S i c req got w)
    (hlt : got.length < HEADER + STAT_BODY) :
    Incoming geo w₀ S i c req got w :=
  ⟨fun _ => h, fun heq => absurd heq (by omega)⟩

/-- The header. -/
theorem readHeader_reads (h : Midway geo w₀ S i c req [] w)
    (hi : i ∈ l.map Prod.fst) :
    Runs (Peer.readHeader i) w
      (fun _ w' => ∃ hdr, hdr.length = HEADER ∧
        Midway geo w₀ S i c req hdr w')
      (fun _ w' => Loose geo w₀ S l w') := by
  unfold Peer.readHeader Peer.recvExact
  simp only [runs_bind]
  have hstart : Incoming geo w₀ S i c req ([] ++ []) w :=
    h.reads (by decide)
  refine (recvLoop_reads [] hi (by decide) HEADER [] w hstart
    (by decide)).mono ?_ fun _ _ hv => hv
  rintro hdr v ⟨hlen, hreads⟩
  rw [List.nil_append] at hreads
  have hmid := hreads.1 (by rw [hlen]; decide)
  split
  case h_2 => exact (hmid.loose hi).push _ trivial
  case h_1 =>
    unfold Peer.checkHeader
    simp only [runs_bind, runs_peer]
    split
    case isTrue =>
      simp only [runs_bind, runs_raise]
      exact (hmid.loose hi).push _ trivial
    case isFalse =>
      split
      case isTrue =>
        simp only [runs_bind, runs_raise]
        exact (hmid.loose hi).push _ trivial
      case isFalse =>
        simp only [runs_bind, runs_modifyPeer]
        have hedit := hmid.edit (p := { v.heap i with pending := none })
          rfl rfl rfl
        split
        case isTrue =>
          simp only [runs_bind, runs_raise]
          exact (hedit.loose hi).push _ trivial
        case isFalse => exact ⟨hdr, hlen, hedit⟩

/-- `query_stat` on a new connection: what it returns is what was shown. -/
theorem queryStat_full {id : Nat} (h : Opened geo w₀ S i c w)
    (hi : i ∈ l.map Prod.fst) :
    Runs (Peer.queryStat i id) w
      (fun st w' => ∃ ans, st.geometry = statGeometry ans ∧
        Full geo w₀ S i ans w')
      (fun _ w' => Loose geo w₀ S l w') := by
  unfold Peer.queryStat
  simp only [runs_bind]
  refine (sendBare_midway h hi).mono ?_ fun _ _ hv => hv
  rintro _ v ⟨req, hv⟩
  refine (readHeader_reads hv hi).mono ?_ fun _ _ hx => hx
  rintro n u ⟨hdr, hlen, hu⟩
  split
  case isTrue =>
    simp only [runs_bind, runs_peer, runs_raise]
    exact (hu.loose hi).push _ trivial
  case isFalse =>
    simp only [runs_bind]
    unfold Peer.recvExact
    have hstart : Incoming geo w₀ S i c req (hdr ++ []) u := by
      rw [List.append_nil]
      exact hu.reads (by rw [hlen]; decide)
    refine (recvLoop_reads hdr hi (by rw [hlen]) STAT_BODY [] u hstart
      (by decide)).mono ?_ fun _ _ hx => hx
    rintro body x ⟨hbody, hreads⟩
    rw [unpackStat_eq hlen hbody]
    simp only [runs_bind, runs_peer, runs_pure]
    refine ⟨hdr ++ body, rfl, hreads.2 ?_⟩
    rw [List.length_append, hlen, hbody]

/-- The exception that follows the answer which showed the move, with
nothing in between. -/
def Told (geo : PeerId → Geometry) (w₀ : World env) (S : List Share)
    (e : Exn) (w : World env) : Prop :=
  ∃ tr x i, w.tr = tr ++ [x, .raised e] ∧ w₀.tr <+: tr ∧
    Unmoved geo w₀.tr tr ∧ i ∈ S.map Prod.fst ∧
    (line (geo i) i (tr ++ [x])).Moved (geo i) ∧
    ∃ name base rows, e = .movedRange name (geo i).baseRow (geo i).rowCount
      base rows

/-- What is raised for a range is no OSError. -/
theorem Told.not_os (h : Told geo w₀ S e w) : e.isOS = false := by
  obtain ⟨tr, x, i, -, -, -, -, -, name, base, rows, rfl⟩ := h
  rfl

/-- How an attempt fails. -/
def Fallen (geo : PeerId → Geometry) (w₀ : World env) (S l : List Share)
    (e : Exn) (w : World env) : Prop :=
  Told geo w₀ S e w ∨ Loose geo w₀ S l w

/-- `_check_range`, on an answer just read in full. -/
theorem checkRange_told {st : Stat} {s : Share} (hs : s ∈ S)
    (h : Full geo w₀ S s.1 ans w) (hst : st.geometry = statGeometry ans) :
    Runs (RemoteTable.checkRange s.1 st) w (fun _ w' => Onward geo w₀ S w')
      (Fallen geo w₀ S l) := by
  have hgeo := h.geometry s hs
  unfold RemoteTable.checkRange
  simp only [runs_bind, runs_peer]
  split
  case isFalse heq =>
    rw [not_not, Prod.mk.injEq, Prod.mk.injEq] at heq
    obtain ⟨hb, hr, hrb⟩ := heq
    have hsame : statGeometry ans = geo s.1 := by
      rw [← hst, ← hgeo]
      unfold Stat.geometry Peer.geometry
      rw [hb, hr, hrb]
    simp only [runs_modifyPeer]
    exact (h.onward fun hm => h.shown hm hsame).setPeer rfl
  case isTrue =>
    simp only [runs_bind, runs_raise]
    by_cases hm : (w.line geo s.1).Moved (geo s.1)
    · obtain ⟨tr, x, htr, hpre, hpast⟩ := h.last
      refine .inl ⟨tr, x, s.1, ?_, hpre, hpast.unmoved,
        List.mem_map.mpr ⟨s, hs, rfl⟩, ?_, (w.heap s.1).name, st.baseRow,
        st.rowCount, ?_⟩
      · rw [World.push_tr, htr]
        exact List.append_assoc _ _ _
      · rw [← htr]
        exact hm
      · rw [← hgeo]
        rfl
    · exact .inr ((h.onward hm).loose.push _ trivial)

/-- First pass of an attempt. -/
theorem ready_told {s : Share} (hs : s ∈ S) (hl : s ∈ l) :
    Stays (Onward geo w₀ S) (Fallen geo w₀ S l)
      (RemoteTable.ready D s : M env _) := by
  intro w h
  have hi : s.1 ∈ l.map Prod.fst := List.mem_map.mpr ⟨s, hl, rfl⟩
  unfold RemoteTable.ready
  simp only [runs_bind, runs_modifyPeer, runs_peer, World.setPeer_self]
  have h₁ : Onward geo w₀ S
      (w.setPeer s.1 { w.heap s.1 with answered := false }) := h.setPeer rfl
  split
  case h_1 => exact h₁
  case h_2 =>
    simp only [runs_bind]
    refine (connectLoop_opens env.rounds (1 / 2) _ h₁ (by
      rw [World.setPeer_self])).mono ?_ fun _ _ hv => .inr hv.loose
    rintro _ v ⟨c, hv⟩
    rw [runs_nextReqId]
    refine (queryStat_full hv.draw hi).mono ?_ fun _ _ hx => .inr hx
    rintro st u ⟨ans, hst, hu⟩
    exact checkRange_told hs hu hst

-- ============================================================== handling

/-- The mark of a handled fault. -/
theorem Loose.caught {es : List PeerId} (h : Loose geo w₀ S l w) (he) :
    Loose geo w₀ S l (w.push (.caught e es) he) := by
  have hl : ∀ k, (w.push (.caught e es) he).line geo k = w.line geo k ∨
      (w.push (.caught e es) he).line geo k
        = { w.line geo k with phase := .doubt } := by
    intro k
    unfold World.line
    rw [World.push_tr, line_snoc]
    simp only [lineStep, Line.onCaught]
    split
    · split
      · exact .inl rfl
      · split
        · exact .inl rfl
        · exact .inr rfl
    · exact .inl rfl
  refine ⟨prefix_push h.since he, ?_, h.geometry, fun k hk => ?_⟩
  · rw [World.push_tr]
    refine h.past.snoc fun k hm => ?_
    rw [← World.push_tr w _ he] at hm
    refine h.past.now h.since k ?_
    rcases hl k with hk | hk <;> unfold World.line at hk <;> rw [hk] at hm
    · exact hm
    · exact hm
  · rcases hl k with heq | heq <;> rw [heq] at hk ⊢
    · exact h.loose k hk
    · obtain ⟨req, got, hp, -⟩ := hk
      cases hp

/-- Closing the first of those in doubt. -/
theorem close_loose {s : Share} (h : Loose geo w₀ S (s :: l) w) :
    Runs (Peer.close s.1 true) w (fun _ w' => Loose geo w₀ S l w')
      (fun _ _ => False) := by
  unfold Peer.close
  simp only [runs_bind, runs_peer, runs_modifyPeer]
  set v := w.setPeer s.1 { w.heap s.1 with sock := none, pending := none }
    with hv
  have hgeo : ∀ x ∈ S, (v.heap x.1).geometry = geo x.1 :=
    geometry_setPeer h.geometry rfl
  have hother : ∀ k, k ≠ s.1 → v.heap k = w.heap k := fun k hk => by
    rw [hv, World.setPeer_ne _ hk]
  have hrest : ∀ k, k ≠ s.1 → k ∈ (s :: l).map Prod.fst →
      k ∈ l.map Prod.fst := by
    intro k hk hmem
    rw [List.map_cons, List.mem_cons] at hmem
    exact hmem.resolve_left hk
  split
  case h_1 hsock =>
    refine ⟨h.since, h.past, hgeo, fun k hk => ?_⟩
    obtain ⟨hmem, hflag, c, hc, hs, hconn⟩ := h.loose k hk
    have hne : k ≠ s.1 := by
      rintro rfl
      rw [hsock] at hs
      cases hs
    exact ⟨hrest k hne hmem, by rw [hother k hne]; exact hflag, c, hc,
      by rw [hother k hne]; exact hs, hconn⟩
  case h_2 c hsock =>
    simp only [runs_sysClose]
    have he := env.produces_close v.tr c true
    have hl : ∀ k, (v.push (.close c true) he).line geo k
        = if c.peer = k then (w.line geo k).onClose c else w.line geo k := by
      intro k
      unfold World.line
      rw [World.push_tr, line_snoc]
      rfl
    have hquiet : ∀ k, ((v.push (.close c true) he).line geo k).Pending →
        (w.line geo k).Pending ∧
          (v.push (.close c true) he).line geo k = w.line geo k := by
      intro k hk
      have hlk := hl k
      split at hlk
      · unfold Line.onClose at hlk
        split at hlk
        · rw [hlk] at hk
          obtain ⟨req, got, hp, -⟩ := hk
          cases hp
        · rw [hlk] at hk
          exact ⟨hk, hlk⟩
      · rw [hlk] at hk
        exact ⟨hk, hlk⟩
    refine ⟨prefix_push (w := v) h.since he, ?_, hgeo, fun k hk => ?_⟩
    · rw [World.push_tr]
      have hpast : Unseen geo w₀.tr v.tr := h.past
      refine hpast.snoc fun k => ?_
      rw [← World.push_tr v _ he]
      have hlk := hl k
      unfold World.line at hlk
      rw [hlk]
      split
      · unfold Line.onClose
        split
        · exact Line.not_strayed_of_done rfl
        · exact h.past.now h.since k
      · exact h.past.now h.since k
    · obtain ⟨hpend, hsame⟩ := hquiet k hk
      obtain ⟨hmem, hflag, c', hc', hs, hconn⟩ := h.loose k hpend
      have hne : k ≠ s.1 := by
        rintro rfl
        obtain rfl : c = c' := Option.some.inj (hsock.symm.trans hs)
        have hlk := hl s.1
        rw [if_pos hc', hsame, Line.onClose, if_pos hconn] at hlk
        rw [hlk] at hpend
        obtain ⟨req, got, hp, -⟩ := hpend
        cases hp
      rw [hsame]
      refine ⟨hrest k hne hmem, ?_, c', hc', ?_, hconn⟩
      · show (v.heap k).answered = false
        rw [hother k hne]
        exact hflag
      · show (v.heap k).sock = some c'
        rw [hother k hne]
        exact hs

/-- Letting go of a peer closes its connection. -/
theorem closeEach_loose :
    ∀ (l : List Share) (w : World env), Loose geo w₀ S l w →
      Runs (forEach (fun s => Peer.close s.1 true) l) w
        (fun _ w' => Loose geo w₀ S [] w') (fun _ _ => False) := by
  intro l
  induction l with
  | nil => intro w h; exact h
  | cons s l ih =>
      intro w h
      unfold forEach
      simp only [runs_bind]
      exact (close_loose h).mono (fun _ v hv => ih v hv) fun _ _ hx => hx

/-- With nobody left to let go of, it can go on. -/
theorem Loose.onward (h : Loose geo w₀ S [] w) : Onward geo w₀ S w := by
  refine ⟨⟨h.since, h.past, fun k hk => ?_⟩, h.geometry⟩
  obtain ⟨hmem, -⟩ := h.loose k hk
  cases hmem

/-- The handler of a failed attempt never sees a move. -/
theorem giveUp_onward (k : Nat) (e : Exn) (h : Fallen geo w₀ S l e w)
    (he : e.isOS = true) :
    Runs (RemoteTable.giveUp k l D e) w
      (fun l' w' => Onward geo w₀ S w' ∧ ∀ s ∈ l', s ∈ l)
      (fun _ w' => Onward geo w₀ S w') := by
  have hloose : Loose geo w₀ S l w := by
    refine h.resolve_left fun ht => ?_
    rw [ht.not_os] at he
    cases he
  unfold RemoteTable.giveUp
  simp only [runs_bind, runs_mark, runs_get]
  have hmark := hloose.caught
    (env.produces_caught w.tr e (l.map Prod.fst))
  have hleft : Loose geo w₀ S (l.filter fun s => !(w.heap s.1).answered)
      (w.push (.caught e (l.map Prod.fst))
        (env.produces_caught w.tr e (l.map Prod.fst))) := by
    refine ⟨hmark.since, hmark.past, hmark.geometry, fun i hi => ?_⟩
    obtain ⟨hmem, hflag, hc⟩ := hmark.loose i hi
    obtain ⟨s, hs, rfl⟩ := List.mem_map.mp hmem
    have hf : (w.heap s.1).answered = false := hflag
    exact ⟨List.mem_map.mpr ⟨s, List.mem_filter.mpr ⟨hs, by simp [hf]⟩, rfl⟩,
      hflag, hc⟩
  refine (closeEach_loose _ _ hleft).mono ?_ fun _ _ hx => hx.elim
  intro _ v hv
  have hv := hv.onward
  split
  case isTrue =>
    exact hv.push (env.produces_raised v.tr e) (by intro k hk; exact hk)
  case isFalse =>
    simp only [runs_bind, runs_now]
    intro t ht
    have hv' := hv.push ht (by intro k hk; exact hk)
    split
    case isTrue =>
      exact hv'.push (env.produces_raised _ e) (by intro k hk; exact hk)
    case isFalse => exact ⟨hv', fun s hs => (List.mem_filter.mp hs).1⟩

-- ============================================================= attempts

/-- What a GATHER is sent as. -/
theorem opOf_gather {id count n : Nat} {hdr buf : List UInt8}
    (h : Peer.packRequest OP_GATHER 0 id count = some hdr) :
    opOf ((splice buf 0 hdr).take (HEADER + n)) ≠ OP_STAT := by
  obtain ⟨hlen, hasks⟩ := packRequest_asks h
    (show (List.replicate (4 * count) (0 : UInt8)).length = 4 * count from
      List.length_replicate)
  have hop : opOf hdr = OP_GATHER := by
    rw [← hasks.op]
    exact (natAt_append_left (by rw [hlen]; decide)).symm
  by_cases hroom : HEADER ≤ buf.length
  · have hpre : hdr <+: (splice buf 0 hdr).take (HEADER + n) := by
      have hsp : splice buf 0 hdr = hdr ++ buf.drop hdr.length := by
        rw [splice_eq (by rw [hlen]; omega), List.take_zero, List.nil_append,
          Nat.zero_add]
      rw [hsp, List.take_append, hlen, List.take_of_length_le (by omega)]
      exact List.prefix_append _ _
    have hsame : opOf ((splice buf 0 hdr).take (HEADER + n)) = opOf hdr :=
      natAt_of_initial hpre (by rw [hlen]; decide)
    rw [hsame, hop]
    decide
  · -- a buffer too small for the header holds a piece of it
    have hsp : splice buf 0 hdr = hdr.take buf.length := by
      unfold splice
      rw [List.take_zero, List.nil_append, List.take_append_of_le_length]
      rw [hlen]
      omega
    have hpre : (splice buf 0 hdr).take (HEADER + n) <+: hdr := by
      rw [hsp]
      exact (List.take_prefix _ _).trans (List.take_prefix _ _)
    set data := (splice buf 0 hdr).take (HEADER + n) with hdata
    by_cases hlong : 6 ≤ data.length
    · have hsame : opOf hdr = opOf data := natAt_of_initial hpre hlong
      rw [← hsame, hop]
      decide
    · have hnone : bytesAt data 5 1 = [] := by
        unfold bytesAt
        rw [List.drop_eq_nil_of_le (by omega), List.take_nil]
      have hzero : opOf data = 0 := by
        unfold opOf natAt
        rw [hnone]
        rfl
      rw [hzero]
      decide

/-- What the rest of an exchange does, it does without a STAT out. -/
theorem onward_calls : Calls (Onward geo w₀ S : World env → Prop)
    (Fallen geo w₀ S l) D l := by
  have hmute : ∀ {x : Ev}, x.Mute → ∀ k, ¬ x.StatTo k := by
    intro x hx k hk
    cases x with
    | send c d r => exact hx
    | _ => exact hk
  have hraise : ∀ (w : World env) (e : Exn) (he), Onward geo w₀ S w →
      Fallen geo w₀ S l e (w.push (.raised e) he) :=
    fun w e he hw => .inr (hw.push he (hmute trivial)).loose
  have harm : ∀ i, Stays (Onward geo w₀ S) (Fallen geo w₀ S l)
      (Peer.arm i : M env _) := fun i =>
    arm_stays (fun v x he hv hx => hv.push he (hmute hx))
      (fun v a hv => hv.setPeer rfl) fun v e he hv => hraise v e he hv
  have hpeer : ∀ i, Stays (Onward geo w₀ S) (Fallen geo w₀ S l)
      (peer i : M env _) := fun _ _ hw => hw
  have hsocket : ∀ i, Stays (Onward geo w₀ S) (Fallen geo w₀ S l)
      (Peer.socket i : M env _) := by
    intro i
    unfold Peer.socket
    refine .bind (hpeer i) fun p => ?_
    split
    · exact .pure _
    · exact fun w hw => hraise w _ _ hw
  refine ⟨fun w x he hw hx => hw.push he ?_, hraise, fun w i hw => hw.draw i,
    fun w i p _ hw hp => hw.setPeer hp.geometry, ?_, ?_, ?_⟩
  · intro k hk
    cases x with
    | send c d r => exact hx
    | _ => exact hk
  · intro s _ want
    unfold Peer.recv
    refine .bind (harm _) fun _ => .bind (hpeer _) fun p =>
      .bind (hsocket _) fun c => .bind ?_ fun r => ?_
    · intro w hw
      rw [runs_sysRecv]
      exact fun r hr => hw.push hr (by intro k hk; exact hk)
    · split
      · exact .pure _
      all_goals exact fun w hw => hraise w _ _ hw
  · intro s _ id
    unfold Peer.sendGather
    split
    case h_1 => exact fun w hw => hraise w _ _ hw
    case h_2 hdr hpack =>
      intro w hw
      simp only [runs_bind, runs_modifyPeer, runs_peer, World.setPeer_self]
      have hw₁ : Onward geo w₀ S (w.setPeer s.1 { w.heap s.1 with
        req := splice (w.heap s.1).req 0 hdr }) := hw.setPeer rfl
      have hsend : Stays (Onward geo w₀ S) (Fallen geo w₀ S l)
          (Peer.sendall s.1 ((splice (w.heap s.1).req 0 hdr).take
            (HEADER + 4 * s.2.length)) : M env _) := by
        unfold Peer.sendall
        refine .bind (harm _) fun _ => .bind (hsocket _) fun c =>
          .bind ?_ fun r => ?_
        · intro v hv
          rw [runs_sysSend]
          exact fun r hr => hv.push hr fun k hk => opOf_gather hpack hk.2
        · split
          · exact .pure _
          all_goals exact fun v hv => hraise v _ _ hv
      exact (hsend _ hw₁).mono (fun _ v hv => hv.setPeer rfl) fun _ _ h => h
  · intro w t ht cs r hr hw _
    exact (hw.push ht (by intro k hk; exact hk)).push hr
      (by intro k hk; exact hk)

/-- One attempt. -/
theorem attempt_told (hl : ∀ s ∈ l, s ∈ S) (n : Nat) :
    Stays (Onward geo w₀ S) (Fallen geo w₀ S l)
      (RemoteTable.attempt n l D : M env _) := by
  have h : Calls (Onward geo w₀ S : World env → Prop)
      (Fallen geo w₀ S l) D l := onward_calls
  unfold RemoteTable.attempt
  refine .bind (.forEach fun s hs => ready_told (hl s hs) hs) fun _ => ?_
  refine .bind (.forEach fun s hs => h.ask hs) fun _ => ?_
  refine .bind (.forEach fun s hs => h.beginRows hs _) fun _ => ?_
  refine .bind (h.finish fun s hs => hs) fun _ => ?_
  exact .ite (fun _ => .bind h.now fun _ => .pure _) fun _ => .pure _

/-- How an exchange or a gather fails: right after an answer that shows a
move, or without one. -/
def Sighted (geo : PeerId → Geometry) (w₀ : World env) (S : List Share)
    (e : Exn) (w : World env) : Prop :=
  Told geo w₀ S e w ∨ Unseen geo w₀.tr w.tr

/-- An attempt that failed has told of a move, or has seen none. -/
theorem Fallen.sighted (h : Fallen geo w₀ S l e w) : Sighted geo w₀ S e w :=
  h.imp_right fun hl => hl.past

/-- All of them. -/
theorem attempts_told :
    ∀ (left : Nat) (l : List Share), (∀ s ∈ l, s ∈ S) →
      Stays (Onward geo w₀ S) (Sighted geo w₀ S)
        (RemoteTable.attempts D left l : M env _) := by
  intro left
  induction left with
  | zero => intro l _; exact .pure _
  | succ left ih =>
      intro l hl w hw
      unfold RemoteTable.attempts
      simp only [runs_bind, runs_mark]
      have hmark := hw.push (env.produces_attempt w.tr
        (GATHER_ATTEMPTS - left) (l.map Prod.fst)) (by intro k hk; exact hk)
      refine Runs.catching (attempt_told hl _ _ hmark) ?_ ?_
      · intro e v hv he
        simp only [runs_bind]
        refine (giveUp_onward _ e hv he).mono ?_ fun _ _ hx => .inr hx.past
        intro l' u hu
        exact ih l' (fun s hs => hl s (hu.2 s hs)) u hu.1
      · exact fun e v hv _ => hv.sighted

-- ============================================================== gathers

/-- What was sighted is a matter of the history. -/
theorem Sighted.congr (h : Sighted geo w₀ S e w) (ht : w'.tr = w.tr) :
    Sighted geo w₀ S e w' := by
  unfold Sighted Told
  rw [ht]
  exact h

/-- `_exchange`. -/
theorem exchange_told (h : Onward geo w₀ S w) :
    Runs (RemoteTable.exchange S) w (fun _ w' => Level geo w₀ w')
      (Sighted geo w₀ S) := by
  unfold RemoteTable.exchange
  simp only [runs_bind, runs_now, runs_self, runs_modify, runs_cleaning]
  intro t ht
  have hnow := h.push ht (by intro k hk; exact hk)
  have hdated : Onward geo w₀ S (RemoteTable.setDeadlines S
      (some (t + (w.push (.now t) ht).table.gatherDeadline))
      (w.push (.now t) ht)) := by
    refine ⟨hnow.toLevel.congr rfl, fun s hs => ?_⟩
    unfold RemoteTable.setDeadlines
    simp only
    split
    · exact hnow.geometry s hs
    · exact hnow.geometry s hs
  refine (attempts_told GATHER_ATTEMPTS S (fun s hs => hs) _ hdated).mono ?_ ?_
  · intro _ v hv
    exact hv.toLevel.congr rfl
  · intro e v hv
    exact hv.congr rfl

/-- Off the network no range is seen. -/
theorem level_frames : Frames (Level geo w₀ : World env → Prop)
    (Sighted geo w₀ S) where
  frame w w' h hh _ _ := h.congr (by unfold World.tr; rw [hh])
  raised w e h := .inr (h.push _ (by intro k hk; exact hk)).past

/-- How a gather fails that sees a move, and any other. -/
def Exposed (geo : PeerId → Geometry) (w₀ : World env) (S : List Share)
    (e : Exn) (w : World env) : Prop :=
  Told geo w₀ S e w ∧ w.table.failed = some e.report ∨
    Unseen geo w₀.tr w.tr

/-- A call starts with nothing moved. -/
theorem Level.called (h : ∀ i, (w.line geo i).phase = .idle) :
    Level geo w.called w.called := by
  refine ⟨List.prefix_rfl, fun pre hlo hhi i => ?_, fun i => ?_⟩
  · obtain rfl : pre = w.called.tr :=
      List.Sublist.eq_of_length_le hhi.sublist hlo.length_le
    rw [show line (geo i) i w.called.tr = w.called.line geo i from rfl,
      line_called]
    rintro ⟨x, hx, -⟩
    simp [Line.since, Line.onCall] at hx
  · rw [line_called]
    refine not_pending_of_phase fun req got hp => ?_
    rw [show (w.line geo i).onCall.phase = (w.line geo i).phase from rfl,
      h i] at hp
    cases hp

variable {T : ℚ} {ids : List Int}

/-- `gather_cpu` under the lock. -/
theorem gatherLocked_moves (hs : Sound geo T w)
    (hidle : ∀ i, (w.line geo i).phase = .idle) :
    Runs (RemoteTable.gatherLocked ids) w
      (fun _ w' => Unseen geo w.called.tr w'.tr)
      (Exposed geo w.called (shares geo ids w.table.peers)) := by
  set S := shares geo ids w.table.peers with hS
  have hlev : Level geo w.called w.called := .called hidle
  have hfr : Frames (Level geo w.called : World env → Prop)
      (Sighted geo w.called S) := level_frames
  -- nothing that is no exchange shows a move
  have hpast : Frames (Level geo w.called : World env → Prop)
      (fun _ v => Unseen geo w.called.tr v.tr) :=
    ⟨(level_frames (S := S)).frame, fun v e hv =>
      (hv.push _ (by intro k hk; exact hk)).past⟩
  unfold RemoteTable.gatherLocked RemoteTable.partition
  simp only [runs_bind, runs_mark, runs_self]
  refine ((hpast.partitionLoop ids w.table.peers 0 0 w.called hlev).and
    (partitionLoop_spec ids w.table.peers [] 0 w.called
      hs.geometry ⟨w.table.sel, rfl, hs.sel⟩)).mono ?_ fun _ _ h => .inr h.1
  rintro n w₁ ⟨hlev₁, rfl, rfl, -⟩
  rw [List.nil_append]
  split
  case isTrue =>
    unfold RemoteTable.raiseUnroutable
    simp only [runs_bind, runs_self, runs_raise]
    exact .inr (hlev₁.push _ (by intro k hk; exact hk)).past
  case isFalse =>
    simp only [runs_bind, runs_self]
    set sel := w.table.peers.map fun i => (geo i).owned ids with hsel
    have hzip : w.table.peers.zip sel
        = w.table.peers.map fun i => (i, (geo i).owned ids) :=
      List.map_prod_left_eq_zip.symm
    have hfst : (w.table.peers.zip sel).map Prod.fst = w.table.peers := by
      rw [hzip, List.map_map]
      exact List.map_id _
    have hgeo : ∀ s ∈ w.table.peers.zip sel,
        ((w.called.withSel sel).heap s.1).geometry = geo s.1 :=
      fun s hmem => hs.geometry s.1 (hfst ▸ List.mem_map_of_mem hmem)
    have hwork : Runs (do
        let active ← RemoteTable.stageLoop ids (w.table.peers.zip sel)
        RemoteTable.exchange active
        RemoteTable.scatter active) (w.called.withSel sel)
        (fun _ v => Unseen geo w.called.tr v.tr)
        (Sighted geo w.called S) := by
      refine Runs.bind ((hfr.stageLoop ids _ _ hlev₁).and
        (stageLoop_spec _ _ (by rw [hfst]; exact hs.nodup)
          (fun s _ => hs.roomy s.1) hgeo)) ?_ fun _ _ hv => hv.1
      rintro todo v ⟨hv, rfl, hstock, -⟩
      have hact : active (w.table.peers.zip sel) = S := by
        rw [hS, shares, hzip]
      rw [hact]
      have hon : Onward geo w.called S v := by
        refine ⟨hv, fun s hmem => ?_⟩
        rw [hstock.geometry]
        exact hs.geometry s.1 (mem_shares.mp hmem).1
      refine (exchange_told hon).bind (fun _ u hu => ?_) fun _ _ hu => hu
      exact (hfr.scatter S u hu).mono (fun _ _ hx => hx.past) fun _ _ hx => hx
    refine Runs.catching hwork ?_ ?_
    · intro e v hv _
      unfold RemoteTable.poison
      simp only [runs_bind, runs_modifySelf, runs_throw]
      rcases hv with ht | hu
      · exact .inl ⟨ht, rfl⟩
      · exact .inr hu
    · intro e v hv hx
      rcases hv with ⟨tr, x, i, -, -, -, -, -, name, base, rows, rfl⟩ | hu
      · cases hx
      · exact .inr hu

variable {cfg : Config}

/-- A marked table refuses every gather that asks for rows, and nothing is
sent, read or drawn. -/
theorem gatherCpu_marked {why : String} (hf : w.table.failed = some why)
    (hids : ids ≠ []) :
    Runs (RemoteTable.gatherCpu ids) w (fun _ _ => False)
      (fun e w' => e = .unusable why ∧ w'.tr = w.tr ++ [.raised e] ∧
        w'.table.failed = some why) := by
  unfold RemoteTable.gatherCpu RemoteTable.gatherEnter
  simp only [runs_bind]
  refine Runs.mono (stagingFor_spec ids.length (E := fun _ _ => False)) ?_
    fun _ _ hno => hno.elim
  intro out v hv
  simp only [hids, if_false, runs_bind]
  have hfv : v.table.failed = some why := hv.failed.trans hf
  refine Runs.mono checkUsable_spec ?_ ?_
  · rintro _ v' ⟨-, hnone⟩
    rw [hfv] at hnone
    cases hnone
  · rintro e v' ⟨⟨why', hwhy, rfl⟩, rfl⟩
    obtain rfl : why = why' := Option.some.inj (hfv.symm.trans hwhy)
    refine ⟨rfl, ?_, hfv⟩
    rw [World.push_tr, hv.tr]

/-- What was not begun has seen nothing. -/
theorem Unseen.of_no_call {evs : Trace} (h : tr = w.tr ++ evs)
    (hno : Ev.call ∉ evs) : Unseen geo w.called.tr tr := by
  intro pre hlo hhi
  have hcall : w.tr ++ [.call] <+: w.tr ++ evs := h ▸ hlo.trans hhi
  rw [List.prefix_append_right_inj] at hcall
  exact absurd (hcall.subset (List.mem_singleton_self _)) hno

/-- `gather_cpu`, whatever state it is called in. -/
theorem gatherCpu_sees (hc : Constructed env cfg w₀)
    (hu : Used Outcome.Ordinary w₀ w) :
    Runs (RemoteTable.gatherCpu ids) w
      (fun _ w' => Unseen w₀.ranges w.called.tr w'.tr)
      (Exposed w₀.ranges w.called (shares w₀.ranges ids w.table.peers)) := by
  obtain ⟨hg, -⟩ := hu.good hc
  by_cases hids : ids = []
  · have hspec : Runs (RemoteTable.gatherCpu ids) w _ _ :=
      gatherCpu_spec hg.sound fun hf => (hg.synced hf).fit
    refine hspec.mono ?_ fun e w' h => absurd hids h.1
    rintro out w' ⟨v, hv, ⟨-, rfl⟩ | ⟨hne, -⟩⟩
    · exact .of_no_call (by rw [hv.tr, List.append_nil]) List.not_mem_nil
    · exact absurd hids hne
  cases hf : w.table.failed with
  | some why =>
      refine (gatherCpu_marked hf hids).mono (fun _ _ h => h.elim) ?_
      rintro e w' ⟨-, htr, -⟩
      exact .inr (.of_no_call htr (by simp))
  | none =>
      refine gatherCpu_enters hf hids fun out v hv => ?_
      have hlocked : Runs (RemoteTable.gatherLocked ids) v _ _ :=
        gatherLocked_moves (hv.sound hg.sound) fun i => by
          rw [hv.line]
          exact hu.idle hc hf i
      rw [setup_peers hv.setup] at hlocked
      refine hlocked.mono ?_ ?_
      · intro _ w' h
        rw [hv.called_tr] at h
        exact h
      · intro e w' h
        unfold Exposed Told at h ⊢
        rw [hv.called_tr] at h
        exact h

/-- A range that moved ends the gather it is seen in. However a call of
`gather_cpu` ends, either no STAT answered on a connection it opened shows
another range than the one on record, at any moment of the call; or the
first answer that does is the last thing that happens before the exception
that names the peer, and the table is marked, so that the next gather is
refused. -/
theorem gatherCpu_moved (hc : Constructed env cfg w₀)
    (hu : Used Outcome.Ordinary w₀ w) :
    Runs (RemoteTable.gatherCpu ids) w
      (fun _ w' => Unmoved w₀.ranges w.called.tr w'.tr)
      (fun e w' => Unmoved w₀.ranges w.called.tr w'.tr ∨
        Told w₀.ranges w.called (shares w₀.ranges ids w.table.peers) e w' ∧
          w'.table.failed = some e.report ∧
          ∀ ids', ids' ≠ [] → Runs (RemoteTable.gatherCpu ids') w'
            (fun _ _ => False)
            (fun e' w'' => e' = .unusable e.report ∧
              w''.tr = w'.tr ++ [.raised e'])) := by
  refine (gatherCpu_sees hc hu).mono (fun _ _ h => h.unmoved) ?_
  rintro e w' (⟨ht, hfail⟩ | hun)
  · refine .inr ⟨ht, hfail, fun ids' hids' => ?_⟩
    exact (gatherCpu_marked hfail hids').mono (fun _ _ h => h)
      fun _ _ h => ⟨h.1, h.2.1⟩
  · exact .inl hun.unmoved

/-- The pair of servers behind a network that resets the first GATHER to
peer 0, which then comes back with the row of peer 1. -/
def shifting : Env :=
  { pairEnv with
    send := fun tr c _ =>
      if c.n = 0 ∧ HEADER ≤ (sentOn tr c).length then .fault "reset" 0
      else .all
    recv := fun tr c want => .data <|
      ((served (pairServer (if c.n < 2 then c.peer else 1))
        (sentOn tr c)).drop (gotOn tr c).length).take want }

/-- A table over it as it is constructed. -/
def shifted : World shifting :=
  returned RemoteTable.init (initial shifting pairConfig)

/-- Construction returns: both peers show their ranges. -/
theorem shifted_constructed : Constructed shifting pairConfig shifted := by
  have hret : Returns RemoteTable.init (initial shifting pairConfig)
      = true := by
    decide +kernel
  obtain ⟨_, hx⟩ := Returns.run hret
  exact ⟨by decide, hx⟩

/-- A move ends the gather that sees it. -/
theorem gatherCpu_moved_shifted :
    (match RemoteTable.gatherCpu [1, 0, 1] shifted with
      | .ok _ _ => none
      | .error e _ => some e) = some (.movedRange "a:9000" 0 1 1 1) ∧
      Runs (RemoteTable.gatherCpu [1, 0, 1]) shifted
        (fun _ w' => Unmoved shifted.ranges shifted.called.tr w'.tr)
        (fun e w' => Unmoved shifted.ranges shifted.called.tr w'.tr ∨
          Told shifted.ranges shifted.called
              (shares shifted.ranges [1, 0, 1] shifted.table.peers) e w' ∧
            w'.table.failed = some e.report ∧
            ∀ ids', ids' ≠ [] → Runs (RemoteTable.gatherCpu ids') w'
              (fun _ _ => False)
              (fun e' w'' => e' = .unusable e.report ∧
                w''.tr = w'.tr ++ [.raised e'])) := by
  refine ⟨by decide +kernel, ?_⟩
  exact gatherCpu_moved shifted_constructed .refl

end PleRowServer.Client
