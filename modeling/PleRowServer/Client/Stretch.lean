/-
What a good line says of the stretch of history it was followed through.

The line is a state machine, so each fact is a step lemma, by cases on the
entry, and an induction along the stretch. A connection is spent once it
is closed or in doubt: it is never used again (`Line.Spent`). A peer whose
answer is in has nothing more done to it (`Line.Has`). A connection with a
request out is closed, or still has it out, or the answer came in
(`Line.busy_after`).
-/
import PleRowServer.Client.Accepted

namespace PleRowServer.Client

open Base Wire

variable {g : Geometry} {i : PeerId} {l : Line} {tr evs b : Trace} {e : Ev}
  {c : ConnId} {req got : List UInt8}

-- ================================================================ entries

/-- Bytes are sent or read on `c`. -/
def Ev.Uses (c : ConnId) : Ev → Prop
  | .send c' _ _ | .recv c' _ _ => c' = c
  | _ => False

/-- `c` is opened. -/
def Ev.Opens (c : ConnId) : Ev → Prop
  | .connect c' _ _ .ok => c' = c
  | _ => False

/-- A fault is seen on `c`. -/
def Ev.Fault (c : ConnId) : Ev → Prop
  | .send c' _ (.fault _ _) => c' = c
  | .recv c' _ (.data []) | .recv c' _ .timeout | .recv c' _ (.fault _) =>
      c' = c
  | _ => False

/-- Something is done to the peer of `c` or to `c`. -/
def Ev.Disturbs (c : ConnId) : Ev → Prop
  | .send c' _ _ | .recv c' _ _ | .connect c' _ _ .ok => c'.peer = c.peer
  | .close c' _ => c' = c
  | _ => False

/-- The GATHER an entry sends to peer `i`: its connection and id. -/
def Ev.gatherTo (i : PeerId) : Ev → List (ConnId × Nat)
  | .send c data _ =>
      if c.peer = i ∧ opOf data = OP_GATHER then [(c, idOf data)] else []
  | _ => []

theorem gatherTo_of_unused (h : ∀ c : ConnId, c.peer = i → ¬ e.Uses c) :
    e.gatherTo i = [] := by
  cases e with
  | send c data r =>
      have : ¬ c.peer = i := fun hc => h c hc rfl
      simp [Ev.gatherTo, this]
  | _ => rfl

/-- The GATHERs of a stretch to peer `i`. -/
def gathersTo (i : PeerId) (evs : Trace) : List (ConnId × Nat) :=
  evs.flatMap (Ev.gatherTo i)

/-- What is read in entries that do not use `c`. -/
theorem gotOn_unused (h : ∀ e ∈ evs, ¬ e.Uses c) : gotOn evs c = [] := by
  refine List.flatMap_eq_nil_iff.mpr fun e he => ?_
  have := h e he
  cases e with
  | recv c' want r =>
      cases r <;> simp [Ev.gotOn]
      exact fun hc => absurd hc this
  | _ => rfl

-- ============================================================== stretches

/-- The line after a stretch. -/
def Line.after (g : Geometry) (i : PeerId) (l : Line) (evs : Trace) : Line :=
  evs.foldl (lineStep g i) l

@[simp] theorem Line.after_nil : l.after g i [] = l := rfl

@[simp] theorem Line.after_cons :
    l.after g i (e :: evs) = (lineStep g i l e).after g i evs := rfl

theorem Line.after_append :
    l.after g i (evs ++ b) = (l.after g i evs).after g i b :=
  List.foldl_append

theorem line_after : line g i (tr ++ evs) = (line g i tr).after g i evs :=
  line_append tr evs

/-- A line good after a stretch was good before it. -/
theorem Line.good_of_after (h : (l.after g i evs).bad = false) :
    l.bad = false := by
  induction evs generalizing l with
  | nil => exact h
  | cons e evs ih =>
      by_contra hb
      rw [Bool.not_eq_false] at hb
      rw [Line.after_cons] at h
      have := ih h
      rw [lineStep_bad l e hb] at this
      cases this

namespace Line

-- =================================================================== steps

/-- What a step that leaves a line good can be. -/
inductive Goes (g : Geometry) (i : PeerId) (l : Line) : Ev → Line → Prop
  | call : Goes g i l .call l.onCall
  | drew (n : Nat) : Goes g i l (.drew i n) { l with ticket := some n }
  /-- nothing on the connection, and nothing of the peer's -/
  | quiet {e : Ev} : e ≠ .call → (∀ n, e ≠ .drew i n) →
      (∀ c, c.peer = i → ¬ e.Uses c ∧ ¬ e.Opens c ∧
        ∀ f, e = .close c f → l.conn ≠ some c) →
      (∀ x todo, e = .caught x todo → i ∈ todo →
        l.answered = true ∨ l.conn = none) → Goes g i l e l
  | opens (c : ConnId) (a : Addr) (t : ℚ) : c.peer = i →
      l.answered = false → l.phase = .idle →
      Goes g i l (.connect c a t .ok) (l.onConnect c)
  | sends (c : ConnId) (data : List UInt8) (r : Sent) : c.peer = i →
      l.sendOk g c data = true →
      Goes g i l (.send c data r) (l.onSend g c data r)
  | takes (c : ConnId) (want : Nat) {req got bs : List UInt8} :
      l.conn = some c → l.phase = .asked req got → bs ≠ [] →
      Goes g i l (.recv c want (.data bs)) (l.upTo g req (got ++ bs))
  | loses (c : ConnId) (want : Nat) (r : Got) {req got : List UInt8} :
      l.conn = some c → l.phase = .asked req got →
      (Ev.recv c want r).Fault c →
      Goes g i l (.recv c want r) { l with phase := .doubt }
  | breaks (c : ConnId) (want : Nat) {req got : List UInt8} :
      l.conn = some c → l.phase = .asked req got →
      Goes g i l (.recv c want .interrupt) l
  | closes (c : ConnId) (f : Bool) : l.conn = some c → l.answered = false →
      Goes g i l (.close c f) (l.onClose c)
  | doubts (x : Exn) (todo : List PeerId) : i ∈ todo → l.answered = false →
      l.conn ≠ none → Goes g i l (.caught x todo) { l with phase := .doubt }

/-- Every step that leaves it good is one of them. -/
theorem goes (hgood : (lineStep g i l e).bad = false) :
    l.Goes g i e (lineStep g i l e) := by
  -- an entry about a connection of another peer
  have hother : ∀ d : ConnId, e.conn = some d → ¬ d.peer = i →
      (∀ n, e ≠ .drew i n) → (∀ x todo, e ≠ .caught x todo) →
      lineStep g i l e = l → l.Goes g i e (lineStep g i l e) := by
    intro d hd hne hdrew hcaught hsame
    have hpeer : ∀ c : ConnId, c.peer = i → ¬ d = c := by
      rintro c hc rfl
      exact hne hc
    rw [hsame]
    refine .quiet ?_ hdrew (fun c hc => ⟨?_, ?_, ?_⟩)
      fun x todo h => absurd h (hcaught x todo)
    · rintro rfl
      cases hd
    · cases e <;> first | exact id | (cases hd; exact hpeer c hc)
    · cases e with
      | connect _ _ _ r =>
          cases hd
          cases r <;> first | exact hpeer c hc | exact id
      | _ => exact id
    · rintro f rfl
      cases hd
      exact absurd rfl (hpeer _ hc)
  by_cases hm : e.Mute
  case pos =>
    rw [lineStep_of_mute hm]
    cases e <;> first
      | exact hm.elim
      | exact .quiet (by simp) (by simp) (fun c _ => ⟨id, id, by simp⟩)
          (by simp)
      | skip
    case connect _ _ _ r =>
      cases r <;> first
        | exact hm.elim
        | exact .quiet (by simp) (by simp) (fun c _ => ⟨id, id, by simp⟩)
            (by simp)
  cases e with
  | call => exact .call
  | drew j n =>
      by_cases hj : j = i
      · subst hj
        simp only [lineStep, if_true]
        exact .drew n
      · simp only [lineStep, if_neg hj]
        refine .quiet (by simp) ?_ (fun c _ => ⟨id, id, by simp⟩) (by simp)
        rintro m ⟨⟩
        exact hj rfl
  | connect c a t r =>
      by_cases hc : c.peer = i
      case neg =>
        refine hother c rfl hc (by simp) (by simp) ?_
        cases r <;> simp [lineStep, hc]
      cases r with
      | ok =>
          simp only [lineStep, if_pos hc, onConnect, Bool.or_eq_false_iff,
            bne_eq_false_iff_eq] at hgood ⊢
          exact .opens c a t hc hgood.1.2 hgood.2
      | _ => exact absurd trivial hm
  | send c data r =>
      by_cases hc : c.peer = i
      case neg =>
        exact hother c rfl hc (by simp) (by simp) (by simp [lineStep, hc])
      simp only [lineStep, if_pos hc] at hgood ⊢
      simp only [onSend, Bool.or_eq_false_iff, Bool.not_eq_false'] at hgood
      exact .sends c data r hc hgood.2
  | recv c want r =>
      by_cases hc : c.peer = i
      case neg =>
        exact hother c rfl hc (by simp) (by simp) (by simp [lineStep, hc])
      simp only [lineStep, if_pos hc] at hgood ⊢
      unfold onRecv at hgood ⊢
      cases hp : l.phase with
      | idle => simp [hp] at hgood
      | doubt => simp [hp] at hgood
      | asked req got =>
          simp only [hp] at hgood ⊢
          by_cases hconn : l.conn = some c
          case neg => simp [hconn] at hgood
          rw [if_pos hconn]
          cases r with
          | data bs =>
              by_cases hb : bs = []
              · subst hb
                simp only [if_true]
                exact .loses c want _ hconn hp rfl
              · simp only [if_neg hb]
                exact .takes c want hconn hp hb
          | timeout => exact .loses c want _ hconn hp rfl
          | fault why => exact .loses c want _ hconn hp rfl
          | interrupt => exact .breaks c want hconn hp
  | close c f =>
      by_cases hc : c.peer = i
      case neg =>
        exact hother c rfl hc (by simp) (by simp) (by simp [lineStep, hc])
      simp only [lineStep, if_pos hc] at hgood ⊢
      by_cases hconn : l.conn = some c
      · rw [onClose, if_pos hconn] at hgood
        simp only [Bool.or_eq_false_iff] at hgood
        exact .closes c f hconn hgood.2
      · rw [onClose, if_neg hconn]
        refine .quiet (by simp) (by simp) (fun d _ => ⟨id, id, ?_⟩) (by simp)
        rintro f ⟨⟩
        exact hconn
  | caught x todo =>
      simp only [lineStep]
      split
      case isFalse hi =>
        refine .quiet (by simp) (by simp) (fun c _ => ⟨id, id, by simp⟩) ?_
        rintro x todo ⟨⟩ hmem
        exact absurd hmem hi
      case isTrue hi =>
        unfold onCaught
        split
        case isTrue ha =>
          exact .quiet (by simp) (by simp) (fun c _ => ⟨id, id, by simp⟩)
            fun _ _ _ _ => .inl ha
        case isFalse ha =>
          split
          case isTrue hn =>
            exact .quiet (by simp) (by simp) (fun c _ => ⟨id, id, by simp⟩)
              fun _ _ _ _ => .inr hn
          case isFalse hn =>
            exact .doubts x todo hi (by simpa using ha) hn
  | _ => exact absurd trivial hm

-- ==================================================================== spent

/-- A connection nothing may use any more. -/
def Spent (c : ConnId) (l : Line) : Prop := l.conn = some c → l.phase = .doubt

theorem Spent.step {l' : Line} (h : l.Spent c) (hc : c.peer = i)
    (ho : ¬ e.Opens c) (hs : l.Goes g i e l') : ¬ e.Uses c ∧ l'.Spent c := by
  cases hs with
  | call => exact ⟨id, h⟩
  | drew n => exact ⟨id, h⟩
  | quiet _ _ hq => exact ⟨(hq c hc).1, h⟩
  | opens d a t => exact ⟨id, fun hd => absurd (Option.some.inj hd) ho⟩
  | sends d data r _ hok =>
      simp only [sendOk, Bool.and_eq_true, beq_iff_eq] at hok
      have hne : d ≠ c := by
        rintro rfl
        have := h hok.1.1.1.1.1
        rw [hok.1.1.1.1.2] at this
        cases this
      exact ⟨hne, fun hd => absurd
        (Option.some.inj (hok.1.1.1.1.1.symm.trans hd)) hne⟩
  | takes d want hconn hp _ =>
      have hne : d ≠ c := by
        rintro rfl
        rw [h hconn] at hp
        cases hp
      refine ⟨hne, fun hd => ?_⟩
      rw [upTo_conn] at hd
      exact absurd (Option.some.inj (hconn.symm.trans hd)) hne
  | loses d want r hconn hp _ =>
      have hne : d ≠ c := by
        rintro rfl
        rw [h hconn] at hp
        cases hp
      exact ⟨hne, fun _ => rfl⟩
  | breaks d want hconn hp =>
      have hne : d ≠ c := by
        rintro rfl
        rw [h hconn] at hp
        cases hp
      exact ⟨hne, h⟩
  | closes d f hconn =>
      refine ⟨id, fun hd => ?_⟩
      rw [onClose, if_pos hconn] at hd
      cases hd
  | doubts x todo => exact ⟨id, fun _ => rfl⟩

/-- A spent connection is used no more, as it is not opened again. -/
theorem Spent.unused (h : l.Spent c) (hc : c.peer = i)
    (ho : ∀ e ∈ evs, ¬ e.Opens c) (hgood : (l.after g i evs).bad = false) :
    ∀ e ∈ evs, ¬ e.Uses c := by
  induction evs generalizing l with
  | nil => simp
  | cons e evs ih =>
      rw [after_cons] at hgood
      obtain ⟨hu, hs⟩ := h.step hc (ho e (by simp))
        (goes (good_of_after hgood))
      intro x hx
      rcases List.mem_cons.mp hx with rfl | hx
      · exact hu
      · exact ih hs (fun e he => ho e (by simp [he])) hgood x hx

-- ====================================================================== has

/-- The answer to this call's GATHER came in on `c`. -/
structure Has (c : ConnId) (l : Line) : Prop where
  conn : l.conn = some c
  idle : l.phase = .idle
  answered : l.answered = true

theorem Has.step {l' : Line} (h : l.Has c) (hc : c.peer = i)
    (hcall : e ≠ .call) (hs : l.Goes g i e l') :
    l'.Has c ∧ ¬ e.Disturbs c := by
  obtain ⟨hconn, hidle, hans⟩ := h
  cases hs with
  | call => exact absurd rfl hcall
  | drew n => exact ⟨⟨hconn, hidle, hans⟩, id⟩
  | quiet _ _ hq =>
      refine ⟨⟨hconn, hidle, hans⟩, fun hd => ?_⟩
      cases e with
      | send d _ _ => exact (hq d (hd.trans hc)).1 rfl
      | recv d _ _ => exact (hq d (hd.trans hc)).1 rfl
      | connect d _ _ r =>
          cases r with
          | ok => exact (hq d (hd.trans hc)).2.1 rfl
          | _ => exact hd
      | close d f => exact (hq c hc).2.2 f (congrArg (Ev.close · f) hd) hconn
      | _ => exact hd
  | opens d a t _ hno =>
      rw [hans] at hno
      cases hno
  | sends d data r _ hok => simp [sendOk, hans] at hok
  | takes d want _ hp _ =>
      rw [hidle] at hp
      cases hp
  | loses d want r _ hp _ =>
      rw [hidle] at hp
      cases hp
  | breaks d want _ hp =>
      rw [hidle] at hp
      cases hp
  | closes d f _ hno =>
      rw [hans] at hno
      cases hno
  | doubts x todo _ hno _ =>
      rw [hans] at hno
      cases hno

/-- A peer whose answer is in has nothing more done to it in the call. -/
theorem Has.undisturbed (h : l.Has c) (hc : c.peer = i)
    (hcall : Ev.call ∉ evs) (hgood : (l.after g i evs).bad = false) :
    (l.after g i evs).Has c ∧ ∀ e ∈ evs, ¬ e.Disturbs c := by
  induction evs generalizing l with
  | nil => exact ⟨h, by simp⟩
  | cons e evs ih =>
      rw [after_cons] at hgood ⊢
      obtain ⟨hs, hd⟩ := h.step hc (fun he => hcall (by simp [he]))
        (goes (good_of_after hgood))
      obtain ⟨ha, hrest⟩ := ih hs (fun he => hcall (by simp [he])) hgood
      refine ⟨ha, fun x hx => ?_⟩
      rcases List.mem_cons.mp hx with rfl | hx
      · exact hd
      · exact hrest x hx

-- ================================================================ requests

/-- A request is out on `c`, and no answer to it is in. -/
structure Owing (g : Geometry) (c : ConnId) (req got : List UInt8)
    (l : Line) : Prop where
  conn : l.conn = some c
  asked : l.phase = .asked req got
  answered : l.answered = false
  part : accepted g.rowBytes req got = false

/-- One step of a connection with a request out: as it was, more of the
answer, the whole of it, spent, or closed. -/
theorem Owing.step {l' : Line} (h : l.Owing g c req got) (hc : c.peer = i)
    (hcall : e ≠ .call) (hs : l.Goes g i e l') :
    l'.Owing g c req (got ++ e.gotOn c) ∨
      accepted g.rowBytes req (got ++ e.gotOn c) = true ∧ l'.conn = some c ∧
        l'.phase = .idle ∧ l'.answered = (opOf req == OP_GATHER) ∨
      e.gotOn c = [] ∧ l'.conn = some c ∧ l'.phase = .doubt ∨
      e.gotOn c = [] ∧ (∃ f, e = .close c f) ∧ l'.conn ≠ some c := by
  have hstay : ∀ {l' : Line}, l'.conn = l.conn → l'.phase = l.phase →
      l'.answered = l.answered → e.gotOn c = [] →
      l'.Owing g c req (got ++ e.gotOn c) := by
    intro l' h₁ h₂ h₃ h₄
    rw [h₄, List.append_nil]
    exact ⟨h₁.trans h.conn, h₂.trans h.asked, h₃.trans h.answered, h.part⟩
  cases hs with
  | call => exact absurd rfl hcall
  | drew n => exact .inl (hstay rfl rfl rfl rfl)
  | quiet _ _ hq =>
      refine .inl (hstay rfl rfl rfl ?_)
      have hu := (hq c hc).1
      cases e with
      | recv d want r =>
          cases r <;> simp [Ev.gotOn]
          exact fun hd => absurd hd hu
      | _ => rfl
  | opens d a t _ _ hp =>
      rw [h.asked] at hp
      cases hp
  | sends d data r _ hok => simp [sendOk, h.asked] at hok
  | takes d want hconn hp hb =>
      obtain rfl : c = d := Option.some.inj (h.conn.symm.trans hconn)
      obtain ⟨rfl, rfl⟩ := Phase.asked.inj (h.asked.symm.trans hp)
      simp only [Ev.gotOn, if_true]
      unfold upTo
      split
      case isTrue ha =>
        refine .inr (.inl ⟨ha, h.conn, rfl, ?_⟩)
        simp [h.answered]
      case isFalse ha =>
        exact .inl ⟨h.conn, rfl, h.answered, by simpa using ha⟩
  | loses d want r hconn _ hf =>
      obtain rfl : c = d := Option.some.inj (h.conn.symm.trans hconn)
      refine .inr (.inr (.inl ⟨?_, h.conn, rfl⟩))
      cases r with
      | data bs =>
          cases bs with
          | nil => simp [Ev.gotOn]
          | cons => exact hf.elim
      | _ => rfl
  | breaks d want => exact .inl (hstay rfl rfl rfl rfl)
  | closes d f hconn =>
      obtain rfl : c = d := Option.some.inj (h.conn.symm.trans hconn)
      refine .inr (.inr (.inr ⟨rfl, ⟨f, rfl⟩, ?_⟩))
      simp [onClose, h.conn]
  | doubts x todo => exact .inr (.inr (.inl ⟨rfl, h.conn, rfl⟩))

/-- A connection in doubt is closed, or still in doubt. -/
theorem doubt_after (hconn : l.conn = some c) (hp : l.phase = .doubt)
    (hgood : (l.after g i evs).bad = false) :
    (∃ f, .close c f ∈ evs) ∨ (l.after g i evs).conn = some c ∧
      (l.after g i evs).phase = .doubt := by
  induction evs generalizing l with
  | nil => exact .inr ⟨hconn, hp⟩
  | cons e evs ih =>
      rw [after_cons] at hgood ⊢
      have hgo := goes (good_of_after hgood)
      by_cases hclose : ∃ f, e = .close c f
      case pos =>
        obtain ⟨f, rfl⟩ := hclose
        exact .inl ⟨f, by simp⟩
      case neg =>
        have hstay : (lineStep g i l e).conn = some c ∧
            (lineStep g i l e).phase = .doubt := by
          generalize lineStep g i l e = l' at hgo
          cases hgo with
          | opens d a t _ _ hi =>
              rw [hp] at hi
              cases hi
          | sends d data r _ hok => simp [sendOk, hp] at hok
          | takes d want _ hi =>
              rw [hp] at hi
              cases hi
          | closes d f hd =>
              obtain rfl : c = d := Option.some.inj (hconn.symm.trans hd)
              exact absurd ⟨f, rfl⟩ hclose
          | doubts x todo => exact ⟨hconn, rfl⟩
          | loses d want r => exact ⟨hconn, rfl⟩
          | _ => exact ⟨hconn, hp⟩
        rcases ih hstay.1 hstay.2 hgood with ⟨f, hf⟩ | hdoubt
        · exact .inl ⟨f, List.mem_cons_of_mem _ hf⟩
        · exact .inr hdoubt

/-- The whole answer to a GATHER came in on its connection. -/
theorem Owing.completed (h : l.Owing g c req got) (hc : c.peer = i)
    (hop : opOf req = OP_GATHER) (hcall : Ev.call ∉ evs)
    (ho : ∀ e ∈ evs, ¬ e.Opens c) (hgood : (l.after g i evs).bad = false)
    (hwhole : accepted g.rowBytes req (got ++ gotOn evs c) = true) :
    (l.after g i evs).Has c := by
  induction evs generalizing l got with
  | nil =>
      rw [show gotOn [] c = [] from rfl, List.append_nil, h.part] at hwhole
      cases hwhole
  | cons e evs ih =>
      rw [after_cons] at hgood ⊢
      rw [show gotOn (e :: evs) c = e.gotOn c ++ gotOn evs c from rfl,
        ← List.append_assoc] at hwhole
      have hcall' : Ev.call ∉ evs := fun he => hcall (by simp [he])
      have ho' : ∀ x ∈ evs, ¬ x.Opens c := fun x hx => ho x (by simp [hx])
      -- with nothing more read on it the answer stays in part
      have hspent : e.gotOn c = [] → (lineStep g i l e).Spent c → False := by
        intro hnone hs
        rw [gotOn_unused (hs.unused hc ho' hgood), hnone, List.append_nil,
          List.append_nil, h.part] at hwhole
        cases hwhole
      rcases h.step hc (fun he => hcall (by simp [he]))
        (goes (good_of_after hgood)) with hs | ⟨-, hs⟩ | ⟨hn, -, hd⟩ |
        ⟨hn, -, hd⟩
      · exact ih hs hcall' ho' hgood hwhole
      · have hhas : (lineStep g i l e).Has c :=
          ⟨hs.1, hs.2.1, by rw [hs.2.2, hop]; rfl⟩
        exact (hhas.undisturbed hc hcall' hgood).1
      · exact (hspent hn fun _ => hd).elim
      · exact (hspent hn fun hconn => absurd hconn hd).elim

/-- A connection with a request out is closed, or the answer came in, or
it is still owed. -/
theorem Owing.after (h : l.Owing g c req got) (hc : c.peer = i)
    (hcall : Ev.call ∉ evs) (hgood : (l.after g i evs).bad = false) :
    (∃ f, .close c f ∈ evs) ∨
      (∃ a b, evs = a ++ b ∧
        accepted g.rowBytes req (got ++ gotOn a c) = true) ∨
      (l.after g i evs).conn = some c ∧
        ((l.after g i evs).phase = .doubt ∨
          (l.after g i evs).answered = false) := by
  induction evs generalizing l got with
  | nil => exact .inr (.inr ⟨h.conn, .inr h.answered⟩)
  | cons e evs ih =>
      rw [after_cons] at hgood ⊢
      rcases h.step hc (fun he => hcall (by simp [he]))
        (goes (good_of_after hgood)) with hs | ⟨ha, -⟩ | ⟨-, hconn, hd⟩ |
        ⟨-, ⟨f, rfl⟩, -⟩
      · rcases ih hs (fun he => hcall (by simp [he])) hgood with
          ⟨f, hf⟩ | ⟨a, b, rfl, ha⟩ | hstill
        · exact .inl ⟨f, List.mem_cons_of_mem _ hf⟩
        · refine .inr (.inl ⟨e :: a, b, rfl, ?_⟩)
          rwa [show gotOn (e :: a) c = e.gotOn c ++ gotOn a c from rfl,
            ← List.append_assoc]
        · exact .inr (.inr hstill)
      · refine .inr (.inl ⟨[e], evs, rfl, ?_⟩)
        rwa [show gotOn [e] c = e.gotOn c ++ [] from rfl, List.append_nil]
      · rcases doubt_after hconn hd hgood with ⟨f, hf⟩ | hdoubt
        · exact .inl ⟨f, List.mem_cons_of_mem _ hf⟩
        · exact .inr (.inr ⟨hdoubt.1, .inl hdoubt.2⟩)
      · exact .inl ⟨f, by simp⟩

-- ================================================================= gathers

theorem step_asked {l' : Line} (hcall : e ≠ .call) (hs : l.Goes g i e l') :
    l'.asked = l.asked ++ e.gatherTo i := by
  cases hs with
  | call => exact absurd rfl hcall
  | sends c data r hc _ =>
      simp only [Ev.gatherTo, hc, true_and, onSend]
      split <;> simp
  | quiet _ _ hq =>
      rw [gatherTo_of_unused fun c hc => (hq c hc).1, List.append_nil]
  | takes => simp [Ev.gatherTo]
  | closes c f =>
      simp only [onClose, Ev.gatherTo, List.append_nil]
      split <;> rfl
  | _ => simp [Ev.gatherTo, onConnect]

/-- The GATHERs of the call so far are those of the stretch. -/
theorem asked_after (hcall : Ev.call ∉ evs)
    (hgood : (l.after g i evs).bad = false) :
    (l.after g i evs).asked = l.asked ++ gathersTo i evs := by
  induction evs generalizing l with
  | nil => simp [gathersTo]
  | cons e evs ih =>
      rw [after_cons] at hgood ⊢
      rw [ih (fun he => hcall (by simp [he])) hgood,
        step_asked (fun he => hcall (by simp [he]))
          (goes (good_of_after hgood)), List.append_assoc]
      rfl

/-- No two GATHERs of a call go out on one connection. -/
theorem asked_nodup (h : (l.asked.map Prod.fst).Nodup)
    (hgood : (l.after g i evs).bad = false) :
    ((l.after g i evs).asked.map Prod.fst).Nodup := by
  induction evs generalizing l with
  | nil => exact h
  | cons e evs ih =>
      rw [after_cons] at hgood ⊢
      refine ih ?_ hgood
      have hgo := goes (good_of_after hgood)
      by_cases hcall : e = .call
      case pos =>
        subst hcall
        exact List.nodup_nil
      rw [step_asked hcall hgo]
      generalize lineStep g i l e = l' at hgo
      cases hgo with
      | sends c data r hc hok =>
          simp only [Ev.gatherTo, hc, true_and]
          split
          case isFalse => simpa using h
          case isTrue hop =>
            simp only [sendOk, hop, bne_self_eq_false, Bool.false_or,
              Bool.and_eq_true, Bool.not_eq_eq_eq_not, Bool.not_true,
              List.contains_eq_mem, decide_eq_false_iff_not] at hok
            rw [List.map_append, List.nodup_append_comm]
            exact List.nodup_cons.mpr ⟨hok.2.2, h⟩
      | quiet _ _ hq =>
          rw [gatherTo_of_unused fun c hc => (hq c hc).1, List.append_nil]
          exact h
      | _ => simpa [Ev.gatherTo] using h

/-- Every GATHER goes out under an id drawn for it. -/
theorem gathers_drawn (hcall : Ev.call ∉ evs)
    (hgood : (l.after g i evs).bad = false) :
    ((gathersTo i evs).map Prod.snd).Sublist (l.ticket.toList ++ drawn evs) := by
  induction evs generalizing l with
  | nil => simp [gathersTo]
  | cons e evs ih =>
      rw [after_cons] at hgood
      have hrest := ih (fun he => hcall (by simp [he])) hgood
      have hgo := goes (good_of_after hgood)
      rw [show gathersTo i (e :: evs) = e.gatherTo i ++ gathersTo i evs
        from rfl, drawn_cons, List.map_append]
      generalize lineStep g i l e = l' at hgo hrest
      cases hgo with
      | call => exact absurd (by simp) hcall
      | drew n =>
          exact hrest.trans (List.sublist_append_right _ _)
      | sends c data r hc hok =>
          simp only [sendOk, Bool.and_eq_true, beq_iff_eq] at hok
          simp only [Ev.gatherTo, hc, true_and, Ev.draws, List.nil_append,
            hok.1.2]
          split
          · exact hrest.cons_cons _
          · exact hrest.trans (List.sublist_cons_self _ _)
      | quiet _ _ hq =>
          rw [gatherTo_of_unused fun c hc => (hq c hc).1]
          exact hrest.trans (.append_left (List.sublist_append_right _ _) _)
      | takes c want _ hp _ =>
          have hticket : ∀ req got, (l.upTo g req got).ticket = l.ticket := by
            intro req got
            unfold upTo
            split <;> rfl
          rw [hticket] at hrest
          exact hrest
      | closes c f hc =>
          simp only [onClose, hc, if_true] at hrest
          exact hrest
      | _ => exact hrest

/-- A connection opened during the call stays a new one. -/
theorem fresh_after (h : l.fresh = true) (hcall : Ev.call ∉ evs)
    (hgood : (l.after g i evs).bad = false) :
    (l.after g i evs).fresh = true := by
  induction evs generalizing l with
  | nil => exact h
  | cons e evs ih =>
      rw [after_cons] at hgood ⊢
      refine ih ?_ (fun he => hcall (by simp [he])) hgood
      have hgo := goes (good_of_after hgood)
      generalize lineStep g i l e = l' at hgo
      cases hgo with
      | call => exact absurd (by simp) hcall
      | takes => simpa using h
      | closes c f hc => simpa [onClose, hc] using h
      | _ => first | exact h | rfl

end Line

end PleRowServer.Client
