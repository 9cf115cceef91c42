/-
The stages one peer of a gather goes through in one attempt, and the
calls that take it from each to the next:

  `Todo` -ready→ `Poised` -ask→ `Asked` -begin→ `Reading` -pump→ `Answered`

A call that fails leaves its peer `Torn`: still owed its answer, its
`answered` flag saying so. Every stage before `Answered` is torn as well,
which is what makes the choice of peers to ask again a matter of the
flag alone.

`k` bounds the GATHERs the peer was sent in this call so far; only
asking raises it.
-/
import PleRowServer.Client.ConnectSpec

namespace PleRowServer.Client

open Base Wire

variable {env : Env} {geo : PeerId → Geometry} {w w' w'' : World env}
  {i : PeerId} {c : ConnId} {e : Exn} {T : ℚ}
  {k k' : Nat}

-- =============================================================== stages

/-- The ids of a share as they stand on the wire. -/
def idBytes (ids : List Int) : List UInt8 :=
  ids.flatMap fun id => leBytes 4 (id % 2 ^ 32).toNat

/-- The ids of a share. -/
def Share.ids (s : Share) (ids : List Int) : List Int :=
  s.2.map fun j => ids.getD j 0

/-- The peer's buffers hold this share's request and have room for its
rows. -/
structure Staged (geo : PeerId → Geometry) (ids : List Int) (s : Share)
    (w : World env) : Prop where
  geometry : (w.heap s.1).geometry = geo s.1
  wide : 0 < (geo s.1).rowBytes
  ask : 0 < s.2.length
  req : HEADER + 4 * s.2.length ≤ (w.heap s.1).req.length
  rows : s.2.length * (geo s.1).rowBytes ≤ (w.heap s.1).rows.length
  bytes : ((w.heap s.1).req.drop HEADER).take (4 * s.2.length)
    = idBytes (s.ids ids)

/-- A peer that keeps its identity keeps the request staged on it. -/
theorem Staged.kept {ids : List Int} {s : Share} (h : Staged geo ids s w)
    (hk : (w.heap s.1).Kept (w'.heap s.1)) : Staged geo ids s w' :=
  ⟨hk.geometry.trans h.geometry, h.wide, h.ask, by
    rw [hk.reqLength]; exact h.req, by rw [hk.rowsLength]; exact h.rows,
    by rw [hk.ids]; exact h.bytes⟩

/-- A whole GATHER for this share. -/
structure Request (ids : List Int) (s : Share) (req : List UInt8) : Prop where
  asks : Asks OP_GATHER (idOf req) s.2.length req
  ids : req.drop HEADER = idBytes (s.ids ids)

/-- A peer that owes its answer. -/
structure Owed (geo : PeerId → Geometry) (T : ℚ)
    (k : Nat) (i : PeerId) (w : World env) :
    Prop where
  linked : Linked geo T i w
  owed : (w.line geo i).answered = false
  asked : (w.line geo i).asked.length ≤ k

/-- Not asked yet in this attempt. -/
structure Todo (geo : PeerId → Geometry) (T : ℚ)
    (k : Nat) (i : PeerId) (w : World env) :
    Prop extends Owed geo T k i w where
  idle : (w.line geo i).phase = .idle
  conn : ∀ c, (w.line geo i).conn = some c →
    (w.line geo i).checked (geo i) = true ∧
      c ∉ (w.line geo i).asked.map Prod.fst

/-- On a connection that may be asked. -/
structure Poised (geo : PeerId → Geometry) (T : ℚ)
    (k : Nat) (i : PeerId) (w : World env) :
    Prop extends Todo geo T k i w where
  flag : (w.heap i).answered = false
  on : (w.line geo i).conn ≠ none

/-- Asked, with nothing of the answer in. -/
structure Asked (geo : PeerId → Geometry) (T : ℚ)
    (k : Nat) (ids : List Int) (s : Share)
    (w : World env) : Prop extends Owed geo T k s.1 w where
  flag : (w.heap s.1).answered = false
  on : (w.line geo s.1).conn ≠ none
  phase : ∃ req, (w.line geo s.1).phase = .asked req [] ∧
    (w.heap s.1).pending = some (idOf req) ∧ Request ids s req

/-- The answer's header is in; of the body, what the counters say. -/
structure Body (geo : PeerId → Geometry) (T : ℚ)
    (k : Nat) (ids : List Int) (s : Share)
    (w : World env) : Prop where
  filled : ∃ c l req got, l.Open s.1 c ∧ Request ids s req ∧ l.asked.length ≤ k ∧
    Filled geo s.1 l req got w
  timeout : (w.heap s.1).timeout = T

/-- The body is not all in. -/
structure Reading (geo : PeerId → Geometry) (T : ℚ)
    (k : Nat) (ids : List Int) (s : Share)
    (w : World env) : Prop extends Body geo T k ids s w where
  lt : (w.heap s.1).rdGot < (w.heap s.1).rdWant

/-- The answer is in. -/
structure Answered (geo : PeerId → Geometry) (T : ℚ)
    (k : Nat) (ids : List Int) (s : Share)
    (w : World env) : Prop extends Body geo T k ids s w where
  full : (w.heap s.1).rdGot = (w.heap s.1).rdWant

/-- A peer that owes its answer and is marked so. -/
structure Torn (geo : PeerId → Geometry) (T : ℚ)
    (k : Nat) (i : PeerId) (w : World env) :
    Prop extends Owed geo T k i w where
  flag : (w.heap i).answered = false

/-- Only an OSError or an interrupt leaves an exchange in doubt. -/
def Clear (e : Exn) (l : Line) : Prop :=
  e.isOS = true ∨ e.isException = false ∨ l.phase ≠ .doubt

/-- A peer the failure `e` left torn. -/
structure Lost (geo : PeerId → Geometry) (T : ℚ)
    (k : Nat) (i : PeerId) (e : Exn)
    (w : World env) : Prop extends Torn geo T k i w where
  clear : Clear e (w.line geo i)

-- ============================================== a stage is its own peer's

/-- Only peer `i` and its line may differ. -/
def Sole (geo : PeerId → Geometry) (i : PeerId) (w w' : World env) : Prop :=
  ∀ j, j ≠ i → w'.heap j = w.heap j ∧ w'.line geo j = w.line geo j

/-- A step of one peer alone. -/
theorem Step.sole (h : Step {i} w w') (geo : PeerId → Geometry) :
    Sole geo i w w' :=
  fun _ hj => ⟨h.heap hj, h.line geo hj⟩

/-- A failure of one peer alone. -/
theorem Fail.sole (h : Fail {i} e w w') (geo : PeerId → Geometry) :
    Sole geo i w w' :=
  fun _ hj => ⟨h.heap hj, h.line geo hj⟩

section Congr

variable {ids : List Int} {s : Share}

/-- A debt is a matter of the peer and its line. -/
theorem Owed.congr (h : Owed geo T k i w) (hh : w'.heap i = w.heap i)
    (hl : w'.line geo i = w.line geo i) : Owed geo T k i w' :=
  ⟨h.linked.congr hh hl, by rw [hl]; exact h.owed, by
    rw [hl]; exact h.asked⟩

/-- Not having been asked yet is a matter of the peer and its line. -/
theorem Todo.congr (h : Todo geo T k i w) (hh : w'.heap i = w.heap i)
    (hl : w'.line geo i = w.line geo i) : Todo geo T k i w' :=
  ⟨h.toOwed.congr hh hl, by rw [hl]; exact h.idle, by
    rw [hl]; exact h.conn⟩

/-- Being about to be asked is a matter of the peer and its line. -/
theorem Poised.congr (h : Poised geo T k i w) (hh : w'.heap i = w.heap i)
    (hl : w'.line geo i = w.line geo i) : Poised geo T k i w' :=
  ⟨h.toTodo.congr hh hl, by rw [hh]; exact h.flag, by
    rw [hl]; exact h.on⟩

/-- Having been asked is a matter of the peer and its line. -/
theorem Asked.congr (h : Asked geo T k ids s w)
    (hh : w'.heap s.1 = w.heap s.1)
    (hl : w'.line geo s.1 = w.line geo s.1) : Asked geo T k ids s w' :=
  ⟨h.toOwed.congr hh hl, by rw [hh]; exact h.flag, by
    rw [hl]; exact h.on, by rw [hh, hl]; exact h.phase⟩

/-- What the counters say is a matter of the peer and its line. -/
theorem Filled.congr {l : Line} {req got : List UInt8}
    (h : Filled geo i l req got w) (hh : w'.heap i = w.heap i)
    (hl : w'.line geo i = w.line geo i) : Filled geo i l req got w' := by
  refine ⟨?_, by rw [hl]; exact h.line, h.header, ?_, ?_, ?_, ?_, ?_, ?_,
    ?_⟩ <;> rw [hh]
  · exact h.sock
  · exact h.want
  · exact h.length
  · exact h.le
  · exact h.room
  · exact h.rows
  · exact h.flag
  · exact h.pending

/-- A body partly in is a matter of the peer and its line. -/
theorem Body.congr (h : Body geo T k ids s w)
    (hh : w'.heap s.1 = w.heap s.1)
    (hl : w'.line geo s.1 = w.line geo s.1) : Body geo T k ids s w' := by
  obtain ⟨⟨c, l, req, got, ho, hr, hp, hf⟩, ht⟩ := h
  exact ⟨⟨c, l, req, got, ho, hr, hp, hf.congr hh hl⟩, by rw [hh]; exact ht⟩

/-- A body with bytes missing is a matter of the peer and its line. -/
theorem Reading.congr (h : Reading geo T k ids s w)
    (hh : w'.heap s.1 = w.heap s.1)
    (hl : w'.line geo s.1 = w.line geo s.1) : Reading geo T k ids s w' :=
  ⟨h.toBody.congr hh hl, by rw [hh]; exact h.lt⟩

/-- A body all in is a matter of the peer and its line. -/
theorem Answered.congr (h : Answered geo T k ids s w)
    (hh : w'.heap s.1 = w.heap s.1)
    (hl : w'.line geo s.1 = w.line geo s.1) : Answered geo T k ids s w' :=
  ⟨h.toBody.congr hh hl, by rw [hh]; exact h.full⟩

/-- Being left with a debt is a matter of the peer and its line. -/
theorem Torn.congr (h : Torn geo T k i w) (hh : w'.heap i = w.heap i)
    (hl : w'.line geo i = w.line geo i) : Torn geo T k i w' :=
  ⟨h.toOwed.congr hh hl, by rw [hh]; exact h.flag⟩

end Congr

-- ================================================ every stage before Answered

section Torn

variable {ids : List Int} {s : Share}

/-- The bound on the GATHERs may be raised. -/
theorem Torn.mono (h : Torn geo T k i w) (hk : k ≤ k') :
    Torn geo T k' i w :=
  ⟨⟨h.linked, h.owed, h.asked.trans hk⟩, h.flag⟩

/-- The bound on the GATHERs may be raised. -/
theorem Body.mono (h : Body geo T k ids s w) (hk : k ≤ k') :
    Body geo T k' ids s w := by
  obtain ⟨⟨c, l, req, got, ho, hr, hp, hf⟩, ht⟩ := h
  exact ⟨⟨c, l, req, got, ho, hr, hp.trans hk, hf⟩, ht⟩

/-- A peer about to be asked owes its answer. -/
theorem Poised.torn (h : Poised geo T k i w) : Torn geo T k i w :=
  ⟨h.toOwed, h.flag⟩

/-- A peer just asked owes its answer. -/
theorem Asked.torn (h : Asked geo T k ids s w) : Torn geo T k s.1 w :=
  ⟨h.toOwed, h.flag⟩

/-- A peer whose body is not all in owes it, by its flag and by its line.
-/
theorem Reading.torn (h : Reading geo T k ids s w) : Torn geo T k s.1 w := by
  obtain ⟨⟨⟨c, l, req, got, ho, -, hp, hf⟩, ht⟩, hlt⟩ := h
  have hl := hf.line
  rw [Line.upTo_of_not (hf.outstanding hlt).1] at hl
  refine ⟨⟨⟨?_, ?_, fun _ => ht, ?_⟩, ?_, ?_⟩, ?_⟩
  · rw [hl]; exact hf.sock
  · rw [hl]; exact ho.good
  · rw [hl]; intro hn; rw [ho.conn] at hn; cases hn
  · rw [hl]; exact ho.owed
  · rw [hl]; exact hp
  · rw [hf.flag, decide_eq_false (by omega)]

/-- A body on its way leaves its connection in no doubt. -/
theorem Reading.phase (h : Reading geo T k ids s w) :
    (w.line geo s.1).phase ≠ .doubt := by
  obtain ⟨⟨⟨c, l, req, got, -, -, -, hf⟩, -⟩, hlt⟩ := h
  rw [(hf.outstanding hlt).2]
  simp

/-- The line of a peer whose answer is in. -/
theorem Answered.line (h : Answered geo T k ids s w) :
    ∃ (c : ConnId) (l : Line) (req ans : List UInt8), l.Open s.1 c ∧
      Request ids s req ∧ l.asked.length ≤ k ∧
      accepted (geo s.1).rowBytes req ans = true ∧
      (w.line geo s.1) = { l with
        phase := .idle, done := l.done ++ [⟨req, ans⟩], answered := true } ∧
      (w.heap s.1).rows.take (s.2.length * (geo s.1).rowBytes)
        = bodyOf ans := by
  obtain ⟨⟨⟨c, l, req, got, ho, hr, hp, hf⟩, -⟩, hfull⟩ := h
  have hacc : accepted (geo s.1).rowBytes req got = true :=
    hf.accepted_iff.mpr hfull.ge
  refine ⟨c, l, req, got, ho, hr, hp, hacc, ?_, ?_⟩
  · rw [hf.line, Line.upTo_of hacc, hr.asks.op]
    simp
  · rw [← hf.rows, hfull, hf.want, bodyBytes, if_pos hr.asks.op,
      hr.asks.count]

/-- A peer that has answered keeps its connection. -/
theorem Answered.linked (h : Answered geo T k ids s w) : Linked geo T s.1 w := by
  obtain ⟨c, l, req, ans, ho, -, -, -, hl, -⟩ := h.line
  obtain ⟨⟨⟨c', l', req', got', -, -, -, hf⟩, ht⟩, -⟩ := h
  refine ⟨?_, by rw [hl]; exact ho.good, fun _ => ht, by rw [hl]; simp⟩
  rw [hf.line, Line.upTo_conn]
  exact hf.sock

/-- A peer that has answered has nothing pending. -/
theorem Answered.pending (h : Answered geo T k ids s w) :
    (w.heap s.1).pending = none := by
  obtain ⟨⟨⟨c, l, req, got, -, -, -, hf⟩, -⟩, -⟩ := h
  exact hf.pending

/-- The flag of a peer that has answered says so. -/
theorem Answered.flag (h : Answered geo T k ids s w) :
    (w.heap s.1).answered = true := by
  obtain ⟨⟨⟨c, l, req, got, -, -, -, hf⟩, -⟩, hfull⟩ := h
  rw [hf.flag, hfull]
  simp

end Torn

-- ========================================================== request ids

/-- At most `n` request ids were drawn from `w` to `w'`. -/
def Drew (n : Nat) (w w' : World env) : Prop :=
  (drawn w'.tr).length ≤ (drawn w.tr).length + n

/-- No draw is at most any number of them. -/
theorem Drew.none (h : drawn w'.tr = drawn w.tr) (n : Nat) :
    Drew n w w' := by
  unfold Drew
  rw [h]
  exact Nat.le_add_right _ n

/-- Draws add up. -/
theorem Drew.trans {m n : Nat} (h : Drew m w w') (h' : Drew n w' w'') :
    Drew (m + n) w w'' := by
  unfold Drew at *
  omega

/-- A bound on the draws may be raised. -/
theorem Drew.mono {m n : Nat} (h : Drew m w w') (hmn : m ≤ n) :
    Drew n w w' := Nat.le_trans h (Nat.add_le_add_left hmn _)

/-- One id drawn, and none after it. -/
theorem Drew.one (h : drawn w'.tr = drawn (w.draw i).tr) :
    Drew 1 w w' := by
  unfold Drew
  rw [h]
  simp

/-- The line of the peer a request id is drawn for. -/
theorem line_draw (w : World env) (i : PeerId) :
    (w.draw i).line geo i
      = { w.line geo i with ticket := some w.nextId } := by
  simp [World.line, lineStep]

-- ========================================================== first pass

/-- A peer torn where it had no connection to be asked on. -/
structure Unready (geo : PeerId → Geometry) (T : ℚ)
    (k : Nat) (i : PeerId) (e : Exn) (D : ℚ)
    (w w' : World env) : Prop extends Lost geo T k i e w' where
  unconnected : (w.heap i).sock = none
  bounded : env.Timely → Enough D env.rounds w → e ≠ .outOfRounds

/-- `ready` takes a peer to a connection it may be asked on. -/
theorem ready_spec {D : ℚ} {s : Share} (hT : 0 ≤ T)
    (hTw : w.table.timeout = T) (h : Todo geo T k s.1 w)
    (hgeo : (w.heap s.1).geometry = geo s.1) :
    Runs (RemoteTable.ready D s) w
      (fun _ w' => Step {s.1} w w' ∧ Poised geo T k s.1 w' ∧ Drew 1 w w')
      (fun e w' => Fail {s.1} e w w' ∧ Unready geo T k s.1 e D w w' ∧
        Drew 1 w w') := by
  obtain ⟨i, sel⟩ := s
  unfold RemoteTable.ready
  simp only [runs_bind, runs_modifyPeer, runs_peer, World.setPeer_self]
  set p : Peer := { w.heap i with answered := false } with hp
  set w₁ := w.setPeer i p with hw₁
  have hs₁ : Step {i} w w₁ :=
    .setPeer ⟨rfl, rfl, rfl, rfl, rfl, rfl⟩ rfl
  have hlink : Linked geo T i w₁ :=
    ⟨by simpa [hw₁, hp] using h.linked.sock, h.linked.good,
      by simpa [hw₁, hp] using h.linked.timeout, h.linked.closed⟩
  have hflag : (w₁.heap i).answered = false := by simp [hw₁, hp]
  have htodo : Todo geo T k i w₁ :=
    ⟨⟨hlink, h.owed, h.asked⟩, h.idle, h.conn⟩
  cases hsock : (w.heap i).sock with
  | some c =>
      refine ⟨hs₁, ⟨htodo, hflag, ?_⟩, .none rfl 1⟩
      have := h.linked.sock
      rw [hsock] at this
      intro hn
      rw [show w₁.line geo i = w.line geo i from rfl, ← this] at hn
      cases hn
  | none =>
      have hsock₁ : (w.heap i).sock = none := hsock
      simp only [runs_bind]
      refine Runs.mono (connectLoop_spec (some D) hT env.rounds (1 / 2) w₁
        (by norm_num) hTw hlink h.idle h.owed) ?_ ?_
      case refine_2 =>
        rintro e w' ⟨hf, ha, -, hen⟩
        refine ⟨hs₁.fail hf, ⟨⟨⟨⟨ha.linked, ha.owed.trans h.owed, ?_⟩,
          ha.flag.trans hflag⟩, .inr (.inr (by rw [ha.idle]; simp))⟩, hsock₁,
          hen⟩, .none ha.undrawn 1⟩
        rw [ha.asked]; exact h.asked
      rintro _ w₂ ⟨c, hf⟩
      rw [runs_nextReqId]
      have hs₂ : Step {i} w (w₂.draw i) :=
        (hs₁.trans hf.step).trans (.draw _ rfl)
      have hl₂ : (w₂.draw i).line geo i
          = { w₂.line geo i with ticket := some w₂.nextId } := line_draw w₂ i
      have hon : On geo i c (w₂.draw i) := by
        refine ⟨hf.sock, hf.peer, ?_, ?_⟩ <;> rw [hl₂, hf.line]
      have hgeo₂ : (w₂.heap i).geometry = geo i := by
        rw [((hs₁.trans hf.step).kept i).geometry, hgeo]
      have hasked : (w₂.line geo i).asked.length ≤ k := by
        rw [hf.line]; exact h.asked
      have howed : (w₂.line geo i).answered = false := by
        rw [hf.line]; exact h.owed
      have hlink₂ : Linked geo T i (w₂.draw i) := by
        have := hf.adrift.linked
        refine ⟨?_, ?_, this.timeout, ?_⟩ <;> rw [hl₂]
        · exact this.sock
        · exact this.good
        · exact this.closed
      have hdrew : ∀ v : World env, drawn v.tr = drawn (w₂.draw i).tr →
          Drew 1 w v :=
        fun v hv => ((Drew.none hf.undrawn 0).trans (.one hv)).mono le_rfl
      -- a failure of the STAT leaves the peer torn on its new connection
      refine Runs.mono (queryStat_spec hon (by rw [hl₂, hf.line])
        (by rw [hl₂]; exact howed) (by rw [hl₂]) (World.nextId_lt _)) ?_ ?_
      case refine_2 =>
        rintro e w' hb
        have hs := hb.slip
        refine ⟨hs₂.fail hb.fail, ⟨⟨⟨⟨hlink₂.slip hs (by
          rw [hon.conn]; simp), ?_, ?_⟩, hs.flag.trans
          (hf.flag.trans hflag)⟩, hb.clear⟩, hsock₁, fun _ _ => hb.bounded⟩,
          hdrew _ hs.undrawn⟩
        · rw [hs.open_, hl₂]; exact howed
        · have := hs.asked
          rw [List.append_nil, or_self] at this
          rw [this, hl₂]; exact hasked
      rintro st w₃ ⟨req, ans, hreq, hacc, hst, hs₃, ⟨a, ha⟩, hl₃, hn₃⟩
      have hl₃' : w₃.line geo i = { w₂.line geo i with
          ticket := none, done := [⟨req, ans⟩] } := by
        rw [hl₃, hl₂, hf.line]; rfl
      have hlink₃ : Linked geo T i w₃ := by
        refine ⟨?_, ?_, ?_, ?_⟩
        · rw [ha, hl₃']; simpa [hf.line] using hf.sock
        · rw [hl₃']; simp [hf.line]
        · rw [ha]; intro _; exact hf.timeout
        · rw [hl₃']; simp [hf.line]
      have howed₃ : Owed geo T k i w₃ := by
        refine ⟨hlink₃, ?_, ?_⟩ <;> rw [hl₃']
        · exact howed
        · exact hasked
      have hflag₃ : (w₃.heap i).answered = false := by
        rw [ha]; exact hf.flag.trans hflag
      refine Runs.mono checkRange_spec ?_ ?_
      · rintro _ w₄ ⟨hsame, hs₄, ⟨b, b', hb⟩, htr₄, hn₄⟩
        have hl₄ : w₄.line geo i = w₃.line geo i := line_of_tr htr₄ i
        have hrange : statGeometry ans = geo i := by
          rw [← hst, hsame, ha, ← hgeo₂]; rfl
        have hl₄' : w₄.line geo i = { w₂.line geo i with
            ticket := none, done := [⟨req, ans⟩] } := hl₄.trans hl₃'
        have hlink₄ : Linked geo T i w₄ := by
          refine ⟨?_, ?_, ?_, ?_⟩
          · rw [hb, hl₄]; exact hlink₃.sock
          · rw [hl₄]; exact hlink₃.good
          · rw [hb]; exact hlink₃.timeout
          · rw [hl₄]; exact hlink₃.closed
        refine ⟨(hs₂.trans hs₃).trans hs₄,
          ⟨⟨⟨hlink₄, ?_, ?_⟩, ?_, ?_⟩, ?_, ?_⟩, hdrew _ (hn₄.trans hn₃)⟩
        · rw [hl₄]; exact howed₃.owed
        · rw [hl₄]; exact howed₃.asked
        · rw [hl₄']; simp [hf.line]
        · intro c' hc'
          rw [hl₄', hf.line] at hc'
          obtain rfl : c = c' := Option.some.inj hc'
          rw [hl₄', hf.line]
          refine ⟨?_, hf.new⟩
          simp [Line.checked, hreq.op, hrange]
        · rw [hb]; exact hflag₃
        · rw [hl₄', hf.line]; simp
      · rintro e w₄ ⟨-, -, -, hne, rfl⟩
        refine ⟨(hs₂.trans hs₃).fail (.raise w₃ {i} e),
          ⟨⟨⟨?_, ?_⟩, ?_⟩, hsock₁, fun _ _ => hne⟩,
          hdrew _ (by simpa using hn₃)⟩
        · exact howed₃.congr rfl (line_raise _ _ _)
        · exact hflag₃
        · refine .inr (.inr ?_)
          rw [line_raise, hl₃', hf.line]
          simp

-- ================================================ second and third pass

/-- Whatever broke inside an exchange, the peer is torn. -/
theorem Torn.broke (h : Torn geo T k i w)
    (hc : (w.line geo i).conn ≠ none) (hb : Broke geo i e [] w w') :
    Lost geo T k i e w' := by
  have hs := hb.slip
  refine ⟨⟨⟨h.linked.slip hs hc, hs.open_.trans h.owed, ?_⟩,
    hs.flag.trans h.flag⟩, hb.clear⟩
  have := hs.asked
  rw [List.append_nil, or_self] at this
  rw [this]
  exact h.asked

/-- What a failed exchange has to show for it. -/
structure Failed (geo : PeerId → Geometry) (T : ℚ)
    (k : Nat) (i : PeerId) (e : Exn)
    (w w' : World env) : Prop extends Lost geo T k i e w' where
  fail : Fail {i} e w w'
  cause : ∀ d, (w.heap i).deadline = d → Trouble geo T d w w'
  bounded : e ≠ .outOfRounds

/-- A failure inside an exchange, with its cause. -/
theorem Torn.failed (h : Torn geo T k i w)
    (hc : (w.line geo i).conn ≠ none) (hb : Broke geo i e [] w w') :
    Failed geo T k i e w w' := by
  refine ⟨h.broke hc hb, hb.fail, ?_, hb.bounded⟩
  rintro d rfl
  rw [← h.linked.timeout (by rw [h.linked.sock]; exact hc)]
  exact hb.cause

/-- `ask` sends the share's request with the next request id. -/
theorem ask_spec {ids : List Int} {s : Share} (h : Poised geo T k s.1 w)
    (hst : Staged geo ids s w) :
    Runs (RemoteTable.ask s) w
      (fun _ w' => Step {s.1} w w' ∧ Asked geo T (k + 1) ids s w' ∧
        Drew 1 w w')
      (fun e w' => Fail {s.1} e w w' ∧ Lost geo T (k + 1) s.1 e w' ∧
        (2 ^ 32 ≤ s.2.length ∨
          ∀ d, (w.heap s.1).deadline = d → Trouble geo T d w w') ∧
        e ≠ .outOfRounds ∧ Drew 1 w w') := by
  obtain ⟨i, sel⟩ := s
  obtain ⟨c, hc⟩ := Option.ne_none_iff_exists'.mp h.on
  obtain ⟨hchk, hnew⟩ := h.conn c hc
  have hl₁ : (w.draw i).line geo i
      = { w.line geo i with ticket := some w.nextId } := line_draw w i
  have hs₁ : Step {i} w (w.draw i) := .draw w rfl
  have hon : On geo i c (w.draw i) := by
    have ho := h.linked.on hc
    refine ⟨ho.sock, ho.peer, ?_, ?_⟩ <;> rw [hl₁]
    · exact ho.conn
    · exact ho.good
  have hlink : Linked geo T i (w.draw i) := by
    refine ⟨?_, ?_, h.linked.timeout, ?_⟩ <;> rw [hl₁]
    · exact h.linked.sock
    · exact h.linked.good
    · exact h.linked.closed
  have hT : (w.heap i).timeout = T :=
    h.linked.timeout (by rw [h.linked.sock]; exact h.on)
  unfold RemoteTable.ask
  simp only [runs_bind, runs_nextReqId]
  refine Runs.mono (sendGather_spec hon (by rw [hl₁]; exact h.idle)
    (by rw [hl₁]; exact h.owed) (by rw [hl₁]) (by rw [hl₁]; exact hchk)
    (by rw [hl₁]; exact hnew) w.nextId_lt hst.req) ?_ ?_
  · rintro _ w' ⟨req, hreq, hids, hs, ⟨a, r, ha⟩, hl, hn⟩
    have hl' : w'.line geo i = { w.line geo i with
        phase := .asked req []
        ticket := none
        asked := (w.line geo i).asked ++ [(c, w.nextId)] } := by
      rw [hl, Line.asking, gathers, if_pos hreq.op, hreq.id, hl₁]
    refine ⟨hs₁.trans hs, ⟨⟨⟨?_, ?_, ?_, ?_⟩, ?_, ?_⟩, ?_, ?_,
      ⟨req, ?_, ?_, ?_⟩⟩, .one hn⟩
    · rw [ha, hl']; exact h.linked.sock
    · rw [hl']; exact h.linked.good
    · rw [ha]; exact h.linked.timeout
    · rw [hl']; intro hno; exact absurd hno h.on
    · rw [hl']; exact h.owed
    · rw [hl', List.length_append]; exact Nat.succ_le_succ h.asked
    · rw [ha]; exact h.flag
    · rw [hl']; exact h.on
    · rw [hl']
    · rw [ha, hreq.id]
    · exact ⟨by rw [hreq.id]; exact hreq, hids.trans hst.bytes⟩
  · rintro e w' (hb | ⟨hbig, rfl, rfl⟩)
    · have hs := hb.slip
      refine ⟨hs₁.fail hb.fail, ⟨⟨⟨hlink.slip hs ?_, ?_, ?_⟩,
        hs.flag.trans h.flag⟩, hb.clear⟩, .inr ?_, hb.bounded,
        .one hs.undrawn⟩
      · rw [hl₁]; exact h.on
      · rw [hs.open_, hl₁]; exact h.owed
      · have := h.asked
        rcases hs.asked with ha | ha <;> rw [ha, hl₁]
        · exact Nat.le_succ_of_le this
        · rw [List.length_append]; exact Nat.succ_le_succ this
      · rintro d rfl
        rw [← hT]
        exact hb.cause.after hs₁.grows
    · refine ⟨hs₁.fail (.raise _ _ _), ⟨⟨⟨?_, ?_, ?_⟩, h.flag⟩, ?_⟩,
        .inl hbig, by simp, .one (i := i) (by simp)⟩
      · exact hlink.congr rfl (line_raise _ _ _)
      · rw [line_raise, hl₁]; exact h.owed
      · rw [line_raise, hl₁]; exact Nat.le_succ_of_le h.asked
      · refine .inr (.inr ?_)
        rw [line_raise, hl₁, h.idle]
        simp

/-- `begin_` takes the answer's header. -/
theorem begin_spec {ids : List Int} {s : Share}
    (h : Asked geo T k ids s w) (hst : Staged geo ids s w) :
    Runs (RemoteTable.begin_ s) w
      (fun _ w' => Step {s.1} w w' ∧ Reading geo T k ids s w' ∧
        (w'.heap s.1).rdGot = 0 ∧ drawn w'.tr = drawn w.tr)
      (fun e w' => Failed geo T k s.1 e w w' ∧
        drawn w'.tr = drawn w.tr) := by
  obtain ⟨i, sel⟩ := s
  obtain ⟨c, hc⟩ := Option.ne_none_iff_exists'.mp h.on
  obtain ⟨req, hph, hpend, hreq⟩ := h.phase
  have hon : On geo i c w := h.linked.on hc
  have hrb : (w.heap i).rowBytes = (geo i).rowBytes := by
    rw [← hst.geometry]; rfl
  unfold RemoteTable.begin_
  refine Runs.mono (beginRows_spec hon hph hpend hreq.asks.op hreq.asks.count
    hrb ?_ ?_ h.flag) ?_ ?_
  · rw [hrb]; exact Nat.mul_pos hst.ask hst.wide
  · rw [hrb]; exact hst.rows
  · rintro _ w' ⟨hdr, hs, hf, hgot, hwant, ht, hn⟩
    refine ⟨hs, ⟨⟨⟨c, w.line geo i, req, hdr, ⟨hon.peer, hon.conn, hon.good,
      h.owed⟩, hreq, h.asked, hf⟩, ?_⟩, by rw [hgot]; exact hwant⟩, hgot, hn⟩
    rw [ht]
    exact h.linked.timeout (by rw [h.linked.sock]; exact h.on)
  · exact fun e w' hb => ⟨h.torn.failed h.on hb, hb.slip.undrawn⟩

-- ================================================================ bodies

/-- `pump_rows` on a body that is not all in. -/
theorem pump_spec {ids : List Int} {s : Share}
    (h : Reading geo T k ids s w) :
    Runs (Peer.pumpRows s.1) w
      (fun full w' => Step {s.1} w w' ∧
        (w'.heap s.1).sock = (w.heap s.1).sock ∧
        (w'.heap s.1).rdWant = (w.heap s.1).rdWant ∧
        (w.heap s.1).rdGot < (w'.heap s.1).rdGot ∧
        (if full then Answered geo T k ids s w'
          else Reading geo T k ids s w') ∧
        drawn w'.tr = drawn w.tr)
      (fun e w' => Failed geo T k s.1 e w w' ∧
        drawn w'.tr = drawn w.tr) := by
  have htorn := h.torn
  obtain ⟨⟨⟨c, l, req, got, ho, hr, hp, hf⟩, ht⟩, hlt⟩ := h
  refine Runs.mono (pumpRows_spec ho hf hlt) ?_ ?_
  · rintro full w' ⟨bs, hbs, hs, hf', hwant, hgot, hfull, ht', hn⟩
    have hbody : Body geo T k ids s w' :=
      ⟨⟨c, l, req, _, ho, hr, hp, hf'⟩, ht'.trans ht⟩
    have hpos : 0 < bs.length := List.length_pos_iff.mpr hbs
    refine ⟨hs, hf'.sock.trans hf.sock.symm, hwant, by omega, ?_, hn⟩
    rw [hfull, hf'.flag]
    have hle := hf'.le
    split
    case isTrue hge =>
      exact ⟨hbody, le_antisymm hle (of_decide_eq_true hge)⟩
    case isFalse hlt' =>
      have : ¬ (w'.heap s.1).rdWant ≤ (w'.heap s.1).rdGot := by
        simpa using hlt'
      exact ⟨hbody, by omega⟩
  · intro e w' hb
    refine ⟨htorn.failed ?_ hb, hb.slip.undrawn⟩
    rw [(hf.on ho).conn]
    simp

/-- `finish_rows` reads the rest of a body. -/
theorem finish_spec {ids : List Int} {s : Share}
    (h : Reading geo T k ids s w) :
    Runs (Peer.finishRows s.1) w
      (fun _ w' => Step {s.1} w w' ∧ Answered geo T k ids s w' ∧
        drawn w'.tr = drawn w.tr)
      (fun e w' => Failed geo T k s.1 e w w' ∧
        drawn w'.tr = drawn w.tr) := by
  have htorn := h.torn
  obtain ⟨⟨⟨c, l, req, got, ho, hr, hp, hf⟩, ht⟩, hlt⟩ := h
  refine Runs.mono (finishRows_spec ho hf) ?_ ?_
  · rintro _ w' ⟨ans, hs, hf', hfull, ht', hn⟩
    exact ⟨hs, ⟨⟨⟨c, l, req, ans, ho, hr, hp, hf'⟩, ht'.trans ht⟩, hfull⟩, hn⟩
  · intro e w' hb
    refine ⟨htorn.failed ?_ hb, hb.slip.undrawn⟩
    rw [(hf.on ho).conn]
    simp

end PleRowServer.Client
