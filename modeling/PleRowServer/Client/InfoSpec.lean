/-
What `ping`, `stat` and `close` do to a built table. They visit every
peer once or twice and each visit is one exchange, so a call that
returns leaves every peer settled again; one that raises leaves every
peer's socket its line's connection, and the mark says the rest.
-/
import PleRowServer.Client.CallSpec

namespace PleRowServer.Client

open Base Wire

variable {env : Env} {geo : PeerId → Geometry} {w w' w'' : World env}
  {T : ℚ} {i : PeerId} {e : Exn} {is : List PeerId} {S : Set PeerId}

-- ================================================================ passes

/-- A peer that may be sent a bare request. -/
structure Open (geo : PeerId → Geometry) (T : ℚ) (i : PeerId)
    (w : World env) : Prop where
  linked : Linked geo T i w
  settled : Settled geo i w
  owed : (w.line geo i).answered = false

/-- A peer with a PING outstanding. -/
structure Waiting (geo : PeerId → Geometry) (T : ℚ) (i : PeerId)
    (w : World env) : Prop where
  linked : Linked geo T i w
  owed : (w.line geo i).answered = false
  out : ∃ c req, (w.line geo i).conn = some c ∧
    (w.line geo i).phase = .asked req [] ∧
    (w.heap i).pending = some (idOf req) ∧ opOf req = OP_PING

/-- The line has the connection it had, which has answered `xs` since. -/
structure Line.Adds (l : Line) (xs : List Exchange) (l' : Line) : Prop where
  conn : l'.conn = l.conn
  done : l'.done = l.done ++ xs

/-- A line that has not moved adds no exchange. -/
theorem Line.Adds.refl (l : Line) : l.Adds [] l :=
  ⟨rfl, (List.append_nil _).symm⟩

/-- What a line adds first and what it adds next it adds in all. -/
theorem Line.Adds.trans {l l' l'' : Line} {xs ys : List Exchange}
    (h : l.Adds xs l') (h' : l'.Adds ys l'') : l.Adds (xs ++ ys) l'' :=
  ⟨h'.conn.trans h.conn, by rw [h'.done, h.done, List.append_assoc]⟩

/-- Being open is a matter of the peer and its line. -/
theorem Open.congr (h : Open geo T i w) (hh : w'.heap i = w.heap i)
    (hl : w'.line geo i = w.line geo i) : Open geo T i w' :=
  ⟨h.linked.congr hh hl, h.settled.congr hh (by rw [hl]), by
    rw [hl]; exact h.owed⟩

/-- Being waited for is a matter of the peer and its line. -/
theorem Waiting.congr (h : Waiting geo T i w) (hh : w'.heap i = w.heap i)
    (hl : w'.line geo i = w.line geo i) : Waiting geo T i w' :=
  ⟨h.linked.congr hh hl, by rw [hl]; exact h.owed, by
    rw [hh, hl]; exact h.out⟩

/-- An open peer has a connection. -/
theorem Open.conn (h : Open geo T i w) :
    ∃ c, (w.line geo i).conn = some c := by
  rw [← h.linked.sock]
  exact Option.ne_none_iff_exists'.mp h.settled.sock

/-- A pass over distinct peers, each visit its own peer's. -/
theorem pass_spec {f : PeerId → M env Unit}
    {A B : PeerId → World env → Prop} (hnd : is.Nodup)
    (hf : ∀ i ∈ is, ∀ v, A i v → Runs (f i) v
      (fun _ v' => Step {i} v v' ∧ B i v')
      (fun e v' => Fail {i} e v v' ∧ Linked geo T i v'))
    (hA : ∀ i v v', v'.heap i = v.heap i → v'.line geo i = v.line geo i →
      A i v → A i v')
    (hB : ∀ i v v', v'.heap i = v.heap i → v'.line geo i = v.line geo i →
      B i v → B i v')
    (hAL : ∀ i v, A i v → Linked geo T i v)
    (hBL : ∀ i v, B i v → Linked geo T i v) (h : ∀ i ∈ is, A i w) :
    Runs (forEach f is) w
      (fun _ w' => Step {i | i ∈ is} w w' ∧ ∀ i ∈ is, B i w')
      (fun e w' => Fail {i | i ∈ is} e w w' ∧
        ∀ i ∈ is, Linked geo T i w') := by
  have hswept := Runs.sweep (f := f) (A := A) (B := B)
    (F := fun i _ v => Linked geo T i v) (K := fun i v v' => Sole geo i v v')
    (I := fun _ v => Step {i | i ∈ is} w v)
    (J := fun e v => Fail {i | i ∈ is} e w v) hnd
    (fun _ _ hne => Ne.symm hne) ?_ ?_ ?_ w (.refl w _) h
  case refine_1 =>
    intro pre i rest hsplit v hstep hi
    have hmem : i ∈ is := by rw [hsplit]; simp
    have hsub : ({i} : Set PeerId) ⊆ {i | i ∈ is} :=
      Set.singleton_subset_iff.mpr hmem
    refine (hf i hmem v hi).mono ?_ ?_
    · intro _ v' hv
      exact ⟨⟨hstep.trans (hv.1.mono hsub), hv.2⟩, hv.1.sole geo⟩
    · intro e v' hv
      exact ⟨⟨hstep.fail (hv.1.mono hsub), hv.2⟩, hv.1.sole geo⟩
  case refine_2 =>
    intro i j v v' hK hne hj
    obtain ⟨hh, hl⟩ := hK j (Ne.symm hne)
    exact hA j v v' hh hl hj
  case refine_3 =>
    intro i j v v' hK hne hj
    obtain ⟨hh, hl⟩ := hK j (Ne.symm hne)
    exact hB j v v' hh hl hj
  refine hswept.mono (fun _ _ hv => hv) ?_
  intro e w' hv
  obtain ⟨hfail, pre, x, post, hsplit, hpre, hx, hpost⟩ := hv
  refine ⟨hfail, fun i hi => ?_⟩
  rw [hsplit] at hi
  rcases List.mem_append.mp hi with hi | hi
  · exact hBL i w' (hpre i hi)
  · rcases List.mem_cons.mp hi with rfl | hi
    · exact hx
    · exact hAL i w' (hpost i hi)

-- ================================================================ visits

/-- A request id is drawn for a peer. -/
theorem Open.draw (h : Open geo T i w) : Open geo T i (w.draw i) ∧
    ((w.draw i).line geo i).ticket = some w.nextId := by
  have hl : (w.draw i).line geo i = _ := line_draw w i
  refine ⟨⟨⟨?_, ?_, h.linked.timeout, ?_⟩, ⟨h.settled.sock, ?_,
    h.settled.pending⟩, ?_⟩, ?_⟩ <;> rw [hl]
  · exact h.linked.sock
  · exact h.linked.good
  · exact h.linked.closed
  · exact h.settled.idle
  · exact h.owed

/-- A method that broke off leaves its peer linked. -/
theorem Linked.broke (h : Linked geo T i w)
    (hc : (w.line geo i).conn ≠ none) (hb : Broke geo i e [] w w') :
    Linked geo T i w' := h.slip hb.slip hc

/-- First pass of `ping`. -/
theorem pingSend_spec (h : Open geo T i w) :
    Runs (do Peer.sendBare i OP_PING (← RemoteTable.nextReqId i)) w
      (fun _ w' => Step {i} w w' ∧ Waiting geo T i w' ∧
        (w.line geo i).Adds [] (w'.line geo i))
      (fun e w' => Fail {i} e w w' ∧ Linked geo T i w') := by
  obtain ⟨hopen, hticket⟩ := h.draw
  obtain ⟨c, hc⟩ := hopen.conn
  have hdraw : Step {i} w (w.draw i) := .draw w rfl
  simp only [runs_bind, runs_nextReqId]
  refine (sendBare_spec (hopen.linked.on hc) hopen.settled.idle hopen.owed
    hticket (by decide) (by decide) w.nextId_lt).mono ?_ ?_
  · intro _ w' hw
    obtain ⟨req, hreq, hstep, ⟨a, ha⟩, hl, -⟩ := hw
    have hop : opOf req ≠ OP_GATHER := by
      rw [hreq.op]
      decide
    have hasked : w'.line geo i = { (w.draw i).line geo i with
        phase := .asked req [], ticket := none } := by
      rw [hl, Line.asking, gathers, if_neg hop, List.append_nil]
    have hl₀ : (w.draw i).line geo i = { w.line geo i with
        ticket := some w.nextId } := line_draw w i
    refine ⟨hdraw.trans hstep, ⟨⟨?_, ?_, ?_, ?_⟩, ?_, c, req, ?_, ?_, ?_,
      hreq.op⟩, ?_, ?_⟩
    · rw [ha, hasked]; exact hopen.linked.sock
    · rw [hasked]; exact hopen.linked.good
    · rw [ha]; exact hopen.linked.timeout
    · rw [hasked]
      intro hn
      rw [show (_ : Option ConnId) = _ from hn] at hc
      cases hc
    · rw [hasked]; exact hopen.owed
    · rw [hasked]; exact hc
    · rw [hasked]
    · rw [ha, hreq.id]
    · rw [hasked, hl₀]
    · rw [hasked, hl₀, List.append_nil]
  · intro e w' hw
    exact ⟨hdraw.fail hw.1.fail, hopen.linked.broke (by rw [hc]; simp) hw.1⟩

/-- Second pass of `ping`. -/
theorem readAck_open (h : Waiting geo T i w) :
    Runs (Peer.readAck i) w
      (fun _ w' => Step {i} w w' ∧ Open geo T i w' ∧
        ∃ x, opOf x.req = OP_PING ∧
          (w.line geo i).Adds [x] (w'.line geo i))
      (fun e w' => Fail {i} e w w' ∧ Linked geo T i w') := by
  obtain ⟨c, req, hc, hp, hpend, hop⟩ := h.out
  have hop' : opOf req ≠ OP_GATHER := by
    rw [hop]
    decide
  have hrows : wantRows req = 0 := if_neg hop'
  have hbody : bodyBytes (geo i).rowBytes req = 0 := by
    simp [bodyBytes, hop, OP_PING, OP_GATHER, OP_STAT, OP_RECHARGE]
  refine (readAck_spec (h.linked.on hc) hp hpend hrows).mono ?_ ?_
  · intro _ w' hw
    obtain ⟨hdr, hok, hh⟩ := hw
    obtain ⟨a, ha⟩ := hh.heap
    have hacc : accepted (geo i).rowBytes req hdr = true := by
      rw [accepted_iff, hbody]
      exact ⟨hok, hh.length⟩
    have hl : w'.line geo i = { w.line geo i with
        phase := .idle, done := (w.line geo i).done ++ [⟨req, hdr⟩] } := by
      rw [hh.line, Line.upTo_of hacc, h.owed, beq_eq_false_iff_ne.mpr hop']
      simp [h.owed]
    refine ⟨hh.step, ⟨⟨?_, ?_, ?_, ?_⟩, ⟨?_, ?_, ?_⟩, ?_⟩, ⟨req, hdr⟩, hop,
      ?_, ?_⟩
    · rw [ha, hl]; exact h.linked.sock
    · rw [hl]; exact h.linked.good
    · rw [ha]; exact h.linked.timeout
    · rw [hl]; intro _; rfl
    · rw [ha, show (w.heap i).sock = some c from h.linked.sock.trans hc]
      simp
    · rw [hl]
    · rw [ha]
    · rw [hl]; exact h.owed
    · rw [hl]
    · rw [hl]
  · intro e w' hb
    exact ⟨hb.fail, h.linked.broke (by rw [hc]; simp) hb⟩

/-- The STAT answered last on the line said `st`. -/
def Line.Reports (l : Line) (st : Stat) (l' : Line) : Prop :=
  ∃ x, (opOf x.req = OP_STAT ∧ statGeometry x.ans = st.geometry) ∧
    l.Adds [x] l'

/-- One STAT of `stat`. -/
theorem queryStat_open (h : Open geo T i w) :
    Runs (do Peer.queryStat i (← RemoteTable.nextReqId i)) w
      (fun st w' => Step {i} w w' ∧ Open geo T i w' ∧
        (w.line geo i).Reports st (w'.line geo i))
      (fun e w' => Fail {i} e w w' ∧ Linked geo T i w') := by
  obtain ⟨hopen, hticket⟩ := h.draw
  obtain ⟨c, hc⟩ := hopen.conn
  have hdraw : Step {i} w (w.draw i) := .draw w rfl
  simp only [runs_bind, runs_nextReqId]
  refine (queryStat_spec (hopen.linked.on hc) hopen.settled.idle hopen.owed
    hticket w.nextId_lt).mono ?_ ?_
  · intro st w' hw
    obtain ⟨req, ans, hreq, -, hst, hstep, ⟨a, ha⟩, hl, -⟩ := hw
    have hl₀ : (w.draw i).line geo i = { w.line geo i with
        ticket := some w.nextId } := line_draw w i
    refine ⟨hdraw.trans hstep, ⟨⟨?_, ?_, ?_, ?_⟩, ⟨?_, ?_, ?_⟩, ?_⟩,
      ⟨req, ans⟩, ⟨hreq.op, hst.symm⟩, ?_, ?_⟩
    · rw [ha, hl]; exact hopen.linked.sock
    · rw [hl]; exact hopen.linked.good
    · rw [ha]; exact hopen.linked.timeout
    · rw [hl]; intro hn; exact hopen.linked.closed hn
    · rw [ha]; exact hopen.settled.sock
    · rw [hl]; exact hopen.settled.idle
    · rw [ha]
    · rw [hl]; exact hopen.owed
    · rw [hl, hl₀]
    · rw [hl, hl₀]
  · intro e w' hb
    exact ⟨hdraw.fail hb.fail, hopen.linked.broke (by rw [hc]; simp) hb⟩

/-- The STATs of `stat`, one peer after the other. -/
theorem queryAll_spec :
    ∀ (is : List PeerId) (w : World env), is.Nodup →
      (∀ i ∈ is, Open geo T i w) →
      Runs (RemoteTable.queryAll is) w
        (fun sts w' => Step {i | i ∈ is} w w' ∧
          (∀ i ∈ is, Open geo T i w') ∧
          ∀ i ∈ is, ∃ st, (i, st) ∈ is.zip sts ∧
            (w.line geo i).Reports st (w'.line geo i))
        (fun e w' => Fail {i | i ∈ is} e w w' ∧
          ∀ i ∈ is, Linked geo T i w') := by
  intro is
  induction is with
  | nil =>
      intro w _ _
      exact ⟨.refl w _, by simp, by simp⟩
  | cons i is ih =>
      intro w hnd ho
      obtain ⟨hni, hnd⟩ := List.nodup_cons.mp hnd
      have hhead : ({i} : Set PeerId) ⊆ {j | j ∈ i :: is} := by
        simp
      have htail : {j | j ∈ is} ⊆ {j | j ∈ i :: is} := by
        intro j hj
        exact List.mem_cons_of_mem i hj
      have hne : ∀ j ∈ is, j ∉ ({i} : Set PeerId) := by
        intro j hj hji
        exact hni (hji ▸ hj)
      unfold RemoteTable.queryAll
      rw [← bind_assoc]
      refine Runs.bind (queryStat_open (ho i (by simp))) ?_ ?_
      · intro st v hv
        obtain ⟨hstep, hi, htold⟩ := hv
        simp only [runs_bind]
        refine (ih v hnd fun j hj => (ho j (by simp [hj])).congr
          (hstep.heap (hne j hj)) (hstep.line geo (hne j hj))).mono ?_ ?_
        · intro sts u hu
          obtain ⟨hstep', hrest, hsaid⟩ := hu
          refine ⟨(hstep.mono hhead).trans (hstep'.mono htail), ?_, ?_⟩
          · intro j hj
            rcases List.mem_cons.mp hj with rfl | hj
            · exact hi.congr (hstep'.heap hni) (hstep'.line geo hni)
            · exact hrest j hj
          · intro j hj
            rcases List.mem_cons.mp hj with rfl | hj
            · refine ⟨st, by simp, ?_⟩
              rw [hstep'.line geo hni]
              exact htold
            · obtain ⟨st', hmem, hsay⟩ := hsaid j hj
              refine ⟨st', List.mem_cons_of_mem _ hmem, ?_⟩
              rw [← hstep.line geo (hne j hj)]
              exact hsay
        · intro e u hu
          obtain ⟨hfail, hrest⟩ := hu
          refine ⟨(hstep.mono hhead).fail (hfail.mono htail), ?_⟩
          intro j hj
          rcases List.mem_cons.mp hj with rfl | hj
          · exact hi.linked.congr (hfail.heap hni) (hfail.line geo hni)
          · exact hrest j hj
      · intro e v hv
        obtain ⟨hfail, hi⟩ := hv
        refine ⟨hfail.mono hhead, fun j hj => ?_⟩
        rcases List.mem_cons.mp hj with rfl | hj
        · exact hi
        · exact (ho j (by simp [hj])).linked.congr (hfail.heap (hne j hj))
            (hfail.line geo (hne j hj))

/-- The range checks of `stat` send nothing and disturb no peer. -/
theorem checkAll_spec :
    ∀ (l : List (PeerId × Stat)) (w : World env), (∀ x ∈ l, x.1 ∈ is) →
      (∀ i ∈ is, Open geo T i w) →
      Runs (forEach (fun x => RemoteTable.checkRange x.1 x.2) l) w
        (fun _ w' => Step {i | i ∈ is} w w' ∧ w'.tr = w.tr ∧
          (∀ i ∈ is, Open geo T i w') ∧
          ∀ x ∈ l, x.2.geometry = (w.heap x.1).geometry)
        (fun e w' => Fail {i | i ∈ is} e w w' ∧
          (∀ i, w'.line geo i = w.line geo i) ∧
          (∀ i ∈ is, Open geo T i w') ∧
          ∃ x ∈ l, x.2.geometry ≠ (w.heap x.1).geometry) := by
  intro l
  induction l with
  | nil =>
      intro w _ ho
      exact ⟨.refl w _, rfl, ho, by simp⟩
  | cons x l ih =>
      intro w hmem ho
      have hx : ({x.1} : Set PeerId) ⊆ {i | i ∈ is} :=
        Set.singleton_subset_iff.mpr (hmem x (by simp))
      refine Runs.bind checkRange_spec ?_ ?_
      · intro _ v hv
        obtain ⟨hgeo, hstep, ⟨a, b, hab⟩, htr, -⟩ := hv
        have hopen : ∀ i ∈ is, Open geo T i v := by
          intro i hi
          have hl : v.line geo i = _ := line_of_tr htr i
          by_cases hix : i = x.1
          · subst hix
            have h := ho x.1 hi
            refine ⟨⟨?_, ?_, ?_, ?_⟩, ⟨?_, ?_, ?_⟩, ?_⟩
            · rw [hab, hl]; exact h.linked.sock
            · rw [hl]; exact h.linked.good
            · rw [hab]; exact h.linked.timeout
            · rw [hl]; exact h.linked.closed
            · rw [hab]; exact h.settled.sock
            · rw [hl]; exact h.settled.idle
            · rw [hab]; exact h.settled.pending
            · rw [hl]; exact h.owed
          · exact (ho i hi).congr (hstep.heap hix) hl
        refine (ih v (fun y hy => hmem y (by simp [hy])) hopen).mono ?_ ?_
        · intro _ u hu
          obtain ⟨hstep', htr', hrest, hall⟩ := hu
          refine ⟨(hstep.mono hx).trans hstep', htr'.trans htr, hrest, ?_⟩
          intro y hy
          rcases List.mem_cons.mp hy with rfl | hy
          · exact hgeo
          · exact (hall y hy).trans (hstep.kept y.1).geometry
        · intro e u hu
          obtain ⟨hfail, hsame, hrest, y, hy, hne⟩ := hu
          refine ⟨(hstep.mono hx).fail hfail,
            fun i => (hsame i).trans (line_of_tr htr i), hrest, y,
            by simp [hy], ?_⟩
          rw [← (hstep.kept y.1).geometry]
          exact hne
      · intro e v hv
        obtain ⟨hne, -, -, -, rfl⟩ := hv
        refine ⟨.raise w _ e, fun _ => line_raise _ _ _, fun i hi => ?_, x,
          by simp, hne⟩
        exact (ho i hi).congr rfl (line_raise _ _ _)

-- ================================================================ calls

/-- What a call leaves of a sound table, whichever way it ends: the
setup, the invariant, and what stands on connections that are none of
its peers'. -/
structure Left (geo : PeerId → Geometry) (T : ℚ) (w w' : World env) :
    Prop where
  sound : Sound geo T w'
  setup : w'.table.setup = w.table.setup
  others : ∀ i ∉ w.table.peers,
    (w'.line geo i).phase = (w.line geo i).phase

/-- Nothing was done. -/
theorem Left.refl (h : Sound geo T w) : Left geo T w w :=
  ⟨h, rfl, fun _ _ => rfl⟩

/-- A table that is marked is good, whatever its peers are like. -/
theorem Left.marked (h : Left geo T w w') (hf : w'.table.failed ≠ none) :
    Good geo T w' := ⟨h.sound, fun hn => absurd hn hf⟩

/-- Work of a call on the peers of its table. -/
theorem Left.moves {evs : Trace} (h : Sound geo T w)
    (hm : Moves S evs w.called w') (hS : ∀ i ∈ S, i ∈ w.table.peers)
    (hl : ∀ i ∈ S, Linked geo T i w') : Left geo T w w' :=
  ⟨h.called.moves hm hl, by rw [hm.table]; rfl, fun i hi =>
    ((Called.refl w S).moves hm).phase fun hn => hi (hS i hn)⟩

/-- The mark of a failed call. -/
def World.withFailed (w : World env) (why : Option String) : World env :=
  { w with table := { w.table with failed := why } }

/-- A mark changes nothing of that. -/
theorem Left.withFailed (h : Left geo T w w') (why : Option String) :
    Left geo T w (w'.withFailed why) :=
  ⟨h.sound.keep rfl rfl h.sound.handle (fun _ => rfl)
    (fun i => (h.sound.linked i).congr rfl rfl) h.sound.roomy
    h.sound.deadline, h.setup, h.others⟩

/-- Each peer of a table in sync is open to a request. -/
theorem Good.open (h : Good geo T w) (hf : w.table.failed = none) :
    ∀ i ∈ w.table.peers, Open geo T i w.called := by
  intro i hi
  refine ⟨(h.sound.linked i).called, (h.synced hf i hi).called, ?_⟩
  rw [line_called]
  rfl

/-- A call that ends with every peer open leaves the table good. -/
theorem Left.good (h : Left geo T w w')
    (ho : ∀ i ∈ w.table.peers, Open geo T i w') : Good geo T w' := by
  refine ⟨h.sound, fun _ i hi => ?_⟩
  rw [setup_peers h.setup] at hi
  exact (ho i hi).settled

/-- How a call that may not be interrupted ends. -/
def Ends (geo : PeerId → Geometry) (T : ℚ) (w : World env) (e : Exn)
    (w' : World env) : Prop :=
  Left geo T w w' ∧ (e.isException = true → Good geo T w')

/-- A call refused because the table is marked. -/
theorem Good.refused (h : Good geo T w) (hf : w.table.failed ≠ none)
    (he) : Ends geo T w e (w.called.push (.raised e) he) := by
  have hleft : Left geo T w (w.called.push (.raised e) he) :=
    .moves h.sound (.push (S := ∅) he (by intro c hc; cases hc) rfl)
      (by simp) (by simp)
  exact ⟨hleft, fun _ => hleft.marked hf⟩

/-- What is raised inside the handler marks the table, or is an
interrupt. -/
theorem Fail.ends (h : Good geo T w) (hf : Fail S e w.called w')
    (hS : ∀ i ∈ S, i ∈ w.table.peers) (hl : ∀ i ∈ S, Linked geo T i w') :
    (e.isException = true →
      Ends geo T w e (w'.withFailed (some e.report))) ∧
    (e.isException = false → Ends geo T w e w') := by
  obtain ⟨evs, hm, -⟩ := hf
  have hleft : Left geo T w w' := .moves h.sound hm hS hl
  refine ⟨fun _ => ?_, fun he => ⟨hleft, fun ht => ?_⟩⟩
  · have hmarked := hleft.withFailed (some e.report)
    exact ⟨hmarked, fun _ => hmarked.marked (by simp [World.withFailed])⟩
  · rw [he] at ht
    cases ht

/-- A round of the peers that came back: each had a connection, and
answered one request on it, as `P` says. -/
structure Round (geo : PeerId → Geometry) (P : PeerId → Exchange → Prop)
    (w w' : World env) : Prop where
  moves : ∃ evs, Moves {i | i ∈ w.table.peers} evs w w'
  each : ∀ i ∈ w.table.peers, ∃ c x, (w.line geo i).conn = some c ∧
    P i x ∧ (w.line geo i).Adds [x] (w'.line geo i)

/-- Each peer has answered one request more. -/
def AllAnswered (geo : PeerId → Geometry) (w w' : World env) : Prop :=
  ∀ i ∈ w.table.peers, ∃ x, (w.line geo i).Adds [x] (w'.line geo i)

/-- `ping`. -/
theorem ping_spec (h : Good geo T w) :
    Runs RemoteTable.ping w
      (fun _ w' => (Left geo T w w' ∧ Good geo T w') ∧
        Round geo (fun _ x => opOf x.req = OP_PING) w.called w')
      (fun e w' => Ends geo T w e w' ∧
        (e.isException = true → w'.table.failed ≠ none)) := by
  unfold RemoteTable.ping
  simp only [runs_bind, runs_mark]
  show Runs RemoteTable.checkUsable w.called _ _
  refine checkUsable_spec.mono ?_ ?_
  case refine_2 =>
    intro e w' hw
    obtain ⟨⟨why, hf, -⟩, rfl⟩ := hw
    have hmark : w.called.table.failed ≠ none := by
      rw [hf]
      simp
    exact ⟨h.refused hmark _, fun _ => hmark⟩
  intro _ w' hw
  obtain ⟨rfl, hf⟩ := hw
  have hnd : w.called.table.peers.Nodup := h.sound.nodup
  have hopen := h.open hf
  have hsend := pass_spec (w := w.called)
    (f := fun i => do Peer.sendBare i OP_PING (← RemoteTable.nextReqId i))
    (A := fun i v => Open geo T i v ∧
      (w.called.line geo i).Adds [] (v.line geo i))
    (B := fun i v => Waiting geo T i v ∧
      (w.called.line geo i).Adds [] (v.line geo i)) hnd
    (fun i _ v hv => (pingSend_spec hv.1).mono
      (fun _ _ hu => ⟨hu.1, hu.2.1, hv.2.trans hu.2.2⟩) fun _ _ hu => hu)
    (fun _ _ _ hh hl hv => ⟨hv.1.congr hh hl, by rw [hl]; exact hv.2⟩)
    (fun _ _ _ hh hl hv => ⟨hv.1.congr hh hl, by rw [hl]; exact hv.2⟩)
    (fun _ _ hv => hv.1.linked) (fun _ _ hv => hv.1.linked)
    (fun i hi => ⟨hopen i hi, .refl _⟩)
  simp only [runs_self]
  refine Runs.catching (F := fun e v =>
    Fail {i | i ∈ w.called.table.peers} e w.called v ∧
      ∀ i ∈ w.called.table.peers, Linked geo T i v) ?_ ?_ ?_
  case refine_1 =>
    refine Runs.bind hsend ?_ (fun _ _ hv => hv)
    intro _ v hv
    refine (pass_spec (w := v) (f := Peer.readAck)
      (A := fun i v => Waiting geo T i v ∧
        (w.called.line geo i).Adds [] (v.line geo i))
      (B := fun i v => Open geo T i v ∧ ∃ x, opOf x.req = OP_PING ∧
        (w.called.line geo i).Adds [x] (v.line geo i)) hnd
      (fun i _ u hu => (readAck_open hu.1).mono (fun _ _ hx => by
        obtain ⟨hstep, ho, x, hop, hadds⟩ := hx
        exact ⟨hstep, ho, x, hop, hu.2.trans hadds⟩) fun _ _ hx => hx)
      (fun _ _ _ hh hl hu => ⟨hu.1.congr hh hl, by rw [hl]; exact hu.2⟩)
      (fun _ _ _ hh hl hu => ⟨hu.1.congr hh hl, by rw [hl]; exact hu.2⟩)
      (fun _ _ hu => hu.1.linked) (fun _ _ hu => hu.1.linked) hv.2).mono ?_ ?_
    · intro _ u hu
      obtain ⟨evs, hm, -⟩ := hv.1.trans hu.1
      have hleft : Left geo T w u :=
        .moves h.sound hm (fun _ hi => hi) fun i hi => (hu.2 i hi).1.linked
      refine ⟨⟨hleft, hleft.good fun i hi => (hu.2 i hi).1⟩, ⟨evs, hm⟩,
        fun i hi => ?_⟩
      obtain ⟨c, hc⟩ := (hopen i hi).conn
      obtain ⟨-, x, hop, hadds⟩ := hu.2 i hi
      exact ⟨c, x, hc, hop, hadds⟩
    · intro e u hu
      exact ⟨hv.1.fail hu.1, hu.2⟩
  case refine_2 =>
    intro e v hv he
    exact ⟨(hv.1.ends h (fun _ hi => hi) hv.2).1 he, fun _ => by simp⟩
  case refine_3 =>
    intro e v hv he
    refine ⟨(hv.1.ends h (fun _ hi => hi) hv.2).2 he, fun hx => ?_⟩
    rw [he] at hx
    cases hx

/-- `stat`. A range that moved leaves every peer settled and the table
unmarked, and that takes an answer from each. -/
theorem stat_spec (h : Good geo T w) :
    Runs RemoteTable.stat w
      (fun _ w' => (Left geo T w w' ∧ Good geo T w') ∧
        Round geo (fun i x => opOf x.req = OP_STAT ∧
          statGeometry x.ans = geo i) w.called w')
      (fun e w' => Ends geo T w e w' ∧ (e.isException = true →
        w'.table.failed ≠ none ∨ AllAnswered geo w.called w')) := by
  unfold RemoteTable.stat
  simp only [runs_bind, runs_mark]
  show Runs RemoteTable.checkUsable w.called _ _
  refine checkUsable_spec.mono ?_ ?_
  case refine_2 =>
    intro e w' hw
    obtain ⟨⟨why, hf, -⟩, rfl⟩ := hw
    have hmark : w.called.table.failed ≠ none := by
      rw [hf]
      simp
    exact ⟨h.refused hmark _, fun _ => .inl hmark⟩
  intro _ w' hw
  obtain ⟨rfl, hf⟩ := hw
  have hopen := h.open hf
  simp only [runs_self]
  refine Runs.catching (F := fun e v =>
    Fail {i | i ∈ w.called.table.peers} e w.called v ∧
      ∀ i ∈ w.called.table.peers, Linked geo T i v) ?_ ?_ ?_
  case refine_1 =>
    refine (queryAll_spec w.called.table.peers w.called h.sound.nodup
      hopen).mono ?_ (fun _ _ hv => hv)
    intro sts v hv
    obtain ⟨hquery, hgood, htold⟩ := hv
    have hzip : ∀ x ∈ w.called.table.peers.zip sts,
        x.1 ∈ w.called.table.peers := fun x hx => (List.of_mem_zip hx).1
    refine (checkAll_spec _ v hzip hgood).mono ?_ ?_
    · intro _ u hu
      obtain ⟨hstep, htr, hsettled, hsame⟩ := hu
      obtain ⟨evs, hm, -⟩ := hquery.trans hstep
      have hleft : Left geo T w u := .moves h.sound hm (fun _ hi => hi)
        fun i hi => (hsettled i hi).linked
      refine ⟨⟨hleft, hleft.good hsettled⟩, ⟨evs, hm⟩, fun i hi => ?_⟩
      obtain ⟨c, hc⟩ := (hopen i hi).conn
      obtain ⟨st, hst, x, ⟨hop, hx⟩, hadds⟩ := htold i hi
      refine ⟨c, x, hc, ⟨hop, ?_⟩, ?_⟩
      · rw [hx, hsame _ hst, (hquery.kept i).geometry]
        exact h.sound.geometry i hi
      · rw [show u.line geo i = v.line geo i from line_of_tr htr i]
        exact hadds
    · intro e u hu
      obtain ⟨hfail, hsame, hsettled, -⟩ := hu
      obtain ⟨evs, hm, -⟩ := hquery.fail hfail
      have hleft : Left geo T w u := .moves h.sound hm (fun _ hi => hi)
        fun i hi => (hsettled i hi).linked
      refine ⟨⟨hleft, fun _ => hleft.good hsettled⟩, fun _ => .inr ?_⟩
      intro i hi
      obtain ⟨-, -, x, -, hadds⟩ := htold i hi
      exact ⟨x, by rw [hsame i]; exact hadds⟩
  case refine_2 =>
    intro e v hv he
    exact ⟨(hv.1.ends h (fun _ hi => hi) hv.2).1 he,
      fun _ => .inl (by simp)⟩
  case refine_3 =>
    intro e v hv he
    refine ⟨(hv.1.ends h (fun _ hi => hi) hv.2).2 he, fun hx => ?_⟩
    rw [he] at hx
    cases hx

/-- `close`. -/
theorem closeAll_spec (h : Sound geo T w) {E : Exn → World env → Prop} :
    Runs RemoteTable.close w
      (fun _ w' => Left geo T w w' ∧ w'.table.failed ≠ none) E := by
  unfold RemoteTable.close
  simp only [runs_bind, runs_mark, runs_self]
  show Runs (forEach (fun i => Peer.close i false) w.called.table.peers)
    w.called _ _
  have howed : ∀ i, (w.called.line geo i).answered = false := by
    intro i
    rw [line_called]
    rfl
  -- the visits keep every peer linked and owed, whichever they are about
  have hpass : Runs (forEach (fun i => Peer.close i false)
      w.called.table.peers) w.called (fun _ v => ∃ evs,
        Moves {i | i ∈ w.called.table.peers} evs w.called v ∧
          ∀ i, Linked geo T i v ∧ (v.line geo i).answered = false) E := by
    refine Runs.forEach ?_ w.called
      ⟨[], .refl _ _, fun i => ⟨(h.linked i).called, howed i⟩⟩
    intro i hi v hv
    obtain ⟨evs, hm, hall⟩ := hv
    obtain ⟨hlink, ho⟩ := hall i
    refine (close_spec hlink ho).mono ?_ (fun _ _ hf => hf)
    intro _ u hu
    obtain ⟨evs', hm', -⟩ := hu.step.mono (Set.singleton_subset_iff.mpr
      (show i ∈ {i | i ∈ w.called.table.peers} from hi))
    refine ⟨evs ++ evs', hm.trans hm', fun j => ?_⟩
    by_cases hj : j = i
    · subst hj
      exact ⟨hu.linked, hu.owed.trans ho⟩
    · have hh := hu.step.heap (j := j) (S := {i}) hj
      have hl := hu.step.line (j := j) (S := {i}) geo hj
      exact ⟨(hall j).1.congr hh hl, by rw [hl]; exact (hall j).2⟩
  refine hpass.mono ?_ (fun _ _ hf => hf)
  intro _ v hv
  obtain ⟨evs, hm, hall⟩ := hv
  have hleft : Left geo T w v :=
    .moves h hm (fun _ hi => hi) fun i _ => (hall i).1
  simp only [runs_modifySelf]
  refine ⟨hleft.withFailed (v.table.failed.or (some "closed")), ?_⟩
  show v.table.failed.or (some "closed") ≠ none
  cases v.table.failed <;> simp

end PleRowServer.Client
