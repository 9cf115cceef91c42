/-
The retry discipline of a gather, read off the wire.

`Disciplined` says of the entries of one gather what the connection rule
of the protocol and the retry loop promise together: how often and how a
peer is asked, what comes before a GATHER on a new connection, and what
never happens again after an answer, a fault, or a handled error. Each
field is about every way to cut the entries at the ones it names.

`Stretch` proves it of a good line; that the lines are good is the
invariant of the table.
-/
import PleRowServer.Client.Stretch

namespace PleRowServer.Client

open Base Wire
open RemoteTable (Config initial)

variable {env : Env} {geo : PeerId → Geometry} {w w₀ w' : World env} {T : ℚ}
  {cfg : Config} {i : PeerId} {ids : List Int} {tr evs a b d : Trace} {e : Ev}
  {c : ConnId} {x y : Exn} {S : Set PeerId}

-- ============================================================= discipline

/-- What the entries of a gather keep to, whichever way it ends. -/
structure Disciplined (geo : PeerId → Geometry) (evs : Trace) : Prop where
  /-- a peer is asked once for each attempt at most, -/
  few : ∀ i, (gathersTo i evs).length ≤ GATHER_ATTEMPTS
  /-- each time on another connection, -/
  conns : ∀ i, ((gathersTo i evs).map Prod.fst).Nodup
  /-- and on a new one only after one STAT, all that went over it, was
  answered with the range recorded -/
  checked : ∀ a b d c addr t data r,
    evs = a ++ .connect c addr t .ok :: (b ++ .send c data r :: d) →
    opOf data = OP_GATHER → ∃ req, WholeRequest req ∧ opOf req = OP_STAT ∧
      sentOn b c = req ∧
      accepted (geo c.peer).rowBytes req (gotOn b c) = true ∧
      statGeometry (gotOn b c) = geo c.peer
  /-- once its answer is in, the peer is left alone -/
  settled : ∀ a b d c req, evs = a ++ .send c req .all :: (b ++ d) →
    opOf req = OP_GATHER →
    accepted (geo c.peer).rowBytes req (gotOn b c) = true →
    ∀ e ∈ d, ¬ e.Disturbs c
  /-- after a fault on it a connection is not used -/
  spent : ∀ a b e c, evs = a ++ e :: b → e.Fault c → ∀ x ∈ b, ¬ x.Uses c
  /-- and after a fault anywhere the peers of the attempt are spoken to
  on connections opened since -/
  anew : ∀ a b d x todo e c,
    evs = a ++ .caught x todo :: (b ++ e :: d) → e.Uses c →
    c.peer ∈ todo → ∃ addr t, .connect c addr t .ok ∈ b
  /-- somebody is left to ask in every attempt -/
  asks : ∀ n todo, .attempt n todo ∈ evs → todo ≠ []

/-- What it also keeps to if no interrupt ends it: a connection with a
fault on it, or whose answer was outstanding when another's was handled,
is closed. -/
structure Parting (geo : PeerId → Geometry) (evs : Trace) : Prop where
  faulted : ∀ a b e c, evs = a ++ e :: b → e.Fault c →
    ∃ f, .close c f ∈ b
  owing : ∀ a b d c req x todo,
    evs = a ++ .send c req .all :: (b ++ .caught x todo :: d) →
    c.peer ∈ todo → (∃ b₁ b₂, b = b₁ ++ b₂ ∧
      accepted (geo c.peer).rowBytes req (gotOn b₁ c) = true) ∨
      ∃ f, .close c f ∈ b ++ d

/-- After `tr`: whoever had a connection when a fault of its attempt was
handled had answered a GATHER on it, or the connection is closed. -/
def LetGo (geo : PeerId → Geometry) (tr evs : Trace) : Prop :=
  ∀ a b x todo, evs = a ++ .caught x todo :: b → ∀ i ∈ todo, ∀ c,
    (line (geo i) i (tr ++ a)).conn = some c →
    (∃ a₁ a₂ req, a = a₁ ++ .send c req .all :: a₂ ∧
      opOf req = OP_GATHER ∧
      accepted (geo i).rowBytes req (gotOn a₂ c) = true) ∨
      ∃ f, .close c f ∈ b

-- ================================================================= cuts

/-- No stretch lowers the bound. -/
theorem Trace.bound_append (tr evs : Trace) :
    Trace.bound tr ≤ Trace.bound (tr ++ evs) := by
  induction evs using List.reverseRecOn with
  | nil => rw [List.append_nil]
  | append_singleton evs e ih =>
      rw [← List.append_assoc]
      exact ih.trans (Trace.bound_snoc _ e)

/-- A connection of the history is not opened again. -/
theorem unopened (hprod : env.Produced (tr ++ evs))
    (hc : c.n < Trace.bound tr) : ∀ e ∈ evs, ¬ e.Opens c := by
  intro e he ho
  obtain ⟨a, b, rfl⟩ := List.append_of_mem he
  obtain ⟨-, hp⟩ := hprod.produces (List.append_assoc tr a (e :: b)).symm
  have hmono := Trace.bound_append tr a
  cases e with
  | connect d addr t r =>
      cases r with
      | ok =>
          obtain rfl : d = c := ho
          have := hp.1
          omega
      | _ => exact ho
  | _ => exact ho

/-- Entries of a gather from `S` that began with nobody asked and nothing
outstanding between it and `S`, and left every line good. -/
structure Lines (env : Env) (geo : PeerId → Geometry) (S : Set PeerId)
    (tr evs : Trace) : Prop where
  produced : env.Produced (tr ++ evs)
  of : ∀ e ∈ evs, e.Of S
  good : ∀ i, (line (geo i) i (tr ++ evs)).bad = false
  idle : ∀ i ∈ S, (line (geo i) i tr).phase = .idle
  owed : ∀ i, (line (geo i) i tr).answered = false
  none : ∀ i, (line (geo i) i tr).asked = []

namespace Lines

variable (h : Lines env geo S tr evs)
include h

/-- No call begins in between. -/
theorem call : Ev.call ∉ evs := fun hc => h.of _ hc

/-- An entry is about one of the peers asked. -/
theorem asked (hs : evs = a ++ e :: b) (hc : e.conn = some c) :
    c.peer ∈ S := by
  have hof : e.Of S := h.of e (by simp [hs])
  cases e <;> first | exact hof c hc | cases hc

/-- The line at a cut. -/
theorem cut (hs : evs = a ++ b) :
    env.Produced (tr ++ a) ∧ (∀ i, (line (geo i) i (tr ++ a)).bad = false) ∧
      ∀ i, ((line (geo i) i (tr ++ a)).after (geo i) i b).bad = false := by
  have htr : tr ++ evs = (tr ++ a) ++ b := by rw [hs, List.append_assoc]
  refine ⟨h.produced.grows ⟨b, htr.symm⟩, fun i => ?_, fun i => ?_⟩
  · have := h.good i
    rw [htr] at this
    exact line_not_bad_initial this
  · rw [← line_after, ← htr]
    exact h.good i

/-- The line that saw an entry of its peer. -/
theorem at_ (hs : evs = a ++ e :: b) (i : PeerId) :
    (line (geo i) i (tr ++ a)).Goes (geo i) i e
        (lineStep (geo i) i (line (geo i) i (tr ++ a)) e) ∧
      ((lineStep (geo i) i (line (geo i) i (tr ++ a)) e).after (geo i) i
        b).bad = false := by
  have hgood := (h.cut hs).2.2 i
  rw [Line.after_cons] at hgood
  exact ⟨Line.goes (Line.good_of_after hgood), hgood⟩

/-- No call begins in a part of them. -/
theorem not_call (hs : evs = a ++ b) : Ev.call ∉ b :=
  fun hb => h.call (hs ▸ List.mem_append_right a hb)

/-- A connection mentioned is not opened later. -/
theorem reopened (hs : evs = a ++ e :: b) (hc : e.conn = some c) :
    ∀ x ∈ b, ¬ x.Opens c := by
  have hprod := h.produced
  rw [hs, List.append_cons, ← List.append_assoc] at hprod
  exact unopened hprod (by
    rw [← List.append_assoc]
    exact Trace.lt_bound_snoc hc)

/-- A GATHER sent whole is owed its answer. -/
theorem owing {req : List UInt8} (hs : evs = a ++ .send c req .all :: b) :
    (lineStep (geo c.peer) c.peer (line (geo c.peer) c.peer (tr ++ a))
      (.send c req .all)).Owing (geo c.peer) c req [] := by
  obtain ⟨hgo, -⟩ := h.at_ hs c.peer
  generalize lineStep (geo c.peer) c.peer (line (geo c.peer) c.peer (tr ++ a))
    (.send c req .all) = l' at hgo
  cases hgo with
  | quiet _ _ hq => exact absurd rfl (hq c rfl).1
  | sends _ _ _ _ hok =>
      simp only [Line.sendOk, Bool.and_eq_true, beq_iff_eq,
        Bool.not_eq_eq_eq_not, Bool.not_true] at hok
      exact ⟨hok.1.1.1.1.1, rfl, hok.1.1.1.2,
        not_accepted_of_short (by decide)⟩

/-- A fault puts its connection in doubt. -/
theorem faulted (hs : evs = a ++ e :: b) (hf : e.Fault c) :
    e.conn = some c ∧
      (lineStep (geo c.peer) c.peer (line (geo c.peer) c.peer (tr ++ a))
        e).conn = some c ∧
      (lineStep (geo c.peer) c.peer (line (geo c.peer) c.peer (tr ++ a))
        e).phase = .doubt := by
  obtain ⟨hgo, -⟩ := h.at_ hs c.peer
  have huse : e.Uses c ∧ e.conn = some c := by
    unfold Ev.Fault at hf
    split at hf <;> first | exact ⟨hf, congrArg some hf⟩ | exact hf.elim
  refine ⟨huse.2, ?_⟩
  generalize lineStep (geo c.peer) c.peer (line (geo c.peer) c.peer (tr ++ a))
    e = l' at hgo
  cases hgo with
  | quiet _ _ hq => exact absurd huse.1 (hq c rfl).1
  | sends d data r _ hok =>
      obtain rfl : d = c := huse.1
      simp only [Line.sendOk, Bool.and_eq_true, beq_iff_eq] at hok
      cases r with
      | fault why n => exact ⟨hok.1.1.1.1.1, rfl⟩
      | _ => exact hf.elim
  | @takes d want _ _ bs _ _ hb =>
      cases bs with
      | nil => exact absurd rfl hb
      | cons => exact hf.elim
  | loses d want r hconn =>
      obtain rfl : d = c := huse.1
      exact ⟨hconn, rfl⟩
  | breaks d want => exact hf.elim
  | _ => exact huse.1.elim

-- ============================================================== the rules

/-- After a fault on it nothing passes on a connection. -/
theorem spent (hs : evs = a ++ e :: b) (hf : e.Fault c) :
    ∀ x ∈ b, ¬ x.Uses c := by
  obtain ⟨hconn, -, hd⟩ := h.faulted hs hf
  have hspent : (lineStep (geo c.peer) c.peer
      (line (geo c.peer) c.peer (tr ++ a)) e).Spent c := fun _ => hd
  exact hspent.unused rfl (h.reopened hs hconn) (h.at_ hs c.peer).2

/-- Nothing disturbs a peer whose answer is in. -/
theorem settled {req : List UInt8}
    (hs : evs = a ++ .send c req .all :: (b ++ d)) (hop : opOf req = OP_GATHER)
    (hacc : accepted (geo c.peer).rowBytes req (gotOn b c) = true) :
    ∀ e ∈ d, ¬ e.Disturbs c := by
  have hcall := h.not_call (hs.trans (List.append_cons a _ _))
  obtain ⟨-, hgood⟩ := h.at_ hs c.peer
  have hopen := h.reopened hs (rfl : (Ev.send c req .all).conn = some c)
  rw [Line.after_append] at hgood
  have hhas := (h.owing hs).completed rfl hop
    (fun hb => hcall (List.mem_append_left d hb))
    (fun x hx => hopen x (List.mem_append_left d hx))
    (Line.good_of_after hgood) (by rwa [List.nil_append])
  exact (hhas.undisturbed rfl (fun hd => hcall (List.mem_append_right b hd))
    hgood).2

/-- Before a GATHER on a new connection there is a STAT. -/
theorem checked {addr : Addr} {t : ℚ} {data : List UInt8} {r : Sent}
    (hs : evs = a ++ .connect c addr t .ok :: (b ++ .send c data r :: d))
    (hop : opOf data = OP_GATHER) :
    ∃ req, WholeRequest req ∧ opOf req = OP_STAT ∧ sentOn b c = req ∧
      accepted (geo c.peer).rowBytes req (gotOn b c) = true ∧
      statGeometry (gotOn b c) = geo c.peer := by
  set o := Ev.connect c addr t .ok with ho
  have hs' : evs = (a ++ o :: b) ++ .send c data r :: d := by
    rw [hs, List.append_assoc, List.cons_append]
  -- the connection is new, and still so at the send
  have hnew : (line (geo c.peer) c.peer (tr ++ (a ++ o :: b))).fresh = true := by
    obtain ⟨hgo, hgood⟩ := h.at_ hs c.peer
    rw [Line.after_append] at hgood
    have hcall := h.not_call (hs.trans (List.append_cons a _ _))
    rw [← List.append_assoc, line_after, Line.after_cons]
    refine Line.fresh_after ?_ (fun hb => hcall (List.mem_append_left _ hb))
      (Line.good_of_after hgood)
    simp [lineStep, ho, Line.onConnect]
  obtain ⟨hgo, -⟩ := h.at_ hs' c.peer
  obtain ⟨hprod, hgood, -⟩ := h.cut hs'
  have ht := line_traced hprod (hgood c.peer)
  generalize line (geo c.peer) c.peer (tr ++ (a ++ o :: b)) = l at *
  have hok : l.sendOk (geo c.peer) c data = true := by
    generalize lineStep (geo c.peer) c.peer l (.send c data r) = l' at hgo
    cases hgo with
    | quiet _ _ hq => exact absurd rfl (hq c rfl).1
    | sends _ _ _ _ hok => exact hok
  simp only [Line.sendOk, Bool.and_eq_true, beq_iff_eq, hop,
    bne_self_eq_false, Bool.false_or, Line.checked, hnew, Bool.not_true] at hok
  obtain ⟨⟨⟨⟨⟨hconn, hidle⟩, -⟩, -⟩, -⟩, hcheck, -⟩ := hok
  obtain ⟨hsent, hgot⟩ := ht.idle c hconn hidle
  -- nothing was on it before it was opened
  obtain ⟨-, hp⟩ := (h.produced).produces
    (show tr ++ evs = (tr ++ a) ++ o :: (b ++ .send c data r :: d) by
      rw [hs, List.append_assoc])
  obtain ⟨hs₀, hg₀⟩ := streams_of_bound_le hp.1.ge
  have hcut : tr ++ (a ++ o :: b) = (tr ++ a) ++ [o] ++ b := by simp
  have hsb : sentOn (tr ++ (a ++ o :: b)) c = sentOn b c := by
    rw [hcut, sentOn, List.flatMap_append, ← sentOn, sentOn_snoc, hs₀]
    rfl
  have hgb : gotOn (tr ++ (a ++ o :: b)) c = gotOn b c := by
    rw [hcut, gotOn, List.flatMap_append, ← gotOn, gotOn_snoc, hg₀]
    rfl
  rw [hsb] at hsent
  rw [hgb] at hgot
  have hset := ht.settled
  rcases hdone : l.done with _ | ⟨x, _ | ⟨y, rest⟩⟩ <;>
    rw [hdone] at hcheck hsent hgot hset
  · cases hcheck
  · simp only [Bool.and_eq_true, beq_iff_eq] at hcheck
    simp only [List.flatMap_singleton] at hsent hgot
    obtain ⟨hwhole, hacc⟩ := hset x (by simp)
    rw [hgot]
    exact ⟨x.req, hwhole, hcheck.1, hsent, hacc, hcheck.2⟩
  · cases hcheck

/-- The peers of an attempt whose fault is handled: answered, or spoken to
on another connection. -/
theorem caught {todo : List PeerId} (hs : evs = a ++ .caught x todo :: b)
    (hi : i ∈ todo) :
    (∃ c : ConnId, c.peer = i ∧ (lineStep (geo i) i
        (line (geo i) i (tr ++ a)) (.caught x todo)).Has c) ∨
      ∀ c, (lineStep (geo i) i (line (geo i) i (tr ++ a))
        (.caught x todo)).Spent c := by
  obtain ⟨hgo, -⟩ := h.at_ hs i
  obtain ⟨hprod, hgood, -⟩ := h.cut hs
  have hcall : Ev.call ∉ a :=
    fun ha => h.call (hs ▸ List.mem_append_left _ ha)
  have hof : i ∈ S := h.of (.caught x todo) (by simp [hs]) i hi
  have hasks := line_asks (h.idle i hof) (h.owed i) a hprod hcall (hgood i)
  have ht := line_traced hprod (hgood i)
  generalize lineStep (geo i) i (line (geo i) i (tr ++ a)) (.caught x todo)
    = l' at hgo
  cases hgo with
  | quiet _ _ _ hq =>
      rcases hq x todo rfl hi with hans | hnone
      · obtain ⟨c, -, -, -, hconn, hidle, -⟩ := hasks.answered hans
        exact .inl ⟨c, (ht.conn c hconn).1, hconn, hidle, hans⟩
      · refine .inr fun c hc => ?_
        rw [hnone] at hc
        cases hc
  | doubts => exact .inr fun c _ => rfl

/-- After a fault is handled the peers are spoken to on new connections.
-/
theorem anew {todo : List PeerId}
    (hs : evs = a ++ .caught x todo :: (b ++ e :: d)) (huse : e.Uses c)
    (hi : c.peer ∈ todo) : ∃ addr t, .connect c addr t .ok ∈ b := by
  have hcall := h.not_call (hs.trans (List.append_cons a _ _))
  obtain ⟨-, hgood⟩ := h.at_ hs c.peer
  by_contra hno
  have hopen : ∀ y ∈ b ++ [e], ¬ y.Opens c := by
    intro y hy ho
    rcases List.mem_append.mp hy with hy | hy
    · cases y with
      | connect c' addr t r =>
          cases r with
          | ok =>
              obtain rfl : c' = c := ho
              exact hno ⟨addr, t, hy⟩
          | _ => exact ho
      | _ => exact ho
    · obtain rfl := List.mem_singleton.mp hy
      cases y <;> first | exact huse | exact ho
  rcases h.caught hs hi with ⟨c', hpeer, hhas⟩ | hspent
  · refine (hhas.undisturbed hpeer hcall hgood).2 e (by simp) ?_
    cases e with
    | send c'' data r => exact (congrArg ConnId.peer huse).trans hpeer.symm
    | recv c'' want r => exact (congrArg ConnId.peer huse).trans hpeer.symm
    | _ => exact huse.elim
  · rw [show b ++ e :: d = (b ++ [e]) ++ d by simp, Line.after_append] at hgood
    exact (hspent c).unused rfl hopen (Line.good_of_after hgood) e (by simp)
      huse

/-- Nobody is sent two GATHERs on one connection; how many, the line
counted. -/
theorem gathers (i : PeerId) :
    gathersTo i evs = (line (geo i) i (tr ++ evs)).asked ∧
      ((gathersTo i evs).map Prod.fst).Nodup ∧
      ((gathersTo i evs).map Prod.snd).Sublist
        ((line (geo i) i tr).ticket.toList ++ drawn evs) := by
  have hgood := h.good i
  rw [line_after] at hgood ⊢
  have hasked := Line.asked_after h.call hgood
  rw [h.none, List.nil_append] at hasked
  refine ⟨hasked.symm, ?_, Line.gathers_drawn h.call hgood⟩
  rw [← hasked]
  refine Line.asked_nodup ?_ hgood
  rw [h.none]
  exact List.nodup_nil

/-- Unless a connection is left in doubt, those with a fault on them are
closed. -/
theorem closed
    (hclear : ∀ i ∈ S, (line (geo i) i (tr ++ evs)).phase ≠ .doubt)
    (hs : evs = a ++ e :: b) (hf : e.Fault c) : ∃ f, .close c f ∈ b := by
  obtain ⟨-, hconn, hd⟩ := h.faulted hs hf
  refine (Line.doubt_after hconn hd (h.at_ hs c.peer).2).resolve_right ?_
  intro hstill
  refine hclear c.peer (h.asked hs (h.faulted hs hf).1) ?_
  rw [hs, ← List.append_assoc, line_after, Line.after_cons]
  exact hstill.2

/-- Unless a connection is left in doubt, those that owed an answer when a
fault was handled have answered since or are closed. -/
theorem owed_closed
    (hclear : ∀ i ∈ S, (line (geo i) i (tr ++ evs)).phase ≠ .doubt)
    {req : List UInt8} {todo : List PeerId}
    (hs : evs = a ++ .send c req .all :: (b ++ .caught x todo :: d))
    (hi : c.peer ∈ todo) :
    (∃ b₁ b₂, b = b₁ ++ b₂ ∧
        accepted (geo c.peer).rowBytes req (gotOn b₁ c) = true) ∨
      ∃ f, .close c f ∈ b ++ d := by
  have hcall := h.not_call (hs.trans (List.append_cons a _ _))
  obtain ⟨-, hgood⟩ := h.at_ hs c.peer
  rw [Line.after_append] at hgood
  rcases (h.owing hs).after rfl (fun hb => hcall (List.mem_append_left _ hb))
    (Line.good_of_after hgood) with ⟨f, hf⟩ | hacc | ⟨hconn, hstill⟩
  · exact .inr ⟨f, List.mem_append_left d hf⟩
  · exact .inl hacc
  rw [Line.after_cons] at hgood
  have hdoubt : (lineStep (geo c.peer) c.peer
        ((lineStep (geo c.peer) c.peer (line (geo c.peer) c.peer (tr ++ a))
          (.send c req .all)).after (geo c.peer) c.peer b)
        (.caught x todo)).conn = some c ∧
      (lineStep (geo c.peer) c.peer
        ((lineStep (geo c.peer) c.peer (line (geo c.peer) c.peer (tr ++ a))
          (.send c req .all)).after (geo c.peer) c.peer b)
        (.caught x todo)).phase = .doubt := by
    generalize (lineStep (geo c.peer) c.peer
      (line (geo c.peer) c.peer (tr ++ a)) (.send c req .all)).after
        (geo c.peer) c.peer b = l at *
    simp only [lineStep, if_pos hi, Line.onCaught]
    rcases hstill with hp | howed
    · split
      · exact ⟨hconn, hp⟩
      · split
        · exact ⟨hconn, hp⟩
        · exact ⟨hconn, rfl⟩
    · simp [howed, hconn]
  rcases Line.doubt_after hdoubt.1 hdoubt.2 hgood with ⟨f, hf⟩ | ⟨-, hp⟩
  · exact .inr ⟨f, List.mem_append_right b hf⟩
  · refine absurd ?_ (hclear c.peer (h.asked hs rfl))
    rw [hs, ← List.append_assoc, line_after, Line.after_cons,
      Line.after_append, Line.after_cons]
    exact hp

/-- Unless a connection is left in doubt, any there was when a fault was
handled is let go, if its peer had not answered. -/
theorem letGo
    (hclear : ∀ i ∈ S, (line (geo i) i (tr ++ evs)).phase ≠ .doubt) :
    LetGo geo tr evs := by
  intro a b x todo hs i hi c hconn
  have hof : i ∈ S := h.of (.caught x todo) (by simp [hs]) i hi
  obtain ⟨hprod, hgood, -⟩ := h.cut hs
  have hcall : Ev.call ∉ a :=
    fun ha => h.call (hs ▸ List.mem_append_left _ ha)
  have hasks := line_asks (h.idle i hof) (h.owed i) a hprod hcall (hgood i)
  have hnext := (h.at_ hs i).2
  by_cases hans : (line (geo i) i (tr ++ a)).answered = true
  case pos =>
    obtain ⟨c', d, req, ans, hconn', -, hdone, hop, hsince⟩ :=
      hasks.answered hans
    obtain rfl : c = c' := Option.some.inj (hconn.symm.trans hconn')
    have hset := (line_traced hprod (hgood i)).settled ⟨req, ans⟩
      (by simp [hdone])
    obtain ⟨a₁, a₂, rfl, -, -, -, rfl⟩ := hsince
    exact .inl ⟨a₁, a₂, req, rfl, hop, hset.2⟩
  case neg =>
    have hdoubt : lineStep (geo i) i (line (geo i) i (tr ++ a))
        (.caught x todo)
          = { line (geo i) i (tr ++ a) with phase := .doubt } := by
      simp [lineStep, if_pos hi, Line.onCaught, hans, hconn]
    refine .inr ((Line.doubt_after (by rw [hdoubt]; exact hconn)
      (by rw [hdoubt]) hnext).resolve_right fun hstill => ?_)
    refine hclear i hof ?_
    rw [hs, ← List.append_assoc, line_after, Line.after_cons]
    exact hstill.2

end Lines

-- ================================================================ a gather

/-- The lines of a gather that started on a usable table. -/
theorem Called.lines (h : Called S evs w w') (hs : Sound geo T w')
    (hidle : ∀ i ∈ S, (w.line geo i).phase = .idle) :
    Lines env geo S w.called.tr evs := by
  have hl : ∀ i, line (geo i) i w.called.tr = (w.line geo i).onCall :=
    fun i => line_called w i
  refine ⟨h.after ▸ w'.hist.ok, h.of, fun i => ?_, fun i hi => ?_,
    fun i => ?_, fun i => ?_⟩
  · rw [← h.after]
    exact (hs.linked i).good
  · rw [hl]
    exact hidle i hi
  · rw [hl]
    rfl
  · rw [hl]
    rfl

/-- Those lines have a ticket for nothing drawn before. -/
theorem Called.ticket (w : World env) (i : PeerId) :
    (line (geo i) i w.called.tr).ticket = none := by
  rw [show line (geo i) i w.called.tr = (w.line geo i).onCall from
    line_called w i]
  rfl

/-- A peer the call does not ask. -/
theorem Called.unasked (h : Called S evs w w') (hi : i ∉ S) :
    (w'.line geo i).asked = [] := by
  have : w'.line geo i = w.called.line geo i := by
    unfold World.line
    rw [h.after, line_of_other hi w.called.tr h.of]
  rw [this, line_called]
  rfl

/-- What a gather does on the wire, by how it ends. -/
structure Retries (geo : PeerId → Geometry) (peers : Nat) (o : Outcome)
    (evs : Trace) : Prop extends Disciplined geo evs where
  /-- every time under another request id, unless they run out -/
  ids : 6 * peers ≤ 2 ^ 32 → ∀ i, ((gathersTo i evs).map Prod.snd).Nodup
  parting : o.Ordinary → Parting geo evs
  /-- nothing follows an error that is no OSError -/
  fatal : ∀ a b e, evs = a ++ .raised e :: b → e.isOS = false →
    b = [] ∧ o = .raised e

/-- What it does by that, and what becomes of the peers it had to drop. -/
def Reissues (geo : PeerId → Geometry) (w : World env) (o : Outcome)
    (w' : World env) : Prop :=
  ∃ evs, w'.tr = w.tr ++ .call :: evs ∧
    Retries geo w.table.peers.length o evs ∧
    (o.Ordinary → LetGo geo (w.tr ++ [.call]) evs)

/-- A gather that asked no peer more often than there are attempts, and
left none in doubt. -/
theorem Called.retries {o : Outcome} (h : Called S evs w w')
    (hs : Sound geo T w') (hidle : ∀ i ∈ S, (w.line geo i).phase = .idle)
    (hfew : ∀ i ∈ S, (w'.line geo i).asked.length ≤ 3)
    (hclear : o.Ordinary → ∀ i ∈ S, (w'.line geo i).phase ≠ .doubt)
    (hdrawn : (drawn evs).length ≤ 6 * w.table.peers.length)
    (hfatal : ∀ a b e, evs = a ++ .raised e :: b → e.isOS = false →
      b = [] ∧ o = .raised e) :
    Reissues geo w o w' := by
  have hl := h.lines hs hidle
  have hclear' : o.Ordinary → ∀ i ∈ S,
      (line (geo i) i (w.called.tr ++ evs)).phase ≠ .doubt := by
    intro ho i hi
    rw [← h.after]
    exact hclear ho i hi
  refine ⟨evs, h.tr, ?_, fun ho => hl.letGo (hclear' ho)⟩
  refine ⟨⟨fun i => ?_, fun i => (hl.gathers i).2.1, ?_, ?_, ?_, ?_, ?_⟩,
    fun hsmall i => ?_, fun ho => ?_, hfatal⟩
  · rw [(hl.gathers i).1, ← h.after]
    by_cases hi : i ∈ S
    · exact hfew i hi
    · rw [show line (geo i) i w'.tr = w'.line geo i from rfl, h.unasked hi]
      exact Nat.zero_le _
  · intro a b d c addr t data r hcut hop
    exact hl.checked hcut hop
  · intro a b d c req hcut hop hacc
    exact hl.settled hcut hop hacc
  · intro a b e c hcut hf
    exact hl.spent hcut hf
  · intro a b d x todo e c hcut hu hi
    exact hl.anew hcut hu hi
  · intro n todo hmem
    exact h.of _ hmem
  · have hsub := (hl.gathers i).2.2
    rw [Called.ticket w i] at hsub
    exact hsub.nodup (h.ids.nodup (hdrawn.trans hsmall))
  · refine ⟨?_, ?_⟩
    · intro a b e c hcut hf
      exact hl.closed (hclear' ho) hcut hf
    · intro a b d c req x todo hcut hi
      exact hl.owed_closed (hclear' ho) hcut hi

/-- Of a stretch that ends by `x` only the end is no OSError. -/
theorem Trace.EndsBy.last (h : Trace.EndsBy x evs)
    (hs : evs = a ++ .raised y :: b) (hy : y.isOS = false) :
    b = [] ∧ y = x := by
  obtain ⟨pre, hpre, hcalm⟩ := h
  rw [hs] at hpre
  rcases List.eq_nil_or_concat b with rfl | ⟨b', z, rfl⟩
  · obtain ⟨-, hlast⟩ := List.append_inj' hpre rfl
    exact ⟨rfl, Ev.raised.inj (List.singleton_inj.mp hlast)⟩
  · have hmem : Ev.raised y ∈ pre := by
      rw [List.concat_eq_append, ← List.cons_append, ← List.append_assoc]
        at hpre
      rw [← (List.append_inj' hpre rfl).1]
      simp
    rw [hcalm y hmem] at hy
    cases hy

/-- No more peers are asked than there are. -/
theorem shares_le (geo : PeerId → Geometry) (ids : List Int)
    (is : List PeerId) : (shares geo ids is).length ≤ is.length := by
  have := (shares_sublist geo ids is).length_le
  rwa [List.length_map] at this

/-- The discipline of a gather that had the lock. -/
theorem Abandoned.retries (h : Abandoned geo T ids w x w')
    (hidle : ∀ i ∈ peersOf (shares geo ids w.table.peers),
      (w.line geo i).phase = .idle) : Reissues geo w (.raised x) w' := by
  obtain ⟨evs, hcalled, hends, hfew⟩ := h.called
  refine hcalled.retries h.sound hidle ?_ ?_
    (hfew.trans (Nat.mul_le_mul_left 6 (shares_le _ _ _))) ?_
  · rintro i ⟨s, hs, rfl⟩
    exact (h.parted s hs).asked
  · rintro ho i ⟨s, hs, rfl⟩
    exact (h.parted s hs).clear ho
  · intro a b e hcut hno
    obtain ⟨hb, rfl⟩ := hends.last hcut hno
    exact ⟨hb, rfl⟩

/-- The discipline of a gather that returned. -/
theorem Gathered.retries (h : Gathered geo T ids w w')
    (hidle : ∀ i ∈ peersOf (shares geo ids w.table.peers),
      (w.line geo i).phase = .idle) : Reissues geo w .returned w' := by
  obtain ⟨evs, hcalled, hcalm, hfew⟩ := h.called
  refine hcalled.retries h.sound hidle ?_ ?_
    (hfew.trans (Nat.mul_le_mul_left 6 (shares_le _ _ _))) ?_
  · rintro i ⟨s, hs, rfl⟩
    have hp : Parted geo .outOfRounds s.1 w' := (h.each s hs).parted
    exact hp.asked
  · rintro - i ⟨s, hs, rfl⟩
    rw [((h.each s hs).settled).idle]
    simp
  · intro a b e hcut hno
    have := hcalm e (hcut ▸ by simp)
    rw [this] at hno
    cases hno

/-- Getting to the lock is no entry. -/
theorem Entered.reissues {out : View} {n : Nat} {v : World env}
    {o : Outcome} (h : Entered w out n v) (hr : Reissues geo v o w') :
    Reissues geo w o w' := by
  obtain ⟨evs, htr, hret, hdrop⟩ := hr
  rw [h.tr] at htr hdrop
  rw [setup_peers h.setup] at hret
  exact ⟨evs, htr, hret, hdrop⟩

/-- The discipline of any gather that found the table fit for it. -/
theorem Fit.reissues {o : Outcome} (hfit : Fit geo ids w)
    (hs : Sound geo T w) (hf : w.table.failed = none)
    (h : (Op.gatherCpu ids).Takes w o w') :
    ids = [] ∧ w'.tr = w.tr ∨ Reissues geo w o w' := by
  have hidle : ∀ {out v}, Entered w out ids.length v →
      ∀ i ∈ peersOf (shares geo ids v.table.peers),
        (v.line geo i).phase = .idle := by
    rintro out v hv i ⟨s, hmem, rfl⟩
    rw [hv.line]
    rw [setup_peers hv.setup] at hmem
    exact hfit.idle s hmem
  have hspec : Runs (Op.gatherCpu ids).run w
      (fun _ w' => ∃ out v, Entered w out ids.length v ∧
        (ids = [] ∧ w' = v ∨ ids ≠ [] ∧ w.table.failed = none ∧
          Gathered geo T ids v w')) _ :=
    (gatherCpu_spec hs fun _ => hfit).bind
      (fun out v hv => ⟨out, hv⟩) fun _ _ hv => hv
  obtain ⟨hret, hraise⟩ := Op.takes_spec hspec
  cases o with
  | returned =>
      obtain ⟨out, v, hv, ⟨hids, rfl⟩ | ⟨-, -, hgath⟩⟩ := hret w' h
      · exact .inl ⟨hids, hv.tr⟩
      · exact .inr (hv.reissues (hgath.retries (hidle hv)))
  | raised e =>
      obtain ⟨-, out, ⟨v, -, why, -, hmark, -⟩ | ⟨-, v, hv, hcase⟩⟩ :=
        hraise e w' h
      · rw [hf] at hmark
        cases hmark
      · have hab : Abandoned geo T ids v e w' :=
          hcase.elim (·.toAbandoned) (·.toAbandoned)
        exact .inr (hv.reissues (hab.retries (hidle hv)))

/-- The retry discipline. Whatever the peers answer and the network does,
a gather on a usable table keeps to it. -/
theorem gatherCpu_disciplined {o : Outcome} (hc : Constructed env cfg w₀)
    (hu : Used Outcome.Ordinary w₀ w) (hf : w.table.failed = none)
    (h : (Op.gatherCpu ids).Takes w o w') :
    ids = [] ∧ w'.tr = w.tr ∨ ∃ evs, w'.tr = w.tr ++ .call :: evs ∧
      Retries w₀.ranges w.table.peers.length o evs := by
  obtain ⟨hg, -⟩ := hu.good hc
  refine ((hg.synced hf).fit.reissues hg.sound hf h).imp_right ?_
  rintro ⟨evs, htr, hr, -⟩
  exact ⟨evs, htr, hr⟩

/-- Rows 1, 0 and 1 of the pair. -/
theorem gatherCpu_disciplined_pair :
    ∃ w', (Op.gatherCpu [1, 0, 1]).Takes paired .returned w' ∧
      ([1, 0, 1] = ([] : List Int) ∧ w'.tr = paired.tr ∨
        ∃ evs, w'.tr = paired.tr ++ .call :: evs ∧
          Retries paired.ranges paired.table.peers.length .returned evs) := by
  have hret : Returns (Op.gatherCpu [1, 0, 1]).run paired = true := by
    decide +kernel
  obtain ⟨_, hx⟩ := Returns.run hret
  have htakes : (Op.gatherCpu [1, 0, 1]).Takes paired .returned _ := hx
  have hf : paired.table.failed = none := by decide +kernel
  exact ⟨_, htakes, gatherCpu_disciplined paired_constructed .refl hf htakes⟩

end PleRowServer.Client
