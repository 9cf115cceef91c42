/-
One request, one answer. The answer a gather takes from a peer is all
that was read on that peer's connection since its GATHER went out, and
the GATHER is all that was sent on it since its last completed exchange.

The line of the peer says so of whole histories; `Since` says where in
the history the request went out, and is carried along the history by
`line_since`, one case for each kind of entry.
-/
import PleRowServer.Client.Between
import Mathlib.Data.List.Induction

namespace PleRowServer.Client

open Base Wire
open RemoteTable (Config initial)

variable {env : Env} {geo : PeerId → Geometry} {g : Geometry}
  {w w' w₀ : World env} {T : ℚ} {cfg : Config} {i : PeerId} {ids : List Int}
  {tr evs : Trace} {c : ConnId} {d : List Exchange} {req got : List UInt8}

-- ==================================================== since the request

/-- During `evs`, which follow `tr`, `req` went out on `c`, with the
exchanges `d` completed there, and then nothing more; `got` was read
since. -/
def Since (tr evs : Trace) (c : ConnId) (d : List Exchange)
    (req got : List UInt8) : Prop :=
  ∃ a b, evs = a ++ .send c req .all :: b ∧
    sentOn (tr ++ a) c = d.flatMap Exchange.req ∧
    gotOn (tr ++ a) c = d.flatMap Exchange.ans ∧
    sentOn b c = [] ∧ gotOn b c = got

theorem Since.snoc (h : Since tr evs c d req got) {e : Ev}
    (he : e.sentOn c = []) :
    Since tr (evs ++ [e]) c d req (got ++ e.gotOn c) := by
  obtain ⟨a, b, rfl, hs, hg, hsb, hgb⟩ := h
  refine ⟨a, b ++ [e], by simp, hs, hg, ?_, ?_⟩
  · rw [sentOn_snoc, hsb, he]
    rfl
  · rw [gotOn_snoc, hgb]

/-- An entry that moves nothing on `c`. -/
theorem Since.quiet (h : Since tr evs c d req got) {e : Ev}
    (hs : e.sentOn c = []) (hg : e.gotOn c = []) :
    Since tr (evs ++ [e]) c d req got := by
  have := h.snoc hs
  rwa [hg, List.append_nil] at this

/-- What a line that was idle and unanswered before `evs` says of them:
the request outstanding went out during them, and so did the GATHER
whose answer is in. -/
structure Line.Asks (tr evs : Trace) (l : Line) : Prop where
  asking : ∀ req got, l.phase = .asked req got →
    ∃ c, l.conn = some c ∧ Since tr evs c l.done req got
  answered : l.answered = true → ∃ c d req ans, l.conn = some c ∧
    l.phase = .idle ∧ l.done = d ++ [⟨req, ans⟩] ∧ opOf req = OP_GATHER ∧
    Since tr evs c d req ans

variable {l l' : Line} {e : Ev}

/-- An entry that moves nothing on the line's connection and leaves the
line as it is, its tickets aside. -/
theorem Line.Asks.keep (h : l.Asks tr evs) (hconn : l'.conn = l.conn)
    (hphase : l'.phase = l.phase) (hdone : l'.done = l.done)
    (hans : l'.answered = l.answered)
    (he : ∀ c, l.conn = some c → e.sentOn c = [] ∧ e.gotOn c = []) :
    l'.Asks tr (evs ++ [e]) := by
  refine ⟨fun req got hp => ?_, fun ha => ?_⟩
  · rw [hphase] at hp
    obtain ⟨c, hc, hs⟩ := h.asking req got hp
    rw [hdone]
    exact ⟨c, hconn.trans hc, hs.quiet (he c hc).1 (he c hc).2⟩
  · rw [hans] at ha
    obtain ⟨c, d, req, ans, hc, hp, hd, hop, hs⟩ := h.answered ha
    exact ⟨c, d, req, ans, hconn.trans hc, hphase.trans hp, hdone.trans hd,
      hop, hs.quiet (he c hc).1 (he c hc).2⟩

/-- A line with nothing outstanding and nothing answered. -/
theorem Line.asks_of_clear (hp : ∀ req got, l.phase ≠ .asked req got)
    (ha : l.answered = false) : l.Asks tr evs := by
  refine ⟨fun req got h => absurd h (hp req got), fun h => ?_⟩
  rw [ha] at h
  cases h

/-- Nobody has the answer while it is outstanding. -/
theorem Line.Asks.owed (h : l.Asks tr evs) (hp : l.phase ≠ .idle) :
    l.answered = false := by
  cases ha : l.answered with
  | false => rfl
  | true =>
      obtain ⟨c, d, req, ans, -, hidle, -⟩ := h.answered ha
      exact absurd hidle hp

/-- Sending a whole request on a line with nothing outstanding. -/
theorem Line.Asks.onSend {data : List UInt8} {r : Sent}
    (ht : l.Traced g i (tr ++ evs)) (hok : l.sendOk g c data = true) :
    (l.onSend g c data r).Asks tr (evs ++ [.send c data r]) := by
  simp only [Line.sendOk, Bool.and_eq_true, beq_iff_eq,
    decide_eq_true_eq, Bool.not_eq_eq_eq_not, Bool.not_true] at hok
  obtain ⟨⟨⟨⟨⟨hconn, hidle⟩, howed⟩, -⟩, -⟩, -⟩ := hok
  cases r with
  | all =>
      refine ⟨fun req got hp => ?_, fun ha => ?_⟩
      · obtain ⟨rfl, rfl⟩ : data = req ∧ [] = got := by
          simpa [Line.onSend] using hp
        obtain ⟨hs, hg⟩ := ht.idle c hconn hidle
        exact ⟨c, hconn, evs, [], rfl, hs, hg, rfl, rfl⟩
      · rw [show (l.onSend g c data .all).answered = l.answered from rfl,
          howed] at ha
        cases ha
  | fault why n => exact asks_of_clear (by simp [Line.onSend]) howed
  | interrupt n =>
      refine asks_of_clear (fun req got => ?_) howed
      simp only [Line.onSend, hidle]
      split <;> simp

/-- Reading some of the answer that is outstanding. -/
theorem Line.Asks.onRecv {want : Nat} {r : Got} (h : l.Asks tr evs)
    (hbad : (l.onRecv g c r).bad = false) :
    (l.onRecv g c r).Asks tr (evs ++ [.recv c want r]) := by
  unfold Line.onRecv at hbad ⊢
  cases hphase : l.phase with
  | idle => simp [hphase] at hbad
  | doubt => simp [hphase] at hbad
  | asked req got =>
      simp only [hphase] at hbad ⊢
      have howed := h.owed (by rw [hphase]; simp)
      by_cases hc : l.conn = some c
      case neg => simp [hc] at hbad
      rw [if_pos hc] at hbad ⊢
      have hdoubt : ({ l with phase := .doubt } : Line).Asks tr
          (evs ++ [.recv c want r]) := asks_of_clear (by simp) howed
      cases r with
      | timeout => exact hdoubt
      | fault why => exact hdoubt
      | interrupt => exact h.keep rfl rfl rfl rfl fun _ _ => ⟨rfl, rfl⟩
      | data bs =>
          by_cases hb : bs = []
          case pos => simpa only [hb, if_true] using (hb ▸ hdoubt)
          simp only [hb, if_false]
          have hsince : Since tr (evs ++ [.recv c want (.data bs)]) c l.done
              req (got ++ bs) := by
            obtain ⟨c', hc', hs⟩ := h.asking req got hphase
            obtain rfl : c = c' := Option.some.inj (hc.symm.trans hc')
            have := hs.snoc (e := .recv c want (.data bs)) rfl
            simpa [Ev.gotOn] using this
          unfold Line.upTo
          split
          case isTrue =>
            refine ⟨fun _ _ hp => (by cases hp), fun ha => ?_⟩
            simp only [howed, Bool.false_or, beq_iff_eq] at ha
            exact ⟨c, l.done, req, got ++ bs, hc, rfl, rfl, ha, hsince⟩
          case isFalse =>
            refine ⟨fun req' got' hp => ?_, fun ha => ?_⟩
            · obtain ⟨rfl, rfl⟩ := Phase.asked.inj hp
              exact ⟨c, hc, hsince⟩
            · exact absurd (howed.symm.trans ha) (by simp)

/-- A line that was idle and unanswered when `evs` began, followed
through them. -/
theorem line_asks (hidle : (line g i tr).phase = .idle)
    (howed : (line g i tr).answered = false) :
    ∀ evs : Trace, env.Produced (tr ++ evs) → Ev.call ∉ evs →
      (line g i (tr ++ evs)).bad = false →
      (line g i (tr ++ evs)).Asks tr evs := by
  intro evs
  induction evs using List.reverseRecOn with
  | nil =>
      intro _ _ _
      rw [List.append_nil]
      exact Line.asks_of_clear (by simp [hidle]) howed
  | append_singleton evs e ih =>
      intro hprod hcall hb
      rw [← List.append_assoc] at hprod hb ⊢
      have hprod' := hprod.grows (List.prefix_append _ _)
      have hb' := line_not_bad_initial hb
      have ha := ih hprod' (fun h => hcall (by simp [h])) hb'
      have ht := line_traced hprod' hb'
      rw [line_snoc] at hb ⊢
      -- an entry about another connection, or about none
      have hother : (∀ c', e.conn = some c' → c'.peer ≠ i) →
          (line g i (tr ++ evs)).Asks tr (evs ++ [e]) := fun hne =>
        ha.keep rfl rfl rfl rfl fun c hc =>
          Ev.streams_of_conn_ne fun h => hne c h (ht.conn c hc).1
      cases e with
      | call => exact absurd (by simp) hcall
      | drew j n =>
          simp only [lineStep]
          split
          · exact ha.keep rfl rfl rfl rfl fun _ _ => ⟨rfl, rfl⟩
          · exact hother (by simp [Ev.conn])
      | connect c a t r =>
          by_cases hc : c.peer = i
          case neg =>
            have : lineStep g i (line g i (tr ++ evs)) (.connect c a t r)
                = line g i (tr ++ evs) := by
              cases r <;> simp [lineStep, hc]
            rw [this]
            exact hother fun c' h => (Option.some.inj h) ▸ hc
          cases r with
          | ok =>
              simp only [lineStep, hc, if_true] at hb ⊢
              simp only [Line.onConnect, Bool.or_eq_false_iff] at hb
              exact Line.asks_of_clear (by simp [Line.onConnect]) hb.1.2
          | fault why => exact ha.keep rfl rfl rfl rfl fun _ _ => ⟨rfl, rfl⟩
          | interrupt => exact ha.keep rfl rfl rfl rfl fun _ _ => ⟨rfl, rfl⟩
      | send c data r =>
          simp only [lineStep] at hb ⊢
          split at hb
          case isTrue hc =>
            rw [if_pos hc]
            simp only [Line.onSend, Bool.or_eq_false_iff,
              Bool.not_eq_false'] at hb
            exact Line.Asks.onSend ht hb.2
          case isFalse hc =>
            rw [if_neg hc]
            exact hother fun c' h => (Option.some.inj h) ▸ hc
      | recv c want r =>
          simp only [lineStep] at hb ⊢
          split at hb
          case isTrue hc =>
            rw [if_pos hc]
            exact ha.onRecv hb
          case isFalse hc =>
            rw [if_neg hc]
            exact hother fun c' h => (Option.some.inj h) ▸ hc
      | close c abort =>
          simp only [lineStep] at hb ⊢
          split at hb
          case isTrue hc =>
            rw [if_pos hc]
            unfold Line.onClose at hb ⊢
            split at hb
            case isTrue hconn =>
              rw [if_pos hconn]
              simp only [Bool.or_eq_false_iff] at hb
              exact Line.asks_of_clear (by simp) hb.2
            case isFalse hconn =>
              rw [if_neg hconn]
              exact ha.keep rfl rfl rfl rfl fun _ _ => ⟨rfl, rfl⟩
          case isFalse hc =>
            rw [if_neg hc]
            exact hother fun c' h => (Option.some.inj h) ▸ hc
      | caught x todo =>
          have hsame := ha.keep (e := .caught x todo) rfl rfl rfl rfl
            fun _ _ => ⟨rfl, rfl⟩
          simp only [lineStep]
          split
          case isFalse => exact hsame
          case isTrue =>
            unfold Line.onCaught
            split
            case isTrue => exact hsame
            case isFalse howed' =>
              split
              case isTrue => exact hsame
              case isFalse =>
                exact Line.asks_of_clear (by simp) (by simpa using howed')
      | _ => exact ha.keep rfl rfl rfl rfl fun _ _ => ⟨rfl, rfl⟩

/-- The history the request is looked for in may begin earlier. -/
theorem Since.after {x : Ev} (h : Since (tr ++ [x]) evs c d req got) :
    Since tr (x :: evs) c d req got := by
  obtain ⟨a, b, rfl, hs, hg, hsb, hgb⟩ := h
  rw [List.append_assoc] at hs hg
  exact ⟨x :: a, b, rfl, hs, hg, hsb, hgb⟩

-- ========================================================= one answer

/-- During `evs` the peer on `c` was sent one GATHER, for `k` rows, after
the last exchange completed there, and `ans`, which is all that was read
on `c` since, is a whole successful answer to it. -/
structure OneAnswer (tr evs : Trace) (rb k : Nat) (c : ConnId)
    (ans : List UInt8) : Prop where
  since : ∃ d req, (∀ x ∈ d, x.Settled rb) ∧ Asks OP_GATHER (idOf req) k req ∧
    Since tr evs c d req ans ∧ echoOf ans = idOf req
  magic : magicOf ans = MAGIC_RESP
  status : statusOf ans = 0
  count : rowsOf ans = k
  length : ans.length = HEADER + k * rb

/-- At every point of a call, a peer idle when the call began was sent
during the call whatever it is asked for. -/
theorem Called.asks {S : Set PeerId} {rest : Trace}
    (hcall : Called S (evs ++ rest) w w')
    (hidle : (w.line geo i).phase = .idle)
    (hgood : (w'.line geo i).bad = false) :
    (line (geo i) i (w.called.tr ++ evs)).Asks w.called.tr evs := by
  have hl₀ : w.called.line geo i = (w.line geo i).onCall := line_called w i
  have htr : w'.tr = (w.called.tr ++ evs) ++ rest := by
    rw [hcall.tr]
    simp [World.called]
  have hpre : w.called.tr ++ evs <+: w'.tr := ⟨rest, htr.symm⟩
  unfold World.line at hl₀ hgood
  refine line_asks (by rw [hl₀]; exact hidle) (by rw [hl₀]; rfl) evs
    (w'.hist.ok.grows hpre) (fun hmem => ?_) ?_
  · exact hcall.of _ (List.mem_append_left _ hmem)
  · rw [htr] at hgood
    exact line_not_bad_initial hgood

/-- A peer that is answered was asked once for its answer. -/
theorem Answered.one {s : Share} {k : Nat} {S : Set PeerId}
    (h : Answered geo T k ids s w') (hcall : Called S evs w w')
    (hidle : (w.line geo s.1).phase = .idle) :
    ∃ c ans, (w'.heap s.1).sock = some c ∧
      OneAnswer w.tr (.call :: evs) (geo s.1).rowBytes s.2.length c ans ∧
      (w'.heap s.1).rows.take (s.2.length * (geo s.1).rowBytes)
        = bodyOf ans := by
  obtain ⟨c, l, req, ans, ho, hreq, -, hacc, hl, hrows⟩ := h.line
  have hlink := h.linked
  have hasks : (w'.line geo s.1).Asks w.called.tr evs := by
    have hnil : Called S (evs ++ []) w w' := by rwa [List.append_nil]
    have := hnil.asks hidle hlink.good
    rwa [World.called, World.push_tr, List.append_assoc,
      ← show w'.tr = w.tr ++ ([Ev.call] ++ evs) from hcall.tr] at this
  obtain ⟨c', d, req', ans', hconn, -, hdone, -, hsince⟩ :=
    hasks.answered (by rw [hl])
  have hboth : l.done = d ∧ (⟨req, ans⟩ : Exchange) = ⟨req', ans'⟩ := by
    rw [hl] at hdone
    obtain ⟨h₁, h₂⟩ := List.append_inj' hdone rfl
    exact ⟨h₁, List.singleton_inj.mp h₂⟩
  obtain ⟨rfl, hx⟩ := hboth
  obtain ⟨rfl, rfl⟩ := Exchange.mk.inj hx
  obtain ⟨hok, hlen⟩ := accepted_iff.mp hacc
  obtain ⟨-, hmagic, hecho, hstatus, hcount⟩ := headerOk_iff.mp hok
  have hwant : wantRows req = s.2.length := by
    rw [wantRows, if_pos hreq.asks.op, hreq.asks.count]
  have hbody : bodyBytes (geo s.1).rowBytes req
      = s.2.length * (geo s.1).rowBytes := by
    rw [bodyBytes, if_pos hreq.asks.op, hreq.asks.count]
  refine ⟨c', ans, hlink.sock.trans hconn, ⟨⟨l.done, req, ?_, hreq.asks, hsince.after,
    hecho⟩, hmagic, hstatus, hcount.trans hwant, hlen.trans ?_⟩, hrows⟩
  · intro x hx
    refine (World.traced hlink.good).settled x ?_
    rw [hl]
    exact List.mem_append_left _ hx
  · rw [hbody]

/-- One row of an answer's body is a piece of the answer. -/
theorem Share.rowAt_answer {s : Share} {rb p : Nat} {rows ans : List UInt8}
    (hrows : rows.take (s.2.length * rb) = bodyOf ans) {j : Nat}
    (hj : j < s.2.length) (hp : s.2.idxOf p = j) :
    s.rowAt rb rows p = bytesAt ans (HEADER + j * rb) rb := by
  have hin : j * rb + rb ≤ s.2.length * rb := by
    have := Nat.mul_le_mul_right rb (Nat.succ_le_of_lt hj)
    rwa [Nat.succ_mul] at this
  have hbody : bytesAt (bodyOf ans) (j * rb) rb
      = bytesAt ans (HEADER + j * rb) rb := by
    unfold bodyOf bytesAt
    rw [List.drop_drop]
  rw [Share.rowAt, hp, ← hbody, ← hrows]
  unfold bytesAt
  rw [List.drop_take, List.take_take, Nat.min_eq_left (by omega)]

/-- Each peer with rows among the ids gave one answer during `evs`, and
its rows are those that `buf` shows, in order. -/
def Shown (geo : PeerId → Geometry) (rb : Nat) (ids : List Int)
    (tr evs : Trace) (buf : Nat) (w : World env) : Prop :=
  ∀ i ∈ w.table.peers, (geo i).owned ids ≠ [] →
    ∃ c ans, (w.heap i).sock = some c ∧
      OneAnswer tr evs rb ((geo i).owned ids).length c ans ∧
      ∀ j (hj : j < ((geo i).owned ids).length),
        (w.bufs buf).row ((geo i).owned ids)[j]
          = bytesAt ans (HEADER + j * rb) rb

/-- What a gather shows that returned, if nothing was outstanding on the
connections it used. -/
theorem Gathered.shown {out : View} {v : World env} {n : Nat}
    (h : Gathered geo T ids v w') (hs : Sound geo T w)
    (hv : Entered w out n v)
    (hidle : ∀ s ∈ shares geo ids w.table.peers,
      (w.line geo s.1).phase = .idle) :
    (∀ p < ids.length, ∃ i ∈ w.table.peers, p ∈ (geo i).owned ids) ∧
      ∃ evs, w'.tr = w.tr ++ evs ∧
        Shown geo w.table.rowBytes ids w.tr evs out.buf w' := by
  have hp := setup_peers hv.setup
  obtain ⟨evs, hcalled, -, -⟩ := h.called
  obtain ⟨m, hm, -, hrows⟩ := h.rows
  obtain rfl : out.buf = m := Option.some.inj (hv.staging.symm.trans hm)
  refine ⟨?_, .call :: evs, ?_, ?_⟩
  · intro p hlt
    obtain ⟨s, hmem, hps⟩ := h.cover p hlt
    obtain ⟨hi, hown, -⟩ := mem_shares.mp hmem
    exact ⟨s.1, hp ▸ hi, hown ▸ hps⟩
  · rw [hcalled.tr, hv.tr]
  · intro i hi hne
    rw [setup_peers hcalled.setup, hp] at hi
    set ps := (geo i).owned ids with hps
    have hmem : (i, ps) ∈ shares geo ids w.table.peers :=
      mem_shares.mpr ⟨hi, rfl, hne⟩
    have hidle' : (v.line geo i).phase = .idle := by
      rw [hv.line]
      exact hidle _ hmem
    rw [← hp] at hmem
    obtain ⟨c, ans, hsock, hone, hbody⟩ :=
      (h.each _ hmem).one hcalled hidle'
    have hrb : (geo i).rowBytes = w.table.rowBytes := hs.rowBytes i hi
    rw [hv.tr] at hone
    simp only [hrb] at hone hbody
    refine ⟨c, ans, hsock, hone, fun j hj => ?_⟩
    rw [hrows _ hmem _ (List.getElem_mem hj), setup_rowBytes hv.setup]
    refine Share.rowAt_answer hbody hj ?_
    exact (Geometry.nodup_owned _ ids).idxOf_getElem j hj

/-- Whatever the peers send: if a gather of some ids returns, every
position of its result belongs to a peer with ids in its range, and the
rows of such a peer are, in order, the body of the one answer the client
took from it. -/
theorem gatherCpu_answers (hc : Constructed env cfg w₀)
    (hu : Used Outcome.Ordinary w₀ w) (hids : ids ≠ []) :
    Runs (RemoteTable.gatherCpu ids) w
      (fun out w' => out.n = ids.length ∧
        (∀ p < ids.length,
          ∃ i ∈ w.table.peers, p ∈ (w₀.ranges i).owned ids) ∧
        ∃ evs, w'.tr = w.tr ++ evs ∧ ∀ i ∈ w.table.peers,
          (w₀.ranges i).owned ids ≠ [] →
          ∃ c ans, (w'.heap i).sock = some c ∧
            OneAnswer w.tr evs cfg.rowBytes
              ((w₀.ranges i).owned ids).length c ans ∧
            ∀ j (hj : j < ((w₀.ranges i).owned ids).length),
              (w'.bufs out.buf).row ((w₀.ranges i).owned ids)[j]
                = bytesAt ans (HEADER + j * cfg.rowBytes) cfg.rowBytes)
      (fun _ _ => True) := by
  obtain ⟨hg, hsetup⟩ := hu.good hc
  refine (gatherCpu_spec hg.sound fun hf => (hg.synced hf).fit).mono ?_
    (fun _ _ _ => trivial)
  intro out w' hret
  obtain ⟨v, hv, ⟨hnil, -⟩ | ⟨-, hf, hgath⟩⟩ := hret
  case inl => exact absurd hnil hids
  obtain ⟨hcover, evs, htr, hshown⟩ :=
    hgath.shown hg.sound hv (hg.synced hf).fit.idle
  refine ⟨hv.rows, hcover, evs, htr, fun i hi hne => ?_⟩
  have hrb : w.table.rowBytes = cfg.rowBytes :=
    (hg.sound.rowBytes i hi).symm.trans (hu.rowBytes hc hi)
  obtain ⟨evs', hcalled, -, -⟩ := hgath.called
  rw [← hrb]
  refine hshown i ?_ hne
  rw [setup_peers hcalled.setup, setup_peers hv.setup]
  exact hi

/-- Rows 1, 0 and 1 of the pair. -/
theorem gatherCpu_answers_pair :
    Returns (RemoteTable.gatherCpu [1, 0, 1]) paired = true ∧
      Runs (RemoteTable.gatherCpu [1, 0, 1]) paired
        (fun out w' => out.n = 3 ∧
          (∀ p < 3, ∃ i ∈ paired.table.peers,
            p ∈ (paired.ranges i).owned [1, 0, 1]) ∧
          ∃ evs, w'.tr = paired.tr ++ evs ∧ ∀ i ∈ paired.table.peers,
            (paired.ranges i).owned [1, 0, 1] ≠ [] →
            ∃ c ans, (w'.heap i).sock = some c ∧
              OneAnswer paired.tr evs 160
                ((paired.ranges i).owned [1, 0, 1]).length c ans ∧
              ∀ j (hj : j < ((paired.ranges i).owned [1, 0, 1]).length),
                (w'.bufs out.buf).row ((paired.ranges i).owned [1, 0, 1])[j]
                  = bytesAt ans (HEADER + j * 160) 160)
        (fun _ _ => True) := by
  refine ⟨by decide +kernel, ?_⟩
  exact gatherCpu_answers paired_constructed .refl (by decide)

end PleRowServer.Client
