/-
What opening and closing a peer's connection does. A connect that
returns leaves a connection no history mentioned before, with nothing
outstanding on it; one that fails may have opened and abandoned several,
and leaves the peer with none outstanding either (`Adrift`).
-/
import PleRowServer.Client.MessageSpec

namespace PleRowServer.Client

open Base Wire

variable {env : Env} {geo : PeerId → Geometry} {w w' w'' : World env}
  {i : PeerId} {c : ConnId} {e : Exn} {T : ℚ}

/-- The peer's socket is its line's connection, and the line is good:
what holds of a peer between any two calls, and inside most of them. -/
structure Linked (geo : PeerId → Geometry) (T : ℚ) (i : PeerId)
    (w : World env) : Prop where
  sock : (w.heap i).sock = (w.line geo i).conn
  good : (w.line geo i).bad = false
  timeout : (w.heap i).sock ≠ none → (w.heap i).timeout = T
  closed : (w.line geo i).conn = none → (w.line geo i).phase = .idle

/-- A good line agrees with the streams of the history. -/
theorem World.traced (h : (w.line geo i).bad = false) :
    (w.line geo i).Traced (geo i) i w.tr := line_traced w.hist.ok h

/-- A peer that is linked is on its connection. -/
theorem Linked.on (h : Linked geo T i w)
    (hc : (w.line geo i).conn = some c) : On geo i c w :=
  ⟨h.sock.trans hc, ((World.traced h.good).conn c hc).1, hc, h.good⟩

/-- A line depends on its peer's part of the state only. -/
theorem Linked.congr (h : Linked geo T i w) (hh : w'.heap i = w.heap i)
    (hl : w'.line geo i = w.line geo i) : Linked geo T i w' := by
  refine ⟨by rw [hh, hl]; exact h.sock, by rw [hl]; exact h.good, ?_, ?_⟩
  · rw [hh]; exact h.timeout
  · rw [hl]; exact h.closed

/-- Whatever happened inside an exchange, the socket is the
connection. -/
theorem Linked.slip {more : List (ConnId × Nat)} (h : Linked geo T i w)
    (hs : Slip geo i more w w') (hc : (w.line geo i).conn ≠ none) :
    Linked geo T i w' where
  sock := by rw [hs.sock, hs.conn]; exact h.sock
  good := hs.good
  timeout := by rw [hs.sock, hs.timeout]; exact h.timeout
  closed := by rw [hs.conn]; intro hn; exact absurd hn hc

-- ============================================================== opening

/-- A peer on a new connection. -/
structure Fresh (geo : PeerId → Geometry) (T : ℚ) (i : PeerId) (c : ConnId)
    (w w' : World env) : Prop where
  step : Step {i} w w'
  sock : (w'.heap i).sock = some c
  timeout : (w'.heap i).timeout = T
  flag : (w'.heap i).answered = (w.heap i).answered
  peer : c.peer = i
  line : w'.line geo i =
    { conn := some c, fresh := true, done := [], phase := .idle
      ticket := (w.line geo i).ticket
      asked := (w.line geo i).asked, answered := (w.line geo i).answered
      bad := false }
  new : c ∉ (w.line geo i).asked.map Prod.fst
  undrawn : drawn w'.tr = drawn w.tr

/-- A peer whose connection, if it has one, has nothing outstanding. -/
structure Adrift (geo : PeerId → Geometry) (T : ℚ) (i : PeerId)
    (w w' : World env) : Prop where
  linked : Linked geo T i w'
  idle : (w'.line geo i).phase = .idle
  owed : (w'.line geo i).answered = (w.line geo i).answered
  asked : (w'.line geo i).asked = (w.line geo i).asked
  ticket : (w'.line geo i).ticket = (w.line geo i).ticket
  flag : (w'.heap i).answered = (w.heap i).answered
  undrawn : drawn w'.tr = drawn w.tr

/-- From one attempt to connect to the next. -/
theorem Adrift.trans (h : Adrift geo T i w w') (h' : Adrift geo T i w' w'') :
    Adrift geo T i w w'' :=
  ⟨h'.linked, h'.idle, h'.owed.trans h.owed, h'.asked.trans h.asked,
    h'.ticket.trans h.ticket, h'.flag.trans h.flag, h'.undrawn.trans h.undrawn⟩

/-- Entries no line shows leave a peer adrift. -/
theorem Adrift.mute (h : Linked geo T i w)
    (hidle : (w.line geo i).phase = .idle) (hh : w'.heap i = w.heap i)
    (hl : w'.line geo i = w.line geo i)
    (hn : drawn w'.tr = drawn w.tr) : Adrift geo T i w w' :=
  ⟨h.congr hh hl, by rw [hl]; exact hidle, by rw [hl], by rw [hl], by rw [hl],
    by rw [hh], hn⟩

/-- Connected after attempts that failed. -/
theorem Fresh.after (h : Adrift geo T i w w') (hs : Step {i} w w')
    (h' : Fresh geo T i c w' w'') : Fresh geo T i c w w'' := by
  refine ⟨hs.trans h'.step, h'.sock, h'.timeout, h'.flag.trans h.flag,
    h'.peer, ?_, ?_, h'.undrawn.trans h.undrawn⟩
  · rw [h'.line, h.asked, h.owed, h.ticket]
  · rw [← h.asked]; exact h'.new

/-- Connecting disturbs nobody. -/
theorem Fresh.adrift (h : Fresh geo T i c w w') : Adrift geo T i w w' := by
  refine ⟨⟨?_, ?_, fun _ => h.timeout, ?_⟩, ?_, ?_, ?_, ?_, h.flag, h.undrawn⟩ <;>
    rw [h.line]
  · exact h.sock
  · intro hn; cases hn

/-- An entry that moves no byte moves no line. -/
theorem line_mute {x : Ev} (hx) (hm : x.Mute) (j : PeerId) :
    (w.push x hx).line geo j = w.line geo j :=
  line_of_mute (g := geo j) (i := j) w.tr (by simpa using hm)

/-- A connect that succeeds is one on the line. -/
theorem line_connect {addr : Addr} {t : ℚ} (hc : c.peer = i) (hr) :
    (w.push (.connect c addr t .ok) hr).line geo i
      = (w.line geo i).onConnect c := by
  simp [World.line, lineStep, hc]

/-- A connection no entry mentions was asked nothing. -/
theorem World.nextConn_new (h : (w.line geo i).bad = false) :
    w.nextConn i ∉ (w.line geo i).asked.map Prod.fst := by
  intro hm
  obtain ⟨x, hx, hxc⟩ := List.mem_map.mp hm
  have := (World.traced h).asked x hx
  rw [hxc] at this
  exact Nat.lt_irrefl _ this

/-- Why connecting can fail. -/
def Unconnected (T : ℚ) (d : Option ℚ) (ct : ℚ) (rounds : Nat)
    (w w' : World env) : Prop :=
  Faulted T d w w' ∨ ct < 0 ∨ rounds = 0

/-- `_Peer.connect` puts the peer on a new connection, or leaves it
adrift. -/
theorem connect_spec {ct : ℚ} (d : Option ℚ) (hT : 0 ≤ T)
    (h : Linked geo T i w) (hidle : (w.line geo i).phase = .idle)
    (hopen : (w.line geo i).answered = false) :
    Runs (Peer.connect i ct T) w (fun _ w' => ∃ c, Fresh geo T i c w w')
      (fun e w' => Fail {i} e w w' ∧ Adrift geo T i w w' ∧
        (Faulted T d w w' ∨ ct < 0) ∧ e ≠ .outOfRounds) := by
  have hof : ∀ (addr : Addr) (r : Done),
      (Ev.connect (w.nextConn i) addr ct r).Of {i} := by
    rintro addr r c hc; cases hc; rfl
  -- the two ways the connect itself fails
  have hlose : ∀ (addr : Addr) (r : Done) (hr) (e : Exn) (he), r ≠ .ok →
      e ≠ .outOfRounds →
      let v := (w.push (.connect (w.nextConn i) addr ct r) hr).push
        (.raised e) he
      Fail {i} e w v ∧ Adrift geo T i w v ∧ (Faulted T d w v ∨ ct < 0) ∧
        e ≠ .outOfRounds := by
    intro addr r hr e he hne hbound v
    have hm : (Ev.connect (w.nextConn i) addr ct r).Mute := by
      cases r with
      | ok => exact absurd rfl hne
      | fault why => trivial
      | interrupt => trivial
    refine ⟨(Step.push hr (hof addr r) (by simp)).fail (.raise _ {i} e),
      .mute h hidle rfl ?_ (by simp [v]), .inl ?_, hbound⟩
    · rw [line_raise, line_mute hr hm]
    · exact (Faulted.push (w := w) hr hne).before (List.prefix_append _ _)
        (List.prefix_append _ _)
  unfold Peer.connect createConnection
  simp only [runs_bind, runs_peer]
  split
  case isTrue hneg =>
    simp only [runs_bind, runs_raise]
    exact ⟨.raise w {i} _, .mute h hidle rfl (line_raise _ _ _) (by simp),
      .inr hneg, by simp⟩
  case isFalse =>
    simp only [runs_bind, runs_sysConnect]
    intro r hr
    cases r with
    | fault why => exact hlose _ _ hr _ _ (by simp) (by simp)
    | interrupt => exact hlose _ _ hr _ _ (by simp) (by simp)
    | ok =>
        simp only [runs_pure, if_neg (not_lt.mpr hT), runs_bind,
          runs_settimeout, runs_modifyPeer]
        set c := w.nextConn i with hc
        set w₁ := w.push (.connect c (w.heap i).addr ct .ok) hr with hw₁
        set w₂ := w₁.push (.settimeout c T)
          (env.produces_settimeout w₁.tr c T) with hw₂
        set w₃ := w₂.setPeer i { w₂.heap i with
          sock := some c, timeout := T, armed := T } with hw₃
        have hline : w₃.line geo i = (w.line geo i).onConnect c := by
          rw [hw₃, line_setPeer, hw₂,
            line_mute (x := .settimeout c T) _ trivial]
          exact line_connect rfl hr
        have hstep : Step {i} w w₃ := by
          refine (Step.push hr (hof _ _) (by simp)).trans ((Step.push _ ?_
            (by simp)).trans (.setPeer ⟨rfl, rfl, rfl, rfl, rfl, rfl⟩ rfl))
          rintro c' hc'; cases hc'; rfl
        have hfresh : ∀ v : World env, Step {i} w₃ v →
            (∃ a, v.heap i = { w₃.heap i with addr := a }) →
            v.line geo i = w₃.line geo i →
            drawn v.tr = drawn w.tr → Fresh geo T i c w v := by
          rintro v hs ⟨a, ha⟩ hl hn
          refine ⟨hstep.trans hs, ?_, ?_, ?_, rfl, ?_,
            World.nextConn_new h.good, hn⟩
          · rw [ha, hw₃, World.setPeer_self]
          · rw [ha, hw₃, World.setPeer_self]
          · rw [ha, hw₃, World.setPeer_self]; rfl
          · rw [hl, hline]
            simp [Line.onConnect, h.good, hopen, hidle]
        unfold getpeername
        simp only [runs_bind, runs_sysPeername]
        intro r hr'
        have hof' : (Ev.peername c r).Of {i} := by
          rintro c' hc'; cases hc'; rfl
        cases r with
        | ok addr =>
            simp only [runs_pure]
            refine ⟨c, hfresh _ ((Step.push hr' hof' (by simp)).trans
              (.setPeer ⟨rfl, rfl, rfl, rfl, rfl, rfl⟩ rfl)) ⟨addr, ?_⟩ ?_
              (by simp [hw₃, hw₂, hw₁])⟩
            · rw [World.setPeer_self]; rfl
            · rw [line_setPeer, line_mute hr' trivial]
        | error why =>
            have hs := Step.push (w := w₃) hr' hof' (by simp)
            have hf := hfresh _ hs ⟨_, rfl⟩ (line_mute hr' trivial i)
              (by simp [hw₃, hw₂, hw₁])
            refine ⟨(hstep.trans hs).fail (.raise _ {i} _),
              hf.adrift.trans (.mute hf.adrift.linked hf.adrift.idle rfl
                (line_raise _ _ _) (by simp)), .inl ?_, by simp⟩
            have hfault : Faulted T d w₃ (w₃.push (.peername c (.error why))
                hr') := .push hr' (by simp [Ev.Faulty])
            exact (hfault.after hstep.grows).before (hstep.trans hs).grows
              (List.prefix_append _ _)

/-- A new history that only grew carries a fault along. -/
theorem Unconnected.extend {d : Option ℚ} {ct : ℚ} {rounds : Nat}
    (h : Faulted T d w' w'' ∨ ct < 0) (hp : w.tr <+: w'.tr)
    {v : World env} (hp' : w'.tr <+: w''.tr) (hv : w''.tr <+: v.tr) :
    Unconnected T d ct rounds w v := by
  rcases h with h | h
  · exact .inl ((h.after hp).before (hp.trans hp') hv)
  · exact .inr (.inl h)

/-- Enough rounds of the connect loop are left for the clock to reach
`D`: a round sleeps half a second, or up to `D`. -/
def Enough (D : ℚ) (rounds : Nat) (w : World env) : Prop :=
  1 ≤ rounds ∧ (D ≤ env.now w.tr ∨ 2 * (D - env.now w.tr) + 2 ≤ rounds)

/-- There is less time later on. -/
theorem Enough.later {D : ℚ} {rounds : Nat} (ht : env.Timely)
    (h : Enough D rounds w) (hp : w.tr <+: w'.tr) : Enough D rounds w' := by
  have := ht.le w'.hist.ok hp
  obtain ⟨hr, h | h⟩ := h
  · exact ⟨hr, .inl (h.trans this)⟩
  · exact ⟨hr, .inr (by linarith)⟩

/-- A round that slept leaves enough for the rest. -/
theorem Enough.slept {D pause t : ℚ} {rounds : Nat}
    (h : Enough D (rounds + 1) w) (hlt : env.now w.tr < D)
    (hp : 1 / 2 ≤ pause) (hs : t = min pause (D - env.now w.tr))
    (hnow : env.now w.tr + t ≤ env.now w'.tr) : Enough D rounds w' := by
  obtain ⟨-, h | h⟩ := h
  · exact absurd h (not_le.mpr hlt)
  push_cast at h
  have hpos : (0 : ℚ) < rounds := by linarith
  have hone : 1 ≤ rounds := by exact_mod_cast hpos
  rcases le_total pause (D - env.now w.tr) with hle | hle
  · rw [min_eq_left hle] at hs
    exact ⟨hone, .inr (by linarith)⟩
  · rw [min_eq_right hle] at hs
    exact ⟨hone, .inl (by linarith)⟩

/-- `_connect` keeps trying until the peer is on a new connection or the
deadline has passed. -/
theorem connectLoop_spec {D : ℚ} (d : Option ℚ) (hT : 0 ≤ T) :
    ∀ (rounds : Nat) (pause : ℚ) (w : World env), 1 / 2 ≤ pause →
      w.table.timeout = T → Linked geo T i w →
      (w.line geo i).phase = .idle → (w.line geo i).answered = false →
      Runs (RemoteTable.connectLoop i D rounds pause) w
        (fun _ w' => ∃ c, Fresh geo T i c w w')
        (fun e w' => Fail {i} e w w' ∧ Adrift geo T i w w' ∧
          Unconnected T d w.table.connectTimeout rounds w w' ∧
          (env.Timely → Enough D rounds w → e ≠ .outOfRounds)) := by
  intro rounds
  induction rounds with
  | zero =>
      intro pause w _ hTw h hidle hopen
      unfold RemoteTable.connectLoop
      refine ⟨.raise w {i} _, .mute h hidle rfl (line_raise _ _ _) (by simp),
        .inr (.inr rfl), fun _ hen => ?_⟩
      exact absurd hen.1 (by omega)
  | succ rounds ih =>
      intro pause w hpause hTw h hidle hopen
      unfold RemoteTable.connectLoop
      simp only [runs_bind, runs_now, runs_self]
      intro t ht
      have hs₁ : Step {i} w (w.push (.now t) ht) :=
        .push ht (by intro c hc; cases hc) (by simp)
      have ha₁ : Adrift geo T i w (w.push (.now t) ht) :=
        .mute h hidle rfl (line_mute ht trivial i) (by simp)
      rw [World.push_table, hTw]
      have hct : ∀ {x : ℚ}, min w.table.connectTimeout (max x (1 / 1000)) < 0 →
          w.table.connectTimeout < 0 := by
        intro x hx
        rcases min_lt_iff.mp hx with hx | hx
        · exact hx
        · exact absurd (lt_of_le_of_lt (le_max_right x _) hx) (by norm_num)
      refine Runs.catching ((connect_spec d hT ha₁.linked ha₁.idle
        (ha₁.owed.trans hopen)).mono
          (fun _ w' hf => hf.imp fun c hf => hf.after ha₁ hs₁)
          (fun _ _ h => h)) ?_ ?_
      case refine_2 =>
        rintro e w₂ ⟨hfail, hadr, hcause, hne⟩ -
        refine ⟨hs₁.fail hfail, ha₁.trans hadr, ?_, fun _ _ => hne⟩
        exact .extend (hcause.imp_right hct) hs₁.grows hfail.grows
          List.prefix_rfl
      case refine_1 =>
        rintro e w₂ ⟨hfail, hadr, hcause, -⟩ hos
        have hcause : Faulted T d (w.push (.now t) ht) w₂ ∨
            w.table.connectTimeout < 0 := hcause.imp_right hct
        have hs₂ : Step {i} w w₂ := hs₁.trans (hfail.step hos)
        have ha₂ : Adrift geo T i w w₂ := ha₁.trans hadr
        simp only [runs_bind, runs_now]
        intro t' ht'
        have hs₃ : Step {i} w (w₂.push (.now t') ht') :=
          hs₂.trans (.push ht' (by intro c hc; cases hc) (by simp))
        have ha₃ : Adrift geo T i w (w₂.push (.now t') ht') :=
          ha₂.trans (.mute ha₂.linked ha₂.idle rfl (line_mute ht' trivial i) (by simp))
        -- whatever comes after, the cause of this failure stays on record
        have hwhy : ∀ v : World env, (w₂.push (.now t') ht').tr <+: v.tr →
            Unconnected T d w.table.connectTimeout (rounds + 1) w v :=
          fun v hv => .extend hcause hs₁.grows hfail.grows
            ((List.prefix_append _ _).trans hv)
        have hraise : ∀ (v : World env) (e : Exn), Step {i} w v →
            Adrift geo T i w v → (w₂.push (.now t') ht').tr <+: v.tr →
            e ≠ .outOfRounds →
            let v' := v.push (.raised e) (env.produces_raised v.tr e)
            Fail {i} e w v' ∧ Adrift geo T i w v' ∧
              Unconnected T d w.table.connectTimeout (rounds + 1) w v' ∧
              (env.Timely → Enough D (rounds + 1) w → e ≠ .outOfRounds) :=
          fun v e hs ha hp he => ⟨hs.fail (.raise v {i} e),
            ha.trans (.mute ha.linked ha.idle rfl (line_raise _ _ _) (by simp)),
            hwhy _ (hp.trans (List.prefix_append _ _)), fun _ _ => he⟩
        split
        case isTrue =>
          simp only [runs_bind, runs_peer, runs_raise]
          exact hraise _ _ hs₃ ha₃ List.prefix_rfl (by simp)
        case isFalse hleft =>
          have hlt : env.now w₂.tr < D := by
            obtain rfl : t' = env.now w₂.tr := ht'
            linarith
          rw [runs_bind]
          refine runs_sleep ?_ ?_
          case refine_2 =>
            intro r hr e he hne hbound
            refine hraise _ e (hs₃.trans (.push hr (by intro c hc; cases hc)
              (by simp))) (ha₃.trans (.mute ha₃.linked ha₃.idle rfl
                (line_mute hr trivial i) (by simp))) (List.prefix_append _ _) hbound
          case refine_1 =>
            intro hr
            set w₄ := (w₂.push (.now t') ht').push
              (.slept (min pause (D - t')) .ok) hr with hw₄
            have hs₄ : Step {i} w w₄ := hs₃.trans (.push hr
              (by intro c hc; cases hc) (by simp))
            have ha₄ : Adrift geo T i w w₄ := ha₃.trans (.mute ha₃.linked
              ha₃.idle rfl (line_mute hr trivial i) (by simp [hw₄]))
            have htab : w₄.table = { w.table with reqId := w₄.table.reqId } :=
              hs₄.table
            refine (ih (min (pause * 2) 5) w₄ ?_ (by rw [htab, hTw]) ha₄.linked
              ha₄.idle (ha₄.owed.trans hopen)).mono ?_ ?_
            · exact le_min (by linarith) (by norm_num)
            · exact fun _ w' hf => hf.imp fun c hf => hf.after ha₄ hs₄
            · rintro e' w' ⟨hfail', hadr', -, henough⟩
              refine ⟨hs₄.fail hfail', ha₄.trans hadr',
                hwhy _ ((List.prefix_append _ _).trans hfail'.grows), ?_⟩
              intro hty hen
              refine henough hty (.slept (hen.later hty hs₂.grows) hlt hpause
                (t := min pause (D - t')) (by
                  obtain rfl : t' = env.now w₂.tr := ht'; rfl) ?_)
              have h₃ := hty.le (w₂.push (.now t') ht').hist.ok
                (List.prefix_append w₂.tr _)
              have h₄ := hty.sleeps _ _ w₄.hist.ok
              exact (add_le_add_left h₃ _).trans h₄

/-- A line is a matter of the history alone. -/
theorem line_of_tr (h : w'.tr = w.tr) (j : PeerId) :
    w'.line geo j = w.line geo j := by
  unfold World.line
  rw [h]

/-- `_check_range` lets the recorded range through and nothing else. -/
theorem checkRange_spec {st : Stat} :
    Runs (RemoteTable.checkRange i st) w
      (fun _ w' => st.geometry = (w.heap i).geometry ∧ Step {i} w w' ∧
        (∃ a b, w'.heap i = { w.heap i with
          residentPages := a, servedRequests := b }) ∧
        w'.tr = w.tr ∧ drawn w'.tr = drawn w.tr)
      (fun e w' => st.geometry ≠ (w.heap i).geometry ∧ e.isOS = false ∧
        e.isException = true ∧ e ≠ .outOfRounds ∧
        w' = w.push (.raised e) (env.produces_raised w.tr e)) := by
  have hgeo : st.geometry = (w.heap i).geometry ↔
      (st.baseRow, st.rowCount, st.rowBytes) = ((w.heap i).baseRow,
        (w.heap i).rowCount, (w.heap i).rowBytes) := by
    simp [Stat.geometry, Peer.geometry]
  unfold RemoteTable.checkRange
  simp only [runs_bind, runs_peer]
  split
  case isTrue hne =>
    simp only [runs_bind, runs_raise]
    exact ⟨fun h => hne (hgeo.mp h), rfl, rfl, by simp, trivial⟩
  case isFalse heq =>
    simp only [runs_modifyPeer]
    refine ⟨hgeo.mpr (not_not.mp heq), .setPeer ⟨rfl, rfl, rfl, rfl, rfl, rfl⟩
      rfl, ⟨_, _, World.setPeer_self _ _ _⟩, rfl, rfl⟩

-- ============================================================== closing

/-- A peer with no connection. -/
structure Closed (geo : PeerId → Geometry) (T : ℚ) (i : PeerId)
    (w w' : World env) : Prop where
  step : Step {i} w w'
  linked : Linked geo T i w'
  sock : (w'.heap i).sock = none
  pending : (w'.heap i).pending = none
  conn : (w'.line geo i).conn = none
  asked : (w'.line geo i).asked = (w.line geo i).asked
  owed : (w'.line geo i).answered = (w.line geo i).answered
  flag : (w'.heap i).answered = (w.heap i).answered
  undrawn : drawn w'.tr = drawn w.tr

/-- `_Peer.close` closes the connection of a peer that owes an answer. -/
theorem close_spec {abort : Bool} (h : Linked geo T i w)
    (hopen : (w.line geo i).answered = false) {E : Exn → World env → Prop} :
    Runs (Peer.close i abort) w (fun _ w' => Closed geo T i w w') E := by
  unfold Peer.close
  simp only [runs_bind, runs_peer, runs_modifyPeer]
  set p : Peer := { w.heap i with sock := none, pending := none } with hp
  have hs : Step {i} w (w.setPeer i p) :=
    .setPeer ⟨rfl, rfl, rfl, rfl, rfl, rfl⟩ rfl
  cases hsock : (w.heap i).sock with
  | none =>
      have hconn : (w.line geo i).conn = none := h.sock.symm.trans hsock
      have hlink : Linked geo T i (w.setPeer i p) :=
        ⟨by simpa [hp] using hconn.symm, h.good, by simp [hp], h.closed⟩
      refine ⟨hs, hlink, ?_, ?_, hconn, rfl, rfl, ?_, rfl⟩ <;> simp [hp]
  | some c =>
      have hon := h.on (h.sock.symm.trans hsock)
      simp only [runs_sysClose]
      have hl : ((w.setPeer i p).push (.close c abort)
          (env.produces_close _ c abort)).line geo i
          = { w.line geo i with conn := none, done := [], phase := .idle } := by
        have : (w.line geo i).onClose c =
            { w.line geo i with conn := none, done := [], phase := .idle } := by
          simp [Line.onClose, hon.conn, hon.good, hopen]
        rw [← this]
        simp [World.line, lineStep, hon.peer]
      have hlink : Linked geo T i ((w.setPeer i p).push (.close c abort)
          (env.produces_close _ c abort)) := by
        refine ⟨?_, ?_, ?_, ?_⟩
        · rw [hl]; simp [hp]
        · rw [hl]; exact h.good
        · simp [hp]
        · rw [hl]; simp
      refine ⟨hs.trans (.push _ ?_ (by simp)), hlink, ?_, ?_, ?_, ?_, ?_, ?_,
        by simp⟩
      · rintro c' hc'; cases hc'; exact hon.peer
      · simp [hp]
      · simp [hp]
      · rw [hl]
      · rw [hl]
      · rw [hl]
      · simp [hp]

end PleRowServer.Client
