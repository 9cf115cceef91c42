/-
No blocking call of a gather outlives the gather's deadline.

The deadline is enforced in five places: `_arm` in front of every recv
and sendall, the select of `_drain`, the connect with its floor of one
millisecond, the sleep between two connects, and the handler of a failed
attempt. `_arm` skips the system call where the timeout it wants is the
one it cached, so what the socket is really set to is a fact about the
history (`timeoutOf`), and that the cache agrees with it an invariant of
every call (`Armed`, by `Upkeep`).

`OnTime` is then an invariant of the exchange by `Sites`: at most
`late` after the deadline, every blocking call so far clamped to it. It
is late only between a connect and the first `_arm` on the new socket,
and on the way out.
-/
import PleRowServer.Client.Sites
import PleRowServer.Client.Upkeep
import Mathlib.Tactic.Linarith

namespace PleRowServer.Client

open Base Wire
open RemoteTable (Config initial)

variable {env : Env} {w w₀ w' : World env} {cfg : Config} {i : PeerId}
  {D late : ℚ} {todo : List Share} {tr tr₀ : Trace} {c : ConnId}

-- =============================================================== timeouts

/-- What an entry makes of the timeout of `c`: a connect leaves the
socket with its own. -/
def Ev.retime (c : ConnId) (t : ℚ) : Ev → ℚ
  | .connect c' _ t' _ | .settimeout c' t' => if c' = c then t' else t
  | _ => t

/-- The timeout the socket of `c` is set to. -/
def timeoutOf (tr : Trace) (c : ConnId) : ℚ := tr.foldl (Ev.retime c) 0

/-- A timeout is the one before the last entry, unless that sets it. -/
@[simp] theorem timeoutOf_snoc (tr : Trace) (e : Ev) (c : ConnId) :
    timeoutOf (tr ++ [e]) c = e.retime c (timeoutOf tr c) := by
  simp [timeoutOf]

/-- An entry that sets no timeout leaves every timeout. -/
theorem timeoutOf_untuned {e : Ev} (h : e.Untuned) (tr : Trace)
    (c : ConnId) : timeoutOf (tr ++ [e]) c = timeoutOf tr c := by
  rw [timeoutOf_snoc]
  cases e <;> first | rfl | exact h.elim

/-- Every open socket is its peer's own, and set to the timeout the peer
has cached. -/
def Armed (w : World env) : Prop :=
  ∀ i c, (w.heap i).sock = some c →
    c.peer = i ∧ c.n < Trace.bound w.tr ∧ timeoutOf w.tr c = (w.heap i).armed

namespace Armed

/-- An entry that leaves the timeouts alone. -/
theorem push (h : Armed w) {e : Ev} (he) (hn : e.Untuned) :
    Armed (w.push e he) := by
  intro i c hc
  obtain ⟨hp, hb, ht⟩ := h i c hc
  rw [World.push_tr, timeoutOf_untuned hn]
  exact ⟨hp, hb.trans_le (Trace.bound_snoc _ _), ht⟩

/-- An assignment to a peer. -/
theorem setPeer (h : Armed w) {p : Peer}
    (hp : ∀ c, p.sock = some c → c.peer = i ∧ c.n < Trace.bound w.tr ∧
      timeoutOf w.tr c = p.armed) : Armed (w.setPeer i p) := by
  intro j c hc
  by_cases hj : j = i
  · subst hj
    rw [World.setPeer_self] at hc ⊢
    exact hp c hc
  · rw [World.setPeer_ne _ hj] at hc ⊢
    exact h j c hc

/-- `settimeout` on a connection of peer `i`, its socket from then on,
and the cache of it. -/
theorem settimeout (h : Armed w) (hp : c.peer = i)
    (hb : c.n < Trace.bound w.tr) (t : ℚ) (he) {p : Peer}
    (hs : p.sock = some c) (ha : p.armed = t) :
    Armed ((w.push (.settimeout c t) he).setPeer i p) := by
  intro j d hd
  by_cases hj : j = i
  · subst hj
    rw [World.setPeer_self] at hd ⊢
    obtain rfl : c = d := Option.some.inj (hs.symm.trans hd)
    refine ⟨hp, hb.trans_le (Trace.bound_snoc _ _), ?_⟩
    rw [World.setPeer_tr, World.push_tr, timeoutOf_snoc, ha]
    simp [Ev.retime]
  · rw [World.setPeer_ne _ hj] at hd ⊢
    obtain ⟨hp', hb', ht'⟩ := h j d hd
    have hne : c ≠ d := by
      rintro rfl
      exact hj (hp'.symm.trans hp)
    refine ⟨hp', hb'.trans_le (Trace.bound_snoc _ _), ?_⟩
    rw [World.setPeer_tr, World.push_tr, timeoutOf_snoc]
    simp only [Ev.retime, if_neg hne]
    exact ht'

/-- A new connection is nobody's. -/
theorem connect (h : Armed w) (i : PeerId) (addr : Addr) (t : ℚ) (r : Done)
    (he) : Armed (w.push (.connect (w.nextConn i) addr t r) he) := by
  intro j d hd
  obtain ⟨hp, hb, ht⟩ := h j d hd
  have hne : w.nextConn i ≠ d := by
    rintro rfl
    exact absurd hb (lt_irrefl _)
  refine ⟨hp, hb.trans_le (Trace.bound_snoc _ _), ?_⟩
  rw [World.push_tr, timeoutOf_snoc]
  simp only [Ev.retime, if_neg hne]
  exact ht

end Armed

/-- The number of a connection is below the bound once it is mentioned. -/
theorem nextConn_lt (w : World env) (i : PeerId) (addr : Addr) (t : ℚ)
    (r : Done) (he) : (w.nextConn i).n
      < Trace.bound (w.push (.connect (w.nextConn i) addr t r) he).tr :=
  Trace.lt_bound (e := .connect (w.nextConn i) addr t r)
    (by rw [World.push_tr]; simp) rfl

omit w₀ in
/-- `_exchange` and its cleanup leave a peer all but its deadline. -/
theorem setDeadlines_sock (active : List Share) (d : Option ℚ)
    (w : World env) (i : PeerId) :
    ((RemoteTable.setDeadlines active d w).heap i).sock = (w.heap i).sock ∧
      ((RemoteTable.setDeadlines active d w).heap i).armed
        = (w.heap i).armed := by
  unfold RemoteTable.setDeadlines
  dsimp only
  split <;> exact ⟨rfl, rfl⟩

/-- A deadline is no timeout of a socket. -/
theorem Armed.setDeadlines (h : Armed w) (active : List Share)
    (d : Option ℚ) : Armed (RemoteTable.setDeadlines active d w) := by
  intro i c hc
  obtain ⟨hs, ha⟩ := setDeadlines_sock active d w i
  rw [hs] at hc
  rw [ha]
  exact h i c hc

/-- The cache of every open socket is kept by every call. -/
theorem armed_upkeep : Upkeep (Armed : World env → Prop) where
  frame w w' h hh _ hs i c hc := by
    have htr : w'.tr = w.tr := congrArg History.tr hh
    rw [(hs i).1] at hc
    rw [htr, (hs i).2.1]
    exact h i c hc
  raised w e h := h.push (env.produces_raised w.tr e) trivial
  push w e he h hn := h.push he hn
  connect i ct t := by
    intro w h
    unfold Peer.connect createConnection
    simp only [runs_bind, runs_peer]
    split
    · exact h.push _ trivial
    simp only [runs_bind, runs_sysConnect]
    intro r hr
    have h' := h.connect i _ _ r hr
    have hlt := nextConn_lt w i _ _ r hr
    cases r with
    | fault why => exact h'.push _ trivial
    | interrupt => exact h'.push _ trivial
    | ok =>
        simp only [runs_pure]
        split
        · exact h'.push _ trivial
        simp only [runs_bind, runs_settimeout, runs_modifyPeer]
        set v := w.push (.connect (w.nextConn i)
          (w.heap i).addr ct .ok) hr with hv
        have h₂ : Armed ((v.push (.settimeout (w.nextConn i) t)
            (env.produces_settimeout _ _ t)).setPeer i { v.heap i with
              sock := some (w.nextConn i), timeout := t, armed := t }) :=
          h'.settimeout rfl hlt t _ rfl rfl
        refine Runs.mono (Q := fun _ v => Armed v) (E := fun _ v => Armed v)
          ?_ ?_ (fun _ _ hv => hv)
        · unfold getpeername
          simp only [runs_bind, runs_sysPeername]
          intro r hr
          have h₃ := h₂.push hr trivial
          cases r with
          | ok addr => exact h₃
          | error why => exact h₃.push _ trivial
        · intro addr v hv
          exact hv.setPeer fun c hc => hv i c hc
  arm i := by
    unfold Peer.arm
    refine .bind (fun _ h => h) fun p => .bind ?_ fun b => ?_
    · unfold Peer.budget
      split
      · exact .pure _
      · refine .bind (fun w h => ?_) fun t => ?_
        · rw [runs_now]
          exact fun t ht => h.push ht trivial
        · exact .guard (fun _ v hv => hv.push
            (env.produces_raised v.tr _) trivial) (.pure _)
    · refine .ite (fun _ => ?_) fun _ => .pure _
      intro w h
      unfold Peer.socket
      simp only [runs_bind, runs_peer]
      cases hs : (w.heap i).sock with
      | none => exact h.push _ trivial
      | some c =>
          simp only [runs_pure, runs_settimeout, runs_modifyPeer]
          obtain ⟨hp, hb, -⟩ := h i c hs
          exact h.settimeout hp hb b _ hs rfl
  close i abort := by
    intro w h
    unfold Peer.close
    simp only [runs_bind, runs_peer, runs_modifyPeer]
    have h' := h.setPeer (i := i)
      (p := { w.heap i with sock := none, pending := none })
      (by intro c hc; cases hc)
    cases (w.heap i).sock with
    | none => exact h'
    | some c => exact h'.push (env.produces_close _ c abort) trivial

/-- The cache of every open socket is kept over an exchange. -/
theorem armed_lasting : Lasting (Armed : World env → Prop) where
  toUpkeep := armed_upkeep
  exchange := armed_upkeep.exchange fun _ active d h => h.setDeadlines active d

-- ==================================================================== time

/-- How long a call may block; none for what does not block. -/
def Ev.allowance (tr : Trace) : Ev → Option ℚ
  | .slept t _ | .connect _ _ t _ | .select _ t _ => some t
  | .send c _ _ | .recv c _ _ => some (timeoutOf tr c)
  | _ => none

/-- Whatever does not block takes no time. -/
def Env.Instant (env : Env) : Prop :=
  ∀ tr e, env.Produced (tr ++ [e]) → e.allowance tr = none →
    env.now (tr ++ [e]) = env.now tr

/-- Whatever blocks returns within its timeout. -/
def Env.Prompt (env : Env) : Prop :=
  ∀ tr e t, env.Produced (tr ++ [e]) → e.allowance tr = some t →
    env.now (tr ++ [e]) ≤ env.now tr + max t 0

/-- What an entry makes of the last reading of the clock. -/
def Ev.reading (r : ℚ) : Ev → ℚ
  | .now t => t
  | _ => r

/-- The clock as it was last read. -/
def Trace.clock (tr : Trace) : ℚ := tr.foldl Ev.reading 0

/-- Only a reading moves the clock that was read. -/
@[simp] theorem Trace.clock_snoc (tr : Trace) (e : Ev) :
    Trace.clock (tr ++ [e]) = e.reading tr.clock := by
  simp [Trace.clock]

/-- By the clock as it was last read, the entry is made before the
deadline, and does not block past it; a connect may block for a
millisecond. -/
def Ev.InTime (D : ℚ) (tr : Trace) : Ev → Prop
  | .connect _ _ t _ => t ≤ max (D - tr.clock) (1 / 1000)
  | e => ∀ t, e.allowance tr = some t →
      tr.clock < D ∧ 0 < t ∧ t ≤ D - tr.clock

/-- Every entry since `tr₀` is. -/
def Clamped (D : ℚ) (tr₀ tr : Trace) : Prop :=
  ∃ evs, tr = tr₀ ++ evs ∧ ∀ a e b, evs = a ++ e :: b →
    e.InTime D (tr₀ ++ a)

/-- Where nothing was done nothing was late. -/
theorem Clamped.refl (tr : Trace) : Clamped D tr tr :=
  ⟨[], (List.append_nil tr).symm, fun a e b h => by simp at h⟩

/-- One thing more at the end, done in time. -/
theorem Clamped.snoc (h : Clamped D tr₀ tr) {e : Ev}
    (he : e.InTime D tr) : Clamped D tr₀ (tr ++ [e]) := by
  obtain ⟨evs, rfl, hall⟩ := h
  refine ⟨evs ++ [e], List.append_assoc .., fun a x b hsplit => ?_⟩
  rcases List.eq_nil_or_concat b with rfl | ⟨b', y, rfl⟩
  · obtain ⟨rfl, hx⟩ := List.append_inj' hsplit rfl
    obtain rfl := (List.cons.inj hx).1
    exact he
  · have h' : evs ++ [e] = (a ++ x :: b') ++ [y] := by
      rw [hsplit]
      simp
    exact hall a x b' (List.append_inj' h' rfl).1

/-- One thing before the rest, done in time. -/
theorem Clamped.cons {e : Ev} (he : e.InTime D tr₀)
    (h : Clamped D (tr₀ ++ [e]) tr) : Clamped D tr₀ tr := by
  obtain ⟨evs, rfl, hall⟩ := h
  refine ⟨e :: evs, by simp, fun a x b hsplit => ?_⟩
  cases a with
  | nil =>
      obtain ⟨rfl, -⟩ := List.cons.inj hsplit
      simpa using he
  | cons y a =>
      obtain ⟨rfl, h'⟩ := List.cons.inj hsplit
      simpa using hall a x b h'

/-- Wherever the stretch is cut. -/
theorem Clamped.inTime (h : Clamped D tr₀ tr) {a b : Trace} {e : Ev}
    (hs : tr = tr₀ ++ a ++ e :: b) : e.InTime D (tr₀ ++ a) := by
  obtain ⟨evs, htr, hall⟩ := h
  rw [htr, List.append_assoc] at hs
  exact hall a e b (List.append_cancel_left hs)

/-- A call that does not block is never out of time. -/
theorem Ev.InTime.of_none {e : Ev} (h : e.allowance tr = none) :
    e.InTime D tr := by
  cases e <;> first | (intro t ht; rw [h] at ht; cases ht) | cases h

/-- The clock stands still while nothing blocks. -/
theorem Env.Instant.push (hq : env.Instant) {e : Ev} (he)
    (hn : e.allowance w.tr = none) :
    env.now (w.push e he).tr = env.now w.tr :=
  hq w.tr e (w.push e he).hist.ok hn

/-- The last reading is the time, if what does not block takes none. -/
def World.Read (w : World env) : Prop :=
  env.Instant → env.now w.tr = w.tr.clock

/-- Right after a reading it is. -/
theorem World.Read.now {t : ℚ} (ht : t = env.now w.tr) (he) :
    (w.push (.now t) he).Read := by
  intro hq
  rw [hq.push he rfl, World.push_tr, Trace.clock_snoc]
  exact ht.symm

/-- The last reading is still the time after what does not block. -/
theorem World.Read.push (h : w.Read) {e : Ev} (he)
    (hn : e.allowance w.tr = none) (hr : e.reading w.tr.clock = w.tr.clock) :
    (w.push e he).Read := by
  intro hq
  rw [hq.push he hn, h hq, World.push_tr, Trace.clock_snoc, hr]

-- ============================================================== on time

/-- Since `w₀` every blocking call was clamped to `D`, and it is at most
`late` past it; the peers of `todo` have the deadline. -/
structure OnTime (todo : List Share) (D late : ℚ) (w₀ w : World env) :
    Prop where
  armed : Armed w
  clamped : Clamped D w₀.tr w.tr
  clock : 0 ≤ w₀.table.gatherDeadline → env.Instant → env.Prompt →
    env.now w.tr ≤ D + late
  deadline : ∀ i ∈ peersOf todo, (w.heap i).deadline = some D

namespace OnTime

/-- Being in time for one bound is being in time for a later one. -/
theorem mono {late' : ℚ} (h : OnTime todo D late w₀ w) (hl : late ≤ late') :
    OnTime todo D late' w₀ w :=
  { h with clock := fun hg hq hp => by linarith [h.clock hg hq hp] }

/-- The same peers' deadlines, and the same history. -/
theorem congr (h : OnTime todo D late w₀ w) (ha : Armed w')
    (htr : w'.tr = w.tr)
    (hd : ∀ i, (w'.heap i).deadline = (w.heap i).deadline) :
    OnTime todo D late w₀ w' where
  armed := ha
  clamped := htr ▸ h.clamped
  clock hg hq hp := htr ▸ h.clock hg hq hp
  deadline i hi := (hd i).trans (h.deadline i hi)

omit w₀ in
/-- An edit that keeps the deadline. -/
theorem deadline_setPeer {p : Peer} (hd : p.deadline = (w.heap i).deadline)
    (j : PeerId) : ((w.setPeer i p).heap j).deadline = (w.heap j).deadline := by
  by_cases hj : j = i
  · subst hj; rw [World.setPeer_self]; exact hd
  · rw [World.setPeer_ne _ hj]

/-- An assignment to a peer that leaves its socket and deadline. -/
theorem setPeer (h : OnTime todo D late w₀ w) {p : Peer}
    (hs : p.sock = (w.heap i).sock) (ha : p.armed = (w.heap i).armed)
    (hd : p.deadline = (w.heap i).deadline) :
    OnTime todo D late w₀ (w.setPeer i p) := by
  refine h.congr (h.armed.setPeer fun c hc => ?_) rfl (deadline_setPeer hd)
  rw [ha]
  exact h.armed i c (hs ▸ hc)

/-- One more entry that does not block. -/
theorem push (h : OnTime todo D late w₀ w) {e : Ev} (he)
    (hn : e.allowance w.tr = none) (hu : e.Untuned) :
    OnTime todo D late w₀ (w.push e he) where
  armed := h.armed.push he hu
  clamped := h.clamped.snoc (.of_none hn)
  clock hg hq hp := by rw [hq.push he hn]; exact h.clock hg hq hp
  deadline := h.deadline

/-- A blocking call in time leaves it in time. -/
theorem block (h : OnTime todo D late w₀ w) (hr : w.Read) {e : Ev} (he)
    {t : ℚ} (ht : e.allowance w.tr = some t) (hu : e.Untuned)
    (hin : w.tr.clock < D ∧ 0 < t ∧ t ≤ D - w.tr.clock) :
    OnTime todo D 0 w₀ (w.push e he) where
  armed := h.armed.push he hu
  clamped := by
    refine h.clamped.snoc ?_
    cases e <;> first
      | exact hu.elim
      | (intro u hut; rw [ht] at hut; cases hut; exact hin)
  clock hg hq hp := by
    have := hp w.tr e t (w.push e he).hist.ok ht
    rw [max_eq_left hin.2.1.le] at this
    rw [World.push_tr]
    linarith [hin.2.2, hr hq]
  deadline := h.deadline

/-- An exception takes no time. -/
theorem raise {α : Type} (h : OnTime todo D late w₀ w) (e : Exn)
    {Q : α → World env → Prop} :
    Runs (Client.raise e : M env α) w Q
      (fun _ => OnTime todo D late w₀) :=
  h.push (env.produces_raised w.tr e) rfl trivial

/-- Setting the timeout of a connection of peer `i`, its socket from then
on, and the cache of it. -/
theorem tune (h : OnTime todo D late w₀ w) (hpeer : c.peer = i)
    (hlt : c.n < Trace.bound w.tr) (b : ℚ) (he) {p : Peer}
    (hp : p.sock = some c) (ha : p.armed = b)
    (hd : p.deadline = (w.heap i).deadline) :
    OnTime todo D late w₀ ((w.push (.settimeout c b) he).setPeer i p) := by
  have hdl : ∀ j, (((w.push (.settimeout c b) he).setPeer i p).heap
      j).deadline = (w.heap j).deadline := deadline_setPeer hd
  refine ⟨h.armed.settimeout hpeer hlt b he hp ha,
    h.clamped.snoc (.of_none rfl), fun hg hq hpr => ?_,
    fun j hj => (hdl j).trans (h.deadline j hj)⟩
  rw [World.setPeer_tr, hq.push he rfl]
  exact h.clock hg hq hpr

/-- `_arm` comes back before the deadline, with the socket set to what is
left of it or less. -/
theorem arm (h : OnTime todo D late w₀ w) (hi : i ∈ peersOf todo) :
    Runs (Peer.arm i) w
      (fun _ v => OnTime todo D late w₀ v ∧ v.Read ∧
        ∀ c, (v.heap i).sock = some c → v.tr.clock < D ∧
          0 < timeoutOf v.tr c ∧ timeoutOf v.tr c ≤ D - v.tr.clock)
      (fun _ => OnTime todo D late w₀) := by
  unfold Peer.arm Peer.budget
  simp only [runs_bind, runs_peer, h.deadline i hi, runs_now]
  intro t ht
  have h' := h.push ht rfl trivial
  have hread := World.Read.now ht ht
  have hclock : (w.push (.now t) ht).tr.clock = t := by
    rw [World.push_tr, Trace.clock_snoc]
    rfl
  set v := w.push (.now t) ht
  set b := min (w.heap i).timeout (D - t) with hb
  have hleft : b ≤ D - v.tr.clock := by
    rw [hclock]
    exact min_le_right _ _
  split
  case isTrue => exact h'.raise _
  case isFalse hpos =>
    rw [not_le] at hpos
    simp only [runs_pure]
    split
    case isFalse hsame =>
      refine ⟨h', hread, fun c hc => ?_⟩
      have : (v.heap i).armed = b := (not_not.mp hsame).symm
      rw [(h'.armed i c hc).2.2, this]
      exact ⟨by linarith, hpos, hleft⟩
    case isTrue =>
      unfold Peer.socket
      simp only [runs_bind, runs_peer]
      cases hs : (v.heap i).sock with
      | none => exact h'.raise _
      | some c =>
          simp only [runs_pure, runs_settimeout, runs_modifyPeer]
          obtain ⟨hpeer, hlt, -⟩ := h'.armed i c hs
          have hset := env.produces_settimeout v.tr c b
          refine ⟨h'.tune hpeer hlt b hset (p := { v.heap i with armed := b })
            hs rfl rfl, hread.push hset rfl rfl, fun d hd => ?_⟩
          obtain rfl : c = d := by
            rw [World.setPeer_self] at hd
            exact Option.some.inj (hs.symm.trans hd)
          have htime : timeoutOf (v.push (.settimeout c b) hset).tr c = b := by
            rw [World.push_tr, timeoutOf_snoc]
            simp [Ev.retime]
          have hsame : (v.push (.settimeout c b) hset).tr.clock
              = v.tr.clock := by
            rw [World.push_tr, Trace.clock_snoc]
            rfl
          rw [World.setPeer_tr, htime, hsame]
          exact ⟨by linarith, hpos, hleft⟩

-- =============================================================== the sites

/-- `_recv` is in time, or raises. -/
theorem recv (h : OnTime todo D late w₀ w) (hl : 0 ≤ late)
    (hi : i ∈ peersOf todo) (want : Nat) :
    Runs (Peer.recv i want) w (fun _ => OnTime todo D 0 w₀)
      (fun _ => OnTime todo D late w₀) := by
  unfold Peer.recv
  refine (h.arm hi).bind (fun _ v hv => ?_) fun _ _ hv => hv
  unfold Peer.socket
  simp only [runs_bind, runs_peer]
  cases hs : (v.heap i).sock with
  | none => exact hv.1.raise _
  | some c =>
      simp only [runs_pure, runs_sysRecv]
      intro r hr
      have h' := hv.1.block hv.2.1 hr rfl trivial (hv.2.2 c hs)
      cases r with
      | data bs => exact h'
      | timeout => exact (h'.mono hl).raise _
      | fault why => exact (h'.mono hl).raise _
      | interrupt => exact (h'.mono hl).raise _

/-- `sendall` is in time, or raises. -/
theorem sendall (h : OnTime todo D late w₀ w) (hl : 0 ≤ late)
    (hi : i ∈ peersOf todo) (data : List UInt8) :
    Runs (Peer.sendall i data) w (fun _ => OnTime todo D 0 w₀)
      (fun _ => OnTime todo D late w₀) := by
  unfold Peer.sendall
  refine (h.arm hi).bind (fun _ v hv => ?_) fun _ _ hv => hv
  unfold Peer.socket
  simp only [runs_bind, runs_peer]
  cases hs : (v.heap i).sock with
  | none => exact hv.1.raise _
  | some c =>
      simp only [runs_pure, runs_sysSend]
      intro r hr
      have h' := hv.1.block hv.2.1 hr rfl trivial (hv.2.2 c hs)
      cases r with
      | all => exact h'
      | fault why n => exact (h'.mono hl).raise _
      | interrupt n => exact (h'.mono hl).raise _

/-- A request without ids is sent in time. -/
theorem sendBare (h : OnTime todo D late w₀ w) (hl : 0 ≤ late)
    (hi : i ∈ peersOf todo) (op id : Nat) :
    Runs (Peer.sendBare i op id) w (fun _ => OnTime todo D 0 w₀)
      (fun _ => OnTime todo D late w₀) := by
  unfold Peer.sendBare
  split
  · exact h.raise _
  · refine (h.sendall hl hi _).bind (fun _ v hv => ?_) fun _ _ hv => hv
    exact hv.setPeer rfl rfl rfl

/-- A request with ids is sent in time. -/
theorem sendGather (h : OnTime todo D late w₀ w) (hl : 0 ≤ late)
    (hi : i ∈ peersOf todo) (id count : Nat) :
    Runs (Peer.sendGather i id count) w (fun _ => OnTime todo D 0 w₀)
      (fun _ => OnTime todo D late w₀) := by
  unfold Peer.sendGather
  split
  · exact h.raise _
  case h_2 hdr hpack =>
    simp only [runs_bind, runs_modifyPeer, runs_peer]
    have h' := h.setPeer (i := i)
      (p := { w.heap i with req := splice (w.heap i).req 0 hdr }) rfl rfl rfl
    refine (h'.sendall hl hi _).mono ?_ fun _ _ hv => hv
    exact fun _ v hv => hv.setPeer rfl rfl rfl

/-- One connect, of what is left of the deadline or a millisecond. -/
theorem connect (h : OnTime todo D 0 w₀ w) {ct t : ℚ}
    (hr₀ : w.Read) (hct : ct ≤ max (D - w.tr.clock) (1 / 1000)) :
    Runs (Peer.connect i ct t) w (fun _ => OnTime todo D (1 / 1000) w₀)
      (fun _ => OnTime todo D (1 / 1000) w₀) := by
  have hl : (0 : ℚ) ≤ 1 / 1000 := by norm_num
  unfold Peer.connect createConnection
  simp only [runs_bind, runs_peer]
  split
  · exact (h.mono hl).raise _
  simp only [runs_bind, runs_sysConnect]
  intro r hr
  have h' : OnTime todo D (1 / 1000) w₀
      (w.push (.connect (w.nextConn i) (w.heap i).addr ct r) hr) := by
    refine ⟨h.armed.connect i _ _ r hr, h.clamped.snoc hct,
      fun hg hq hp => ?_, h.deadline⟩
    have hblock := hp w.tr _ ct (w.push _ hr).hist.ok rfl
    have hclock := h.clock hg hq hp
    rw [World.push_tr]
    have hread := hr₀ hq
    rcases max_cases ct 0 with ⟨hm, -⟩ | ⟨hm, -⟩ <;>
      rcases le_max_iff.mp hct with hc | hc <;> linarith
  have hlt := nextConn_lt w i _ _ r hr
  cases r with
  | fault why => exact h'.raise _
  | interrupt => exact h'.raise _
  | ok =>
      simp only [runs_pure]
      split
      · exact h'.raise _
      simp only [runs_bind, runs_settimeout, runs_modifyPeer]
      set v := w.push (.connect (w.nextConn i) (w.heap i).addr ct .ok) hr
      have h₂ := h'.tune (rfl : (w.nextConn i).peer = i) hlt t
        (env.produces_settimeout v.tr (w.nextConn i) t)
        (p := { v.heap i with
          sock := some (w.nextConn i), timeout := t, armed := t }) rfl rfl rfl
      refine Runs.mono (Q := fun _ => OnTime todo D (1 / 1000) w₀)
        (E := fun _ => OnTime todo D (1 / 1000) w₀) ?_ ?_ fun _ _ hv => hv
      · unfold getpeername
        simp only [runs_bind, runs_sysPeername]
        intro r hr
        have h₃ := h₂.push hr rfl trivial
        cases r with
        | ok addr => exact h₃
        | error why => exact h₃.raise _
      · exact fun addr v hv => hv.setPeer rfl rfl rfl

/-- The retry loop of `_connect`: it sleeps before the deadline and up to
it, and tries again only then. -/
theorem connectLoop :
    ∀ (rounds : Nat) (pause : ℚ), 0 < pause → ∀ w,
      OnTime todo D 0 w₀ w →
      Runs (RemoteTable.connectLoop i D rounds pause) w
        (fun _ => OnTime todo D (1 / 1000) w₀)
        (fun _ => OnTime todo D (1 / 1000) w₀) := by
  have hl : (0 : ℚ) ≤ 1 / 1000 := by norm_num
  intro rounds
  induction rounds with
  | zero => intro pause _ w h; exact (h.mono hl).raise _
  | succ rounds ih =>
      intro pause hpause w h
      unfold RemoteTable.connectLoop
      simp only [runs_bind, runs_now, runs_self]
      intro t ht
      have h' := h.push ht rfl trivial
      refine Runs.catching (h'.connect (.now ht ht) ?_) (fun e v hv _ => ?_)
        (fun _ _ hv _ => hv)
      · rw [World.push_tr, Trace.clock_snoc]
        exact min_le_right _ _
      simp only [runs_bind, runs_now]
      intro u hu
      have hv' := hv.push hu rfl trivial
      have hread := World.Read.now hu hu
      have hclock : (v.push (.now u) hu).tr.clock = u := by
        rw [World.push_tr, Trace.clock_snoc]
        rfl
      set x := v.push (.now u) hu
      split
      case isTrue =>
        simp only [runs_bind, runs_peer]
        exact hv'.raise _
      case isFalse hleft =>
        rw [not_le] at hleft
        simp only [runs_bind]
        have hin : x.tr.clock < D ∧ 0 < min pause (D - u) ∧
            min pause (D - u) ≤ D - x.tr.clock := by
          rw [hclock]
          exact ⟨by linarith, lt_min hpause hleft, min_le_right _ _⟩
        refine runs_sleep (fun hs => ?_) fun r hs e he _ _ => ?_
        · refine ih _ ?_ _ (hv'.block hread hs rfl trivial hin)
          exact lt_min (by linarith) (by norm_num)
        · exact ((hv'.block hread hs rfl trivial hin).mono hl).push he rfl
            trivial

/-- Closing a peer takes no time. -/
theorem close (i : PeerId) (abort : Bool) :
    Keeps (OnTime todo D late w₀) (Peer.close i abort : M env _) := by
  intro w h
  unfold Peer.close
  simp only [runs_bind, runs_peer, runs_modifyPeer]
  have h' : OnTime todo D late w₀ (w.setPeer i
      { w.heap i with sock := none, pending := none }) :=
    h.congr (h.armed.setPeer (by intro c hc; cases hc)) rfl
      (deadline_setPeer rfl)
  cases (w.heap i).sock with
  | none => exact h'
  | some c => exact h'.push (env.produces_close _ c abort) rfl trivial

/-- What an exchange does while it asks and reads. -/
theorem calls : Calls (OnTime todo D 0 w₀)
    (fun _ => OnTime todo D (1 / 1000) w₀) D todo := by
  have hl : (0 : ℚ) ≤ 1 / 1000 := by norm_num
  refine ⟨?_, ?_, ?_, ?_, ?_, ?_, ?_⟩
  · intro w e he h hn
    cases e <;> first
      | exact hn.elim
      | exact h.push he rfl trivial
  · intro w e he h
    exact (h.mono hl).push he rfl trivial
  · intro w i h
    have hset : OnTime todo D 0 w₀
        { w with table := { w.table with reqId := w.nextId } } :=
      h.congr h.armed rfl fun _ => rfl
    exact hset.push _ rfl trivial
  · intro w i p _ h hp
    exact h.setPeer hp.sock hp.armed hp.deadline
  · intro s hs want w h
    exact (h.recv le_rfl (mem_peersOf hs) want).mono (fun _ _ hv => hv)
      fun _ _ hv => hv.mono hl
  · intro s hs id w h
    exact (h.sendGather le_rfl (mem_peersOf hs) id _).mono
      (fun _ _ hv => hv) fun _ _ hv => hv.mono hl
  · intro w t ht cs r hr h hpos
    have h' := h.push ht rfl trivial
    refine h'.block (.now ht ht) hr rfl trivial ?_
    have hle := min_le_right w.table.timeout (D - t)
    rw [World.push_tr, Trace.clock_snoc]
    exact ⟨by simp only [Ev.reading]; linarith, hpos, hle⟩

/-- What an exchange does when it reconnects, and when an attempt failed.
-/
theorem sites : Sites (OnTime todo D 0 w₀)
    (fun _ => OnTime todo D (1 / 1000) w₀) D todo where
  toCalls := calls
  ready s hs := by
    have hl : (0 : ℚ) ≤ 1 / 1000 := by norm_num
    have hi := mem_peersOf hs
    intro w h
    unfold RemoteTable.ready
    simp only [runs_bind, runs_modifyPeer, runs_peer]
    have h' := h.setPeer (i := s.1)
      (p := { w.heap s.1 with answered := false }) rfl rfl rfl
    split
    · exact h'
    -- late between the connect and the send of the STAT, if at all
    · simp only [runs_bind]
      refine Runs.mono (connectLoop env.rounds (1 / 2) (by norm_num) _ h')
        ?_ fun _ _ hv => hv
      intro _ v hv
      simp only [runs_nextReqId]
      have hset : OnTime todo D (1 / 1000) w₀
          { v with table := { v.table with reqId := v.nextId } } :=
        hv.congr hv.armed rfl fun _ => rfl
      have hdrew : OnTime todo D (1 / 1000) w₀ (v.draw s.1) :=
        hset.push _ rfl trivial
      refine Runs.mono (calls.queryStat hs
        (hdrew.sendBare hl hi Wire.OP_STAT _)) ?_ fun _ _ hx => hx
      intro st x hx
      unfold RemoteTable.checkRange
      simp only [runs_bind, runs_peer]
      split
      · simp only [runs_bind]
        exact (hx.mono hl).raise _
      · exact hx.setPeer rfl rfl rfl
  giveUp k l e hl w h he := by
    unfold RemoteTable.giveUp
    simp only [runs_bind, runs_mark, runs_get]
    have hmark := h.push (env.produces_caught w.tr e (l.map Prod.fst)) rfl
      trivial
    have hsub : ∀ s ∈ l.filter fun s => !(w.heap s.1).answered, s ∈ todo :=
      fun s hs => hl s (List.mem_filter.mp hs).1
    refine Runs.mono (Stays.forEach (fun s _ => close s.1 true) _ hmark)
      ?_ fun _ _ hv => hv
    intro _ v hv
    split
    case isTrue => exact hv.raise _
    case isFalse =>
      simp only [runs_bind, runs_now]
      intro t ht
      have hv' := hv.push ht rfl trivial
      split
      case isTrue => exact hv'.raise _
      case isFalse hlt =>
        rw [not_le] at hlt
        refine ⟨{ hv' with clock := fun _ hq _ => ?_ }, hsub⟩
        rw [World.Read.now ht ht hq, World.push_tr, Trace.clock_snoc]
        simp only [Ev.reading]
        linarith

end OnTime

-- =============================================================== deadlines

/-- The deadlines the peers have, and how long a gather is given. -/
def Dated (d : PeerId → Option ℚ) (g : ℚ) (w : World env) : Prop :=
  (∀ i, (w.heap i).deadline = d i) ∧ w.table.gatherDeadline = g

/-- An edit that keeps the deadline. -/
theorem Dated.setPeer {d : PeerId → Option ℚ} {g : ℚ} (h : Dated d g w)
    {p : Peer} (hp : p.deadline = (w.heap i).deadline) :
    Dated d g (w.setPeer i p) :=
  ⟨fun j => (OnTime.deadline_setPeer hp j).trans (h.1 j), h.2⟩

/-- Nothing but an exchange gives a peer a deadline. -/
theorem dated_upkeep (d : PeerId → Option ℚ) (g : ℚ) :
    Upkeep (Dated d g : World env → Prop) where
  frame w w' h _ hg hs := ⟨fun i => (hs i).2.2.trans (h.1 i), hg.trans h.2⟩
  raised w e h := h
  push w e he h _ := h
  connect i ct t := by
    intro w h
    unfold Peer.connect createConnection getpeername
    simp only [runs_bind, runs_peer]
    split
    · exact h
    simp only [runs_bind, runs_sysConnect]
    intro r hr
    cases r with
    | fault why => exact h
    | interrupt => exact h
    | ok =>
        simp only [runs_pure]
        split
        · exact h
        simp only [runs_bind, runs_settimeout, runs_modifyPeer,
          runs_sysPeername]
        intro r hr'
        have h' := h.setPeer (i := i) (p := { w.heap i with
          sock := some (w.nextConn i), timeout := t, armed := t }) rfl
        cases r with
        | ok addr => exact h'.setPeer rfl
        | error why => exact h'
  arm i := by
    unfold Peer.arm
    refine .bind (fun _ h => h) fun p => .bind ?_ fun b => ?_
    · unfold Peer.budget
      split
      · exact .pure _
      · refine .bind (fun w h => ?_) fun t => ?_
        · rw [runs_now]
          exact fun t ht => h
        · exact .guard (fun _ v hv => hv) (.pure _)
    · refine .ite (fun _ => ?_) fun _ => .pure _
      intro w h
      unfold Peer.socket
      simp only [runs_bind, runs_peer]
      cases hs : (w.heap i).sock with
      | none => exact h
      | some c =>
          simp only [runs_pure, runs_settimeout, runs_modifyPeer]
          exact Dated.setPeer (w := w.push (.settimeout c b) _) h rfl
  close i abort := by
    intro w h
    unfold Peer.close
    simp only [runs_bind, runs_peer, runs_modifyPeer]
    have h' := h.setPeer (i := i)
      (p := { w.heap i with sock := none, pending := none }) rfl
    cases (w.heap i).sock with
    | none => exact h'
    | some c => exact h'

/-- An exchange takes back the deadlines it gives. -/
theorem dated_lasting (g : ℚ) :
    Lasting (Dated (fun _ => none) g : World env → Prop) where
  toUpkeep := dated_upkeep _ g
  exchange active := by
    intro w h
    unfold RemoteTable.exchange
    simp only [runs_bind, runs_now, runs_self, runs_modify, runs_cleaning]
    intro t ht
    set D := t + (w.push (.now t) ht).table.gatherDeadline
    have hset : Dated (fun i => if i ∈ active.map Prod.fst then some D else none) g
        (RemoteTable.setDeadlines active (some D) (w.push (.now t) ht)) := by
      refine ⟨fun i => ?_, h.2⟩
      unfold RemoteTable.setDeadlines
      dsimp only
      split
      · rfl
      · exact h.1 i
    have hback : ∀ v : World env,
        Dated (fun i => if i ∈ active.map Prod.fst then some D else none) g v →
        Dated (fun _ => none) g (RemoteTable.setDeadlines active none v) := by
      intro v hv
      refine ⟨fun i => ?_, hv.2⟩
      have := hv.1 i
      unfold RemoteTable.setDeadlines
      dsimp only
      split
      · rfl
      case isFalse hi => exact this.trans (if_neg hi)
    exact ((dated_upkeep _ g).attempts D GATHER_ATTEMPTS active _ hset).mono
      (fun _ v hv => hback v hv) fun _ v hv => hback v hv

-- ================================================================ gathers

/-- From `w` on every blocking call was clamped to `D`, and it is a
millisecond past it at most. -/
structure Timely (D : ℚ) (w w' : World env) : Prop where
  armed : Armed w'
  clamped : Clamped D w.tr w'.tr
  clock : 0 ≤ w.table.gatherDeadline → env.Instant → env.Prompt →
    env.now w'.tr ≤ D + 1 / 1000

/-- Being timely is a matter of the history, and of how the sockets are
set. -/
theorem Timely.congr {w'' : World env} (h : Timely D w w') (ha : Armed w'')
    (htr : w''.tr = w'.tr) : Timely D w w'' :=
  ⟨ha, htr ▸ h.clamped, fun hg hq hp => htr ▸ h.clock hg hq hp⟩

/-- `_exchange`, whichever way it ends. -/
theorem exchange_timely (h : Armed w) :
    Runs (RemoteTable.exchange todo) w
      (fun _ => Timely (env.now w.tr + w.table.gatherDeadline) w)
      (fun _ => Timely (env.now w.tr + w.table.gatherDeadline) w) := by
  unfold RemoteTable.exchange
  simp only [runs_bind, runs_now, runs_self, runs_modify, runs_cleaning]
  intro t ht
  obtain rfl : t = env.now w.tr := ht
  set D := env.now w.tr + w.table.gatherDeadline with hD
  have hstart : OnTime todo D 0 w (RemoteTable.setDeadlines todo (some D)
      (w.push (.now (env.now w.tr)) (env.produces_now _))) := by
    refine ⟨(h.push (env.produces_now _) trivial).setDeadlines todo _,
      (Clamped.refl _).snoc (.of_none rfl), fun hg hq _ => ?_, fun i hi => ?_⟩
    · have := hq.push (env.produces_now w.tr) rfl
      change env.now (w.tr ++ [.now (env.now w.tr)]) ≤ D + 0
      rw [World.push_tr] at this
      linarith
    · obtain ⟨s, hs, rfl⟩ := hi
      rw [setDeadlines_heap_of_mem hs]
  refine Runs.mono ((OnTime.sites).attempts GATHER_ATTEMPTS todo
    (fun _ hs => hs) _ hstart) (fun _ v hv => ?_) fun _ v hv => ?_
  · have hv' := hv.mono (show (0 : ℚ) ≤ 1 / 1000 by norm_num)
    exact ⟨hv'.armed.setDeadlines todo none, hv'.clamped, hv'.clock⟩
  · exact ⟨hv.armed.setDeadlines todo none, hv.clamped, hv.clock⟩

/-- Where a gather stands before its exchange: `w₁` but for what is off
the network. -/
structure Early (w₁ w : World env) : Prop where
  armed : Armed w
  tr : w.tr = w₁.tr
  given : w.table.gatherDeadline = w₁.table.gatherDeadline

/-- What holds before the exchange is in time. -/
theorem Early.timely (h : Early w₀ w)
    (hD : 0 ≤ w₀.table.gatherDeadline → env.Instant → env.now w₀.tr ≤ D) :
    Timely D w₀ w :=
  ⟨h.armed, h.tr ▸ .refl _, fun hg hq _ => by
    rw [h.tr]
    linarith [hD hg hq]⟩

/-- An exception makes nothing late. -/
theorem Timely.raise (h : Timely D w₀ w) (e : Exn) :
    Timely D w₀ (w.push (.raised e) (env.produces_raised w.tr e)) :=
  ⟨h.armed.push _ trivial, h.clamped.snoc (.of_none rfl), fun hg hq hp => by
    rw [hq.push (env.produces_raised w.tr e) rfl]
    exact h.clock hg hq hp⟩

/-- Off the network nothing blocks: before the exchange it stays early. -/
theorem early_frames
    (hD : 0 ≤ w₀.table.gatherDeadline → env.Instant → env.now w₀.tr ≤ D) :
    Frames (Early w₀) fun _ => Timely D w₀ where
  frame _ _ h hh hg hs := ⟨armed_upkeep.frame _ _ h.armed hh hg hs,
    (congrArg History.tr hh).trans h.tr, hg.trans h.given⟩
  raised _ e h := (h.timely hD).raise e

/-- Off the network nothing blocks: what is in time stays so. -/
theorem timely_frames : Frames (Timely D w₀) fun _ => Timely D w₀ where
  frame _ _ h hh hg hs := h.congr (armed_upkeep.frame _ _ h.armed hh hg hs)
    (congrArg History.tr hh)
  raised _ e h := h.raise e

/-- The clock has not passed the deadline when the call begins. -/
theorem now_le_due (hg : 0 ≤ w.table.gatherDeadline) (hq : env.Instant) :
    env.now w.tr ≤ w.due := by
  unfold World.due World.called
  rw [hq.push (env.produces_call w.tr) rfl]
  linarith

/-- `gather_cpu` under the table lock. -/
theorem gatherLocked_timely (h : Armed w) (ids : List Int) :
    Runs (RemoteTable.gatherLocked ids) w (fun _ => Timely w.due w)
      (fun _ => Timely w.due w) := by
  have hcalled : ∀ {v : World env}, Timely w.due w.called v →
      Timely w.due w v := by
    intro v hv
    exact ⟨hv.armed, .cons (.of_none rfl) hv.clamped, hv.clock⟩
  refine Runs.mono (Q := fun _ => Timely w.due w.called)
    (E := fun _ => Timely w.due w.called) ?_ (fun _ _ => hcalled)
    fun _ _ => hcalled
  have hframes : Frames (Early w.called) fun _ => Timely w.due w.called :=
    early_frames fun hg _ => le_add_of_nonneg_right hg
  have hearly : Early w.called w.called :=
    ⟨h.push (env.produces_call w.tr) trivial, rfl, rfl⟩
  have hbody : ∀ (l : List Share) (v : World env), Early w.called v →
      Runs (do
        let active ← RemoteTable.stageLoop ids l
        RemoteTable.exchange active
        RemoteTable.scatter active) v (fun _ => Timely w.due w.called)
        (fun _ => Timely w.due w.called) := by
    intro l v hv
    refine (hframes.stageLoop ids l v hv).bind (fun active x hx => ?_)
      fun _ _ hx => hx
    have hto : ∀ {y : World env},
        Timely (env.now x.tr + x.table.gatherDeadline) x y →
        Timely w.due w.called y := by
      intro y hy
      rw [hx.tr, hx.given] at hy
      exact ⟨hy.armed, hx.tr ▸ hy.clamped, hx.given ▸ hy.clock⟩
    exact (exchange_timely hx.armed).bind
      (fun _ y hy => timely_frames.scatter active y (hto hy))
      fun _ y hy => hto hy
  unfold RemoteTable.gatherLocked
  simp only [runs_bind, runs_mark]
  refine (hframes.partition ids _ hearly).mono (fun n v hv => ?_)
    fun _ _ hv => hv
  have hrest : ∀ v : World env, Early w.called v →
      Runs (do
        let t ← RemoteTable.self
        catching Exn.isException (do
          let active ← RemoteTable.stageLoop ids
            (t.peers.zip (← RemoteTable.self).sel)
          RemoteTable.exchange active
          RemoteTable.scatter active) RemoteTable.poison : M env Unit) v
        (fun _ => Timely w.due w.called) (fun _ => Timely w.due w.called) := by
    intro v hv
    simp only [runs_bind, runs_self]
    exact Runs.catching (by simpa only [runs_bind, runs_self] using hbody _ v hv)
      (fun e x hx _ => timely_frames.poison e x hx) fun _ _ hx _ => hx
  split
  · exact (hframes.raiseUnroutable ids v hv).bind (fun _ => hrest)
      fun _ _ hx => hx
  · exact hrest v hv

/-- `gather_cpu`. -/
theorem gatherCpu_timely (h : Armed w) (ids : List Int) :
    Runs (RemoteTable.gatherCpu ids) w (fun _ => Timely w.due w)
      (fun _ => Timely w.due w) := by
  have hframes : Frames (Early w) fun _ => Timely w.due w :=
    early_frames now_le_due
  have hdone : ∀ {v : World env}, Early w v → Timely w.due w v :=
    fun hv => hv.timely now_le_due
  unfold RemoteTable.gatherCpu RemoteTable.gatherEnter
  simp only [runs_bind]
  refine (hframes.stagingFor _ w ⟨h, rfl, rfl⟩).mono (fun out v hv => ?_)
    fun _ _ hv => hv
  split
  case isTrue => exact hdone hv
  case isFalse =>
    simp only [runs_bind]
    refine (hframes.checkUsable v hv).mono (fun _ x hx => ?_) fun _ _ hx => hx
    have hto : ∀ {y : World env}, Timely x.due x y → Timely w.due w y := by
      intro y hy
      have hdue : x.due = w.due := by
        unfold World.due World.called
        rw [World.push_tr, World.push_tr, hx.tr, hx.given]
      rw [hdue] at hy
      exact ⟨hy.armed, hx.tr ▸ hy.clamped, hx.given ▸ hy.clock⟩
    exact (gatherLocked_timely hx.armed ids).mono (fun _ _ hy => hto hy)
      fun _ _ hy => hto hy

/-- No blocking call of a gather outlives the gather's deadline, whatever
the calls before it did, whichever way it ends and whatever time the rest
takes; and if the rest takes none and what blocks comes back within its
timeout, it is over a millisecond after the deadline. No peer is left
with a deadline, and the timeout a peer has cached is its socket's. -/
theorem gatherCpu_deadline {ok : Outcome → Prop} {ids : List Int}
    {o : Outcome} (hc : Constructed env cfg w₀) (hu : Used ok w₀ w)
    (h : (Op.gatherCpu ids).Takes w o w') :
    Clamped w.due w.tr w'.tr ∧
      (0 ≤ cfg.gatherDeadline → env.Instant → env.Prompt →
        env.now w'.tr ≤ w.due + 1 / 1000) ∧
      (∀ i, (w'.heap i).deadline = none) ∧
      ∀ i c, (w'.heap i).sock = some c →
        timeoutOf w'.tr c = (w'.heap i).armed := by
  have harmed : Armed w := armed_lasting.used hc (fun i c hs => by cases hs) hu
  have hdated := (dated_lasting cfg.gatherDeadline).used hc
    ⟨fun _ => rfl, rfl⟩ hu
  have htimely : Timely w.due w w' := by
    refine Op.takes_keeps ?_ h
    exact (gatherCpu_timely harmed ids).bind (fun _ _ hv => hv)
      fun _ _ hv => hv
  have hdated' := (dated_lasting cfg.gatherDeadline).takes hdated h
  refine ⟨htimely.clamped, fun hg => htimely.clock (hdated.2 ▸ hg), hdated'.1,
    fun i c hs => (htimely.armed i c hs).2.2⟩

/-- Where the clock stands still. -/
theorem pairEnv_instant : pairEnv.Instant := fun _ _ _ _ => rfl

/-- Where the clock stands still nothing takes longer than it was given.
-/
theorem pairEnv_prompt : pairEnv.Prompt := fun _ _ t _ _ =>
  (le_max_right t 0).trans_eq (zero_add _).symm

/-- Rows 1, 0 and 1 of the pair, in time. -/
theorem gatherCpu_deadline_pair :
    ∃ w', (Op.gatherCpu [1, 0, 1]).Takes paired .returned w' ∧
      Clamped paired.due paired.tr w'.tr ∧
      pairEnv.now w'.tr ≤ paired.due + 1 / 1000 ∧
      (∀ i, (w'.heap i).deadline = none) ∧
      ∀ i c, (w'.heap i).sock = some c →
        timeoutOf w'.tr c = (w'.heap i).armed := by
  have hret : Returns (Op.gatherCpu [1, 0, 1]).run paired = true := by
    decide +kernel
  obtain ⟨_, hx⟩ := Returns.run hret
  have htakes : (Op.gatherCpu [1, 0, 1]).Takes paired .returned _ := hx
  have hgiven : 0 ≤ pairConfig.gatherDeadline := by decide
  have hused : Used Outcome.Ordinary paired paired := .refl
  obtain ⟨hclamped, hover, hrest⟩ :=
    gatherCpu_deadline paired_constructed hused htakes
  exact ⟨_, htakes, hclamped, hover hgiven pairEnv_instant pairEnv_prompt,
    hrest⟩

-- ============================================================ both gathers

/-- The calls that are one gather. -/
def Op.Gathers : Op → Prop
  | .gatherCpu _ | .gather _ _ => True
  | _ => False

/-- Either way to gather is timely. -/
theorem Op.timely {op : Op} (hop : op.Gathers) (h : Armed w) :
    Runs op.run w (fun _ => Timely w.due w) (fun _ => Timely w.due w) := by
  cases op with
  | gatherCpu ids =>
      exact (gatherCpu_timely h ids).bind (fun _ _ hv => hv) fun _ _ hv => hv
  | gather ids out =>
      exact gather_after (gatherCpu_timely h ids) fun v hv => hv.raise _
  | _ => exact hop.elim

/-- Every gather keeps its deadline. From when it starts each blocking
call is made before the deadline and given no more than what is left of
it, a connect a millisecond at least; so if none of them takes longer than
it was given and nothing else takes time, a gather that was given time is
over a millisecond after the deadline. Then no peer has a deadline, and
the timeout each has cached is its socket's. -/
theorem gather_deadline {ok : Outcome → Prop} {op : Op} {o : Outcome}
    (hc : Constructed env cfg w₀) (hu : Used ok w₀ w) (hop : op.Gathers)
    (h : op.Takes w o w') :
    (∀ a e b, w'.tr = w.tr ++ a ++ e :: b → e.InTime w.due (w.tr ++ a)) ∧
      (0 ≤ cfg.gatherDeadline → env.Instant → env.Prompt →
        env.now w'.tr ≤ w.due + 1 / 1000) ∧
      ∀ i, (w'.heap i).deadline = none ∧
        ∀ c, (w'.heap i).sock = some c →
          timeoutOf w'.tr c = (w'.heap i).armed := by
  have hdated := (dated_lasting cfg.gatherDeadline).used hc
    ⟨fun _ => rfl, rfl⟩ hu
  have hdated' := (dated_lasting cfg.gatherDeadline).takes hdated h
  have htimely : Timely w.due w w' :=
    Op.takes_keeps (Op.timely hop
      (armed_lasting.used hc (fun i c hs => by cases hs) hu)) h
  exact ⟨fun _ _ _ => htimely.clamped.inTime,
    fun hg => htimely.clock (hdated.2 ▸ hg),
    fun i => ⟨hdated'.1 i, fun c hs => (htimely.armed i c hs).2.2⟩⟩

/-- Rows 1, 0 and 1 of the pair, into a tensor of two rows: too few, and in
time. -/
theorem gather_deadline_misfit :
    ∃ w', (Op.gather [1, 0, 1] (some 2)).Takes paired (.raised .shape) w' ∧
      (∀ a e b, w'.tr = paired.tr ++ a ++ e :: b →
        e.InTime paired.due (paired.tr ++ a)) ∧
      pairEnv.now w'.tr ≤ paired.due + 1 / 1000 ∧
      ∀ i, (w'.heap i).deadline = none ∧
        ∀ c, (w'.heap i).sock = some c →
          timeoutOf w'.tr c = (w'.heap i).armed := by
  have hends : (Op.gather [1, 0, 1] (some 2)).ends paired
      = .raised .shape := by
    decide +kernel
  have htakes := Op.takes_ends (.gather [1, 0, 1] (some 2)) paired
  rw [hends] at htakes
  have hgiven : 0 ≤ pairConfig.gatherDeadline := by decide
  have hused : Used Outcome.Ordinary paired paired := .refl
  have hgathers : (Op.gather [1, 0, 1] (some 2)).Gathers := trivial
  obtain ⟨hclamped, hover, hrest⟩ :=
    gather_deadline paired_constructed hused hgathers htakes
  exact ⟨_, htakes, hclamped, hover hgiven pairEnv_instant pairEnv_prompt,
    hrest⟩

/-- A table whose gathers are given less than no time. -/
def hurriedConfig : Config := { pairConfig with gatherDeadline := -1 }

/-- That table as it is constructed. -/
def hurried : World pairEnv :=
  returned RemoteTable.init (initial pairEnv hurriedConfig)

/-- A gather of it is over a second late, although nothing took any. -/
theorem gather_deadline_hurried :
    Constructed pairEnv hurriedConfig hurried ∧ pairEnv.Instant ∧
      pairEnv.Prompt ∧
      ∃ o w', (Op.gatherCpu [0]).Takes hurried o w' ∧
        ¬ pairEnv.now w'.tr ≤ hurried.due + 1 / 1000 := by
  have hret : Returns RemoteTable.init (initial pairEnv hurriedConfig)
      = true := by
    decide +kernel
  obtain ⟨_, hx⟩ := Returns.run hret
  exact ⟨⟨by decide, hx⟩, pairEnv_instant, pairEnv_prompt, _, _,
    Op.takes_ends (.gatherCpu [0]) hurried, by decide +kernel⟩

end PleRowServer.Client
