/-
What a method of one peer may change, and how the programs' primitive
steps run: the frame every specification of the client is stated in.

`Moves S evs w w'` says that between `w` and `w'` the history grew by
`evs`, all of it about peers of `S`, that no other peer object, no tensor
and nothing of the table but its request counter changed, and that every
peer kept what no method of it reassigns (`Peer.Kept`). Moves compose,
and a move of `S` carries every fact about a peer outside it.

Work that returns has raised nothing an OSError handler would not have
caught on the way (`Step`); work that raises `e` did nothing after it
(`Fail`).
-/
import PleRowServer.Client.Table
import PleRowServer.Client.Line

namespace PleRowServer.Client

open Base Wire

variable {env : Env} {w w' w'' : World env} {i j : PeerId}

-- ====================================================== symbolic running

namespace World

/-- An entry of the history comes after all before it. -/
@[simp] theorem push_tr (w : World env) (e : Ev) (he) :
    (w.push e he).tr = w.tr ++ [e] := rfl

/-- An entry of the history changes no object. -/
@[simp] theorem push_heap (w : World env) (e : Ev) (he) :
    (w.push e he).heap = w.heap := rfl

@[simp] theorem push_table (w : World env) (e : Ev) (he) :
    (w.push e he).table = w.table := rfl

@[simp] theorem push_bufs (w : World env) (e : Ev) (he) :
    (w.push e he).bufs = w.bufs := rfl

@[simp] theorem push_allocs (w : World env) (e : Ev) (he) :
    (w.push e he).allocs = w.allocs := rfl

/-- Setting a peer is no entry of the history. -/
@[simp] theorem setPeer_tr (w : World env) (i : PeerId) (p : Peer) :
    (w.setPeer i p).tr = w.tr := rfl

@[simp] theorem setPeer_table (w : World env) (i : PeerId) (p : Peer) :
    (w.setPeer i p).table = w.table := rfl

@[simp] theorem setPeer_bufs (w : World env) (i : PeerId) (p : Peer) :
    (w.setPeer i p).bufs = w.bufs := rfl

@[simp] theorem setPeer_allocs (w : World env) (i : PeerId) (p : Peer) :
    (w.setPeer i p).allocs = w.allocs := rfl

/-- The peer set is the one read back. -/
@[simp] theorem setPeer_self (w : World env) (i : PeerId) (p : Peer) :
    (w.setPeer i p).heap i = p := by simp [setPeer]

/-- Setting a peer leaves every other. -/
theorem setPeer_ne (w : World env) {i j : PeerId} (h : j ≠ i) (p : Peer) :
    (w.setPeer i p).heap j = w.heap j := by simp [setPeer, h]

/-- The line of peer `i`. -/
def line (w : World env) (geo : PeerId → Geometry) (i : PeerId) : Line :=
  Client.line (geo i) i w.tr

end World

section Running

variable {α : Type} {E : Exn → World env → Prop}

/-- An entry that is made without a call. -/
@[simp] theorem runs_mark {e : Ev} {he} {Q : Unit → World env → Prop} :
    Runs (mark e he) w Q E ↔ Q () (w.push e (he w.tr)) := Iff.rfl

/-- Raising is an entry of its own. -/
@[simp] theorem runs_raise {e : Exn} {Q : α → World env → Prop} :
    Runs (raise e) w Q E
      ↔ E e (w.push (.raised e) (env.produces_raised w.tr e)) := Iff.rfl

/-- A blocking call may be answered in any way the environment produces
at this history. -/
@[simp] theorem runs_now {Q : ℚ → World env → Prop} :
    Runs now w Q E ↔
      ∀ t (ht : env.Produces w.tr (.now t)), Q t (w.push (.now t) ht) := by
  refine ⟨?_, fun h => h _ _⟩
  rintro h t rfl
  exact h

/-- Setting a timeout never fails. -/
@[simp] theorem runs_settimeout {c : ConnId} {t : ℚ}
    {Q : Unit → World env → Prop} :
    Runs (settimeout c t) w Q E ↔
      Q () (w.push (.settimeout c t) (env.produces_settimeout w.tr c t)) :=
  Iff.rfl

/-- A connect makes the next connection of its peer, whether it comes up
or not. -/
@[simp] theorem runs_sysConnect {addr : Addr} {t : ℚ}
    {Q : ConnId × Done → World env → Prop} :
    Runs (sysConnect i addr t) w Q E ↔
      ∀ r (hr : env.Produces w.tr (.connect (w.nextConn i) addr t r)),
        Q (w.nextConn i, r) (w.push (.connect (w.nextConn i) addr t r) hr) := by
  refine ⟨?_, fun h => h _ _⟩
  rintro h r ⟨-, rfl⟩
  exact h

/-- The address asked for may be withheld. -/
@[simp] theorem runs_sysPeername {c : ConnId}
    {Q : Except String Addr → World env → Prop} :
    Runs (sysPeername c) w Q E ↔
      ∀ r (hr : env.Produces w.tr (.peername c r)),
        Q r (w.push (.peername c r) hr) := by
  refine ⟨?_, fun h => h _ _⟩
  rintro h r rfl
  exact h

/-- A recv is answered with bytes, an end of the stream, a fault or an
interrupt. -/
@[simp] theorem runs_sysRecv {c : ConnId} {want : Nat}
    {Q : Got → World env → Prop} :
    Runs (sysRecv c want) w Q E ↔
      ∀ r (hr : env.Produces w.tr (.recv c want r)),
        Q r (w.push (.recv c want r) hr) := by
  refine ⟨?_, fun h => h _ _⟩
  rintro h r rfl
  exact h

/-- A sendall may get any part of its bytes out. -/
@[simp] theorem runs_sysSend {c : ConnId} {data : List UInt8}
    {Q : Sent → World env → Prop} :
    Runs (sysSend c data) w Q E ↔
      ∀ r (hr : env.Produces w.tr (.send c data r)),
        Q r (w.push (.send c data r) hr) := by
  refine ⟨?_, fun h => h _ _⟩
  rintro h r rfl
  exact h

/-- A select names some of the sockets, none, or fails. -/
@[simp] theorem runs_sysSelect {cs : List ConnId} {wait : ℚ}
    {Q : Ready → World env → Prop} :
    Runs (sysSelect cs wait) w Q E ↔
      ∀ r (hr : env.Produces w.tr (.select cs wait r)),
        Q r (w.push (.select cs wait r) hr) := by
  refine ⟨?_, fun h => h _ _⟩
  rintro h r rfl
  exact h

/-- A sleep either passes or raises. -/
theorem runs_sleep {t : ℚ} {Q : Unit → World env → Prop}
    (hok : ∀ ht, Q () (w.push (.slept t .ok) ht))
    (hbad : ∀ r ht e he, r ≠ .ok → e ≠ .outOfRounds →
      E e ((w.push (.slept t r) ht).push (.raised e) he)) :
    Runs (sleep t) w Q E := by
  have hsys : Runs (modifyGet fun w : World env =>
      (env.sleep w.tr t,
        w.push (.slept t (env.sleep w.tr t)) (env.produces_slept w.tr t))) w
      (fun r w' => ∃ hr, w' = w.push (.slept t r) hr) E :=
    ⟨env.produces_slept w.tr t, rfl⟩
  unfold sleep
  refine Runs.bind hsys ?_ (fun _ _ h => h)
  rintro r _ ⟨hr, rfl⟩
  cases r with
  | ok => exact hok hr
  | fault why => exact hbad _ hr _ _ (by simp) (by simp)
  | interrupt => exact hbad _ hr _ _ (by simp) (by simp)

/-- A close always closes. -/
@[simp] theorem runs_sysClose {c : ConnId} {abort : Bool}
    {Q : Unit → World env → Prop} :
    Runs (sysClose c abort) w Q E ↔
      Q () (w.push (.close c abort) (env.produces_close w.tr c abort)) :=
  Iff.rfl

/-- Fields are read and written without an entry. -/
@[simp] theorem runs_peer {Q : Peer → World env → Prop} :
    Runs (peer i) w Q E ↔ Q (w.heap i) w := Iff.rfl

/-- The other fields of the peer, and the other peers, stay. -/
@[simp] theorem runs_modifyPeer {f : Peer → Peer}
    {Q : Unit → World env → Prop} :
    Runs (modifyPeer i f) w Q E ↔ Q () (w.setPeer i (f (w.heap i))) := Iff.rfl

/-- Reading the table returns it as it is. -/
@[simp] theorem runs_self {Q : RemoteTable → World env → Prop} :
    Runs RemoteTable.self w Q E ↔ Q w.table w := Iff.rfl

/-- Changing the table leaves its image. -/
@[simp] theorem runs_modifySelf {f : RemoteTable → RemoteTable}
    {Q : Unit → World env → Prop} :
    Runs (RemoteTable.modifySelf f) w Q E
      ↔ Q () { w with table := f w.table } := Iff.rfl

/-- The socket of a connected peer. -/
theorem runs_socket {c : ConnId} (h : (w.heap i).sock = some c)
    {Q : ConnId → World env → Prop} :
    Runs (Peer.socket i) w Q E ↔ Q c w := by
  simp [Peer.socket, runs_bind, h]

end Running

-- =============================================================== frames

/-- What no method of a peer reassigns once its range is recorded and
its buffers are reserved: all but the header bytes of `req`. -/
structure Peer.Kept (p p' : Peer) : Prop where
  geometry : p'.geometry = p.geometry
  deadline : p'.deadline = p.deadline
  cap : p'.cap = p.cap
  ids : p'.req.drop HEADER = p.req.drop HEADER
  reqLength : p'.req.length = p.req.length
  rowsLength : p'.rows.length = p.rows.length

/-- A peer left alone keeps its identity. -/
theorem Peer.Kept.refl (p : Peer) : p.Kept p := ⟨rfl, rfl, rfl, rfl, rfl, rfl⟩

/-- A peer keeps its identity through any number of methods. -/
theorem Peer.Kept.trans {p q r : Peer} (h : p.Kept q) (h' : q.Kept r) :
    p.Kept r :=
  ⟨h'.geometry.trans h.geometry, h'.deadline.trans h.deadline,
    h'.cap.trans h.cap, h'.ids.trans h.ids, h'.reqLength.trans h.reqLength,
    h'.rowsLength.trans h.rowsLength⟩

/-- `raised` marks of OSErrors only. -/
def Trace.Calm (evs : Trace) : Prop :=
  ∀ e, Ev.raised e ∈ evs → e.isOS = true

/-- The last entry raises `e`, and before it only OSErrors were
raised. -/
def Trace.EndsBy (e : Exn) (evs : Trace) : Prop :=
  ∃ pre, evs = pre ++ [.raised e] ∧ Trace.Calm pre

/-- Two calm stretches are one. -/
theorem Trace.Calm.append {a b : Trace} (ha : Trace.Calm a)
    (hb : Trace.Calm b) : Trace.Calm (a ++ b) := by
  intro e he
  rcases List.mem_append.mp he with he | he
  · exact ha e he
  · exact hb e he

/-- A calm stretch before an end is part of it. -/
theorem Trace.Calm.endsBy {a b : Trace} {e : Exn} (ha : Trace.Calm a)
    (hb : Trace.EndsBy e b) : Trace.EndsBy e (a ++ b) := by
  obtain ⟨pre, rfl, hpre⟩ := hb
  exact ⟨a ++ pre, by simp, ha.append hpre⟩

theorem Trace.calm_nil : Trace.Calm [] := by intro e he; cases he

/-- Nothing raised at all is calm. -/
theorem Trace.calm_of_forall {evs : Trace}
    (h : ∀ e, Ev.raised e ∉ evs) : Trace.Calm evs :=
  fun e he => absurd he (h e)

/-- An OSError that ends a stretch leaves it calm. -/
theorem Trace.EndsBy.calm {e : Exn} {evs : Trace} (h : Trace.EndsBy e evs)
    (he : e.isOS = true) : Trace.Calm evs := by
  obtain ⟨pre, rfl, hpre⟩ := h
  refine hpre.append ?_
  intro e' he'
  obtain rfl : e' = e := by simpa using he'
  exact he

-- =========================================================== request ids

/-- The request ids one entry draws. -/
@[simp] def Ev.draws : Ev → List Nat
  | .drew _ n => [n]
  | _ => []

/-- The request ids drawn in a stretch of the history. -/
def drawn (evs : Trace) : List Nat := evs.flatMap Ev.draws

@[simp] theorem drawn_nil : drawn [] = [] := rfl

/-- Ids are drawn in order. -/
@[simp] theorem drawn_append (a b : Trace) :
    drawn (a ++ b) = drawn a ++ drawn b := by simp [drawn]

@[simp] theorem drawn_cons (e : Ev) (tr : Trace) :
    drawn (e :: tr) = e.draws ++ drawn tr := by simp [drawn]

/-- Drawing `ns` one after the other takes the counter from `r` to
`r'`. -/
def Drawing : Nat → List Nat → Nat → Prop
  | r, [], r' => r' = r
  | r, n :: ns, r' => n = (r + 1) % 2 ^ 32 ∧ Drawing n ns r'

/-- One run of draws after the other. -/
theorem Drawing.append {a b : List Nat} {r r' r'' : Nat}
    (h : Drawing r a r') (h' : Drawing r' b r'') :
    Drawing r (a ++ b) r'' := by
  induction a generalizing r with
  | nil => cases h; exact h'
  | cons n ns ih => exact ⟨h.1, ih h.2⟩

/-- The `k`-th id drawn. -/
theorem Drawing.eq_map {ns : List Nat} {r r' : Nat} (h : Drawing r ns r') :
    ns = (List.range ns.length).map fun k => (r + k + 1) % 2 ^ 32 := by
  induction ns generalizing r with
  | nil => rfl
  | cons n ns ih =>
      obtain ⟨rfl, h⟩ := h
      rw [List.length_cons, List.range_succ_eq_map, List.map_cons,
        List.map_map]
      refine congrArg₂ _ (by simp) ((ih h).trans ?_)
      refine List.map_congr_left fun k _ => ?_
      simp only [Function.comp_apply]
      omega

/-- Ids are distinct until the counter has gone all the way round. -/
theorem Drawing.nodup {ns : List Nat} {r r' : Nat} (h : Drawing r ns r')
    (hlen : ns.length ≤ 2 ^ 32) : ns.Nodup := by
  rw [h.eq_map]
  refine List.Nodup.map_on ?_ List.nodup_range
  intro a ha b hb hab
  rw [List.mem_range] at ha hb
  omega

/-- An entry that raises nothing and draws nothing. -/
@[simp] def Ev.Plain : Ev → Prop
  | .raised _ | .drew _ _ => False
  | _ => True

/-- A plain entry draws no id. -/
theorem Ev.Plain.draws {e : Ev} (h : e.Plain) : e.draws = [] := by
  cases e <;> first | rfl | exact h.elim

/-- After a plain entry the ids drawn are those drawn before it. -/
theorem drawn_push {x : Ev} (hx) (hp : x.Plain) :
    drawn (w.push x hx).tr = drawn w.tr := by
  rw [World.push_tr, drawn_append, drawn_cons, hp.draws]
  exact List.append_nil _

/-- A plain entry raises nothing. -/
theorem Ev.Plain.calm {e : Ev} (h : e.Plain) : Trace.Calm [e] := by
  refine Trace.calm_of_forall fun x hx => ?_
  rw [← List.mem_singleton.mp hx] at h
  exact h

-- ================================================================= moves

/-- Work on the peers `S`: nothing but them and the request counter
moved. -/
structure Moves (S : Set PeerId) (evs : Trace) (w w' : World env) : Prop where
  tr : w'.tr = w.tr ++ evs
  of : ∀ e ∈ evs, e.Of S
  heap : ∀ j ∉ S, w'.heap j = w.heap j
  table : w'.table = { w.table with reqId := w'.table.reqId }
  bufs : w'.bufs = w.bufs
  allocs : w'.allocs = w.allocs
  kept : ∀ j, (w.heap j).Kept (w'.heap j)
  ids : Drawing w.table.reqId (drawn evs) w'.table.reqId

/-- What work on `S` may note, work on a larger set may. -/
theorem Ev.Of.mono {S S' : Set PeerId} (hS : S ⊆ S') {e : Ev}
    (h : e.Of S) : e.Of S' := by
  cases e with
  | call => exact h
  | drew i n => exact hS h
  | attempt n todo => exact h
  | caught x todo => exact fun i hi => hS (h i hi)
  | _ => exact fun c hc => hS (h c hc)

namespace Moves

variable {S S' : Set PeerId} {evs evs' : Trace}

/-- Nothing has moved. -/
theorem refl (w : World env) (S : Set PeerId) : Moves S [] w w :=
  ⟨by simp, by simp, fun _ _ => rfl, rfl, rfl, rfl, fun _ => .refl _, rfl⟩

/-- Moves compose: the histories are one after the other. -/
theorem trans (h : Moves S evs w w') (h' : Moves S evs' w' w'') :
    Moves S (evs ++ evs') w w'' where
  tr := by rw [h'.tr, h.tr, List.append_assoc]
  of e he := (List.mem_append.mp he).elim (h.of e) (h'.of e)
  heap j hj := (h'.heap j hj).trans (h.heap j hj)
  table := by rw [h'.table, h.table]
  bufs := h'.bufs.trans h.bufs
  allocs := h'.allocs.trans h.allocs
  kept j := (h.kept j).trans (h'.kept j)
  ids := by rw [drawn_append]; exact h.ids.append h'.ids

/-- What moves few peers moves no more than many. -/
theorem mono (h : Moves S evs w w') (hS : S ⊆ S') : Moves S' evs w w' :=
  ⟨h.tr, fun e he => (h.of e he).mono hS,
    fun j hj => h.heap j fun h' => hj (hS h'), h.table, h.bufs, h.allocs,
    h.kept, h.ids⟩

/-- One entry of work on `S`. -/
theorem push {e : Ev} (he) (ho : e.Of S) (hd : e.draws = []) :
    Moves S [e] w (w.push e he) :=
  ⟨rfl, by simpa using ho, fun _ _ => rfl, rfl, rfl, rfl, fun _ => .refl _,
    by rw [drawn_cons, hd]; rfl⟩

/-- An assignment to attributes of peer `i` that are not kept. -/
theorem setPeer {p : Peer} (hp : (w.heap i).Kept p) (hi : i ∈ S) :
    Moves S [] w (w.setPeer i p) where
  tr := by simp
  of := by simp
  heap j hj := World.setPeer_ne w (by rintro rfl; exact hj hi) p
  table := rfl
  bufs := rfl
  allocs := rfl
  kept j := by
    by_cases hj : j = i
    · subst hj; simpa using hp
    · rw [World.setPeer_ne w hj p]; exact .refl _
  ids := rfl

/-- Work on other peers leaves a line alone. -/
theorem line_eq (h : Moves S evs w w') (geo : PeerId → Geometry)
    (hj : j ∉ S) : w'.line geo j = w.line geo j := by
  unfold World.line
  rw [h.tr, line_of_other hj w.tr h.of]

end Moves

/-- An entry no line reacts to. -/
def Ev.Mute : Ev → Prop
  | .call | .drew _ _ | .connect _ _ _ .ok | .send _ _ _ | .recv _ _ _
  | .close _ _ | .caught _ _ => False
  | _ => True

/-- An entry that says nothing of the wire is no step of any line. -/
theorem lineStep_of_mute {g : Geometry} {e : Ev} (he : e.Mute) (l : Line) :
    lineStep g i l e = l := by
  cases e with
  | connect c a t r => cases r <;> first | rfl | exact he.elim
  | call => exact he.elim
  | drew j n => exact he.elim
  | send c d r => exact he.elim
  | recv c w r => exact he.elim
  | close c a => exact he.elim
  | caught x todo => exact he.elim
  | _ => rfl

/-- A line does not react to mute entries. -/
theorem line_of_mute {g : Geometry} (tr : Trace) {evs : Trace}
    (h : ∀ e ∈ evs, e.Mute) : line g i (tr ++ evs) = line g i tr := by
  rw [line_append]
  generalize line g i tr = l
  induction evs generalizing l with
  | nil => rfl
  | cons e evs ih =>
      rw [List.foldl_cons, lineStep_of_mute (h e (by simp))]
      exact ih (fun e' he' => h e' (by simp [he'])) l

/-- Work on `S` that returned: nothing but OSErrors was raised on the
way. -/
def Step (S : Set PeerId) (w w' : World env) : Prop :=
  ∃ evs, Moves S evs w w' ∧ Trace.Calm evs

/-- Work on `S` that raised `e`, its last act. -/
def Fail (S : Set PeerId) (e : Exn) (w w' : World env) : Prop :=
  ∃ evs, Moves S evs w w' ∧ Trace.EndsBy e evs

section Work

variable {S S' : Set PeerId} {e : Exn}

/-- Work that did nothing. -/
theorem Step.refl (w : World env) (S : Set PeerId) : Step S w w :=
  ⟨[], .refl w S, Trace.calm_nil⟩

/-- Work after work. -/
theorem Step.trans (h : Step S w w') (h' : Step S w' w'') :
    Step S w w'' := by
  obtain ⟨evs, hm, hc⟩ := h
  obtain ⟨evs', hm', hc'⟩ := h'
  exact ⟨_, hm.trans hm', hc.append hc'⟩

/-- Work that raises after work that returned. -/
theorem Step.fail (h : Step S w w') (h' : Fail S e w' w'') :
    Fail S e w w'' := by
  obtain ⟨evs, hm, hc⟩ := h
  obtain ⟨evs', hm', hc'⟩ := h'
  exact ⟨_, hm.trans hm', hc.endsBy hc'⟩

/-- More peers may have been at work. -/
theorem Step.mono (h : Step S w w') (hS : S ⊆ S') : Step S' w w' :=
  let ⟨evs, hm, hc⟩ := h; ⟨evs, hm.mono hS, hc⟩

/-- More peers may have been at work when it raised. -/
theorem Fail.mono (h : Fail S e w w') (hS : S ⊆ S') : Fail S' e w w' :=
  let ⟨evs, hm, hc⟩ := h; ⟨evs, hm.mono hS, hc⟩

/-- An OSError that was caught leaves ordinary work behind. -/
theorem Fail.step (h : Fail S e w w') (he : e.isOS = true) :
    Step S w w' := by
  obtain ⟨evs, hm, hc⟩ := h
  exact ⟨evs, hm, hc.calm he⟩

/-- `raise`, as the last act of work on `S`. -/
theorem Fail.raise (w : World env) (S : Set PeerId) (e : Exn) :
    Fail S e w (w.push (.raised e) (env.produces_raised w.tr e)) := by
  refine ⟨[.raised e], .push _ ?_ rfl, [], rfl, Trace.calm_nil⟩
  intro c hc; cases hc

/-- One entry of work on `S`. -/
theorem Step.push {x : Ev} (hx) (ho : x.Of S) (hp : x.Plain) :
    Step S w (w.push x hx) := ⟨[x], .push hx ho hp.draws, hp.calm⟩

/-- An assignment to attributes of peer `i` that are not kept. -/
theorem Step.setPeer {p : Peer} (hp : (w.heap i).Kept p) (hi : i ∈ S) :
    Step S w (w.setPeer i p) := ⟨[], .setPeer hp hi, Trace.calm_nil⟩

/-- The request id drawn next. -/
def World.nextId (w : World env) : Nat := (w.table.reqId + 1) % 2 ^ 32

/-- An id fits its field. -/
theorem World.nextId_lt (w : World env) : w.nextId < 2 ^ 32 :=
  Nat.mod_lt _ (by decide)

/-- The state after drawing one request id for peer `i`. -/
def World.draw (w : World env) (i : PeerId) : World env :=
  World.push { w with table := { w.table with reqId := w.nextId } }
    (.drew i w.nextId) (env.produces_drew _ i _)

/-- Drawing an id is one entry and one count. -/
@[simp] theorem runs_nextReqId {Q : Nat → World env → Prop}
    {E : Exn → World env → Prop} :
    Runs (RemoteTable.nextReqId i) w Q E ↔ Q w.nextId (w.draw i) := Iff.rfl

@[simp] theorem World.draw_heap (w : World env) (i : PeerId) :
    (w.draw i).heap = w.heap := rfl

@[simp] theorem World.draw_tr (w : World env) (i : PeerId) :
    (w.draw i).tr = w.tr ++ [.drew i w.nextId] := rfl

/-- Drawing a request id for a peer of `S`. -/
theorem Step.draw (w : World env) (hi : i ∈ S) : Step S w (w.draw i) := by
  refine ⟨[.drew i w.nextId], ⟨rfl, ?_, fun _ _ => rfl, rfl, rfl, rfl,
    fun _ => .refl _, rfl, rfl⟩, ?_⟩
  · intro e he
    rw [List.mem_singleton.mp he]
    exact hi
  · exact Trace.calm_of_forall fun x hx => by simp at hx

/-- Work on some peers leaves the others. -/
theorem Step.heap (h : Step S w w') (hj : j ∉ S) :
    w'.heap j = w.heap j := let ⟨_, hm, _⟩ := h; hm.heap j hj

/-- Work on some peers that fails leaves the others. -/
theorem Fail.heap (h : Fail S e w w') (hj : j ∉ S) :
    w'.heap j = w.heap j := let ⟨_, hm, _⟩ := h; hm.heap j hj

/-- Work on some peers leaves the others' lines. -/
theorem Step.line (h : Step S w w') (geo : PeerId → Geometry)
    (hj : j ∉ S) : w'.line geo j = w.line geo j :=
  let ⟨_, hm, _⟩ := h; hm.line_eq geo hj

/-- Work on some peers that fails leaves the others' lines. -/
theorem Fail.line (h : Fail S e w w') (geo : PeerId → Geometry)
    (hj : j ∉ S) : w'.line geo j = w.line geo j :=
  let ⟨_, hm, _⟩ := h; hm.line_eq geo hj

/-- Work on some peers leaves every peer its identity. -/
theorem Step.kept (h : Step S w w') (j : PeerId) :
    (w.heap j).Kept (w'.heap j) := let ⟨_, hm, _⟩ := h; hm.kept j

/-- Work that fails leaves every peer its identity. -/
theorem Fail.kept (h : Fail S e w w') (j : PeerId) :
    (w.heap j).Kept (w'.heap j) := let ⟨_, hm, _⟩ := h; hm.kept j

/-- Work on some peers moves only the counter of the table. -/
theorem Step.table (h : Step S w w') :
    w'.table = { w.table with reqId := w'.table.reqId } :=
  let ⟨_, hm, _⟩ := h; hm.table

/-- Work that fails moves only the counter of the table. -/
theorem Fail.table (h : Fail S e w w') :
    w'.table = { w.table with reqId := w'.table.reqId } :=
  let ⟨_, hm, _⟩ := h; hm.table

/-- Work on some peers only adds to the history. -/
theorem Step.grows (h : Step S w w') : w.tr <+: w'.tr :=
  let ⟨_, hm, _⟩ := h; ⟨_, hm.tr.symm⟩

/-- Work that fails only adds to the history. -/
theorem Fail.grows (h : Fail S e w w') : w.tr <+: w'.tr :=
  let ⟨_, hm, _⟩ := h; ⟨_, hm.tr.symm⟩

end Work

-- ============================================================== evidence

/-- An entry that is a transport fault or an interrupt, or that reads
the clock when nothing is left of the deadline `d` and the socket
timeout `T`. -/
def Ev.Faulty (T : ℚ) (d : Option ℚ) : Ev → Prop
  | .now t => ∃ d', d = some d' ∧ min T (d' - t) ≤ 0
  | .slept _ r | .connect _ _ _ r => r ≠ .ok
  | .peername _ r => ∀ addr, r ≠ .ok addr
  | .send _ _ r => r ≠ .all
  | .recv _ _ r => ∀ bs, r = .data bs → bs = []
  | .select _ _ r => ∀ cs, r = .ready cs → cs = []
  | _ => False

/-- A fault happened between `w` and `w'`. -/
def Faulted (T : ℚ) (d : Option ℚ) (w w' : World env) : Prop :=
  ∃ e ∈ w'.tr.drop w.tr.length, e.Faulty T d

/-- The peer answered with a header that is no success. -/
def Line.Refused (l : Line) : Prop :=
  ∃ req got, l.phase = .asked req got ∧ HEADER ≤ got.length ∧
    headerOk req got = false

/-- Between `w` and `w'` a fault happened, or a peer of `S` refused a
request: the only causes a call on open connections has to fail. -/
def Trouble (geo : PeerId → Geometry) (T : ℚ) (d : Option ℚ)
    (w w' : World env) : Prop :=
  Faulted T d w w' ∨ ∃ tr i, w.tr <+: tr ∧ tr <+: w'.tr ∧
    (Client.line (geo i) i tr).Refused

section Causes

variable {T : ℚ} {d : Option ℚ} {geo : PeerId → Geometry}

/-- A fault in the second part is one of the whole. -/
theorem Faulted.after (h : Faulted T d w' w'') (hp : w.tr <+: w'.tr) :
    Faulted T d w w'' := by
  obtain ⟨e, he, hf⟩ := h
  refine ⟨e, ?_, hf⟩
  obtain ⟨k, hk⟩ := Nat.exists_eq_add_of_le hp.length_le
  rw [hk, ← List.drop_drop] at he
  exact List.mem_of_mem_drop he

/-- A fault in the first part is one of the whole. -/
theorem Faulted.before (h : Faulted T d w w') (hp : w.tr <+: w'.tr)
    (hp' : w'.tr <+: w''.tr) : Faulted T d w w'' := by
  obtain ⟨e, he, hf⟩ := h
  refine ⟨e, ?_, hf⟩
  obtain ⟨b, hb⟩ := hp'
  rw [← hb, List.drop_append_of_le_length hp.length_le]
  exact List.mem_append_left _ he

/-- A faulty entry just pushed. -/
theorem Faulted.push {e : Ev} (he) (hf : e.Faulty T d) :
    Faulted T d w (w.push e he) :=
  ⟨e, by simp, hf⟩

/-- Trouble is carried over in the same way, from the second part -/
theorem Trouble.after (h : Trouble geo T d w' w'') (hp : w.tr <+: w'.tr) :
    Trouble geo T d w w'' := by
  rcases h with h | ⟨tr, i, ha, hb, hr⟩
  · exact .inl (h.after hp)
  · exact .inr ⟨tr, i, hp.trans ha, hb, hr⟩

/-- Trouble in the first part is trouble of the whole. -/
theorem Trouble.before (h : Trouble geo T d w w') (hp : w.tr <+: w'.tr)
    (hp' : w'.tr <+: w''.tr) : Trouble geo T d w w'' := by
  rcases h with h | ⟨tr, i, ha, hb, hr⟩
  · exact .inl (h.before hp hp')
  · exact .inr ⟨tr, i, ha, hb.trans hp', hr⟩

/-- A line that is refused now was refused in between. -/
theorem Trouble.refused (h : (w'.line geo i).Refused)
    (hp : w.tr <+: w'.tr) : Trouble geo T d w w' :=
  .inr ⟨w'.tr, i, hp, List.prefix_rfl, h⟩

end Causes

end PleRowServer.Client
