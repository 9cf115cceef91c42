/-
Gathers that are refused might as well not have been made.

A gather is refused before its exchange exactly if it is barred, and all
it leaves is a larger staging, the selections, and the marks of the call
(`gatherCpu_refused`). Nothing later depends on those, so in any sequence
of gathers the barred ones can be left out: the others end the same way,
with the same rows, over the same traffic (`gatherAll_kept`).
-/
import PleRowServer.Client.Twin
import PleRowServer.Client.Upkeep
import PleRowServer.Client.Accepted

namespace PleRowServer.Client

open Base Wire
open RemoteTable (Config initial)

variable {env : Env} {geo : PeerId → Geometry} {w v w₀ w' v' : World env}
  {T : ℚ} {cfg : Config} {ids : List Int} {tr : Trace} {i : PeerId}
  {c : ConnId} {e : Exn} {k n : Nat}

-- ================================================================ admitted

/-- The history begins with `tr`. -/
def Past (tr : Trace) (w : World env) : Prop := tr <+: w.tr

/-- An entry more leaves the past. -/
theorem Past.push (h : Past tr w) (x : Ev) (hx) : Past tr (w.push x hx) :=
  h.trans (List.prefix_append _ _)

/-- What is past stays so. -/
theorem past_upkeep (tr : Trace) : Upkeep (Past tr : World env → Prop) where
  frame w w' h hh _ _ := by
    have htr : w'.tr = w.tr := congrArg History.tr hh
    show tr <+: w'.tr
    rw [htr]
    exact h
  raised w e h := h.push _ _
  push w e he h _ := h.push _ _
  connect i ct t := by
    unfold Peer.connect createConnection getpeername
    refine .bind (fun _ h => h) fun p => .bind ?_ fun c => .guard
      (fun _ w h => h.push _ _) ?_
    · refine .guard (fun _ w h => h.push _ _) (.bind ?_ fun x => ?_)
      · exact fun w h => h.push _ _
      · obtain ⟨c, r⟩ := x
        cases r with
        | ok => exact .pure _
        | _ => exact fun w h => h.push _ _
    · refine .bind (fun w h => h.push _ _) fun _ => ?_
      refine .bind (fun _ h => h) fun _ => .bind ?_ fun a => fun _ h => h
      refine .bind (fun w h => h.push _ _) fun r => ?_
      cases r with
      | ok a => exact .pure _
      | error why => exact fun w h => h.push _ _
  arm i := by
    unfold Peer.arm
    refine .bind (fun _ h => h) fun p => .bind ?_ fun b => ?_
    · unfold Peer.budget
      split
      · exact .pure _
      · refine .bind (fun w h => h.push _ _) fun t => ?_
        exact .guard (fun _ w h => h.push _ _) (.pure _)
    · refine .ite (fun _ => .bind ?_ fun c => ?_) fun _ => .pure _
      · unfold Peer.socket
        refine .bind (fun _ h => h) fun p => ?_
        split
        · exact .pure _
        · exact fun w h => h.push _ _
      · exact .bind (fun w h => h.push _ _) fun _ => fun _ h => h
  close i abort := by
    unfold Peer.close
    refine .bind (fun _ h => h) fun p => .bind (fun _ h => h) fun _ => ?_
    split
    · exact .pure _
    · exact fun w h => h.push _ _

/-- How the history of a gather begins whose exchange is started. -/
def opening (geo : PeerId → Geometry) (ids : List Int) (w : World env) :
    Trace :=
  w.tr ++ [.call, .now (env.now w.called.tr),
    .attempt 1 ((shares geo ids w.table.peers).map Prod.fst)]

/-- The exchange marks its first attempt before anything else. -/
theorem exchange_opens {todo : List Share} :
    Runs (RemoteTable.exchange todo) w
      (fun _ => Past (w.tr ++ [.now (env.now w.tr),
        .attempt 1 (todo.map Prod.fst)]))
      (fun _ => Past (w.tr ++ [.now (env.now w.tr),
        .attempt 1 (todo.map Prod.fst)])) := by
  have hkeep : Upkeep (Past (w.tr ++ [.now (env.now w.tr),
    .attempt 1 (todo.map Prod.fst)]) : World env → Prop) := past_upkeep _
  unfold RemoteTable.exchange
  simp only [runs_bind, runs_now, runs_self, runs_modify, runs_cleaning]
  intro t ht
  obtain rfl : t = env.now w.tr := ht
  unfold GATHER_ATTEMPTS RemoteTable.attempts
  simp only [runs_bind, runs_mark]
  refine Runs.mono (Keeps.catching (hkeep.attempt _ _ todo)
    (fun x => .bind (hkeep.giveUp _ todo _ x) fun rest =>
      hkeep.attempts _ _ rest) _ ?_) (fun _ _ h => h) fun _ _ h => h
  refine ⟨[], ?_⟩
  rw [List.append_nil]
  exact (List.append_assoc w.tr [_] [_]).symm

/-- A gather that is not barred comes to its exchange. -/
theorem gatherLocked_opens (hs : Sound geo T w)
    (hb : ¬ Barred geo ids w.table) (hrb : 0 < w.table.rowBytes) :
    Runs (RemoteTable.gatherLocked ids) w (fun _ => Past (opening geo ids w))
      (fun _ => Past (opening geo ids w)) := by
  have hkeep : Upkeep (Past (opening geo ids w) : World env → Prop) :=
    past_upkeep _
  have hmax : ∀ i ∈ w.table.peers,
      (((geo i).owned ids).length : Int) ≤ w.table.maxRows :=
    fun i hi => not_lt.mp fun hover => hb (.inl ⟨i, hi, hover⟩)
  have hrows : ∀ id ∈ ids, 0 ≤ id ∧ id < w.table.rowsTotal :=
    fun id hid => by_contra fun hout => hb (.inr ⟨id, hid, hout⟩)
  unfold RemoteTable.gatherLocked RemoteTable.partition
  simp only [runs_bind, runs_mark, runs_self]
  have hpart := partitionLoop_spec ids w.table.peers [] 0 w.called
    hs.geometry ⟨w.table.sel, rfl, hs.sel⟩
  refine hpart.mono ?_ ?_
  case refine_2 =>
    intro e w' h
    obtain ⟨-, -, i, hi, hover⟩ := h
    exact absurd (hmax i hi) (not_le.mpr hover)
  intro n w₁ h
  obtain ⟨rfl, rfl, -⟩ := h
  rw [List.nil_append, Nat.zero_add, hs.tiled.length_routed hrows,
    if_neg (not_not.mpr rfl)]
  simp only [runs_bind, runs_self]
  set sel := w.table.peers.map fun i => (geo i).owned ids with hsel
  set w₁ := w.called.withSel sel with hw₁
  have hzip : w.table.peers.zip sel
      = w.table.peers.map fun i => (i, (geo i).owned ids) :=
    List.map_prod_left_eq_zip.symm
  have hfst : (w.table.peers.zip sel).map Prod.fst = w.table.peers := by
    rw [hzip, List.map_map]
    exact List.map_id _
  have hwork : Runs (do
      let active ← RemoteTable.stageLoop ids (w.table.peers.zip sel)
      RemoteTable.exchange active
      RemoteTable.scatter active) w₁ (fun _ => Past (opening geo ids w))
      (fun _ => Past (opening geo ids w)) := by
    have hgeo : ∀ s ∈ w.table.peers.zip sel,
        (w₁.heap s.1).geometry = geo s.1 :=
      fun s hmem => hs.geometry s.1 (hfst ▸ List.mem_map_of_mem hmem)
    refine Runs.bind (stageLoop_spec _ w₁ (by rw [hfst]; exact hs.nodup)
      (fun s _ => hs.roomy s.1) hgeo) ?_ ?_
    · intro todo w₂ h
      obtain ⟨rfl, hstock, -⟩ := h
      have htr : w₂.tr = w.called.tr := hstock.tr
      have hopen : w₂.tr ++ [.now (env.now w₂.tr), .attempt 1
          ((active (w.table.peers.zip sel)).map Prod.fst)]
          = opening geo ids w := by
        rw [htr, hzip]
        exact List.append_assoc w.tr [_] _
      rw [← hopen]
      exact exchange_opens.bind
        (fun _ y hy => (past_upkeep _).scatter _ y hy) fun _ _ hy => hy
    · intro x w₂ h
      obtain ⟨-, s, hmem, hz⟩ := h
      rw [hzip] at hmem
      have hrow := hs.rowBytes s.1 (mem_shares.mp hmem).1
      omega
  refine Runs.catching hwork (fun x y hy _ => hkeep.poison x y hy)
    fun _ _ hy _ => hy

-- ================================================================= refused

/-- What a refused gather is told, and all it leaves. -/
structure Refused (geo : PeerId → Geometry) (ids : List Int) (w : World env)
    (e : Exn) (w' : World env) : Prop where
  why : Refusal geo ids w.table e
  tr : w'.tr = w.tr ++ [.call, .raised e]
  heap : w'.heap = w.heap
  reqId : w'.table.reqId = w.table.reqId
  failed : w'.table.failed = w.table.failed
  setup : w'.table.setup = w.table.setup
  sel : w'.table.sel.length = w.table.sel.length

/-- A gather barred under the lock was refused. -/
theorem Entered.refused {out : View} (h : Entered w out n v)
    (hwhy : Refusal geo ids w.table e) (hb : Barring v e w') :
    Refused geo ids w e w' := by
  obtain ⟨sel, he, hlen, rfl⟩ := hb
  refine ⟨hwhy, ?_, h.heap, h.reqId, h.failed, h.setup, ?_⟩
  · show (v.tr ++ [.call]) ++ [.raised e] = _
    rw [h.tr, List.append_assoc]
    rfl
  · exact hlen.trans (by rw [h.sel])

instance (geo : PeerId → Geometry) (ids : List Int) (t : RemoteTable) :
    Decidable (Barred geo ids t) := inferInstanceAs (Decidable (_ ∨ _))

/-- On a usable table a gather gets to the lock. -/
theorem gatherCpu_enters {Q : World env → Prop}
    {E : Exn → World env → Prop} (hf : w.table.failed = none)
    (hids : ids ≠ []) (h : ∀ out v, Entered w out ids.length v →
      Runs (RemoteTable.gatherLocked ids) v (fun _ => Q) E) :
    Runs (RemoteTable.gatherCpu ids) w (fun _ => Q) E := by
  unfold RemoteTable.gatherCpu RemoteTable.gatherEnter
  simp only [runs_bind]
  refine Runs.mono (stagingFor_spec ids.length (E := fun _ _ => False)) ?_
    fun _ _ hno => hno.elim
  intro out v hv
  simp only [hids, if_false, runs_bind]
  refine Runs.mono checkUsable_spec ?_ ?_
  · intro _ v' hv'
    obtain ⟨rfl, -⟩ := hv'
    exact h out _ hv
  · intro e w' hmark
    obtain ⟨⟨why, hmark, -⟩, -⟩ := hmark
    rw [hv.failed, hf] at hmark
    cases hmark

/-- On a good unmarked table a gather is refused exactly if it is barred,
and any other comes to its exchange. -/
theorem Good.turns {o : Outcome} (hg : Good geo T w)
    (hf : w.table.failed = none) (hids : ids ≠ [])
    (hrb : 0 < w.table.rowBytes) (h : (Op.gatherCpu ids).Takes w o w') :
    (Barred geo ids w.table →
        ∃ e, o = .raised e ∧ Refused geo ids w e w') ∧
      (¬ Barred geo ids w.table → opening geo ids w <+: w'.tr) := by
  constructor
  · intro hb
    have hspec : Runs (Op.gatherCpu ids).run w (fun _ _ => False)
        (Refused geo ids w) :=
      (gatherCpu_barred hg.sound hf hids hb).bind (fun _ _ h => h.elim)
        fun e v h => by
          obtain ⟨hwhy, out, u, hu, hbar⟩ := h
          exact hu.refused hwhy hbar
    obtain ⟨hret, hraise⟩ := Op.takes_spec hspec
    cases o with
    | returned => exact (hret w' h).elim
    | raised e => exact ⟨e, rfl, hraise e w' h⟩
  · intro hb
    have hspec : Runs (Op.gatherCpu ids).run w
        (fun _ => Past (opening geo ids w))
        (fun _ => Past (opening geo ids w)) := by
      refine (gatherCpu_enters hf hids fun out v hv => ?_).bind
        (fun _ _ hp => hp) fun _ _ hp => hp
      have hb' : ¬ Barred geo ids v.table := by
        unfold Barred at hb ⊢
        rw [setup_maxRows hv.setup, setup_rowsTotal hv.setup,
          setup_peers hv.setup]
        exact hb
      have hopen : opening geo ids v = opening geo ids w := by
        unfold opening
        rw [hv.tr, hv.called_tr, setup_peers hv.setup]
      rw [← hopen]
      exact gatherLocked_opens (hv.sound hg.sound) hb'
        (by rw [setup_rowBytes hv.setup]; exact hrb)
    exact Op.takes_keeps hspec h

/-- A gather on a usable table is refused exactly if it is barred; any
other comes to its exchange. -/
theorem gatherCpu_refused {o : Outcome} (hc : Constructed env cfg w₀)
    (hu : Used Outcome.Ordinary w₀ w) (hf : w.table.failed = none)
    (hids : ids ≠ []) (hrb : 0 < w.table.rowBytes)
    (h : (Op.gatherCpu ids).Takes w o w') :
    (Barred w₀.ranges ids w.table →
        ∃ e, o = .raised e ∧ Refused w₀.ranges ids w e w') ∧
      (¬ Barred w₀.ranges ids w.table →
        opening w₀.ranges ids w <+: w'.tr) := by
  obtain ⟨hg, -⟩ := hu.good hc
  exact hg.turns hf hids hrb h

/-- A call from a state ends in some way. -/
theorem Op.takes_some (op : Op) (w : World env) :
    ∃ o w', op.Takes w o w' := by
  cases h : op.run w with
  | ok _ w' => exact ⟨.returned, w', h⟩
  | error e w' => exact ⟨.raised e, w', h⟩

/-- Row 2 is no row of the pair; rows 1 and 0 are. -/
theorem gatherCpu_refused_pair :
    (∃ e w', (Op.gatherCpu [0, 2]).Takes paired (.raised e) w' ∧
        Refused paired.ranges [0, 2] paired e w') ∧
      ∃ o w', (Op.gatherCpu [1, 0]).Takes paired o w' ∧
        opening paired.ranges [1, 0] paired <+: w'.tr := by
  have hf : paired.table.failed = none := by decide +kernel
  have hrb : 0 < paired.table.rowBytes := by decide +kernel
  have hbar : Barred paired.ranges [0, 2] paired.table := by decide +kernel
  have hfree : ¬ Barred paired.ranges [1, 0] paired.table := by
    decide +kernel
  constructor
  · obtain ⟨o, w', htakes⟩ := Op.takes_some (.gatherCpu [0, 2]) paired
    obtain ⟨e, rfl, hr⟩ := (gatherCpu_refused paired_constructed .refl hf
      (by simp) hrb htakes).1 hbar
    exact ⟨e, w', htakes, hr⟩
  · obtain ⟨o, w', htakes⟩ := Op.takes_some (.gatherCpu [1, 0]) paired
    have hopens := (gatherCpu_refused paired_constructed .refl hf
      (by simp) hrb htakes).2 hfree
    exact ⟨o, w', htakes, hopens⟩

-- ============================================================== same rows

/-- The byte streams are on the wire. -/
theorem streams_wire (tr : Trace) (c : ConnId) :
    sentOn (wire tr) c = sentOn tr c ∧ gotOn (wire tr) c = gotOn tr c := by
  induction tr with
  | nil => exact ⟨rfl, rfl⟩
  | cons x tr ih =>
      obtain ⟨ihs, ihg⟩ := ih
      unfold sentOn gotOn wire at *
      cases hx : x.wired with
      | true =>
          rw [List.filter_cons_of_pos hx]
          simp only [List.flatMap_cons, ihs, ihg, and_self]
      | false =>
          have hnone : x.sentOn c = [] ∧ x.gotOn c = [] := by
            cases x <;> first | exact ⟨rfl, rfl⟩ | cases hx
          rw [List.filter_cons_of_neg (by simp [hx])]
          simp only [List.flatMap_cons, ihs, ihg, hnone, List.nil_append,
            and_self]

/-- What the servers of a fault-free network answer depends on nothing
else. -/
theorem Env.served_blind (servers : PeerId → Daemon.Server) :
    (Env.served servers).Blind where
  connect _ := rfl
  peername _ := rfl
  send _ := rfl
  recv tr := by
    funext c want
    obtain ⟨hs, hg⟩ := streams_wire tr c
    simp only [Env.served, hs, hg]
  select _ := rfl
  sleep _ := rfl
  now _ := rfl

/-- The rows of an answered peer are the last bytes read from it. -/
theorem Answered.last {s : Share} (h : Answered geo T k ids s w) :
    ∃ c, (w.heap s.1).sock = some c ∧
      (w.heap s.1).rows.take (s.2.length * (geo s.1).rowBytes)
        = (gotOn w.tr c).drop
          ((gotOn w.tr c).length - s.2.length * (geo s.1).rowBytes) := by
  have hlink := h.linked
  obtain ⟨c, l, req, ans, ho, hreq, -, hacc, hl, hrows⟩ := h.line
  obtain ⟨-, hlen⟩ := accepted_iff.mp hacc
  rw [bodyBytes, if_pos hreq.asks.op, hreq.asks.count] at hlen
  have hconn : (w.line geo s.1).conn = some c := by rw [hl]; exact ho.conn
  obtain ⟨-, hgot⟩ := (World.traced hlink.good).idle c hconn (by rw [hl])
  rw [hl] at hgot
  refine ⟨c, hlink.sock.trans hconn, ?_⟩
  rw [hrows, hgot, List.flatMap_append, List.flatMap_singleton,
    List.length_append, hlen, bodyOf]
  rw [← Nat.add_assoc, Nat.add_sub_cancel, ← List.drop_drop, List.drop_left]

/-- Gathers that ended akin return the same rows. -/
theorem Gathered.read_akin (h : Gathered geo T ids w w')
    (h' : Gathered geo T ids v v') (hs : Sound geo T w) (hwv : Akin w' v')
    (hset : v.table.setup = w.table.setup) {out out' : View}
    (hout : w.table.staging = some out.buf)
    (hout' : v.table.staging = some out'.buf) (hn : out.n = ids.length)
    (hn' : out'.n = ids.length) : out'.read v' = out.read w' := by
  have hpeers : v.table.peers = w.table.peers := setup_peers hset
  have hrow : ∀ p < ids.length,
      (v'.bufs out'.buf).row p = (w'.bufs out.buf).row p := by
    intro p hp
    obtain ⟨s, hmem, hps⟩ := h.cover p hp
    obtain ⟨m, hm, -, hrows⟩ := h.rows
    obtain ⟨m', hm', -, hrows'⟩ := h'.rows
    obtain rfl : out.buf = m := Option.some.inj (hout.symm.trans hm)
    obtain rfl : out'.buf = m' := Option.some.inj (hout'.symm.trans hm')
    have hmem' : s ∈ shares geo ids v.table.peers := hpeers.symm ▸ hmem
    rw [hrows s hmem p hps, hrows' s hmem' p hps, setup_rowBytes hset,
      ← hs.rowBytes s.1 (mem_shares.mp hmem).1]
    -- both buffers end in what was read from the same connection
    obtain ⟨c, hsock, hlast⟩ := (h.each s hmem).last
    obtain ⟨c', hsock', hlast'⟩ := (h'.each s hmem').last
    have hsame := hwv.field Peer.sock (fun _ _ => rfl) s.1
    obtain rfl : c = c' :=
      Option.some.inj (hsock.symm.trans (hsame.symm.trans hsock'))
    have hgot : gotOn v'.tr c = gotOn w'.tr c := by
      rw [← (streams_wire _ c).2, hwv.wired, (streams_wire _ c).2]
    have hj : s.2.idxOf p < s.2.length := List.idxOf_lt_length_iff.mpr hps
    have hin : s.2.idxOf p * (geo s.1).rowBytes + (geo s.1).rowBytes
        ≤ s.2.length * (geo s.1).rowBytes := by
      have := Nat.mul_le_mul_right (geo s.1).rowBytes (Nat.succ_le_of_lt hj)
      rwa [Nat.succ_mul] at this
    have hpiece : ∀ rows : List UInt8, s.rowAt (geo s.1).rowBytes rows p
        = s.rowAt (geo s.1).rowBytes
          (rows.take (s.2.length * (geo s.1).rowBytes)) p := by
      intro rows
      unfold Share.rowAt bytesAt
      rw [List.drop_take, List.take_take, Nat.min_eq_left]
      omega
    rw [hpiece, hlast', hgot, ← hlast, ← hpiece]
  unfold View.read
  rw [hn, hn']
  exact List.map_congr_left fun p hp => hrow p (List.mem_range.mp hp)

-- ================================================================ sequences

/-- What a gather gives its caller: rows, or an exception. -/
abbrev Result := Except Exn (List (List UInt8))

/-- The gather was not interrupted. -/
def Result.Ordinary : Result → Prop
  | .ok _ => True
  | .error e => e.isException = true

/-- One gather: its result, and the table it leaves. -/
def gathered (ids : List Int) (w : World env) : Result × World env :=
  match RemoteTable.gatherCpu ids w with
  | .ok out w' => (.ok (out.read w'), w')
  | .error e w' => (.error e, w')

/-- One thread's gathers, with their results. -/
def gatherAll : List (List Int) → World env →
    List (List Int × Result) × World env
  | [], w => ([], w)
  | ids :: rest, w =>
      let x := gathered ids w
      let y := gatherAll rest x.2
      ((ids, x.1) :: y.1, y.2)

/-- The first gather, and the rest. -/
theorem gatherAll_cons (ids : List Int) (rest : List (List Int))
    (w : World env) : gatherAll (ids :: rest) w
      = ((ids, (gathered ids w).1) :: (gatherAll rest (gathered ids w).2).1,
        (gatherAll rest (gathered ids w).2).2) := rfl

/-- Two tables on which gathers come out the same. -/
structure Even (geo : PeerId → Geometry) (T : ℚ) (w v : World env) : Prop
    where
  akin : Akin w v
  good : Good geo T w
  good' : Good geo T v

/-- A gather made on both. -/
theorem Even.gathered (hb : env.Blind) (h : Even geo T w v)
    (hord : (gathered ids w).1.Ordinary) :
    (gathered ids v).1 = (gathered ids w).1 ∧
      Even geo T (gathered ids w).2 (gathered ids v).2 ∧
      (gathered ids w).2.table.setup = w.table.setup := by
  have hpair := h.akin.gatherCpu hb ids h.good.sound.handle
    h.good'.sound.handle h.good.sound.sel
  have hspec : ∀ u : World env, Good geo T u →
      Runs (RemoteTable.gatherCpu ids) u _ _ := fun u hg =>
    (gatherCpu_spec hg.sound fun hf => (hg.synced hf).fit).and
      (gatherCpu_good hg)
  have hw := hspec w h.good
  have hv := hspec v h.good'
  unfold Client.gathered at hord ⊢
  unfold Runs at hw hv
  rcases pair_iff.mp hpair with ⟨out, w', out', v', hm, hm', hn, hakin⟩ |
    ⟨e, w', v', hm, hm', hakin⟩
  · rw [hm] at hw hord ⊢
    rw [hm'] at hv ⊢
    obtain ⟨⟨w₁, hin, hcase⟩, hleft, hgood⟩ := hw
    obtain ⟨⟨v₁, hin', hcase'⟩, -, hgood'⟩ := hv
    refine ⟨congrArg Except.ok ?_, ⟨hakin, hgood, hgood'⟩, hleft.setup⟩
    rcases hcase with ⟨rfl, rfl⟩ | ⟨hids, -, hgath⟩
    · unfold View.read
      rw [hin.rows, hin'.rows]
      rfl
    · rcases hcase' with ⟨hno, -⟩ | ⟨-, -, hgath'⟩
      · exact absurd hno hids
      · exact hgath.read_akin hgath' (hin.sound h.good.sound) hakin
          (by rw [hin'.setup, hin.setup, h.akin.setup]) hin.staging
          hin'.staging hin.rows hin'.rows
  · rw [hm] at hw hord ⊢
    rw [hm'] at hv ⊢
    exact ⟨rfl, ⟨hakin, hw.2.2 hord, hv.2.2 hord⟩, hw.2.1.setup⟩

/-- A mark of the client's own is not told apart. -/
theorem Akin.after (h : Akin w v) (htr : wire w'.tr = wire w.tr)
    (hheap : w'.heap = w.heap) (hset : w'.table.setup = w.table.setup)
    (hid : w'.table.reqId = w.table.reqId)
    (hf : w'.table.failed = w.table.failed)
    (hsel : w'.table.sel.length = w.table.sel.length) : Akin w' v where
  wired := by rw [htr, h.wired]
  heap i := by rw [hheap]; exact h.heap i
  setup := by rw [hset, h.setup]
  reqId := by rw [hid, h.reqId]
  failed := by rw [hf, h.failed]
  sel := by rw [hsel, h.sel]

/-- A gather that `gather_cpu` does not turn down. -/
def Admitted (geo : PeerId → Geometry) (t : RemoteTable) (ids : List Int) :
    Prop := ids = [] ∨ ¬ Barred geo ids t

instance (geo : PeerId → Geometry) (t : RemoteTable) (ids : List Int) :
    Decidable (Admitted geo t ids) := inferInstanceAs (Decidable (_ ∨ _))

/-- Who is admitted is a matter of the setup. -/
theorem Admitted.congr {t t' : RemoteTable} (h : t'.setup = t.setup) :
    Admitted geo t' ids ↔ Admitted geo t ids := by
  have hmax : t'.maxRows = t.maxRows := congrArg (·.maxRows) h
  have hrows : t'.rowsTotal = t.rowsTotal := congrArg (·.rowsTotal) h
  have hpeers : t'.peers = t.peers := congrArg (·.peers) h
  unfold Admitted Barred
  rw [hmax, hrows, hpeers]

/-- A gather made on one of them only, and turned down there. -/
theorem Even.turned (h : Even geo T w v) (hno : ¬ Admitted geo w.table ids) :
    Even geo T (Client.gathered ids w).2 v ∧
      (Client.gathered ids w).2.table.setup = w.table.setup := by
  unfold Admitted at hno
  rw [not_or, not_not] at hno
  obtain ⟨hids, hbar⟩ := hno
  have hgood : Runs (RemoteTable.gatherCpu ids) w _ _ := gatherCpu_good h.good
  have hout : Runs (RemoteTable.gatherCpu ids) w (fun _ _ => False)
      (fun e w' => e.isException = true ∧ Akin w' v) := by
    by_cases hf : w.table.failed = none
    case pos =>
      refine (gatherCpu_barred h.good.sound hf hids hbar).mono
        (fun _ _ hno => hno) fun e w' hx => ?_
      obtain ⟨hwhy, out, u, hin, hb⟩ := hx
      have hr := hin.refused hwhy hb
      refine ⟨hwhy.isException, h.akin.after ?_ hr.heap hr.setup hr.reqId
        hr.failed hr.sel⟩
      rw [hr.tr, wire_append]
      exact List.append_nil _
    case neg =>
      refine (gatherCpu_spec h.good.sound fun hn => absurd hn hf).mono ?_ ?_
      · intro out w' hx
        obtain ⟨u, -, ⟨hno, -⟩ | ⟨-, hno, -⟩⟩ := hx
        · exact hids hno
        · exact hf hno
      · intro e w' hx
        obtain ⟨-, out, ⟨u, he, why, hin, -, rfl, rfl⟩ | ⟨hno, -⟩⟩ := hx
        · refine ⟨rfl, h.akin.after ?_ hin.heap hin.setup hin.reqId
            hin.failed (by rw [← hin.sel]; rfl)⟩
          rw [World.push_tr, wire_mark rfl, hin.tr]
        · exact absurd hno hf
  have hboth := hout.and hgood
  unfold Runs at hboth
  unfold Client.gathered
  cases hm : RemoteTable.gatherCpu ids w with
  | ok out w' =>
      rw [hm] at hboth
      exact hboth.1.elim
  | error e w' =>
      rw [hm] at hboth
      obtain ⟨⟨hex, hakin⟩, hleft, hends⟩ := hboth
      exact ⟨⟨hakin, hends hex, h.good'⟩, hleft.setup⟩

/-- The gathers that are turned down can be left out. -/
theorem Even.kept (hb : env.Blind) {t : RemoteTable} :
    ∀ (reqs : List (List Int)) (w v : World env), Even geo T w v →
      w.table.setup = t.setup →
      (∀ x ∈ (gatherAll reqs w).1, x.2.Ordinary) →
      (gatherAll (reqs.filter fun ids => Admitted geo t ids) v).1
          = (gatherAll reqs w).1.filter (fun x => Admitted geo t x.1) ∧
        Akin (gatherAll reqs w).2
          (gatherAll (reqs.filter fun ids => Admitted geo t ids) v).2 := by
  intro reqs
  induction reqs with
  | nil => exact fun w v h _ _ => ⟨rfl, h.akin⟩
  | cons ids reqs ih =>
      intro w v h hset hord
      have hrest : ∀ x ∈ (gatherAll reqs (Client.gathered ids w).2).1,
          x.2.Ordinary := fun x hx => hord x (List.mem_cons_of_mem _ hx)
      by_cases hadm : Admitted geo t ids
      case pos =>
        have hfirst : (Client.gathered ids w).1.Ordinary :=
          hord (ids, _) List.mem_cons_self
        obtain ⟨hres, heven, hset'⟩ := h.gathered hb hfirst
        obtain ⟨hlog, hakin⟩ := ih _ _ heven (hset'.trans hset) hrest
        rw [List.filter_cons_of_pos (by simpa using hadm)]
        rw [gatherAll_cons, gatherAll_cons,
          List.filter_cons_of_pos (by simpa using hadm), hres, hlog]
        exact ⟨rfl, hakin⟩
      case neg =>
        have hadm' : ¬ Admitted geo w.table ids :=
          fun hx => hadm ((Admitted.congr hset).mp hx)
        obtain ⟨heven, hset'⟩ := h.turned hadm'
        obtain ⟨hlog, hakin⟩ := ih _ _ heven (hset'.trans hset) hrest
        rw [List.filter_cons_of_neg (by simpa using hadm)]
        rw [gatherAll_cons, List.filter_cons_of_neg (by simpa using hadm)]
        exact ⟨hlog, hakin⟩

/-- In a thread's gathers, whichever end they come to, those that are not
admitted can be left out: the others have the same results, with the same
traffic, and leave the same table. -/
theorem gatherAll_kept (hc : Constructed env cfg w₀)
    (hu : Used Outcome.Ordinary w₀ w) (hb : env.Blind)
    (reqs : List (List Int))
    (hord : ∀ x ∈ (gatherAll reqs w).1, x.2.Ordinary) :
    (gatherAll (reqs.filter fun ids => Admitted w₀.ranges w.table ids) w).1
        = (gatherAll reqs w).1.filter
          (fun x => Admitted w₀.ranges w.table x.1) ∧
      Akin (gatherAll reqs w).2
        (gatherAll (reqs.filter fun ids =>
          Admitted w₀.ranges w.table ids) w).2 := by
  obtain ⟨hg, -⟩ := hu.good hc
  exact Even.kept hb reqs w w ⟨.refl w, hg, hg⟩ rfl hord

instance : (r : Result) → Decidable r.Ordinary
  | .ok _ => .isTrue trivial
  | .error e => inferInstanceAs (Decidable (e.isException = true))

/-- Of three gathers of the pair, one is of a row it does not have. -/
theorem gatherAll_kept_pair :
    (gatherAll [[1, 0], [1]] paired).1
      = (gatherAll [[1, 0], [0, 2], [1]] paired).1.filter
        (fun x => Admitted paired.ranges paired.table x.1) ∧
    Akin (gatherAll [[1, 0], [0, 2], [1]] paired).2
      (gatherAll [[1, 0], [1]] paired).2 := by
  have hblind : pairEnv.Blind := Env.served_blind pairServer
  have hord : ∀ x ∈ (gatherAll [[1, 0], [0, 2], [1]] paired).1,
      x.2.Ordinary := by
    decide +kernel
  have hkept : [[1, 0], [0, 2], [1]].filter (fun ids =>
      Admitted paired.ranges paired.table ids) = [[1, 0], [1]] := by
    decide +kernel
  have h := gatherAll_kept paired_constructed .refl hblind _ hord
  rwa [hkept] at h

-- ============================================================== rejections

/-- A rejected gather has no effect. On a usable table a gather of some ids
is rejected with nothing sent, or it comes to its exchange, and which of
the two is told from its ids alone. And of any gathers of one thread those
that are rejected can be left out: nothing else changes. -/
theorem gathers_rejected (hc : Constructed env cfg w₀)
    (hu : Used Outcome.Ordinary w₀ w) (hf : w.table.failed = none)
    (hrb : 0 < w.table.rowBytes) :
    (∀ {ids : List Int} {o : Outcome} {w' : World env}, ids ≠ [] →
        (Op.gatherCpu ids).Takes w o w' →
        Barred w₀.ranges ids w.table ∧
            (∃ e, o = .raised e ∧ Refused w₀.ranges ids w e w') ∨
          ¬ Barred w₀.ranges ids w.table ∧
            opening w₀.ranges ids w <+: w'.tr) ∧
      (env.Blind → ∀ reqs : List (List Int),
        (∀ x ∈ (gatherAll reqs w).1, x.2.Ordinary) →
        (gatherAll (reqs.filter fun ids =>
            Admitted w₀.ranges w.table ids) w).1
            = (gatherAll reqs w).1.filter
              (fun x => Admitted w₀.ranges w.table x.1) ∧
          Akin (gatherAll reqs w).2 (gatherAll (reqs.filter fun ids =>
            Admitted w₀.ranges w.table ids) w).2) := by
  obtain ⟨hg, -⟩ := hu.good hc
  refine ⟨fun {ids o w'} hids h => ?_, fun hb reqs hord =>
    Even.kept hb reqs w w ⟨.refl w, hg, hg⟩ rfl hord⟩
  obtain ⟨hbarred, hfree⟩ := hg.turns hf hids hrb h
  by_cases hb : Barred w₀.ranges ids w.table
  · exact .inl ⟨hb, hbarred hb⟩
  · exact .inr ⟨hb, hfree hb⟩

/-- Five rows of one peer of the pair are too many. -/
theorem gathers_rejected_pair :
    (∃ e w', (Op.gatherCpu [1, 1, 1, 1, 1]).Takes paired (.raised e) w' ∧
        Refused paired.ranges [1, 1, 1, 1, 1] paired e w') ∧
      (∀ x ∈ (gatherAll [[1, 1, 1, 1, 1], [1, 0], [2]] paired).1,
        x.2.Ordinary) ∧
      (gatherAll [[1, 0]] paired).1
        = (gatherAll [[1, 1, 1, 1, 1], [1, 0], [2]] paired).1.filter
          (fun x => Admitted paired.ranges paired.table x.1) ∧
      Akin (gatherAll [[1, 1, 1, 1, 1], [1, 0], [2]] paired).2
        (gatherAll [[1, 0]] paired).2 := by
  have hf : paired.table.failed = none := by decide +kernel
  have hrb : 0 < paired.table.rowBytes := by decide +kernel
  have hbar : Barred paired.ranges [1, 1, 1, 1, 1] paired.table := by
    decide +kernel
  have hord : ∀ x ∈ (gatherAll [[1, 1, 1, 1, 1], [1, 0], [2]] paired).1,
      x.2.Ordinary := by
    decide +kernel
  have hkept : [[1, 1, 1, 1, 1], [1, 0], [2]].filter (fun ids =>
      Admitted paired.ranges paired.table ids) = [[1, 0]] := by
    decide +kernel
  obtain ⟨hone, hall⟩ := gathers_rejected paired_constructed .refl hf hrb
  have htwo := hall (Env.served_blind pairServer) _ hord
  rw [hkept] at htwo
  obtain ⟨o, w', htakes⟩ := Op.takes_some (.gatherCpu [1, 1, 1, 1, 1]) paired
  obtain ⟨-, e, rfl, hr⟩ | ⟨hno, -⟩ := hone (by simp) htakes
  · exact ⟨⟨e, w', htakes, hr⟩, hord, htwo⟩
  · exact absurd hbar hno

/-- Servers whose answer to a STAT says that their rows have no bytes. -/
def rowless : Env :=
  { pairEnv with
    recv := fun tr c want => .data <|
      (((splice (served (pairServer c.peer) (sentOn tr c)) (HEADER + 16)
        [0, 0, 0, 0])).drop (gotOn tr c).length).take want }

/-- A table of such rows. -/
def rowlessConfig : Config := { pairConfig with rowBytes := 0 }

/-- That table as it is constructed. -/
def rowlessTable : World rowless :=
  returned RemoteTable.init (initial rowless rowlessConfig)

/-- On it a gather of row 0, which is a row of the table, fails before
anything is sent. -/
theorem gathers_rejected_rowless :
    Constructed rowless rowlessConfig rowlessTable ∧
      rowlessTable.table.failed = none ∧
      ¬ Barred rowlessTable.ranges [0] rowlessTable.table ∧
      ∃ w', (Op.gatherCpu [0]).Takes rowlessTable (.raised .castZeros) w' ∧
        w'.tr = rowlessTable.tr ++ [.call, .raised .castZeros] ∧
        w'.table.failed ≠ none := by
  have hinit : Returns RemoteTable.init (initial rowless rowlessConfig)
      = true := by
    decide +kernel
  obtain ⟨_, hx⟩ := Returns.run hinit
  have hends : (Op.gatherCpu [0]).ends rowlessTable = .raised .castZeros := by
    decide +kernel
  have htakes := Op.takes_ends (.gatherCpu [0]) rowlessTable
  rw [hends] at htakes
  exact ⟨⟨by decide, hx⟩, by decide +kernel, by decide +kernel, _, htakes,
    by decide +kernel, by decide +kernel⟩

end PleRowServer.Client
