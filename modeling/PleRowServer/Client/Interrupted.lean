/-
Gathers after an interrupt.

An interrupt is no Exception: it leaves a gather with whatever its
exchange had under way and does not mark the table. What a later gather
needs of such a table is `Fit`: nothing is outstanding on the connections
of the peers it asks, and no peer it has to reconnect comes before one
whose `answered` still stands from an earlier gather. As long as every
call finds the table so, however each one ends, the rows of those that
return are right, and nothing but what was answered to them is shown
(`gatherCpu_untainted`). A caller cannot see any of that, but it knows
which calls were interrupted and whom they asked: as long as nobody asks
those peers again, every other peer stays settled and rows are right
(`gatherCpu_shunning`). `gatherCpu_stale` is what may happen to a caller
that does ask them.
-/
import PleRowServer.Client.Live
import PleRowServer.Client.Upkeep

namespace PleRowServer.Client

open Base Wire
open RemoteTable (Config initial)

variable {env : Env} {geo : PeerId → Geometry} {w w₀ w' : World env} {T : ℚ}
  {cfg : Config} {ids : List Int} {i : PeerId} {e : Exn}
  {table : Nat → List UInt8}

-- ================================================================== asked

/-- The ids of a contiguous read. -/
def rangeIds (start count : Int) : List Int :=
  (List.range count.toNat).map fun j : Nat => start + j

/-- The peers a call speaks to: a read is gathers of its rows. -/
def Op.asks (geo : PeerId → Geometry) (w : World env) : Op → List PeerId
  | .gatherCpu ids | .gather ids _ =>
      (shares geo ids w.table.peers).map fun s => s.1
  | .readRows start count _ =>
      (shares geo (rangeIds start count) w.table.peers).map fun s => s.1
  | .ping | .stat => w.table.peers
  | .close => []

/-- The two ways the peers a gather asks are written. -/
theorem mem_asks : i ∈ (Op.gatherCpu ids).asks geo w ↔
    i ∈ peersOf (shares geo ids w.table.peers) :=
  List.mem_map

/-- Only peers of the table are asked. -/
theorem asks_peers {op : Op} (h : i ∈ op.asks geo w) :
    i ∈ w.table.peers := by
  cases op with
  | gatherCpu ids =>
      obtain ⟨s, hs, rfl⟩ := List.mem_map.mp h
      exact (mem_shares.mp hs).1
  | gather ids out =>
      obtain ⟨s, hs, rfl⟩ := List.mem_map.mp h
      exact (mem_shares.mp hs).1
  | readRows start count chunkRows =>
      obtain ⟨s, hs, rfl⟩ := List.mem_map.mp h
      exact (mem_shares.mp hs).1
  | ping => exact h
  | stat => exact h
  | close => cases h

/-- More ids ask more peers. -/
theorem asks_mono {ids' : List Int} (h : ids ⊆ ids')
    (hi : i ∈ (Op.gatherCpu ids).asks geo w) :
    i ∈ (Op.gatherCpu ids').asks geo w := by
  obtain ⟨s, hs, rfl⟩ := List.mem_map.mp hi
  obtain ⟨hmem, hown, hne⟩ := mem_shares.mp hs
  -- one of the ids is in the peer's range
  obtain ⟨p, hp⟩ := List.exists_mem_of_ne_nil _ hne
  rw [hown, Geometry.mem_owned] at hp
  obtain ⟨hlt, hlo, hhi⟩ := hp
  have hid : ids.getD p 0 ∈ ids' := by
    rw [List.getD_eq_getElem ids 0 hlt]
    exact h (List.getElem_mem hlt)
  obtain ⟨q, hq, hget⟩ := List.mem_iff_getElem.mp hid
  have hq' : q ∈ (geo s.1).owned ids' := by
    rw [Geometry.mem_owned, List.getD_eq_getElem ids' 0 hq, hget]
    exact ⟨hq, hlo, hhi⟩
  refine List.mem_map.mpr ⟨⟨s.1, (geo s.1).owned ids'⟩, ?_, rfl⟩
  exact mem_shares.mpr ⟨hmem, rfl, List.ne_nil_of_mem hq'⟩

/-- A chunk of a read asks none that the read does not. -/
theorem asks_chunk {start count chunkRows : Int} {at_ n : Nat}
    (hle : at_ + n ≤ count.toNat)
    (hi : i ∈ (Op.gatherCpu ((List.range n).map fun j : Nat =>
      start + at_ + j)).asks geo w) :
    i ∈ (Op.readRows start count chunkRows).asks geo w := by
  have hsub : ((List.range n).map fun j : Nat => start + at_ + j)
      ⊆ rangeIds start count := by
    intro id hid
    obtain ⟨j, hj, rfl⟩ := List.mem_map.mp hid
    have hj := List.mem_range.mp hj
    refine List.mem_map.mpr ⟨at_ + j, List.mem_range.mpr (by omega), ?_⟩
    push_cast
    omega
  exact asks_mono hsub hi

/-- A table whose asked peers are settled suits a gather. -/
theorem fit_of_settled
    (h : ∀ s ∈ shares geo ids w.table.peers, Settled geo s.1 w) :
    Fit geo ids w := by
  refine ⟨fun s hs => (h s hs).idle, ?_⟩
  refine List.Pairwise.imp_of_mem ?_
    (List.pairwise_of_forall fun _ _ => trivial)
  intro s s' hs _ _ hn
  exact absurd hn (h s hs).sock

/-- An exception leaves what the call left. -/
theorem Left.raised (h : Left geo T w w') (e : Exn) (he) :
    Left geo T w (w'.push (.raised e) he) := by
  have hmute : ∀ i, (w'.push (.raised e) he).line geo i = w'.line geo i :=
    fun i => line_raise e he i
  refine ⟨h.sound.keep rfl rfl h.sound.handle (fun _ => rfl)
    (fun i => (h.sound.linked i).congr rfl (hmute i)) h.sound.roomy
    h.sound.deadline, h.setup, fun i hi => ?_⟩
  rw [hmute]
  exact h.others i hi

/-- `gather_cpu` leaves a sound table, whichever way it ends. -/
theorem gatherCpu_left (hs : Sound geo T w)
    (hfit : w.table.failed = none → Fit geo ids w) :
    Runs (RemoteTable.gatherCpu ids) w (fun _ w' => Left geo T w w')
      (fun _ w' => Left geo T w w') := by
  refine (gatherCpu_spec hs hfit).mono ?_ ?_
  · intro out w' h
    obtain ⟨v, hv, ⟨-, rfl⟩ | ⟨-, -, hg⟩⟩ := h
    · exact hv.left hs
    · obtain ⟨evs, hc, -⟩ := hg.called
      have hleft : Left geo T v w' := hc.left hg.sound
      exact (hv.left hs).trans hleft
  · intro e w' h
    obtain ⟨-, out, ⟨v, he, why, hv, -, rfl, rfl⟩ | ⟨-, v, hv, hcase⟩⟩ := h
    · exact (hv.left hs).raised _ he
    · have hab : Abandoned geo T ids v e w' :=
        hcase.elim (·.toAbandoned) (·.toAbandoned)
      obtain ⟨evs, hc, -⟩ := hab.called
      have hleft : Left geo T v w' := hc.left hab.sound
      exact (hv.left hs).trans hleft

-- ================================================================== doubt

/-- The peers in doubt after a call that asked `asked`, of those before
it: an interrupt adds to them. -/
def Outcome.doubts (asked D : List PeerId) : Outcome → List PeerId
  | .returned => D
  | .raised e => if e.isException then D else asked ++ D

/-- An Exception puts nobody in doubt. -/
theorem doubts_exception {asked D : List PeerId}
    (h : e.isException = true) : (Outcome.raised e).doubts asked D = D :=
  if_pos h

/-- An interrupt puts in doubt whoever was asked. -/
theorem doubts_interrupt {asked D : List PeerId}
    (h : ¬ e.isException = true) :
    (Outcome.raised e).doubts asked D = asked ++ D := if_neg h

/-- Every peer but those is settled, unless the table is marked. -/
def Spared (geo : PeerId → Geometry) (D : List PeerId) (w : World env) :
    Prop :=
  w.table.failed = none → ∀ i ∈ w.table.peers, i ∉ D → Settled geo i w

variable {D : List PeerId}

/-- Of a marked table nothing is said. -/
theorem Spared.marked (hf : w.table.failed ≠ none) : Spared geo D w :=
  fun h => absurd h hf

/-- On a good one everybody is settled. -/
theorem Good.spared (h : Good geo T w) : Spared geo D w :=
  fun hf i hi _ => h.synced hf i hi

/-- Doubts are only ever added. -/
theorem Spared.doubts (h : Spared geo D w) (o : Outcome)
    (asked : List PeerId) : Spared geo (o.doubts asked D) w := by
  intro hf i hi hD
  apply h hf i hi
  intro hmem
  apply hD
  cases o with
  | returned => exact hmem
  | raised e =>
      by_cases hx : e.isException = true
      · rw [doubts_exception hx]
        exact hmem
      · rw [doubts_interrupt hx]
        exact List.mem_append_right _ hmem

/-- More peers asked are more in doubt. -/
theorem Spared.widen {asked asked' : List PeerId} {e : Exn}
    (h : Spared geo ((Outcome.raised e).doubts asked D) w)
    (hsub : ∀ i ∈ asked, i ∈ asked') :
    Spared geo ((Outcome.raised e).doubts asked' D) w := by
  by_cases hx : e.isException = true
  · rw [doubts_exception hx] at h ⊢
    exact h
  · rw [doubts_interrupt hx] at h ⊢
    intro hf i hi hD
    rw [List.mem_append, not_or] at hD
    refine h hf i hi ?_
    rw [List.mem_append, not_or]
    exact ⟨fun hmem => hD.1 (hsub i hmem), hD.2⟩

/-- What keeps the peers that are not in doubt settled. -/
theorem Spared.keep {D' : List PeerId} (h : Spared geo D w)
    (hp : w'.table.peers = w.table.peers)
    (hf : w'.table.failed = w.table.failed)
    (hset : ∀ i ∈ w.table.peers, i ∉ D' → (i ∉ D → Settled geo i w) →
      Settled geo i w') : Spared geo D' w' := by
  intro hf' i hi hD'
  rw [hf] at hf'
  rw [hp] at hi
  exact hset i hi hD' (h hf' i hi)

/-- Peers that are not in doubt suit a gather. -/
theorem Spared.fit (h : Spared geo D w)
    (hask : ∀ i ∈ (Op.gatherCpu ids).asks geo w, i ∉ D)
    (hf : w.table.failed = none) : Fit geo ids w := by
  apply fit_of_settled
  intro s hs
  exact h hf s.1 (mem_shares.mp hs).1
    (hask s.1 (List.mem_map.mpr ⟨s, hs, rfl⟩))

/-- A gather that raised has left the peers it did not ask as they were. -/
theorem Abandoned.settled (h : Abandoned geo T ids w e w')
    (hs : Settled geo i w)
    (hi : i ∉ peersOf (shares geo ids w.table.peers)) :
    Settled geo i w' := by
  obtain ⟨evs, hc, -⟩ := h.called
  exact hc.settled hi hs

/-- Getting to the lock touches nobody. -/
theorem Entered.spared {out : View} {n : Nat} (h : Entered w out n w')
    (hs : Spared geo D w) : Spared geo D w' := by
  refine hs.keep (setup_peers h.setup) h.failed fun i _ hD hset => ?_
  exact (hset hD).congr (by rw [h.heap]) (by rw [h.line])

/-- Getting to the lock changes nothing of who is asked. -/
theorem Entered.asks {out : View} {n : Nat} (h : Entered w out n w') :
    (Op.gatherCpu ids).asks geo w' = (Op.gatherCpu ids).asks geo w := by
  unfold Op.asks
  rw [setup_peers h.setup]

/-- A gather that returned settled the peers it asked and touched no
other. -/
theorem Gathered.spared (h : Gathered geo T ids w w')
    (hs : Spared geo D w) : Spared geo D w' := by
  obtain ⟨evs, hc, -, -⟩ := h.called
  refine hs.keep (setup_peers hc.setup) h.failed fun i _ hD hset => ?_
  by_cases hi : i ∈ peersOf (shares geo ids w.table.peers)
  · obtain ⟨s, hmem, rfl⟩ := hi
    exact (h.each s hmem).settled
  · exact hc.settled hi (hset hD)

/-- One that was declined left every peer as it was. -/
theorem Declined.spared (h : Declined geo T ids w e w')
    (hs : Spared geo D w) : Spared geo D w' := by
  obtain ⟨evs, hc, -, -⟩ := h.called
  refine hs.keep (setup_peers hc.setup) h.failed fun i _ hD hset => ?_
  refine (hset hD).called.congr (by rw [h.heap]; rfl) ?_
  have htr : w'.tr = (w.called.push (.raised e)
      (env.produces_raised w.called.tr e)).tr := by
    rw [h.tr]
    simp [World.called]
  rw [line_of_tr htr, line_raise]

/-- One that failed marked the table, or was interrupted and touched no
peer but those it asked. -/
theorem Wrecked.spared (h : Wrecked geo T ids w e w')
    (hs : Spared geo D w) :
    Spared geo ((Outcome.raised e).doubts
      ((Op.gatherCpu ids).asks geo w) D) w' := by
  have hfail := h.failed
  by_cases hx : e.isException = true
  · rw [if_pos hx] at hfail
    apply Spared.marked
    rw [hfail]
    simp
  · rw [if_neg hx] at hfail
    rw [doubts_interrupt hx]
    obtain ⟨evs, hc, -⟩ := h.called
    refine hs.keep (setup_peers hc.setup) hfail fun i _ hD hset => ?_
    rw [List.mem_append, not_or, mem_asks] at hD
    exact h.toAbandoned.settled (hset hD.2) hD.1

/-- What a gather leaves of the peers that were not in doubt. -/
theorem gatherCpu_spares (hs : Sound geo T w) (h : Spared geo D w)
    (hask : ∀ i ∈ (Op.gatherCpu ids).asks geo w, i ∉ D) :
    Runs (RemoteTable.gatherCpu ids) w (fun _ w' => Spared geo D w')
      (fun e w' => Spared geo ((Outcome.raised e).doubts
        ((Op.gatherCpu ids).asks geo w) D) w') := by
  refine (gatherCpu_spec hs fun hf => h.fit hask hf).mono ?_ ?_
  · intro out w' hw
    obtain ⟨v, hv, ⟨-, rfl⟩ | ⟨-, -, hg⟩⟩ := hw
    · exact hv.spared h
    · exact hg.spared (hv.spared h)
  · intro e w' hw
    obtain ⟨-, out, ⟨v, he, why, hv, hf, rfl, rfl⟩ | ⟨-, v, hv, hd | hx⟩⟩ :=
      hw
    · apply Spared.marked
      show v.table.failed ≠ none
      rw [hv.failed, hf]
      simp
    · exact (hd.spared (hv.spared h)).doubts _ _
    · have hD := hx.spared (hv.spared h)
      rw [hv.asks] at hD
      exact hD

/-- The error of ids that are no int64s asks nobody. -/
theorem Spared.raised (h : Spared geo D w) (e : Exn) (he) :
    Spared geo D (w.push (.raised e) he) :=
  h.keep rfl rfl fun i _ hD hset => (hset hD).congr rfl (by rw [line_raise])

/-- The chunks of a read, one gather after the other. -/
theorem readLoop_spares {start count chunkRows : Int} {step : Nat} :
    ∀ (rounds : Nat) (buf : List (List UInt8)) (w : World env),
      Sound geo T w → Spared geo D w →
      (∀ i ∈ (Op.readRows start count chunkRows).asks geo w, i ∉ D) →
      Runs (RemoteTable.readLoop start count.toNat step rounds buf) w
        (fun _ w' => Left geo T w w' ∧ Spared geo D w')
        (fun e w' => Left geo T w w' ∧ Spared geo ((Outcome.raised e).doubts
          ((Op.readRows start count chunkRows).asks geo w) D) w') := by
  intro rounds
  induction rounds with
  | zero =>
      intro buf w hs h hask
      unfold RemoteTable.readLoop
      split
      · exact ⟨.refl hs, h⟩
      · rw [runs_raise]
        exact ⟨(Left.refl hs).raised _ _, (h.raised _ _).doubts _ _⟩
  | succ rounds ih =>
      intro buf w hs h hask
      unfold RemoteTable.readLoop
      split
      case isTrue => exact ⟨.refl hs, h⟩
      case isFalse hmore =>
        simp only [runs_bind]
        refine runs_arange (fun _ => ?_) fun _ =>
          ⟨(Left.refl hs).raised _ _, (h.raised _ _).doubts _ _⟩
        set ids := (List.range (min step (count.toNat - buf.length))).map
          fun j : Nat => start + buf.length + j with hids
        have hsub : ∀ i ∈ (Op.gatherCpu ids).asks geo w,
            i ∈ (Op.readRows start count chunkRows).asks geo w :=
          fun i hi => asks_chunk (by omega) hi
        have hask' : ∀ i ∈ (Op.gatherCpu ids).asks geo w, i ∉ D :=
          fun i hi => hask i (hsub i hi)
        refine ((gatherCpu_spares hs h hask').and
          (gatherCpu_left hs fun hf => h.fit hask' hf)).mono ?_ ?_
        · intro rows v hv
          obtain ⟨hspared, hleft⟩ := hv
          simp only [runs_get]
          have hpeers : (Op.readRows start count chunkRows).asks geo v
              = (Op.readRows start count chunkRows).asks geo w := by
            unfold Op.asks
            rw [setup_peers hleft.setup]
          have hnext := ih (buf ++ rows.read v) v hleft.sound hspared
            (by rwa [hpeers])
          rw [hpeers] at hnext
          exact hnext.mono (fun _ u hu => ⟨hleft.trans hu.1, hu.2⟩)
            fun e u hu => ⟨hleft.trans hu.1, hu.2⟩
        · intro e v hv
          exact ⟨hv.2, hv.1.widen hsub⟩

/-- `read_rows_contiguous`. -/
theorem readRows_spares {start count chunkRows : Int} (hs : Sound geo T w)
    (h : Spared geo D w)
    (hask : ∀ i ∈ (Op.readRows start count chunkRows).asks geo w, i ∉ D) :
    Runs (RemoteTable.readRowsContiguous start count chunkRows) w
      (fun _ w' => Left geo T w w' ∧ Spared geo D w')
      (fun e w' => Left geo T w w' ∧ Spared geo ((Outcome.raised e).doubts
        ((Op.readRows start count chunkRows).asks geo w) D) w') := by
  unfold RemoteTable.readRowsContiguous
  split
  · exact ⟨.refl hs, h⟩
  split
  · rw [runs_raise]
    exact ⟨(Left.refl hs).raised _ _, (h.raised _ _).doubts _ _⟩
  · simp only [runs_bind, runs_self]
    exact readLoop_spares _ [] w hs h hask

-- ==================================================================== care

/-- The table is as the call needs it: only the peers it asks matter. -/
def Op.Suits (geo : PeerId → Geometry) (w : World env) : Op → Prop
  | .gatherCpu ids | .gather ids _ => Fit geo ids w
  | .close => True
  | op => ∀ i ∈ op.asks geo w, Settled geo i w

/-- The states reached from `w₀` by calls that found the table so, or
marked, whichever way they ended. -/
inductive Careful (geo : PeerId → Geometry) (w₀ : World env) :
    World env → Prop
  | refl : Careful geo w₀ w₀
  | call {w w' : World env} {op : Op} {o : Outcome} : Careful geo w₀ w →
      (w.table.failed = none → op.Suits geo w) → op.Takes w o w' →
      Careful geo w₀ w'

/-- Every call that the table suits leaves it sound. -/
theorem Op.left (op : Op) (hs : Sound geo T w)
    (hsuits : w.table.failed = none → op.Suits geo w) :
    Runs op.run w (fun _ w' => Left geo T w w')
      (fun _ w' => Left geo T w w') := by
  have hgood : (w.table.failed = none → Synced geo w) →
      Runs op.run w (fun _ w' => Left geo T w w')
        (fun _ w' => Left geo T w w') := fun hsync =>
    (op.good ⟨hs, hsync⟩).mono (fun _ _ h => h.1) fun _ _ h => h.1
  cases op with
  | gatherCpu ids =>
      exact (gatherCpu_left hs hsuits).bind (fun _ _ h => h) fun _ _ h => h
  | gather ids out =>
      exact gather_after (gatherCpu_left hs hsuits) fun v hv => hv.raised _ _
  | readRows start count chunkRows =>
      -- in doubt are the peers it does not ask
      have hD : Spared geo (w.table.peers.filter fun i =>
          i ∉ (Op.readRows start count chunkRows).asks geo w) w := by
        intro hf i hi hD
        refine hsuits hf i ?_
        by_contra hno
        exact hD (List.mem_filter.mpr ⟨hi, by simpa using hno⟩)
      refine Runs.bind ((readRows_spares hs hD ?_).mono
        (fun _ _ h => h.1) fun _ _ h => h.1) (fun _ _ h => h) fun _ _ h => h
      intro i hi hmem
      have hno := (List.mem_filter.mp hmem).2
      exact absurd hi (by simpa using hno)
  | close =>
      exact (closeAll_spec hs).mono (fun _ _ h => h.1) fun _ _ h => h
  | _ => exact hgood hsuits

/-- However they end, such calls leave the table sound. -/
theorem Careful.left (hc : Constructed env cfg w₀)
    (h : Careful w₀.ranges w₀ w) : Left w₀.ranges cfg.timeout w₀ w := by
  induction h with
  | refl =>
      obtain ⟨hg, -⟩ := hc.good
      exact .refl hg.sound
  | @call v v' op o _ hsuits hop ih =>
      have hstep := op.left ih.sound hsuits
      exact ih.trans (Op.takes_keeps hstep hop)

/-- Whatever was interrupted before, a gather that suits the table and
returns shows the table's rows, and leaves the peers it asked settled. -/
theorem gatherCpu_careful {d : Deployment table cfg.peers.length}
    (hc : Constructed env cfg w₀) (hd : d.Behind env)
    (hu : Careful w₀.ranges w₀ w)
    (hfit : w.table.failed = none → Fit w₀.ranges ids w) :
    Runs (RemoteTable.gatherCpu ids) w
      (fun out w' => out.read w' = ids.map (fun id => table id.toNat) ∧
        (∀ id ∈ ids, 0 ≤ id ∧ id < cfg.rowsTotal) ∧
        ∀ s ∈ shares w₀.ranges ids w.table.peers, Settled w₀.ranges s.1 w')
      (fun _ w' => Left w₀.ranges cfg.timeout w w') := by
  have hleft := hu.left hc
  refine ((gatherCpu_spec hleft.sound hfit).and
    (gatherCpu_left hleft.sound hfit)).mono ?_ fun _ _ h => h.2
  intro out w' h
  obtain ⟨⟨v, hv, ⟨rfl, rfl⟩ | ⟨-, -, hg⟩⟩, -⟩ := h
  · refine ⟨?_, by simp, fun s hs => ?_⟩
    · unfold View.read
      rw [hv.rows]
      rfl
    · obtain ⟨-, hown, hne⟩ := mem_shares.mp hs
      exact absurd hown hne
  · obtain ⟨hread, hrange⟩ := hg.read hc hd (hv.sound hleft.sound)
      (hv.setup.trans hleft.setup) hv.staging hv.rows
    refine ⟨hread, hrange, fun s hs => ?_⟩
    rw [← setup_peers hv.setup] at hs
    exact (hg.each s hs).settled

/-- Nor does it show anything else: the rows of each peer are those of one
answer, which is all that was read on its connection since the GATHER that
this call sent there. -/
theorem gatherCpu_untainted {d : Deployment table cfg.peers.length}
    (hc : Constructed env cfg w₀) (hd : d.Behind env)
    (hu : Careful w₀.ranges w₀ w)
    (hfit : w.table.failed = none → Fit w₀.ranges ids w) :
    Runs (RemoteTable.gatherCpu ids) w
      (fun out w' => out.read w' = ids.map (fun id => table id.toNat) ∧
        (∀ id ∈ ids, 0 ≤ id ∧ id < cfg.rowsTotal) ∧
        ∃ evs, w'.tr = w.tr ++ evs ∧
          Shown w₀.ranges w.table.rowBytes ids w.tr evs out.buf w')
      (fun _ _ => True) := by
  have hs : Sound w₀.ranges cfg.timeout w := (hu.left hc).sound
  refine ((gatherCpu_careful hc hd hu hfit).and
    (gatherCpu_spec hs hfit)).mono ?_ fun _ _ _ => trivial
  intro out w' h
  obtain ⟨⟨hread, hrange, -⟩, v, hv, ⟨rfl, rfl⟩ | ⟨-, hf, hgath⟩⟩ := h
  · refine ⟨hread, hrange, [], by rw [hv.tr, List.append_nil], ?_⟩
    intro i hi hne
    exact absurd rfl hne
  · obtain ⟨-, evs, htr, hshown⟩ := hgath.shown hs hv (hfit hf).idle
    exact ⟨hread, hrange, evs, htr, hshown⟩


-- ================================================================== shun

/-- The states reached from `w₀` by calls none of which asks a peer that
an interrupted one before it asked; `D` are the peers those asked. -/
inductive Shunning (geo : PeerId → Geometry) (w₀ : World env) :
    List PeerId → World env → Prop
  | refl : Shunning geo w₀ [] w₀
  | call {D : List PeerId} {w w' : World env} {op : Op} {o : Outcome} :
      Shunning geo w₀ D w → (∀ i ∈ op.asks geo w, i ∉ D) →
      op.Takes w o w' →
      Shunning geo w₀ (o.doubts (op.asks geo w) D) w'

/-- Peers that are not in doubt suit any call that asks no others. -/
theorem Spared.suits {op : Op} (h : Spared geo D w)
    (hask : ∀ i ∈ op.asks geo w, i ∉ D) (hf : w.table.failed = none) :
    op.Suits geo w := by
  cases op with
  | gatherCpu ids => exact h.fit hask hf
  | gather ids out => exact h.fit hask hf
  | close => trivial
  | _ => exact fun i hi => h hf i (asks_peers hi) (hask i hi)

/-- What any call leaves of those peers that asks no others. -/
theorem Op.spares (op : Op) (hs : Sound geo T w) (h : Spared geo D w)
    (hask : ∀ i ∈ op.asks geo w, i ∉ D) :
    Runs op.run w (fun _ w' => Spared geo D w')
      (fun e w' => Spared geo
        ((Outcome.raised e).doubts (op.asks geo w) D) w') := by
  -- a call that asks every peer finds them all settled
  have hall : op.asks geo w = w.table.peers →
      Runs op.run w (fun _ w' => Spared geo D w')
        (fun e w' => Spared geo
          ((Outcome.raised e).doubts (op.asks geo w) D) w') := by
    intro heq
    have hg : Good geo T w :=
      ⟨hs, fun hf i hi => h hf i hi (hask i (heq ▸ hi))⟩
    refine (op.good hg).mono (fun _ _ hw => hw.2.spared) ?_
    intro e w' hw
    by_cases hx : e.isException = true
    · exact (hw.2 hx).spared.doubts _ _
    · rw [doubts_interrupt hx]
      intro _ i hi hD
      rw [setup_peers hw.1.setup, ← heq] at hi
      exact absurd (List.mem_append_left _ hi) hD
  cases op with
  | gatherCpu ids =>
      exact (gatherCpu_spares hs h hask).bind (fun _ _ hv => hv)
        fun _ _ hv => hv
  | gather ids out =>
      refine gather_after (gatherCpu_spares hs h hask) fun v hv => ?_
      apply Spared.doubts
      refine hv.keep rfl rfl fun i _ hD hset => ?_
      exact (hset hD).congr rfl (by rw [line_raise])
  | readRows start count chunkRows =>
      exact ((readRows_spares hs h hask).mono (fun _ _ hv => hv.2)
        fun _ _ hv => hv.2).bind (fun _ _ hv => hv) fun _ _ hv => hv
  | close =>
      refine (closeAll_spec hs).mono ?_ fun _ _ h => h
      intro _ w' hw
      exact .marked hw.2
  | _ => exact hall rfl

/-- However such calls end, each of them found a table that suited it, and
the peers that are not in doubt are settled. -/
theorem Shunning.careful (hc : Constructed env cfg w₀)
    (h : Shunning w₀.ranges w₀ D w) :
    Careful w₀.ranges w₀ w ∧ Spared w₀.ranges D w := by
  induction h with
  | refl =>
      obtain ⟨hg, -⟩ := hc.good
      exact ⟨.refl, hg.spared⟩
  | @call D v v' op o _ hask hop ih =>
      obtain ⟨hcare, hD⟩ := ih
      refine ⟨hcare.call (hD.suits hask) hop, ?_⟩
      have hs : Sound w₀.ranges cfg.timeout v := (hcare.left hc).sound
      obtain ⟨hret, hraise⟩ := Op.takes_spec (op.spares hs hD hask)
      cases o with
      | returned => exact hret v' hop
      | raised e => exact hraise e v' hop

/-- Over a deployment, whatever was interrupted before and wherever: a
gather whose peers no interrupted call asked, and that returns, shows the
table's rows at its ids. However it ends, the peers that are not in doubt
then are settled, unless the table is marked. -/
theorem gatherCpu_shunning {d : Deployment table cfg.peers.length}
    (hc : Constructed env cfg w₀) (hd : d.Behind env)
    (hu : Shunning w₀.ranges w₀ D w)
    (hask : ∀ i ∈ (Op.gatherCpu ids).asks w₀.ranges w, i ∉ D) :
    Runs (RemoteTable.gatherCpu ids) w
      (fun out w' => out.read w' = ids.map (fun id => table id.toNat) ∧
        (∀ id ∈ ids, 0 ≤ id ∧ id < cfg.rowsTotal) ∧
        Spared w₀.ranges D w')
      (fun e w' => Spared w₀.ranges ((Outcome.raised e).doubts
        ((Op.gatherCpu ids).asks w₀.ranges w) D) w') := by
  obtain ⟨hcare, hD⟩ := hu.careful hc
  have hs : Sound w₀.ranges cfg.timeout w := (hcare.left hc).sound
  refine ((gatherCpu_careful hc hd hcare fun hf => hD.fit hask hf).and
    (gatherCpu_spares hs hD hask)).mono ?_ fun _ _ h => h.2
  intro out w' h
  obtain ⟨⟨hread, hrange, -⟩, hD'⟩ := h
  exact ⟨hread, hrange, hD'⟩

-- ================================================================ a pair

/-- Connections attempted to the first peer. -/
def tries (tr : Trace) : Nat :=
  tr.countP fun e =>
    match e with
    | .connect c _ _ _ => c.peer == 0
    | _ => false

/-- The pair of servers behind a network that resets the first peer's
second request, interrupts its reconnect and resets the STAT of the next. -/
def stranding : Env :=
  { pairEnv with
    connect := fun tr c _ _ =>
      if c.peer = 0 ∧ tries tr = 1 then .interrupt else .ok
    send := fun tr c _ =>
      if c.peer = 0 ∧ (tries tr = 1 ∧ (sentOn tr c).length = 36 ∨
          tries tr = 3) then .fault "reset" 0
      else .all }

/-- The servers are honest: only the network fails. -/
theorem stranding_behind : pairDeployment.Behind stranding := by
  intro tr h
  have hfeeds : stranding.Feeds pairServer := fun _ _ _ => rfl
  exact (hfeeds.supplied pairDeployment.ranged h).honest

/-- A table over the stranding environment, constructed. -/
def strandable : World stranding :=
  returned RemoteTable.init (initial stranding pairConfig)

/-- That table after a gather from both peers. -/
def unstranded : World stranding :=
  returned (Op.gatherCpu [0, 1]).run strandable

/-- That table after one more gather from the first peer, interrupted. -/
def stranded : World stranding :=
  returned (Op.gatherCpu [0]).run unstranded

/-- A read of the other's row then. -/
def reread : World stranding :=
  returned (Op.readRows 1 1 1).run stranded

/-- How those calls, and a gather from the other peer after them, go. -/
theorem stranded_runs :
    Returns RemoteTable.init (initial stranding pairConfig) = true ∧
      (Op.gatherCpu [0, 1]).ends strandable = .returned ∧
      (Op.gatherCpu [0]).asks strandable.ranges unstranded = [0] ∧
      (Op.gatherCpu [0]).ends unstranded = .raised .interrupted ∧
      (Op.readRows 1 1 1).asks strandable.ranges stranded = [1] ∧
      (Op.readRows 1 1 1).ends stranded = .returned ∧
      (Op.gatherCpu [1, 1]).asks strandable.ranges reread = [1] ∧
      Returns (RemoteTable.gatherCpu [1, 1]) reread = true := by
  decide +kernel

/-- Construction returns. -/
theorem strandable_constructed :
    Constructed stranding pairConfig strandable := by
  obtain ⟨hret, -⟩ := stranded_runs
  obtain ⟨_, hx⟩ := Returns.run hret
  exact ⟨by decide, hx⟩

/-- In the interrupted table only the first peer is in doubt. -/
theorem stranded_shunning :
    Shunning strandable.ranges strandable [0] stranded := by
  obtain ⟨-, hboth, hasked, hint, -⟩ := stranded_runs
  have hone : Shunning strandable.ranges strandable [] unstranded := by
    have hstep : Shunning strandable.ranges strandable _ unstranded :=
      Shunning.refl.call (by simp) (Op.takes_ends (.gatherCpu [0, 1]) _)
    rw [hboth] at hstep
    exact hstep
  have htwo : Shunning strandable.ranges strandable _ stranded :=
    hone.call (by simp) (Op.takes_ends (.gatherCpu [0]) _)
  rw [hint, hasked] at htwo
  exact htwo

/-- A read from the other peer leaves only the first in doubt. -/
theorem reread_shunning :
    Shunning strandable.ranges strandable [0] reread := by
  obtain ⟨-, -, -, -, hread, hret, -⟩ := stranded_runs
  have hask : ∀ i ∈ (Op.readRows 1 1 1).asks strandable.ranges stranded,
      i ∉ [0] := by
    rw [hread]
    decide
  have hthree : Shunning strandable.ranges strandable _ reread :=
    stranded_shunning.call hask (Op.takes_ends (.readRows 1 1 1) _)
  rw [hret] at hthree
  exact hthree

/-- Rows of the other peer are right. -/
theorem gatherCpu_shunning_pair :
    Returns (RemoteTable.gatherCpu [1, 1]) reread = true ∧
      Runs (RemoteTable.gatherCpu [1, 1]) reread
        (fun out w' => out.read w'
            = [(1 : Int), 1].map (fun id => pairTable id.toNat) ∧
          (∀ id ∈ [(1 : Int), 1], 0 ≤ id ∧ id < 2) ∧
          Spared strandable.ranges [0] w')
        (fun e w' => Spared strandable.ranges ((Outcome.raised e).doubts
          ((Op.gatherCpu [1, 1]).asks strandable.ranges reread) [0])
          w') := by
  obtain ⟨-, -, -, -, -, -, hother, hret⟩ := stranded_runs
  have hask : ∀ i ∈ (Op.gatherCpu [1, 1]).asks strandable.ranges reread,
      i ∉ [0] := by
    rw [hother]
    decide
  exact ⟨hret, gatherCpu_shunning strandable_constructed stranding_behind
    reread_shunning hask⟩

-- ================================================================= stale

/-- After the interrupt, and a gather from both peers then. -/
def stale : World stranding :=
  returned (RemoteTable.gatherCpu [0, 1, 1]) stranded

/-- Whom the socket of peer `i` is connected to. -/
def World.socketTo (w : World env) (i : PeerId) : Option PeerId :=
  (w.heap i).sock.map fun c => c.peer

/-- An answer is to a request of the call. -/
theorem OneAnswer.sent {tr evs : Trace} {rb k : Nat} {c : ConnId}
    {ans : List UInt8} (h : OneAnswer tr evs rb k c ans) :
    ∃ req, .send c req .all ∈ evs := by
  obtain ⟨d, req, -, -, ⟨a, b, rfl, -⟩, -⟩ := h.since
  exact ⟨req, by simp⟩

/-- How gathers go that ask the first peer again: alone it is reconnected
and answers. Before the other it is not, and nothing passes on a
connection of the other. -/
theorem stranded_again :
    stranded.table.failed = none ∧
      Returns (RemoteTable.gatherCpu [0]) stranded = true ∧
      (∀ s ∈ shares strandable.ranges [0] stranded.table.peers,
        (stranded.line strandable.ranges s.1).phase = .idle) ∧
      (shares strandable.ranges [0] stranded.table.peers).length ≤ 1 ∧
      Returns (RemoteTable.gatherCpu [0, 1, 1]) stranded = true ∧
      1 ∈ stale.table.peers ∧
      (strandable.ranges 1).owned [0, 1, 1] ≠ [] ∧
      stale.socketTo 1 = some 1 ∧
      ∀ e ∈ stale.tr.drop stranded.tr.length,
        e.conn.map (fun c => c.peer) ≠ some 1 := by
  decide +kernel

/-- The interrupted gather asked the first peer, and left it without a
connection: it can be asked again. -/
theorem gatherCpu_untainted_stranded :
    Returns (RemoteTable.gatherCpu [0]) stranded = true ∧
      Runs (RemoteTable.gatherCpu [0]) stranded
        (fun out w' => out.read w'
            = [(0 : Int)].map (fun id => pairTable id.toNat) ∧
          (∀ id ∈ [(0 : Int)], 0 ≤ id ∧ id < 2) ∧
          ∃ evs, w'.tr = stranded.tr ++ evs ∧
            Shown strandable.ranges stranded.table.rowBytes [0] stranded.tr
              evs out.buf w')
        (fun _ _ => True) := by
  obtain ⟨-, hret, hidle, hone, -⟩ := stranded_again
  have hcare := (stranded_shunning.careful strandable_constructed).1
  refine ⟨hret, gatherCpu_untainted strandable_constructed
    stranding_behind hcare fun _ => ⟨hidle, ?_⟩⟩
  exact List.pairwise_iff_getElem.mpr fun i j hi hj hij => by omega

/-- A gather that asks both takes the `answered` of the other peer for its
own and returns, and that peer gave no answer. -/
theorem gatherCpu_stale :
    Constructed stranding pairConfig strandable ∧
      pairDeployment.Behind stranding ∧
      (Op.gatherCpu [0, 1]).Takes strandable .returned unstranded ∧
      (Op.gatherCpu [0]).Takes unstranded (.raised .interrupted) stranded ∧
      stranded.table.failed = none ∧
      ∃ out w', RemoteTable.gatherCpu [0, 1, 1] stranded = .ok out w' ∧
        ∀ evs, w'.tr = stranded.tr ++ evs →
          ¬ Shown strandable.ranges stranded.table.rowBytes [0, 1, 1]
            stranded.tr evs out.buf w' := by
  obtain ⟨-, hboth, -, hint, -⟩ := stranded_runs
  obtain ⟨hf, -, -, -, hret, hpeer, howned, hsocket, hquiet⟩ :=
    stranded_again
  obtain ⟨out, hx⟩ := Returns.run hret
  have hfirst := Op.takes_ends (.gatherCpu [0, 1]) strandable
  have hsecond := Op.takes_ends (.gatherCpu [0]) unstranded
  rw [hboth] at hfirst
  rw [hint] at hsecond
  refine ⟨strandable_constructed, stranding_behind, hfirst, hsecond, hf, out,
    stale, hx, fun evs htr hshown => ?_⟩
  obtain ⟨c, ans, hsock, hone, -⟩ := hshown 1 hpeer howned
  obtain ⟨req, hmem⟩ := hone.sent
  rw [htr, List.drop_left] at hquiet
  refine hquiet _ hmem ?_
  rw [World.socketTo, hsock] at hsocket
  exact hsocket

end PleRowServer.Client
