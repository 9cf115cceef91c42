/-
`read_rows_contiguous`. A chunk is a gather of ids that follow one
another and are no more than max_rows, so no peer's share of it is too
large, and the only error of its own it has is the IndexError of a row
outside the table. The loop over the chunks is then an induction on the
rounds left: every round adds at least one row, whatever chunk_rows is.

# Ids that torch cannot make

The ids of a chunk are an int64 tensor, so a range that leaves the int64s
is refused by torch before a gather could find its rows missing
(`Int64Range`).
-/
import PleRowServer.Client.Live
import PleRowServer.Client.Rejects

namespace PleRowServer.Client

open Base Wire Daemon
open RemoteTable (Config initial)

variable {env : Env} {w w₀ u u' w' : World env} {cfg : Config}
  {ids : List Int} {table : Nat → List UInt8} {T : ℚ}
  {start : Int} {count step : Nat}

-- ============================================================ disturbances

/-- A gather made between `w` and `w'` was disturbed: after its start in
some `u`, and before another one's, a fault happened or the clock was
read with no time left of its deadline. -/
def Disturbed (T : ℚ) (w w' : World env) : Prop :=
  ∃ u v : World env, w.tr <+: u.tr ∧ u.table.setup = w.table.setup ∧
    u.called.tr <+: v.tr ∧ v.tr <+: w'.tr ∧
    Ev.call ∉ v.tr.drop u.called.tr.length ∧ Faulted T (some u.due) u v

/-- No gather started between the two. -/
theorem not_disturbed {e : Exn} (h : w'.tr = w.tr ++ [.raised e]) :
    ¬ Disturbed T w w' := by
  rintro ⟨u, v, ⟨evs, hevs⟩, -, hcall, hv, -⟩
  have hend : evs ++ [.call] <+: [.raised e] := by
    have : u.tr ++ [.call] <+: w.tr ++ [.raised e] := h ▸ hcall.trans hv
    rwa [← hevs, List.append_assoc, List.prefix_append_right_inj] at this
  have hmem : Ev.call ∈ [Ev.raised e] := by
    refine hend.subset ?_
    simp only [List.mem_append, List.mem_singleton, or_true]
  cases List.mem_singleton.mp hmem

theorem Disturbed.after (h : Disturbed T u w') (hp : w.tr <+: u.tr)
    (hs : u.table.setup = w.table.setup) : Disturbed T w w' := by
  obtain ⟨a, b, ha, hset, hrest⟩ := h
  exact ⟨a, b, hp.trans ha, hset.trans hs, hrest⟩

/-- A gather that was itself disturbed. -/
theorem Called.disturbed {S : Set PeerId} {evs : Trace}
    (h : Called S evs w w') (hf : Faulted T (some w.due) w w') :
    Disturbed T w w' := by
  refine ⟨w, w', List.prefix_rfl, rfl, ⟨evs, h.after.symm⟩, List.prefix_rfl,
    ?_, hf⟩
  rw [h.after, List.drop_left]
  exact fun hmem => h.of _ hmem

-- ================================================================== chunks

/-- A step that the use of a table takes. -/
theorem Used.gather (hu : Used Outcome.Ordinary w₀ w) {out : View}
    (h : RemoteTable.gatherCpu ids w = .ok out w') :
    Used Outcome.Ordinary w₀ w' := by
  have hop : (Op.gatherCpu ids).Takes w .returned w' := by
    show (RemoteTable.gatherCpu ids >>= fun _ => pure ()) w = .ok () w'
    simp only [Bind.bind, EStateM.bind, h]
    rfl
  exact .call hu hop trivial

/-- One chunk. -/
theorem chunk_spec (d : Deployment table cfg.peers.length)
    (hc : Constructed env cfg w₀) (hd : d.Serves env)
    (hu : Used Outcome.Ordinary w₀ w) (hf : w.table.failed = none)
    (hservers : ∀ i ∈ w.table.peers, cfg.maxRows ≤ (d.server i).maxRows.toNat)
    (hids : ids ≠ []) (hlen : (ids.length : Int) ≤ cfg.maxRows) :
    Runs (RemoteTable.gatherCpu ids) w
      (fun out w' => Used Outcome.Ordinary w₀ w' ∧ w'.table.failed = none ∧
        w.tr <+: w'.tr ∧ w'.table.setup = w.table.setup ∧
        out.read w' = ids.map (fun id => table id.toNat) ∧
        ∀ id ∈ ids, 0 ≤ id ∧ id < cfg.rowsTotal)
      (fun e w' => Disturbed cfg.timeout w w' ∨
        (¬ ∀ id ∈ ids, 0 ≤ id ∧ id < cfg.rowsTotal) ∧ e.cls = .index ∧
          w'.table.failed = none) := by
  obtain ⟨hg, -⟩ := hu.good hc
  -- no share is larger than the chunk
  have hshare : ∀ i, (((w₀.ranges i).owned ids).length : Int) ≤ cfg.maxRows := by
    intro i
    have := List.length_filter_le (fun j => decide
      (((w₀.ranges i).baseRow : Int) ≤ ids.getD j 0 ∧
        ids.getD j 0 < (w₀.ranges i).baseRow + (w₀.ranges i).rowCount))
      (List.range ids.length)
    rw [List.length_range] at this
    have hle : ((w₀.ranges i).owned ids).length ≤ ids.length := this
    omega
  by_cases hrows : ∀ id ∈ ids, 0 ≤ id ∧ id < cfg.rowsTotal
  case neg =>
    have hbar : Barred w₀.ranges ids w.table := by
      obtain ⟨id, hid, hout⟩ : ∃ id ∈ ids, ¬ (0 ≤ id ∧ id < cfg.rowsTotal) := by
        by_contra hno
        exact hrows fun id hid => by_contra fun hn => hno ⟨id, hid, hn⟩
      refine .inr ⟨id, hid, ?_⟩
      rw [hu.rowsTotal hc]
      exact hout
    refine (gatherCpu_barred hg.sound hf hids hbar).mono
      (fun _ _ h => h.elim) ?_
    intro e w' h
    obtain ⟨href, out, v, hv, sel, he, -, rfl⟩ := h
    refine .inr ⟨hrows, ?_, ?_⟩
    · rcases href with ⟨⟨i, hi, hover⟩, -⟩ | ⟨-, rfl⟩
      · rw [hu.maxRows hc] at hover
        exact absurd (hshare i) (not_le.mpr hover)
      · rfl
    · exact hv.failed.trans hf
  case pos =>
    have hspec : Runs (RemoteTable.gatherCpu ids) w _ _ :=
      (((Runs.self _ w).and (gatherCpu_rows d hc hd.behind hu)).and
        (gatherCpu_faulted d hc hd hu hf hrows fun i hi =>
          ⟨hshare i, by have := hshare i; have := hservers i hi; omega⟩)).and
        (gatherCpu_spec hg.sound fun hf => (hg.synced hf).fit)
    refine hspec.mono ?_ ?_
    · intro out w' h
      obtain ⟨⟨⟨hrun, hread, -⟩, -⟩, v, hv, ⟨rfl, -⟩ | ⟨-, -, hgath⟩⟩ := h
      · exact absurd rfl hids
      obtain ⟨evs, hcalled, -⟩ := hgath.called
      refine ⟨hu.gather hrun, ?_, ?_, hcalled.setup.trans hv.setup, hread, hrows⟩
      · rw [hgath.failed, hv.failed, hf]
      · rw [hcalled.tr, hv.tr]
        exact List.prefix_append _ _
    · intro e w' h
      obtain ⟨⟨-, hfault⟩, -, out, hcase⟩ := h
      rcases hcase with ⟨v, he, why, hv, hmark, rfl, rfl⟩ | ⟨-, v, hv, hcase⟩
      · rw [hf] at hmark
        cases hmark
      have hab : Abandoned w₀.ranges cfg.timeout ids v e w' :=
        hcase.elim (·.toAbandoned) (·.toAbandoned)
      obtain ⟨evs, hcalled, -⟩ := hab.called
      have hcalled' : Called (peersOf (shares w₀.ranges ids v.table.peers))
          evs w w' := by
        refine ⟨?_, hcalled.of, ?_, hcalled.setup.trans hv.setup, ?_⟩
        · rw [hcalled.tr, hv.tr]
        · intro j hj
          rw [hcalled.heap j hj, hv.heap]
        · rw [← hv.reqId]
          exact hcalled.ids
      exact .inl (hcalled'.disturbed hfault)

-- ================================================================ the loop

/-- `n` rows of the table from `start` on. -/
def rowsFrom (table : Nat → List UInt8) (start : Int) (n : Nat) :
    List (List UInt8) :=
  (List.range n).map fun j => table (start.toNat + j)

theorem length_rowsFrom (table : Nat → List UInt8) (start : Int) (n : Nat) :
    (rowsFrom table start n).length = n := by
  rw [rowsFrom, List.length_map, List.length_range]

/-- The ids of the next chunk. -/
def chunkIds (start : Int) (at_ n : Nat) : List Int :=
  (List.range n).map fun j : Nat => start + at_ + j

theorem length_chunkIds (start : Int) (at_ n : Nat) :
    (chunkIds start at_ n).length = n := by
  rw [chunkIds, List.length_map, List.length_range]

/-- A chunk continues what was read. -/
theorem rowsFrom_chunk (h : 0 ≤ start) (at_ n : Nat) :
    rowsFrom table start at_
        ++ (chunkIds start at_ n).map (fun id => table id.toNat)
      = rowsFrom table start (at_ + n) := by
  unfold rowsFrom chunkIds
  rw [List.range_add, List.map_append, List.map_map, List.map_map]
  refine congrArg _ (List.map_congr_left fun j _ => ?_)
  simp only [Function.comp_apply]
  congr 1
  omega

/-- The ids of a chunk are rows of the table if its ends are. -/
theorem chunkIds_rows {total at_ n : Nat} (hn : 0 < n) :
    (∀ id ∈ chunkIds start at_ n, 0 ≤ id ∧ id < total)
      ↔ 0 ≤ start + at_ ∧ start + at_ + n ≤ total := by
  unfold chunkIds
  simp only [List.forall_mem_map, List.mem_range]
  constructor
  · intro h
    have h₀ := h 0 hn
    have h₁ := h (n - 1) (by omega)
    omega
  · intro h j hj
    omega

/-- A range whose length and ends are int64s. -/
structure Int64Range (start count : Int) : Prop where
  size : RemoteTable.IsInt64 count
  first : RemoteTable.IsInt64 start
  last : RemoteTable.IsInt64 (start + count)

/-- The ends of its chunks are, too. -/
theorem Int64Range.chunk {at_ n : Nat} (h : Int64Range start count)
    (hle : at_ + n ≤ count) :
    RemoteTable.IsInt64 (start + at_) ∧
      RemoteTable.IsInt64 (start + at_ + n) := by
  have hfirst := h.first
  have hlast := h.last
  exact ⟨⟨by omega, by omega⟩, ⟨by omega, by omega⟩⟩

/-- What is wrong with a range of which no slice is returned, if no gather
was disturbed: it is no part of the table, or its numbers are no
int64s. -/
def Misread (total : Nat) (start count : Int) (e : Exn) : Prop :=
  ¬ (0 ≤ start ∧ start + count ≤ total) ∧ e.cls = .index ∨
    ¬ Int64Range start count ∧ e = .beyondInt64

/-- The chunks still to read, with `at_` of `count` rows in. -/
theorem readLoop_exact (d : Deployment table cfg.peers.length)
    (hc : Constructed env cfg w₀) (hd : d.Serves env)
    (hservers : ∀ i ∈ w₀.table.peers,
      cfg.maxRows ≤ (d.server i).maxRows.toNat)
    (hstep : 0 < step) (hmax : (step : Int) ≤ cfg.maxRows) :
    ∀ (rounds at_ : Nat) (w : World env), Used Outcome.Ordinary w₀ w →
      w.table.failed = none → at_ ≤ count → count - at_ ≤ rounds →
      (0 < at_ → 0 ≤ start ∧ start + at_ ≤ cfg.rowsTotal) → 0 < count →
      Runs (RemoteTable.readLoop start count step rounds
          (rowsFrom table start at_)) w
        (fun rows _ => 0 ≤ start ∧ start + count ≤ cfg.rowsTotal ∧
          rows = rowsFrom table start count)
        (fun e w' => Disturbed cfg.timeout w w' ∨
          Misread cfg.rowsTotal start count e ∧
            w'.table.failed = none) := by
  intro rounds
  induction rounds with
  | zero =>
      intro at_ w _ _ hle hleft hin hpos
      obtain rfl : at_ = count := by omega
      unfold RemoteTable.readLoop
      rw [if_pos (by rw [length_rowsFrom])]
      exact ⟨(hin hpos).1, (hin hpos).2, rfl⟩
  | succ rounds ih =>
      intro at_ w hu hf hle hleft hin hpos
      unfold RemoteTable.readLoop
      rw [length_rowsFrom]
      split
      case isTrue hdone =>
        obtain rfl : at_ = count := by omega
        exact ⟨(hin hpos).1, (hin hpos).2, rfl⟩
      case isFalse hmore =>
        simp only
        set n := min step (count - at_) with hn
        have hpos' : 0 < n := by omega
        have hlen : ((chunkIds start at_ n).length : Int) ≤ cfg.maxRows := by
          rw [length_chunkIds]
          omega
        have hne : chunkIds start at_ n ≠ [] := by
          intro h
          have := length_chunkIds start at_ n
          rw [h, List.length_nil] at this
          omega
        have hpeers : w.table.peers = w₀.table.peers :=
          setup_peers (hu.good hc).2
        simp only [runs_bind]
        refine runs_arange (fun _ => ?_) fun hover => ?_
        case refine_2 =>
          refine .inr ⟨.inr ⟨fun hfit => hover ?_, rfl⟩, hf⟩
          exact hfit.chunk (by omega)
        refine (chunk_spec d hc hd hu hf (by rwa [hpeers]) hne hlen).mono
          ?_ ?_
        · intro out w' h
          obtain ⟨hu', hf', hpre, hset, hread, hrows⟩ := h
          have hrows := (chunkIds_rows hpos').mp hrows
          have hstart : 0 ≤ start := by
            rcases Nat.eq_zero_or_pos at_ with rfl | h
            · omega
            · exact (hin h).1
          simp only [runs_get]
          rw [hread, rowsFrom_chunk hstart]
          refine (ih (at_ + n) w' hu' hf' (by omega) (by omega)
            (fun _ => ⟨hstart, by push_cast; omega⟩) hpos).mono
              (fun _ _ h => h) ?_
          intro e u h
          exact h.imp_left fun hdist => hdist.after hpre hset
        · intro e w' h
          refine h.imp_right fun hout =>
            ⟨.inl ⟨fun hrange => hout.1 ?_, hout.2.1⟩, hout.2.2⟩
          refine (chunkIds_rows hpos').mpr ?_
          omega

/-- `read_rows_contiguous` over servers that take chunks of max_rows,
none of whose gathers is disturbed, reads the slice of the table if there
is one. If there is not it raises an IndexError, or torch's error where a
number of the range is no int64; either way the table stays usable. -/
theorem readRows_exact (d : Deployment table cfg.peers.length)
    (hc : Constructed env cfg w₀) (hd : d.Serves env)
    (hu : Used Outcome.Ordinary w₀ w) (hf : w.table.failed = none)
    (hmax : 1 ≤ cfg.maxRows)
    (hservers : ∀ i ∈ w.table.peers,
      cfg.maxRows ≤ (d.server i).maxRows.toNat) (start count chunk : Int) :
    Runs (RemoteTable.readRowsContiguous start count chunk) w
      (fun rows w' => count ≤ 0 ∧ rows = [] ∧ w' = w ∨
        0 < count ∧ 0 ≤ start ∧ start + count ≤ cfg.rowsTotal ∧
          rows = rowsFrom table start count.toNat)
      (fun e w' => 0 < count ∧ (Disturbed cfg.timeout w w' ∨
        w'.table.failed = none ∧
          (¬ (0 ≤ start ∧ start + count ≤ cfg.rowsTotal) ∧ e.cls = .index ∨
            ¬ Int64Range start count ∧ e = .beyondInt64))) := by
  unfold RemoteTable.readRowsContiguous
  split
  case isTrue hle => exact .inl ⟨hle, rfl, rfl⟩
  case isFalse hpos =>
    have hpos : 0 < count := not_le.mp hpos
    split
    case isTrue hbig =>
      exact ⟨hpos, .inr ⟨hf, .inr ⟨fun hfit => hbig hfit.size, rfl⟩⟩⟩
    simp only [runs_bind, runs_self]
    rw [hu.maxRows hc, setup_peers (hu.good hc).2] at *
    have hcount : ((count.toNat : Nat) : Int) = count :=
      Int.toNat_of_nonneg hpos.le
    have hread : Runs (RemoteTable.readLoop start count.toNat
        (max 1 (min chunk cfg.maxRows)).toNat count.toNat []) w _ _ :=
      readLoop_exact d hc hd hservers (by omega) (by omega)
        count.toNat 0 w hu hf (by omega) (by omega) (by omega) (by omega)
    rw [hcount] at hread
    refine hread.mono ?_ ?_
    · intro rows w' h
      exact .inr ⟨hpos, h⟩
    · intro e w' h
      exact ⟨hpos, h.imp_right And.symm⟩

/-- Both rows of the pair, one at a time. -/
theorem readRows_exact_pair :
    Returns (RemoteTable.readRowsContiguous 0 2 1) paired = true ∧
      Runs (RemoteTable.readRowsContiguous 0 2 1) paired
        (fun rows w' => (2 : Int) ≤ 0 ∧ rows = [] ∧ w' = paired ∨
          (0 : Int) < 2 ∧ (0 : Int) ≤ 0 ∧ (0 : Int) + 2 ≤ 2 ∧
            rows = rowsFrom pairTable 0 2)
        (fun e w' => (0 : Int) < 2 ∧ (Disturbed 30 paired w' ∨
          w'.table.failed = none ∧
            (¬ ((0 : Int) ≤ 0 ∧ (0 : Int) + 2 ≤ 2) ∧ e.cls = .index ∨
              ¬ Int64Range 0 2 ∧ e = .beyondInt64))) := by
  refine ⟨by decide +kernel, ?_⟩
  exact readRows_exact pairDeployment paired_constructed pair_serves .refl
    (by decide +kernel) (by decide) (fun i _ => le_refl _) 0 2 1

/-- A number past the int64s is no row of the pair, and what torch refuses
it with is no IndexError. -/
theorem readRows_exact_beyond :
    ¬ Runs (RemoteTable.readRowsContiguous (2 ^ 63) 1 1) paired
        (fun rows w' => (1 : Int) ≤ 0 ∧ rows = [] ∧ w' = paired ∨
          (0 : Int) ≤ 2 ^ 63 ∧ (2 ^ 63 + 1 : Int) ≤ 2 ∧
            rows = rowsFrom pairTable (2 ^ 63) 1)
        (fun e w' => Disturbed 30 paired w' ∨
          e.cls = .index ∧ w'.table.failed = none) := by
  intro h
  have hrun : Runs (RemoteTable.readRowsContiguous (2 ^ 63) 1 1) paired
      (fun _ _ => False)
      (fun e w' => e = .beyondInt64 ∧ w'.tr = paired.tr ++ [.raised e]) := by
    unfold RemoteTable.readRowsContiguous
    rw [if_neg (by decide), if_neg (by decide)]
    simp only [runs_bind, runs_self]
    have hone : Int.toNat 1 = 1 := rfl
    rw [hone]
    unfold RemoteTable.readLoop
    rw [if_neg (by decide)]
    simp only [runs_bind]
    refine runs_arange (fun hfit => ?_) fun _ => ⟨rfl, World.push_tr _ _ _⟩
    exact absurd hfit.1.2 (by decide)
  have hboth := (h.and hrun).mono (fun _ _ h => h.2)
    (fun e w' h => show False by
      obtain ⟨hdist | ⟨hcls, -⟩, rfl, htr⟩ := h
      · exact not_disturbed htr hdist
      · cases hcls)
  unfold Runs at hboth
  split at hboth <;> exact hboth

end PleRowServer.Client
