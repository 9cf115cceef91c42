/-
tools/recharge_cache.py, `main`: the exit status it makes of the STAT
answer, the RECHARGE report and the cgroup's charge.

The pages the report counts are the server's, and the total `main` holds
them against is worked out from the row count and the page size of the
machine the tool runs on. So what an exit status of 0 says about the
server is settled by the two page sizes: the pages that satisfy `main`
(`enough`) may be few of the server's (`verdict_holds`,
`verdict_fails`).

Percentages are doubles. What is used of the rounding is that it keeps
order and every number with at most 53 bits, which settles a comparison
with 95 for any count of pages there can be (`pct_lt`).
-/
import Mathlib.Data.Rat.Cast.Order
import Mathlib.Tactic.FieldSimp
import PleRowServer.Daemon.Gather
import PleRowServer.Daemon.Pages
import PleRowServer.Wire.Agree

namespace PleRowServer.Tools

open Base Daemon

-- ================================================================= model

/-- How a real number becomes a double. -/
structure Doubles where
  fl : ℚ → ℚ
  mono : Monotone fl
  keeps : ∀ (m : Int) (e : Nat), m.natAbs ≤ 2 ^ 53 → e ≤ 1000 →
    fl (m / 2 ^ e) = m / 2 ^ e

/-- `100.0 * rep["pages_after"] / total_pages`. -/
def pct (d : Doubles) (after total : Nat) : ℚ :=
  d.fl (d.fl (100 * d.fl after) / d.fl total)

/-- `total_pages`, by the page size of the machine `main` runs on. -/
def totalPages (pageSize : Nat) (stat : StatDict) : Nat :=
  (stat.rowCount * stat.rowBytes + pageSize - 1) / pageSize

/-- The charge of the daemon's cgroup before and after, each none if
memory.stat could not be read. -/
abbrev Charges := Option Int × Option Int

/-- `charge_failed`; no charges if no cgroup was found. -/
def chargeFailed (tableBytes : Nat) : Option Charges → Bool
  | some (_, some after) => decide (after < (tableBytes : Int) / 2)
  | _ => false

/-- `main` from the report on. A total of 0 divides by zero. -/
def verdict (d : Doubles) (total : Nat) (rep : RechargeDict)
    (failed : Bool) : Nat :=
  if rep.slicesDone < rep.slicesTotal then 1
  else if (total : Int) - rep.pagesAfter ≠ 0 then
    if total = 0 then 1
    else if pct d rep.pagesAfter total < 95 ∨ failed then 1
    else 0
  else if failed then 1
  else 0

/-- The exit status of `main`; `sys.exit` with a text and an exception
nobody catches make it 1. -/
def main (d : Doubles) (pageSize : Nat) (sliceMib : Int) (dryRun : Bool)
    (stat : Except CallError StatDict)
    (recharged : Except CallError RechargeDict)
    (cgroup : Option Charges) : Nat :=
  if ¬ (0 ≤ sliceMib ∧ sliceMib ≤ 0xFFFF) then 1
  else match stat with
    | .error _ => 1
    | .ok stat =>
        if stat.rowBytes ≠ ROW_BYTES then 1
        else if dryRun then 0
        else match recharged with
          | .error _ => 1
          | .ok rep =>
              let total := totalPages pageSize stat
              verdict d total rep (chargeFailed (total * pageSize) cgroup)

-- =============================================================== answers

/-- `_call` and `recharge`, on the bytes received. -/
def rechargeCall (reqId : Nat) (ans : List UInt8) :
    Except CallError RechargeDict := do
  checkAnswer reqId (bytesAt ans 0 HDR_BYTES)
  match recharge (bytesAt ans HDR_BYTES RECHG_BYTES) with
  | some rep => return rep
  | none => throw .structError

/-- What `recharge` makes of the outcome of recharge_map. -/
def told : UInt32 × Option RechargeReport → Except CallError RechargeDict
  | (st, rep) =>
      if st ≠ ST_OK then .error (.status st.toNat)
      else match rep with
        | none => .error .structError
        | some rep => .ok ⟨rep.pagesBefore.toNat, rep.pagesAfter.toNat,
            rep.pagesRecharged.toNat, rep.slicesDone.toNat,
            rep.slicesTotal.toNat, rep.slicePages.toNat, rep.elapsedMs.toNat⟩

/-- What `stat` makes of the answer to STAT. -/
def statOf (s : Server) (resident : Nat) (served : UInt64) : StatDict :=
  ⟨s.baseRow.toNat, s.rowCount.toNat, ROW_BYTES, resident, served.toNat⟩

/-- The answer to RECHARGE as the daemon writes it is read as told. -/
theorem rechargeCall_told (resp : List UInt8)
    (hresp : HDR_BYTES + ROW_BYTES ≤ resp.length) (rid st : UInt32)
    (rep : RechargeReport) :
    rechargeCall rid.toNat (if st ≠ ST_OK then response resp rid st 0 0
        else response (stores resp (fillRecharge rep HDR_BYTES)) rid ST_OK 0
          RECHG_BYTES)
      = told (st, some rep) := by
  by_cases hst : st = ST_OK
  case neg =>
    obtain ⟨hdr, hlen, hw, hu⟩ := Wire.header_unpacks rid st 0
    have hzero : st.toNat ≠ 0 := fun h => hst (UInt32.toNat_inj.mp h)
    have hwhole : bytesAt hdr 0 HDR_BYTES = hdr := by
      rw [← hlen, bytesAt, List.drop_zero, List.take_length]
    have hcheck : checkAnswer rid.toNat hdr = .error (.status st.toNat) := by
      unfold checkAnswer
      rw [show unpack [.I, .I, .I, .I] hdr = _ from hu]
      simp [hzero]
    rw [if_pos hst, response_eq (by omega) hw hlen, rechargeCall,
      bytesAt_append_left (by omega), hwhole, hcheck, told, if_pos hst]
    rfl
  case pos =>
    obtain ⟨hdr, hlen, hw, hu⟩ := Wire.header_unpacks rid ST_OK 0
    obtain ⟨body, hpack, hb⟩ := fillRecharge_writes rep HDR_BYTES
    have hblen : body.length = RECHG_BYTES := length_of_pack hpack
    have hroom : HDR_BYTES + body.length ≤ resp.length := by
      rw [hblen]
      exact (by decide : HDR_BYTES + RECHG_BYTES ≤ HDR_BYTES + ROW_BYTES).trans
        hresp
    obtain ⟨heq, -⟩ := Wire.answer_eq resp hw hlen hb hroom
    have hwhole : bytesAt hdr 0 HDR_BYTES = hdr := by
      rw [← hlen, bytesAt, List.drop_zero, List.take_length]
    have hbody : bytesAt (hdr ++ body) HDR_BYTES RECHG_BYTES = body := by
      rw [← hlen, ← hblen, bytesAt, List.drop_left, List.take_length]
    have hcheck : checkAnswer rid.toNat hdr = .ok () := by
      unfold checkAnswer
      rw [show unpack [.I, .I, .I, .I] hdr = _ from hu]
      simp [ST_OK]
    rw [hblen] at heq
    rw [if_neg (not_not.mpr hst), heq, rechargeCall,
      bytesAt_append_left (by omega), hwhole, hcheck, hbody, recharge,
      unpack_pack hpack, told, if_neg (not_not.mpr hst)]
    rfl

-- ================================================================ report

section Report

variable {s : Server} {slice : Nat} {t0 : Timespec}

/-- A kernel that drops, evicts and tells the same time throughout. -/
def Willing : Did Call Reply → Prop
  | ⟨.clock, (t : Timespec)⟩ => t = ⟨0, 0⟩
  | ⟨.madvise _ _ .dontneed, (ok : Bool)⟩ => ok = true
  | ⟨.fadvise _ _, (err : Nat)⟩ => err = 0
  | _ => True

/-- How a sweep loop ends: with no more slices counted than there are,
and with all of them if the kernel is willing. -/
structure Counted (s : Server) (slice : Nat) (total : UInt32) (tr : Log)
    (st : UInt32) (rep : RechargeReport) : Prop where
  total : rep.slicesTotal = total
  le : rep.slicesDone.toNat ≤ pagesIn slice s.map.length
  willing : (∀ d ∈ tr, Willing d) →
    st = ST_OK ∧ rep.slicesDone.toNat = pagesIn slice s.map.length

/-- A loop that stops before the end does so on a kernel that is not
willing. -/
theorem Counted.short {total : UInt32} {tr : Log} {st : UInt32}
    {rep : RechargeReport} (htotal : rep.slicesTotal = total)
    (hle : rep.slicesDone.toNat ≤ pagesIn slice s.map.length)
    (h : ¬ ∀ d ∈ tr, Willing d) : Counted s slice total tr st rep :=
  ⟨htotal, hle, fun hall => absurd hall h⟩

/-- The loop counts the slices it has done. -/
theorem sweepLoop_counted (hslice : 0 < slice)
    (hcount : pagesIn slice s.map.length < 2 ^ 32) :
    ∀ (rounds k : Nat) {off : Nat} {rep rep' : RechargeReport} {tr : Log}
      {st : UInt32}, off = k * slice → s.map.length - k * slice ≤ rounds →
      rep.slicesDone.toNat = k → k ≤ pagesIn slice s.map.length →
      Prog.Does (sweepLoop s t0 slice rounds off rep) tr (st, rep') →
      Counted s slice rep.slicesTotal (read t0 :: tr) st rep' := by
  have hdone : ∀ {k : Nat} {rep : RechargeReport} {tr : Log},
      s.map.length ≤ k * slice → rep.slicesDone.toNat = k →
      k ≤ pagesIn slice s.map.length →
      Counted s slice rep.slicesTotal tr ST_OK rep := by
    intro k rep tr hend hk hle
    have hall : ¬ k < pagesIn slice s.map.length := by
      rw [lt_pagesIn hslice]
      omega
    exact ⟨rfl, by omega, fun _ => ⟨rfl, by omega⟩⟩
  intro rounds
  induction rounds with
  | zero =>
      intro k off rep rep' tr st hoff hrounds hk hle h
      obtain ⟨-, heq⟩ := Prog.does_pure.mp h
      cases heq
      exact hdone (by omega) hk hle
  | succ rounds ih =>
      intro k off rep rep' tr st hoff hrounds hk hle h
      subst hoff
      unfold sweepLoop at h
      by_cases hlt : k * slice < s.map.length
      case neg =>
        rw [if_neg hlt] at h
        obtain ⟨-, heq⟩ := Prog.does_pure.mp h
        cases heq
        exact hdone (by omega) hk hle
      rw [if_pos hlt] at h
      obtain ⟨a, b, ms, rfl, ha, hb⟩ := Prog.does_bind.mp h
      obtain ⟨t, rfl, rfl⟩ := elapsedMs_does ha
      by_cases hlate : elapsedBetween t0 t ≥ RECHARGE_MAX_SECS * 1000
      case pos =>
        rw [if_pos hlate] at hb
        obtain ⟨-, heq⟩ := Prog.does_pure.mp hb
        cases heq
        refine .short rfl (hk.trans_le hle) fun hall => ?_
        have h0 : t0 = ⟨0, 0⟩ := hall (read t0) (by simp)
        have h1 : t = ⟨0, 0⟩ := hall (read t) (by simp)
        rw [h0, h1] at hlate
        exact absurd hlate (by decide)
      rw [if_neg hlate] at hb
      obtain ⟨c, d, ok, rfl, hc, hd⟩ := Prog.does_bind.mp hb
      rw [Prog.does_perform.mp hc]
      cases ok with
      | false =>
          obtain ⟨-, heq⟩ := Prog.does_pure.mp hd
          cases heq
          refine .short rfl (hk.trans_le hle) fun hall => ?_
          exact Bool.false_ne_true (hall ⟨.madvise (k * slice)
            (min (s.map.length - k * slice) slice) .dontneed, false⟩ (by simp))
      | true =>
          obtain ⟨e, f, err, rfl, he, hf⟩ := Prog.does_bind.mp hd
          rw [Prog.does_perform.mp he]
          by_cases herr : (err : Nat) ≠ 0
          case pos =>
            rw [if_pos herr] at hf
            obtain ⟨touch, z, u, rfl, -, hz⟩ := Prog.does_bind.mp hf
            obtain ⟨-, heq⟩ := Prog.does_pure.mp hz
            cases heq
            refine .short rfl (hk.trans_le hle) fun hall => herr ?_
            exact hall ⟨.fadvise (k * slice)
              (min (s.map.length - k * slice) slice), err⟩ (by simp)
          rw [if_neg herr] at hf
          obtain ⟨touch, z, u, rfl, -, hz⟩ := Prog.does_bind.mp hf
          have hmore : k < pagesIn slice s.map.length :=
            (lt_pagesIn hslice).mpr hlt
          have hnext : (rep.slicesDone + 1).toNat = k + 1 := by
            rw [UInt32.toNat_add, hk]
            show (k + 1) % 2 ^ 32 = _
            omega
          have hrest := ih (k + 1) (Nat.succ_mul k slice).symm
            (by rw [Nat.succ_mul]; omega) hnext hmore hz
          refine ⟨hrest.total, hrest.le, fun hall => hrest.willing ?_⟩
          intro d hd
          refine hall d ?_
          rcases List.mem_cons.mp hd with rfl | hd
          · simp
          · simp [hd]

/-- What recharge_map can report: no more slices than there are, no more
pages than the mapping has. With a willing kernel all slices are done
and the pages are those mincore shows in the end. -/
structure Reports (s : Server) (tr : Log) (st : UInt32)
    (rep : RechargeReport) : Prop where
  done : rep.slicesDone.toNat ≤ rep.slicesTotal.toNat
  pages : rep.pagesAfter.toNat ≤ pagesIn s.pageSize s.map.length
  willing : (∀ d ∈ tr, Willing d) →
    st = ST_OK ∧ rep.slicesDone = rep.slicesTotal
  shown : ∀ resident, (∀ d ∈ tr, Shows s.pageSize resident d) →
    rep.pagesAfter.toNat
      = (List.range (pagesIn s.pageSize s.map.length)).countP resident

/-- What `recharge_map` reports is what it can. -/
theorem rechargeMap_reports (hpos : 0 < s.pageSize)
    (hmap : s.map.length < 2 ^ 40) {arg : UInt32} {tr : Log} {st : UInt32}
    {rep : RechargeReport}
    (h : Prog.Does (rechargeMap s arg) tr (st, some rep)) :
    Reports s tr st rep := by
  have hmib : 0 < sliceMib arg := by
    unfold sliceMib
    by_cases harg : arg = 0
    · rw [if_pos harg]
      decide
    · rw [if_neg harg]
      exact Nat.pos_of_ne_zero fun h => harg (UInt32.toNat_inj.mp h)
  have hslice : 0 < sliceMib arg * 2 ^ 20 := by positivity
  have hcount : pagesIn (sliceMib arg * 2 ^ 20) s.map.length < 2 ^ 32 := by
    by_contra hge
    have hmany : 2 ^ 32 - 1 < pagesIn (sliceMib arg * 2 ^ 20) s.map.length := by
      omega
    rw [lt_pagesIn hslice] at hmany
    have := Nat.mul_le_mul_left (2 ^ 32 - 1)
      (Nat.le_mul_of_pos_left (2 ^ 20) hmib)
    omega
  unfold rechargeMap at h
  by_cases hbig : sliceMib arg > RECHARGE_MAX_SLICE_MIB
  · rw [if_pos hbig] at h
    obtain ⟨-, heq⟩ := Prog.does_pure.mp h
    cases heq
  rw [if_neg hbig] at h
  obtain ⟨x, y, busy, rfl, hx, hy⟩ := Prog.does_bind.mp h
  rw [Prog.does_perform.mp hx]
  cases busy with
  | true =>
      obtain ⟨-, heq⟩ := Prog.does_pure.mp hy
      cases heq
  | false =>
      obtain ⟨y, z, ⟨st', rep'⟩, rfl, hy, hz⟩ := Prog.does_bind.mp hy
      obtain ⟨rfl, heq⟩ := Prog.does_pure.mp hz
      cases heq
      obtain ⟨c, e, t0, rfl, hc, he⟩ := Prog.does_bind.mp hy
      obtain ⟨a, e, before, rfl, ha, he⟩ := Prog.does_bind.mp he
      obtain ⟨mid, e, ⟨st₁, rep₁⟩, rfl, hmid, he⟩ := Prog.does_bind.mp he
      obtain ⟨b, e, after, rfl, hb, he⟩ := Prog.does_bind.mp he
      obtain ⟨d, e, ms, rfl, hd, he⟩ := Prog.does_bind.mp he
      obtain ⟨f, e, u, rfl, -, he⟩ := Prog.does_bind.mp he
      obtain ⟨rfl, heq⟩ := Prog.does_pure.mp he
      cases heq
      rw [Prog.does_perform.mp hc]
      have hcounted := sweepLoop_counted hslice hcount _ 0
        (Nat.zero_mul _).symm (Nat.sub_le _ _) rfl (Nat.zero_le _) hmid
      have htotal : rep₁.slicesTotal.toNat
          = pagesIn (sliceMib arg * 2 ^ 20) s.map.length := by
        rw [hcounted.total]
        exact UInt32.toNat_ofNat_of_lt' hcount
      have hle := residentPages_le hpos hb
      have hafter : (UInt64.ofNat after).toNat = after := by
        refine UInt64.toNat_ofNat_of_lt' (hle.trans_lt ?_)
        exact (pagesIn_le hpos).trans_lt (hmap.trans (by decide))
      refine ⟨hcounted.le.trans_eq htotal.symm, hafter.trans_le hle,
        fun hall => ?_, fun resident hshow => ?_⟩
      · obtain ⟨hst, hdone⟩ := hcounted.willing fun d hd => hall d (by
          rcases List.mem_cons.mp hd with rfl | hd
          · simp [Daemon.read]
          · simp [hd])
        exact ⟨hst, UInt32.toNat_inj.mp (hdone.trans htotal.symm)⟩
      · exact hafter.trans ((residentPages_counts hpos hb).2 resident
          fun d hd => hshow d (by simp [hd]))

end Report

-- ================================================================ kernel

section Kernel

variable {s : Server} {ps m : Nat}

/-- A willing kernel that shows the first `m` pages as resident. -/
def showing (ps m : Nat) : ∀ c : Call, Reply c
  | .mincore off len => some ((List.range (pagesIn ps len)).map
      fun i => if off / ps + i < m then (1 : UInt8) else 0)
  | c => willing c

/-- A kernel that shows pages does what it is told. -/
theorem showing_willing (d : Did Call Reply) (h : d.2 = showing ps m d.1) :
    Willing d := by
  obtain ⟨c, r⟩ := d
  change r = showing ps m c at h
  subst h
  cases c with
  | madvise off len advice => cases advice <;> first | exact rfl | trivial
  | clock => exact rfl
  | fadvise off len => exact rfl
  | _ => trivial

/-- A kernel that shows pages shows those pages. -/
theorem showing_shows (d : Did Call Reply) (h : d.2 = showing ps m d.1) :
    Shows ps (fun q => decide (q < m)) d := by
  obtain ⟨c, r⟩ := d
  change r = showing ps m c at h
  subst h
  cases c with
  | mincore off len =>
      refine ⟨_, rfl, fun i hi => ?_⟩
      rw [List.getD_eq_getElem?_getD, List.getElem?_map,
        List.getElem?_range hi, Option.map_some, Option.getD_some]
      by_cases hm : off / ps + i < m
      · simp [hm]
      · simp [hm]
  | _ => trivial

/-- The numbers below two bounds. -/
theorem countP_lt (m n : Nat) :
    (List.range n).countP (fun q => decide (q < m)) = min m n := by
  induction n with
  | zero => simp
  | succ n ih =>
      rw [List.range_succ, List.countP_append, ih]
      by_cases h : n < m
      · simp [h]
        omega
      · simp [h]
        omega

/-- recharge_map reports nothing only where it is turned away. -/
theorem rechargeMap_none {arg : UInt32} {tr : Log} {st : UInt32}
    (h : Prog.Does (rechargeMap s arg) tr (st, none)) :
    sliceMib arg > RECHARGE_MAX_SLICE_MIB ∨
      (⟨.exchange, true⟩ : Did Call Reply) ∈ tr := by
  unfold rechargeMap at h
  by_cases hbig : sliceMib arg > RECHARGE_MAX_SLICE_MIB
  · exact .inl hbig
  rw [if_neg hbig] at h
  obtain ⟨x, y, busy, rfl, hx, hy⟩ := Prog.does_bind.mp h
  rw [Prog.does_perform.mp hx]
  cases busy with
  | true => exact .inr (by simp)
  | false =>
      obtain ⟨y, z, ⟨st', rep'⟩, rfl, hy, hz⟩ := Prog.does_bind.mp hy
      obtain ⟨-, heq⟩ := Prog.does_pure.mp hz
      cases heq

/-- There is a run of recharge_map that does all it has to, and finds
any number of pages resident in the end. -/
theorem rechargeMap_shows (hpos : 0 < s.pageSize)
    (hmap : s.map.length < 2 ^ 40)
    (hm : m ≤ pagesIn s.pageSize s.map.length) :
    ∃ tr rep, Prog.Does (rechargeMap s 0) tr (ST_OK, some rep) ∧
      rep.slicesDone = rep.slicesTotal ∧ rep.pagesAfter.toNat = m := by
  have hrun := Prog.does_runWith (showing s.pageSize m) (rechargeMap s 0)
  have hanswers := Prog.runWith_answers (showing s.pageSize m)
    (rechargeMap s 0)
  rcases hout : (rechargeMap s 0).runWith (showing s.pageSize m) with
    ⟨tr, st, _ | rep⟩
  · rw [hout] at hrun hanswers
    rcases rechargeMap_none hrun with hbig | hbusy
    · exact absurd hbig (by decide)
    · have hfree : true = false := hanswers _ hbusy
      cases hfree
  · rw [hout] at hrun hanswers
    have hrep := rechargeMap_reports hpos hmap hrun
    obtain ⟨rfl, hdone⟩ := hrep.willing fun d hd =>
      showing_willing d (hanswers d hd)
    have hshown := hrep.shown _ fun d hd => showing_shows d (hanswers d hd)
    rw [countP_lt, Nat.min_eq_left hm] at hshown
    exact ⟨tr, rep, hrun, hdone, hshown⟩

end Kernel

-- ================================================================ verdict

section Verdict

variable {d : Doubles} {after total : Nat} {rep : RechargeDict}
  {failed : Bool}

/-- Counts of less than 2^53 are exact. -/
theorem Doubles.natCast (d : Doubles) {n : Nat} (h : n ≤ 2 ^ 53) :
    d.fl n = n := by
  have := d.keeps n 0 (by simpa using h) (by decide)
  simpa using this

/-- Rounding does not take a percentage across 95. -/
theorem pct_lt (hafter : after < 2 ^ 40) (hpos : 0 < total)
    (htotal : total < 2 ^ 40) :
    pct d after total < 95 ↔ 100 * after < 95 * total := by
  have htotal' : (0 : ℚ) < total := by exact_mod_cast hpos
  have hhundred : (100 : ℚ) * after = ((100 * after : Nat) : ℚ) := by
    push_cast
    rfl
  have hq : pct d after total = d.fl ((100 * after : Nat) / total) := by
    rw [pct, d.natCast (by omega : after ≤ 2 ^ 53), hhundred,
      d.natCast (by omega : 100 * after ≤ 2 ^ 53),
      d.natCast (by omega : total ≤ 2 ^ 53)]
  rw [hq]
  constructor
  · intro hlt
    by_contra hge
    have hle : ((95 : Nat) : ℚ) ≤ (100 * after : Nat) / total := by
      rw [le_div_iff₀ htotal']
      exact_mod_cast Nat.not_lt.mp hge
    have hfl := d.mono hle
    rw [d.natCast (by decide)] at hfl
    exact absurd hlt (not_lt.mpr (by exact_mod_cast hfl))
  · intro hlt
    -- a double below 95 that the percentage does not exceed
    have hkeep : d.fl ((95 * 2 ^ 40 - 1) / 2 ^ 40)
        = (95 * 2 ^ 40 - 1) / 2 ^ 40 := by
      have := d.keeps (95 * 2 ^ 40 - 1) 40 (by decide) (by decide)
      norm_num at this ⊢
      exact this
    have hnear : (100 * after : Nat) / (total : ℚ)
        ≤ (95 * 2 ^ 40 - 1) / 2 ^ 40 := by
      rw [div_le_div_iff₀ htotal' (by positivity)]
      have hnat : 100 * after * 2 ^ 40 + total ≤ 95 * 2 ^ 40 * total := by
        omega
      have hcast : ((100 * after : Nat) : ℚ) * 2 ^ 40 + total
          ≤ 95 * 2 ^ 40 * total := by exact_mod_cast hnat
      linarith
    have hfl := d.mono hnear
    rw [hkeep] at hfl
    exact hfl.trans_lt (by norm_num)

/-- The fewest pages that satisfy `main`. -/
def enough (total : Nat) : Nat := (95 * total + 99) / 100

/-- The tool is content if every slice is done, nothing failed and enough
pages are in. -/
theorem verdict_zero (hafter : rep.pagesAfter < 2 ^ 40) (hpos : 0 < total)
    (htotal : total < 2 ^ 40) :
    verdict d total rep failed = 0 ↔ rep.slicesTotal ≤ rep.slicesDone ∧
      failed = false ∧ enough total ≤ rep.pagesAfter := by
  have hpct : pct d rep.pagesAfter total < 95
      ↔ 100 * rep.pagesAfter < 95 * total := pct_lt hafter hpos htotal
  unfold verdict enough
  by_cases hdone : rep.slicesDone < rep.slicesTotal
  case pos =>
    rw [if_pos hdone]
    omega
  rw [if_neg hdone]
  by_cases hshort : (total : Int) - rep.pagesAfter ≠ 0
  · rw [if_pos hshort, if_neg (by omega)]
    cases failed with
    | true => simp
    | false =>
        by_cases hlt : pct d rep.pagesAfter total < 95
        · have := hpct.mp hlt
          rw [if_pos (.inl hlt)]
          omega
        · have := mt hpct.mpr hlt
          rw [if_neg (by simp [hlt])]
          simp only [true_and, true_iff]
          omega
  · rw [if_neg hshort]
    cases failed with
    | true => simp
    | false =>
        simp only [Bool.false_eq_true, if_false, true_and, true_iff]
        omega

end Verdict

section Exit

variable {d : Doubles} {s : Server} {pageSize : Nat}

/-- The pages have room for the bytes. -/
theorem le_pagesIn_mul {ps n : Nat} (hps : 0 < ps) :
    n ≤ pagesIn ps n * ps := by
  by_contra h
  exact absurd ((lt_pagesIn hps).mpr (Nat.not_le.mp h)) (Nat.lt_irrefl _)

/-- The mapping of a server has a byte, and fewer than 2^40. -/
theorem map_bounds (hs : Ranged s) :
    0 < s.map.length ∧ s.map.length < 2 ^ 40 := by
  have hpos := hs.pos
  have hlt := s.rows32.toNat_lt
  rw [hs.size]
  simp only [ROW_BYTES]
  omega

/-- The pages `main` counts are its own machine's. -/
theorem totalPages_statOf (hs : Ranged s) (resident : Nat)
    (served : UInt64) :
    totalPages pageSize (statOf s resident served)
      = pagesIn pageSize s.map.length := by
  rw [totalPages, pagesIn, hs.size, hs.rows]
  rfl

/-- What an exit status of 0 is taken to mean: the sweep was done, it
did every slice, most of the server's pages were resident after it, and
so was the charge, where it could be read. -/
structure Success (s : Server) (out : UInt32 × Option RechargeReport)
    (cgroup : Option Charges) : Prop where
  status : out.1 = ST_OK
  report : ∃ rep, out.2 = some rep ∧ rep.slicesDone = rep.slicesTotal ∧
    95 * pagesIn s.pageSize s.map.length ≤ 100 * rep.pagesAfter.toNat
  charge : ∀ before after, cgroup = some (before, some after) →
    (s.map.length : Int) ≤ 2 * after

/-- `main` on the answers of a server whose recharge_map came to
`out`. -/
def exitStatus (d : Doubles) (s : Server) (pageSize : Nat) (arg : UInt16)
    (resident : Nat) (served : UInt64)
    (out : UInt32 × Option RechargeReport) (cgroup : Option Charges) : Nat :=
  main d pageSize arg.toNat false (.ok (statOf s resident served))
    (told out) cgroup

/-- What the tool exits with, from what it is told. -/
theorem exitStatus_eq (hs : Ranged s) (arg : UInt16) (resident : Nat)
    (served : UInt64) (out : UInt32 × Option RechargeReport)
    (cgroup : Option Charges) :
    exitStatus d s pageSize arg resident served out cgroup
      = match told out with
        | .error _ => 1
        | .ok rep => verdict d (pagesIn pageSize s.map.length) rep
            (chargeFailed (pagesIn pageSize s.map.length * pageSize)
              cgroup) := by
  have harg := arg.toNat_lt
  have hslice : ¬ ¬ (0 ≤ (arg.toNat : Int) ∧ (arg.toNat : Int) ≤ 0xFFFF) := by
    omega
  unfold exitStatus main
  rw [if_neg hslice]
  simp only [totalPages_statOf hs]
  rfl

/-- Where the pages that satisfy `main` are most of the server's, 0
means success. -/
theorem verdict_holds (hs : Ranged s) (hpos : 0 < s.pageSize)
    (hpage : 0 < pageSize)
    (henough : 95 * pagesIn s.pageSize s.map.length
      ≤ 100 * enough (pagesIn pageSize s.map.length))
    {arg : UInt16} {tr : Log} {out : UInt32 × Option RechargeReport}
    (hrun : Prog.Does (rechargeMap s arg.toUInt32) tr out) {resident : Nat}
    {served : UInt64} {cgroup : Option Charges}
    (h : exitStatus d s pageSize arg resident served out cgroup = 0) :
    Success s out cgroup := by
  obtain ⟨hlen, hbig⟩ := map_bounds hs
  rw [exitStatus_eq hs] at h
  obtain ⟨st, rep⟩ := out
  by_cases hst : st = ST_OK
  case neg =>
    have htold : told (st, rep) = .error (.status st.toNat) := if_pos hst
    rw [htold] at h
    cases h
  cases rep with
  | none =>
      have htold : told (st, none) = .error .structError :=
        if_neg (not_not.mpr hst)
      rw [htold] at h
      cases h
  | some rep =>
      obtain ⟨hdone, hpages, -, -⟩ := rechargeMap_reports hpos hbig hrun
      rw [show told (st, some rep) = _ from if_neg (not_not.mpr hst)] at h
      have hmany := pagesIn_le (n := s.map.length) hpos
      have htotal := pagesIn_le (n := s.map.length) hpage
      have htotal0 : 0 < pagesIn pageSize s.map.length :=
        (lt_pagesIn hpage).mpr (by omega)
      obtain ⟨hall, hcharge, hafter⟩ := (verdict_zero (by
        show rep.pagesAfter.toNat < _
        omega) htotal0 (by omega)).mp h
      refine ⟨hst, ⟨rep, rfl, ?_, ?_⟩, fun before after hc => ?_⟩
      · exact UInt32.toNat_inj.mp (Nat.le_antisymm hdone hall)
      · exact henough.trans (Nat.mul_le_mul_left 100 hafter)
      · rw [hc] at hcharge
        have hhalf := of_decide_eq_false hcharge
        have htable := le_pagesIn_mul (n := s.map.length) hpage
        have heven : s.map.length % 2 = 0 := by
          rw [hs.size]
          simp only [ROW_BYTES]
          omega
        omega

/-- Where they are not, the server can report as many as satisfy `main`
and no more, and the exit status is 0. -/
theorem verdict_fails (hs : Ranged s) (hpos : 0 < s.pageSize)
    (hpage : 0 < pageSize)
    (hfew : 100 * enough (pagesIn pageSize s.map.length)
      < 95 * pagesIn s.pageSize s.map.length) :
    ∃ tr rep, Prog.Does (rechargeMap s 0) tr (ST_OK, some rep) ∧
      100 * rep.pagesAfter.toNat < 95 * pagesIn s.pageSize s.map.length ∧
      ∀ resident served,
        exitStatus d s pageSize 0 resident served (ST_OK, some rep) none
          = 0 := by
  obtain ⟨hlen, hbig⟩ := map_bounds hs
  have hmany := pagesIn_le (n := s.map.length) hpos
  have htotal := pagesIn_le (n := s.map.length) hpage
  have htotal0 : 0 < pagesIn pageSize s.map.length :=
    (lt_pagesIn hpage).mpr (by omega)
  obtain ⟨tr, rep, hrun, hdone, hafter⟩ := rechargeMap_shows hpos hbig
    (show enough (pagesIn pageSize s.map.length)
      ≤ pagesIn s.pageSize s.map.length by omega)
  refine ⟨tr, rep, hrun, by rw [hafter]; exact hfew, fun _ _ => ?_⟩
  rw [exitStatus_eq hs]
  refine (verdict_zero ?_ htotal0 (by omega)).mpr ⟨?_, rfl, ?_⟩
  · show rep.pagesAfter.toNat < _
    omega
  · show rep.slicesTotal.toNat ≤ rep.slicesDone.toNat
    rw [hdone]
  · exact hafter.ge

end Exit

/-- An exit status of 0 means success exactly if the pages that satisfy
`main`, 95% of its own machine's, are 95% of the server's: whatever
recharge_map reports, and whatever is charged. -/
theorem recharge_verdict (d : Doubles) (s : Server) (hs : Ranged s)
    (hpos : 0 < s.pageSize) (pageSize : Nat) (hpage : 0 < pageSize) :
    (∀ arg tr out resident served cgroup,
      Prog.Does (rechargeMap s arg.toUInt32) tr out →
      exitStatus d s pageSize arg resident served out cgroup = 0 →
      Success s out cgroup)
      ↔ 95 * pagesIn s.pageSize s.map.length
        ≤ 100 * enough (pagesIn pageSize s.map.length) := by
  constructor
  · intro hall
    by_contra hfew
    obtain ⟨tr, rep, hrun, hlow, hexit⟩ := verdict_fails (d := d) hs hpos
      hpage (Nat.not_le.mp hfew)
    obtain ⟨rep', heq, -, hmost⟩ := (hall 0 tr _ 0 0 none hrun
      (hexit 0 0)).report
    cases heq
    omega
  · intro henough arg tr out resident served cgroup hrun h
    exact verdict_holds hs hpos hpage henough hrun h

/-- No rounding at all. -/
def Doubles.exact : Doubles := ⟨id, monotone_id, fun _ _ _ _ => rfl⟩

/-- 26 rows, which lie on two pages of 4 KiB and on one of 64. -/
def twoPages : Server :=
  { map := List.replicate 4160 0, pageSize := 4096, baseRow := 0
    rowCount := 26, base32 := 0, rows32 := 26, maxRows := 8192
    threads := 8 }

/-- The range of those 26 rows is one a server may have. -/
theorem twoPages_ranged : Ranged twoPages where
  base := rfl
  rows := rfl
  pos := by decide
  fits := by decide
  size := List.length_replicate
  maxRows := by decide
  threads := by decide

/-- Two small pages, or one that is large. -/
theorem pagesIn_twoPages :
    pagesIn 4096 twoPages.map.length = 2 ∧
      pagesIn 65536 twoPages.map.length = 1 := by
  rw [show twoPages.map.length = 4160 from List.length_replicate]
  decide

/-- Seen from a machine with the server's page size. -/
theorem recharge_verdict_samePage :
    (∀ arg tr out resident served cgroup,
      Prog.Does (rechargeMap twoPages arg.toUInt32) tr out →
      exitStatus .exact twoPages 4096 arg resident served out cgroup = 0 →
      Success twoPages out cgroup)
      ↔ 95 * pagesIn twoPages.pageSize twoPages.map.length
        ≤ 100 * enough (pagesIn 4096 twoPages.map.length) :=
  recharge_verdict .exact twoPages twoPages_ranged (by decide) 4096
    (by decide)

/-- Seen from a machine with pages of 64 KiB, where one of the two pages
is back. -/
theorem recharge_misjudged :
    ∃ tr rep, Prog.Does (rechargeMap twoPages 0) tr (ST_OK, some rep) ∧
      exitStatus .exact twoPages 65536 0 1 0 (ST_OK, some rep) none = 0 ∧
      ¬ Success twoPages (ST_OK, some rep) none := by
  obtain ⟨tr, rep, hrun, hlow, hexit⟩ := verdict_fails
    (d := .exact) twoPages_ranged (by decide) (by decide : 0 < 65536) (by
      rw [show twoPages.pageSize = 4096 from rfl, pagesIn_twoPages.1,
        pagesIn_twoPages.2]
      decide)
  refine ⟨tr, rep, hrun, hexit 1 0, fun hs => ?_⟩
  obtain ⟨rep', heq, -, hmost⟩ := hs.report
  cases heq
  omega

end PleRowServer.Tools
