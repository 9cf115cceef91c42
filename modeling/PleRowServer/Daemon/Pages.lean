/-
The two page walks of rowserverd.c, every run of each: `touch_range`,
which the warm-up and RECHARGE fault pages in with, and
`resident_pages`, which STAT and RECHARGE count them with.

Both go through their range in chunks of whole pages, so a page lies in
one chunk only and the last chunk is the only one that may end inside a
page. `pagesIn_add` is that fact, and each loop's invariant is it once
more.
-/
import PleRowServer.Daemon.SweepReport

namespace PleRowServer.Daemon

open Base

variable {s : Server} {tr : Log} {ps off len : Nat}

/-- A power of two that divides 1 MiB. -/
def PageSize (ps : Nat) : Prop := ∃ j ≤ 20, ps = 2 ^ j

/-- A page has bytes. -/
theorem PageSize.pos (h : PageSize ps) : 0 < ps := by
  obtain ⟨j, -, rfl⟩ := h
  exact Nat.two_pow_pos j

/-- A chunk is whole pages. -/
theorem PageSize.dvd_chunk (h : PageSize ps) : ps ∣ WARM_CHUNK := by
  obtain ⟨j, hj, rfl⟩ := h
  exact Nat.dvd_mul_left_of_dvd (Nat.pow_dvd_pow 2 hj) 64

-- ================================================================= hints

/-- The range of a WILLNEED hint. -/
def hintAt : Did Call Reply → Option (Nat × Nat)
  | ⟨.madvise off len .willneed, _⟩ => some (off, len)
  | _ => none

/-- The ranges hinted at, in order. -/
def hints (tr : Log) : List (Nat × Nat) := tr.filterMap hintAt

/-- Hints are given in order. -/
theorem hints_append (a b : Log) : hints (a ++ b) = hints a ++ hints b :=
  List.filterMap_append

/-- A hint from a page boundary to no further than `stop`. -/
def Hinted (ps lo stop : Nat) (h : Nat × Nat) : Prop :=
  ps ∣ h.1 ∧ lo ≤ h.1 ∧ h.1 + h.2 ≤ stop

/-- The loads of a chunk come without a hint. -/
theorem touchPages_hints (pos chunk : Nat) :
    ∀ (rounds p : Nat) {tr : Log} {u : Unit},
      Prog.Does (touchPages s pos chunk rounds p) tr u → hints tr = [] := by
  intro rounds
  induction rounds with
  | zero =>
      intro p tr u h
      obtain ⟨rfl, -⟩ := Prog.does_pure.mp h
      rfl
  | succ rounds ih =>
      intro p tr u h
      unfold touchPages at h
      by_cases hp : p < chunk
      · rw [if_pos hp] at h
        obtain ⟨a, b, r, rfl, ha, hb⟩ := Prog.does_bind.mp h
        rw [Prog.does_perform.mp ha, hints_append, ih _ hb]
        rfl
      · rw [if_neg hp] at h
        obtain ⟨rfl, -⟩ := Prog.does_pure.mp h
        rfl

/-- Each chunk hints at the next one, which is inside the range. -/
theorem touchChunks_hints (hdvd : s.pageSize ∣ WARM_CHUNK) (stop : Nat) :
    ∀ (rounds pos : Nat) {tr : Log} {u : Unit}, s.pageSize ∣ pos →
      Prog.Does (touchChunks s stop rounds pos) tr u →
      ∀ h ∈ hints tr, Hinted s.pageSize pos stop h := by
  intro rounds
  induction rounds with
  | zero =>
      intro pos tr u _ h
      obtain ⟨rfl, -⟩ := Prog.does_pure.mp h
      simp [hints]
  | succ rounds ih =>
      intro pos tr u hpos h
      unfold touchChunks at h
      by_cases hlt : pos < stop
      case neg =>
        rw [if_neg hlt] at h
        obtain ⟨rfl, -⟩ := Prog.does_pure.mp h
        simp [hints]
      rw [if_pos hlt] at h
      have hrest : ∀ {t : Log} {v : Unit}, Prog.Does (do
          touchPages s pos (min (stop - pos) WARM_CHUNK)
            (min (stop - pos) WARM_CHUNK) 0
          touchChunks s stop rounds (pos + WARM_CHUNK)) t v →
          ∀ h ∈ hints t, Hinted s.pageSize pos stop h := by
        intro t v ht h hmem
        obtain ⟨a, b, x, rfl, ha, hb⟩ := Prog.does_bind.mp ht
        rw [hints_append, touchPages_hints _ _ _ _ ha] at hmem
        obtain ⟨hal, hlo, hhi⟩ := ih _ (Nat.dvd_add hpos hdvd) hb h hmem
        exact ⟨hal, by omega, hhi⟩
      simp only at h
      by_cases hnext : pos + WARM_CHUNK < stop
      · rw [if_pos hnext] at h
        obtain ⟨a, b, x, rfl, ha, hb⟩ := Prog.does_bind.mp h
        rw [Prog.does_perform.mp ha]
        intro h hmem
        rcases List.mem_cons.mp hmem with rfl | hmem
        · exact ⟨Nat.dvd_add hpos hdvd, Nat.le_add_right _ _,
            show pos + WARM_CHUNK
              + min (stop - (pos + WARM_CHUNK)) WARM_CHUNK ≤ stop by omega⟩
        · exact hrest hb h hmem
      · rw [if_neg hnext] at h
        exact hrest h

/-- Every hint is about pages of the range. -/
theorem touchRange_hints (hdvd : s.pageSize ∣ WARM_CHUNK)
    (hoff : s.pageSize ∣ off) {u : Unit}
    (h : Prog.Does (touchRange s off len) tr u) :
    ∀ h ∈ hints tr, Hinted s.pageSize off (off + len) h := by
  unfold touchRange at h
  by_cases hlen : len = 0
  · rw [if_pos hlen] at h
    obtain ⟨rfl, -⟩ := Prog.does_pure.mp h
    simp [hints]
  rw [if_neg hlen] at h
  obtain ⟨a, b, r, rfl, ha, hb⟩ := Prog.does_bind.mp h
  obtain ⟨a', c, r', rfl, ha', hc⟩ := Prog.does_bind.mp hb
  obtain ⟨d, e, u', rfl, hd, he⟩ := Prog.does_bind.mp hc
  obtain ⟨e', z, r'', rfl, he', hz⟩ := Prog.does_bind.mp he
  obtain ⟨rfl, -⟩ := Prog.does_pure.mp hz
  rw [Prog.does_perform.mp ha, Prog.does_perform.mp ha',
    Prog.does_perform.mp he', List.append_nil]
  intro h hmem
  have hmem : h = (off, min len WARM_CHUNK) ∨ h ∈ hints d := by
    rw [hints_append, hints_append, hints_append] at hmem
    simpa [hints, hintAt] using hmem
  rcases hmem with rfl | hmem
  · exact ⟨hoff, le_rfl, by show off + min len WARM_CHUNK ≤ _; omega⟩
  · exact touchChunks_hints hdvd _ _ _ hoff hd h hmem

-- ================================================================= touch

/-- Page `q` has a byte in the range. -/
def Meets (ps off len q : Nat) : Prop :=
  q * ps < off + len ∧ off < (q + 1) * ps

instance : Decidable (Meets ps off len q) :=
  inferInstanceAs (Decidable (_ ∧ _))

/-- What is read of a range, and hinted at: one byte of each page the
range meets and nothing else. -/
structure Walks (ps off len : Nat) (tr : Log) : Prop where
  once : ∀ q, (loads tr).countP (fun a => a / ps == q)
    = if Meets ps off len q then 1 else 0
  inside : ∀ a ∈ loads tr, off ≤ a ∧ a < off + len
  hints : ∀ h ∈ hints tr, Hinted ps off (off + len) h

/-- Pages from `m` on, `n` of them, and each of them once. -/
theorem count_pages (m n q : Nat) :
    (List.range n).countP (fun k => m + k == q)
      = if m ≤ q ∧ q - m < n then 1 else 0 := by
  by_cases hmem : m ≤ q ∧ q - m < n
  · rw [if_pos hmem]
    have : (List.range n).countP (fun k => m + k == q)
        = (List.range n).count (q - m) := by
      refine List.countP_congr fun k _ => ?_
      simp only [beq_iff_eq]
      omega
    rw [this]
    exact List.count_eq_one_of_mem List.nodup_range
      (List.mem_range.mpr hmem.2)
  · rw [if_neg hmem]
    refine List.countP_eq_zero.mpr fun k hk => ?_
    have := List.mem_range.mp hk
    simp only [beq_iff_eq]
    omega

/-- `touch_range` walks the range. -/
theorem touchRange_walks (hps : PageSize s.pageSize)
    (hoff : s.pageSize ∣ off) {u : Unit}
    (h : Prog.Does (touchRange s off len) tr u) :
    Walks s.pageSize off len tr := by
  have hpos := hps.pos
  have hloads : loads tr = (List.range (pagesIn s.pageSize len)).map
      fun k => off + k * s.pageSize := by
    by_cases hlen : len = 0
    · unfold touchRange at h
      rw [if_pos hlen] at h
      obtain ⟨rfl, -⟩ := Prog.does_pure.mp h
      rw [hlen, pagesIn_zero hpos]
      rfl
    · exact (touchRange_does hpos hps.dvd_chunk (by omega) h).loads
  refine ⟨fun q => ?_, ?_, touchRange_hints hps.dvd_chunk hoff h⟩
  · obtain ⟨m, hm⟩ := hoff
    rw [hloads, List.countP_map]
    have hpage : ((fun a => a / s.pageSize == q) ∘
        fun k => off + k * s.pageSize) = fun k => m + k == q := by
      funext k
      simp only [Function.comp_apply, hm]
      rw [Nat.mul_comm s.pageSize, ← Nat.add_mul, Nat.mul_div_cancel _ hpos]
    rw [hpage, count_pages]
    have hiff : (m ≤ q ∧ q - m < pagesIn s.pageSize len)
        ↔ Meets s.pageSize off len q := by
      unfold Meets
      rw [lt_pagesIn hpos, hm, Nat.mul_comm s.pageSize m,
        Nat.mul_lt_mul_right hpos, Nat.lt_succ_iff]
      constructor
      · intro h
        obtain ⟨k, rfl⟩ := Nat.exists_eq_add_of_le h.1
        rw [Nat.add_sub_cancel_left] at h
        rw [Nat.add_mul]
        omega
      · intro h
        obtain ⟨k, rfl⟩ := Nat.exists_eq_add_of_le h.2
        rw [Nat.add_sub_cancel_left]
        rw [Nat.add_mul] at h
        omega
    simp only [hiff]
  · intro a ha
    rw [hloads] at ha
    obtain ⟨k, hk, rfl⟩ := List.mem_map.mp ha
    have := (lt_pagesIn hpos).mp (List.mem_range.mp hk)
    omega

-- ============================================================= residency

/-- A mincore call that asks for whole pages from a page boundary, and
for no more than the vector has room for. -/
def AsksPages (ps n : Nat) : Did Call Reply → Prop
  | ⟨.mincore off len, _⟩ => ps ∣ off ∧ off + len ≤ n ∧
      pagesIn ps len ≤ MINCORE_PAGES
  | _ => True

/-- A mincore call that succeeded, and told which of its pages are
resident. -/
def Shows (ps : Nat) (resident : Nat → Bool) : Did Call Reply → Prop
  | ⟨.mincore off len, (r : Option (List UInt8))⟩ => ∃ vec, r = some vec ∧
      ∀ i < pagesIn ps len,
        (vec.getD i 0 &&& 1 ≠ 0 ↔ resident (off / ps + i) = true)
  | _ => True

/-- A window of `m` pages has them all, or is the last. -/
theorem pagesIn_window (hps : 0 < ps) (m n : Nat) :
    pagesIn ps n = pagesIn ps (min n (m * ps)) + pagesIn ps (n - m * ps) ∧
      pagesIn ps (min n (m * ps)) ≤ m ∧
      (pagesIn ps (n - m * ps) = 0 ∨ pagesIn ps (min n (m * ps)) = m) := by
  by_cases hlast : n ≤ m * ps
  · rw [Nat.min_eq_left hlast, show n - m * ps = 0 by omega, pagesIn_zero hps]
    refine ⟨rfl, ?_, .inl rfl⟩
    by_contra hlt
    have := (lt_pagesIn hps).mp (Nat.not_le.mp hlt)
    omega
  · have hfull := pagesIn_add (n := 0) hps m
    rw [Nat.add_zero, pagesIn_zero hps, Nat.add_zero] at hfull
    rw [Nat.min_eq_right (by omega), hfull, ← pagesIn_add hps]
    exact ⟨by congr 1; omega, le_rfl, .inr rfl⟩

/-- The resident pages among those from page `m` on that the last `n`
bytes of a mapping reach. -/
def residentFrom (ps : Nat) (resident : Nat → Bool) (m n : Nat) : Nat :=
  (List.range (pagesIn ps n)).countP fun i => resident (m + i)

/-- A window and what is left after it. -/
theorem residentFrom_window (hps : 0 < ps) (resident : Nat → Bool)
    (m w n : Nat) :
    residentFrom ps resident m n
      = (List.range (pagesIn ps (min n (w * ps)))).countP
          (fun i => resident (m + i))
        + residentFrom ps resident (m + w) (n - w * ps) := by
  obtain ⟨hsplit, -, hlast⟩ := pagesIn_window hps w n
  unfold residentFrom
  rw [hsplit, List.range_add, List.countP_append, List.countP_map]
  congr 1
  rcases hlast with hzero | hfull
  · rw [hzero]
    rfl
  · rw [hfull]
    refine List.countP_congr fun i _ => ?_
    simp only [Function.comp_apply, Nat.add_assoc]

/-- What the loop does from window `k` on: ask for the pages left, and
add the resident ones. -/
structure Counts (s : Server) (k n : Nat) (tr : Log) (r : Option Nat) :
    Prop where
  asks : ∀ d ∈ tr, AsksPages s.pageSize s.map.length d
  count : ∀ resident, (∀ d ∈ tr, Shows s.pageSize resident d) →
    r = some (n + residentFrom s.pageSize resident (k * MINCORE_PAGES)
      (s.map.length - k * (MINCORE_PAGES * s.pageSize)))

/-- Past the end of the map there is nothing left to count. -/
theorem Counts.nothing {k n : Nat} (hpos : 0 < s.pageSize)
    (hleft : s.map.length - k * (MINCORE_PAGES * s.pageSize) = 0) :
    Counts s k n [] (some n) := by
  refine ⟨by simp, fun resident _ => ?_⟩
  unfold residentFrom
  rw [hleft, pagesIn_zero hpos]
  rfl

/-- The loop of `resident_pages`. -/
theorem residentLoop_counts (hpos : 0 < s.pageSize) :
    ∀ (rounds k n : Nat) {tr : Log} {r : Option Nat},
      s.map.length - k * (MINCORE_PAGES * s.pageSize) ≤ rounds →
      Prog.Does (residentLoop s rounds (k * (MINCORE_PAGES * s.pageSize)) n)
        tr r → Counts s k n tr r := by
  intro rounds
  induction rounds with
  | zero =>
      intro k n tr r hle h
      obtain ⟨rfl, rfl⟩ := Prog.does_pure.mp h
      exact .nothing hpos (by omega)
  | succ rounds ih =>
      intro k n tr r hle h
      have hspan : 0 < MINCORE_PAGES * s.pageSize :=
        Nat.mul_pos (by decide) hpos
      unfold residentLoop at h
      by_cases hoff : k * (MINCORE_PAGES * s.pageSize) < s.map.length
      case neg =>
        rw [if_neg hoff] at h
        obtain ⟨rfl, rfl⟩ := Prog.does_pure.mp h
        exact .nothing hpos (by omega)
      rw [if_pos hoff] at h
      obtain ⟨a, b, vec, rfl, ha, hb⟩ := Prog.does_bind.mp h
      obtain rfl := Prog.does_perform.mp ha
      have hpage : k * (MINCORE_PAGES * s.pageSize)
          = k * MINCORE_PAGES * s.pageSize := by rw [Nat.mul_assoc]
      obtain ⟨-, hroom, -⟩ := pagesIn_window hpos MINCORE_PAGES
        (s.map.length - k * (MINCORE_PAGES * s.pageSize))
      have hasks : AsksPages s.pageSize s.map.length
          ⟨.mincore (k * (MINCORE_PAGES * s.pageSize))
            (min (s.map.length - k * (MINCORE_PAGES * s.pageSize))
              (MINCORE_PAGES * s.pageSize)), vec⟩ :=
        ⟨⟨k * MINCORE_PAGES, by rw [hpage, Nat.mul_comm]⟩, by omega, hroom⟩
      cases vec with
      | none =>
          obtain ⟨rfl, -⟩ := Prog.does_pure.mp hb
          refine ⟨fun d hd => ?_, fun resident hshow => ?_⟩
          · obtain rfl := List.mem_singleton.mp hd
            exact hasks
          · obtain ⟨vec, hvec, -⟩ := hshow _ (List.mem_singleton_self _)
            cases hvec
      | some vec =>
          have hb' := hb
          rw [← Nat.succ_mul] at hb
          have hrest := ih (k + 1) _ (by rw [Nat.succ_mul]; omega) hb
          refine ⟨fun d hd => ?_, fun resident hshow => ?_⟩
          · rcases List.mem_cons.mp hd with rfl | hd
            · exact hasks
            · exact hrest.asks d hd
          · obtain ⟨vec', hvec, hbits⟩ := hshow _ (List.mem_cons_self ..)
            obtain rfl := Option.some.inj hvec
            rw [hpage, Nat.mul_div_cancel _ hpos] at hbits
            rw [hrest.count resident fun d hd =>
              hshow d (List.mem_cons_of_mem _ hd),
              residentFrom_window hpos resident (k * MINCORE_PAGES)
                MINCORE_PAGES, Nat.add_assoc, Nat.succ_mul, Nat.succ_mul,
              Nat.sub_add_eq]
            congr 3
            refine List.countP_congr fun i hi => ?_
            have := hbits i (by
              rw [← hpage]
              exact List.mem_range.mp hi)
            simpa using this

/-- Every page of the mapping that is resident, counted once. -/
theorem residentPages_counts (hpos : 0 < s.pageSize) {n : Nat}
    (h : Prog.Does (residentPages s) tr n) :
    (∀ d ∈ tr, AsksPages s.pageSize s.map.length d) ∧
      ∀ resident, (∀ d ∈ tr, Shows s.pageSize resident d) →
        n = (List.range (pagesIn s.pageSize s.map.length)).countP
          resident := by
  obtain ⟨a, b, u, rfl, ha, hb⟩ := Prog.does_bind.mp h
  obtain ⟨c, e, m, rfl, hc, he⟩ := Prog.does_bind.mp hb
  obtain ⟨f, z, v, rfl, hf, hz⟩ := Prog.does_bind.mp he
  obtain ⟨rfl, rfl⟩ := Prog.does_pure.mp hz
  have hloop : Counts s 0 0 c m :=
    residentLoop_counts hpos s.map.length 0 0 (by omega)
      (by rw [Nat.zero_mul]; exact hc)
  refine ⟨fun d hd => ?_, fun resident hshow => ?_⟩
  · rw [Prog.does_perform.mp ha, Prog.does_perform.mp hf] at hd
    simp only [List.mem_append, List.mem_singleton, List.append_nil] at hd
    rcases hd with rfl | hd | rfl
    · trivial
    · exact hloop.asks d hd
    · trivial
  · have := hloop.count resident fun d hd => hshow d (by simp [hd])
    rw [this]
    simp [residentFrom]

/-- Whatever mincore answers, no more pages are counted than there
are. -/
theorem residentLoop_le (hpos : 0 < s.pageSize) :
    ∀ (rounds k n : Nat) {tr : Log} {r : Nat},
      Prog.Does (residentLoop s rounds (k * (MINCORE_PAGES * s.pageSize)) n)
        tr (some r) →
      r ≤ n + pagesIn s.pageSize
        (s.map.length - k * (MINCORE_PAGES * s.pageSize)) := by
  intro rounds
  induction rounds with
  | zero =>
      intro k n tr r h
      obtain ⟨-, heq⟩ := Prog.does_pure.mp h
      cases heq
      exact Nat.le_add_right _ _
  | succ rounds ih =>
      intro k n tr r h
      unfold residentLoop at h
      by_cases hoff : k * (MINCORE_PAGES * s.pageSize) < s.map.length
      case neg =>
        rw [if_neg hoff] at h
        obtain ⟨-, heq⟩ := Prog.does_pure.mp h
        cases heq
        exact Nat.le_add_right _ _
      rw [if_pos hoff] at h
      obtain ⟨a, b, vec, rfl, -, hb⟩ := Prog.does_bind.mp h
      cases vec with
      | none =>
          obtain ⟨-, heq⟩ := Prog.does_pure.mp hb
          cases heq
      | some vec =>
          rw [← Nat.succ_mul] at hb
          refine (ih (k + 1) _ hb).trans ?_
          obtain ⟨hsplit, -⟩ := pagesIn_window hpos MINCORE_PAGES
            (s.map.length - k * (MINCORE_PAGES * s.pageSize))
          rw [hsplit, Nat.add_assoc]
          refine Nat.add_le_add_left (Nat.add_le_add ?_ (le_of_eq ?_)) n
          · exact List.countP_le_length.trans_eq List.length_range
          · rw [Nat.succ_mul, Nat.sub_add_eq]

/-- No more pages are resident than there are. -/
theorem residentPages_le (hpos : 0 < s.pageSize) {n : Nat}
    (h : Prog.Does (residentPages s) tr n) :
    n ≤ pagesIn s.pageSize s.map.length := by
  obtain ⟨a, b, u, rfl, -, hb⟩ := Prog.does_bind.mp h
  obtain ⟨c, e, m, rfl, hc, he⟩ := Prog.does_bind.mp hb
  obtain ⟨f, z, v, rfl, -, hz⟩ := Prog.does_bind.mp he
  obtain ⟨-, rfl⟩ := Prog.does_pure.mp hz
  cases m with
  | none => exact Nat.zero_le _
  | some m =>
      have := residentLoop_le hpos s.map.length 0 0
        (by rw [Nat.zero_mul]; exact hc)
      simpa using this

/-- Both walks, every run of each. -/
theorem pages_walked (s : Server) (hps : PageSize s.pageSize) :
    (∀ off len tr u, s.pageSize ∣ off → off + len ≤ s.map.length →
      Prog.Does (touchRange s off len) tr u → Walks s.pageSize off len tr) ∧
    (∀ tr n, Prog.Does (residentPages s) tr n →
      (∀ d ∈ tr, AsksPages s.pageSize s.map.length d) ∧
        ∀ resident, (∀ d ∈ tr, Shows s.pageSize resident d) →
          n = (List.range (pagesIn s.pageSize s.map.length)).countP
            resident) :=
  ⟨fun _ _ _ _ hoff _ h => touchRange_walks hps hoff h,
    fun _ _ h => residentPages_counts hps.pos h⟩

theorem pages_walked_threeSlices :
    threeSlices.map.length = 512 * 4096 + 5000 ∧
    (∀ off len tr u, 4096 ∣ off → off + len ≤ threeSlices.map.length →
      Prog.Does (touchRange threeSlices off len) tr u →
        Walks 4096 off len tr) ∧
    (∀ tr n, Prog.Does (residentPages threeSlices) tr n →
      (∀ d ∈ tr, AsksPages 4096 threeSlices.map.length d) ∧
        ∀ resident, (∀ d ∈ tr, Shows 4096 resident d) →
          n = (List.range (pagesIn 4096 threeSlices.map.length)).countP
            resident) :=
  ⟨threeSlices_length, pages_walked threeSlices ⟨12, by decide, rfl⟩⟩

end PleRowServer.Daemon
