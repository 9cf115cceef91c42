/-
rowserverd.c, from the command line to a gather: the checks main makes
before it serves, and the copy loop that relies on them.

# One compare for both ends

`gather_rows` tests an id with a single unsigned compare of `id - base`
against the row count. That is the range test only because main lets no
range past the largest u32 through (`Ranged`): an id below the base then
wraps to a number at least as large as the row count
(`local_lt_iff`). The same bounds keep every product of the loop inside
64 bits.

Memory is modelled with its bounds: a load or a copy outside its buffer
is a `Fault`, so a run that ends without one made every access in
bounds.
-/
import PleRowServer.Daemon.Codec

namespace PleRowServer.Daemon

open Base

-- ========================================================== command line

def DEFAULT_PORT : UInt64 := 9000
def DEFAULT_MAX_ROWS : UInt32 := 131072
def DEFAULT_THREADS : Nat := 8
def MAX_MAX_ROWS : UInt64 := 2097152
def MAX_THREADS : UInt64 := 256

/-- Why main ends before it serves. -/
inductive Refusal
  | help | usage | badBaseRow | badRowCount | badPort | badMaxRows
  | badThreads | noRows | doesNotFit | openFailed | statFailed | wrongSize
  | mmapFailed | listenFailed
deriving DecidableEq, Repr

/-- One option as getopt_long returns it; a number is what parse_u64
made of its text. -/
inductive Opt
  | file (path : String)
  | baseRow (v : Option UInt64)
  | rowCount (v : Option UInt64)
  | port (v : Option UInt64)
  | maxRows (v : Option UInt64)
  | threads (v : Option UInt64)
  | warm | noWarm | help | unknown
deriving DecidableEq, Repr

/-- main's variables while it reads the options. -/
structure Settings where
  path : Option String := none
  baseRow : UInt64 := 0
  rowCount : UInt64 := 0
  haveBase : Bool := false
  haveCount : Bool := false
  port : UInt64 := DEFAULT_PORT
  maxRows : UInt32 := DEFAULT_MAX_ROWS
  threads : Nat := DEFAULT_THREADS
  warm : Bool := true
deriving DecidableEq, Repr

/-- The body of the option loop. -/
def readOpt (o : Settings) : Opt → Except Refusal Settings
  | .file path => .ok { o with path := some path }
  | .baseRow none => .error .badBaseRow
  | .baseRow (some v) => .ok { o with baseRow := v, haveBase := true }
  | .rowCount none => .error .badRowCount
  | .rowCount (some v) => .ok { o with rowCount := v, haveCount := true }
  | .port none => .error .badPort
  | .port (some n) =>
      if n < 1 || n > 65535 then .error .badPort else .ok { o with port := n }
  | .maxRows none => .error .badMaxRows
  | .maxRows (some n) =>
      if n < 1 || n > MAX_MAX_ROWS then .error .badMaxRows
      else .ok { o with maxRows := n.toUInt32 }
  | .threads none => .error .badThreads
  | .threads (some n) =>
      if n < 1 || n > MAX_THREADS then .error .badThreads
      else .ok { o with threads := n.toNat }
  | .warm => .ok { o with warm := true }
  | .noWarm => .ok { o with warm := false }
  | .help => .error .help
  | .unknown => .error .usage

/-- The option loop. -/
def readOpts : List Opt → Settings → Except Refusal Settings
  | [], o => .ok o
  | opt :: opts, o =>
      match readOpt o opt with
      | .error r => .error r
      | .ok o => readOpts opts o

-- ================================================================ setup

/-- A regular file: its size is an off_t. -/
structure File where
  bytes : List UInt8
  size_lt : bytes.length < 2 ^ 63

/-- What the system answers main before it serves: the file a path
opens, if it can be opened, whether fstat and mmap succeed, the page
size, and for `listen_on` whether there is a socket, whether a port can
be bound and whether the socket listens. -/
structure Host where
  file : String → Option File
  fstat : Bool
  mmap : Bool
  pageSize : Nat
  socket : Bool
  bind : UInt64 → Bool
  listen : Bool

/-- main, from the end of the option loop to the filled-in server. -/
def setup (o : Settings) (host : Host) : Except Refusal Server :=
  if o.path.isNone || !o.haveBase || !o.haveCount then .error .usage
  else if o.rowCount = 0 then .error .noRows
  else if o.baseRow > UInt64.ofNat UINT32_MAX ||
      o.rowCount > UInt64.ofNat UINT32_MAX ||
      o.baseRow + o.rowCount > UInt64.ofNat UINT32_MAX then
    .error .doesNotFit
  else match o.path.bind host.file with
    | none => .error .openFailed
    | some file =>
        if !host.fstat then .error .statFailed
        else if UInt64.ofNat file.bytes.length
            ≠ o.rowCount * UInt64.ofNat ROW_BYTES then .error .wrongSize
        else if !host.mmap then .error .mmapFailed
        else .ok
          { map := file.bytes
            pageSize := host.pageSize
            baseRow := o.baseRow
            rowCount := o.rowCount
            base32 := o.baseRow.toUInt32
            rows32 := o.rowCount.toUInt32
            maxRows := o.maxRows
            threads := o.threads }

/-- main, up to the filled-in server. -/
def accepts (opts : List Opt) (host : Host) : Except Refusal Server :=
  match readOpts opts {} with
  | .error r => .error r
  | .ok o => setup o host

/-- The file main opens. -/
def opened (opts : List Opt) (host : Host) : Option File :=
  match readOpts opts {} with
  | .error _ => none
  | .ok o => o.path.bind host.file

-- =============================================================== gather

/-- An access outside its buffer. -/
inductive Fault
  | load (off : Nat)
  | store (off : Nat)
deriving DecidableEq, Repr

/-- `rd_u32(p + off)`. -/
def load32 (p : List UInt8) (off : UInt64) : Except Fault UInt32 :=
  if off.toNat + 4 ≤ p.length then .ok (rdU32 p off.toNat)
  else .error (.load off.toNat)

/-- `memcpy(dst + d, src + s, n)`. -/
def memcpy (dst : List UInt8) (d : UInt64) (src : List UInt8) (s : UInt64)
    (n : Nat) : Except Fault (List UInt8) :=
  if s.toNat + n ≤ src.length then
    if d.toNat + n ≤ dst.length then
      .ok (splice dst d.toNat (bytesAt src s.toNat n))
    else .error (.store d.toNat)
  else .error (.load s.toNat)

/-- The loop of gather_rows at `i`, its `d` at offset `d` of
`buf`. The ids left bound its rounds. -/
def gatherLoop (s : Server) (ids : List UInt8) (count : UInt32)
    (d : UInt64) :
    Nat → UInt32 → List UInt8 → Except Fault (UInt32 × List UInt8)
  | 0, _, buf => .ok (ST_OK, buf)
  | rounds + 1, i, buf =>
      if i < count then
        match load32 ids (4 * i.toUInt64) with
        | .error e => .error e
        | .ok id =>
            let local_ := id - s.base32
            if local_ ≥ s.rows32 then .ok (ST_RANGE, buf)
            else
              match memcpy buf
                  (d + i.toUInt64 * UInt64.ofNat ROW_BYTES) s.map
                  (local_.toUInt64 * UInt64.ofNat ROW_BYTES) ROW_BYTES with
              | .error e => .error e
              | .ok buf => gatherLoop s ids count d rounds (i + 1) buf
      else .ok (ST_OK, buf)

/-- `gather_rows(s, ids, count, buf + d)`. -/
def gatherRows (s : Server) (ids : List UInt8) (count : UInt32)
    (buf : List UInt8) (d : UInt64) : Except Fault (UInt32 × List UInt8) :=
  gatherLoop s ids count d count.toNat 0 buf

/-- Bytes serve_conn allocates for an answer. -/
def respSize (s : Server) : UInt64 :=
  UInt64.ofNat HDR_BYTES + s.maxRows.toUInt64 * UInt64.ofNat ROW_BYTES

/-- Bytes serve_conn allocates for the ids of a request. -/
def idsSize (s : Server) : UInt64 := s.maxRows.toUInt64 * 4

-- ============================================================ main's word

/-- What a server main accepted guarantees: a range of u32 ids, a file
of exactly its rows, and a bounded request. -/
structure Ranged (s : Server) : Prop where
  base : s.base32.toNat = s.baseRow.toNat
  rows : s.rows32.toNat = s.rowCount.toNat
  pos : 0 < s.rows32.toNat
  fits : s.base32.toNat + s.rows32.toNat ≤ UINT32_MAX
  size : s.map.length = s.rows32.toNat * ROW_BYTES
  maxRows : 0 < s.maxRows.toNat ∧ s.maxRows.toNat ≤ 2 ^ 21
  threads : 0 < s.threads ∧ s.threads ≤ 256

/-- Every option keeps the bounds main puts on max_rows and threads. -/
def Bounded (o : Settings) : Prop :=
  (0 < o.maxRows.toNat ∧ o.maxRows.toNat ≤ 2 ^ 21) ∧
    0 < o.threads ∧ o.threads ≤ 256

theorem readOpt_bounded {o o' : Settings} {opt : Opt}
    (h : readOpt o opt = .ok o') (hb : Bounded o) : Bounded o' := by
  obtain ⟨hm, ht⟩ := hb
  cases opt with
  | file path => cases h; exact ⟨hm, ht⟩
  | baseRow v => cases v <;> cases h; exact ⟨hm, ht⟩
  | rowCount v => cases v <;> cases h; exact ⟨hm, ht⟩
  | port v =>
      cases v with
      | none => cases h
      | some n =>
          simp only [readOpt] at h
          split at h <;> cases h
          exact ⟨hm, ht⟩
  | maxRows v =>
      cases v with
      | none => cases h
      | some n =>
          simp only [readOpt] at h
          split at h
          case isTrue => cases h
          case isFalse hn =>
            cases h
            simp only [Bool.or_eq_true, decide_eq_true_eq, not_or,
              UInt64.not_lt, gt_iff_lt] at hn
            have hlo : 1 ≤ n.toNat := UInt64.le_iff_toNat_le.mp hn.1
            have hhi : n.toNat ≤ 2097152 := UInt64.le_iff_toNat_le.mp hn.2
            refine ⟨?_, ht⟩
            simp only [UInt64.toNat_toUInt32]
            omega
  | threads v =>
      cases v with
      | none => cases h
      | some n =>
          simp only [readOpt] at h
          split at h
          case isTrue => cases h
          case isFalse hn =>
            cases h
            simp only [Bool.or_eq_true, decide_eq_true_eq, not_or,
              UInt64.not_lt, gt_iff_lt] at hn
            have hlo : 1 ≤ n.toNat := UInt64.le_iff_toNat_le.mp hn.1
            have hhi : n.toNat ≤ 256 := UInt64.le_iff_toNat_le.mp hn.2
            exact ⟨hm, by simp only; omega⟩
  | warm => cases h; exact ⟨hm, ht⟩
  | noWarm => cases h; exact ⟨hm, ht⟩
  | help => cases h
  | unknown => cases h

theorem readOpts_bounded {opts : List Opt} {o o' : Settings}
    (h : readOpts opts o = .ok o') (hb : Bounded o) : Bounded o' := by
  induction opts generalizing o with
  | nil => cases h; exact hb
  | cons opt opts ih =>
      simp only [readOpts] at h
      split at h
      case h_1 => cases h
      case h_2 o₁ h₁ => exact ih h (readOpt_bounded h₁ hb)

/-- The range check leaves no room for a wrapped sum. -/
theorem range_fits {base rows : UInt64}
    (h : ¬ (base > UInt64.ofNat UINT32_MAX ||
      rows > UInt64.ofNat UINT32_MAX ||
      base + rows > UInt64.ofNat UINT32_MAX) = true) :
    base.toNat + rows.toNat ≤ UINT32_MAX ∧
      (base + rows).toNat = base.toNat + rows.toNat := by
  simp only [Bool.or_eq_true, decide_eq_true_eq, not_or, gt_iff_lt,
    UInt64.not_lt, UInt64.le_iff_toNat_le] at h
  obtain ⟨⟨hb, hr⟩, hsum⟩ := h
  change base.toNat ≤ 4294967295 at hb
  change rows.toNat ≤ 4294967295 at hr
  change (base + rows).toNat ≤ 4294967295 at hsum
  have hadd : (base + rows).toNat = base.toNat + rows.toNat := by
    rw [UInt64.toNat_add]
    omega
  exact ⟨hadd ▸ hsum, hadd⟩

/-- A u32 times the row size stays in 64 bits. -/
theorem rowOffset_toNat {x : UInt64} (h : x.toNat < 2 ^ 32) :
    (x * UInt64.ofNat ROW_BYTES).toNat = x.toNat * ROW_BYTES := by
  rw [UInt64.toNat_mul]
  show x.toNat * 160 % 2 ^ 64 = x.toNat * 160
  omega

/-- The checks before the mapping make the range and the file fit. -/
theorem setup_ranged {o : Settings} {host : Host} {s : Server}
    (h : setup o host = .ok s) (hb : Bounded o) :
    Ranged s ∧
      ∃ file, o.path.bind host.file = some file ∧ s.map = file.bytes := by
  unfold setup at h
  split at h
  case isTrue => cases h
  split at h
  case isTrue => cases h
  rename_i hzero
  split at h
  case isTrue => cases h
  rename_i hrange
  obtain ⟨hfits, -⟩ := range_fits hrange
  cases hfile : o.path.bind host.file with
  | none => rw [hfile] at h; cases h
  | some file =>
      rw [hfile] at h
      simp only at h
      split at h
      case isTrue => cases h
      split at h
      case isTrue => cases h
      rename_i hsize
      split at h
      case isTrue => cases h
      cases h
      have hmax : UINT32_MAX = 4294967295 := rfl
      have hbase : o.baseRow.toUInt32.toNat = o.baseRow.toNat := by
        rw [UInt64.toNat_toUInt32]
        omega
      have hrows : o.rowCount.toUInt32.toNat = o.rowCount.toNat := by
        rw [UInt64.toNat_toUInt32]
        omega
      have hlen : file.bytes.length = o.rowCount.toNat * ROW_BYTES := by
        have hlt := file.size_lt
        have heq := congrArg UInt64.toNat (not_not.mp hsize)
        rw [rowOffset_toNat (by omega), UInt64.toNat_ofNat'] at heq
        omega
      have hpos : 0 < o.rowCount.toNat := by
        by_contra hnot
        refine hzero (UInt64.toNat_inj.mp ?_)
        show o.rowCount.toNat = 0
        omega
      refine ⟨⟨hbase, hrows, ?_, ?_, ?_, hb.1, hb.2⟩, file, rfl, rfl⟩
      · show 0 < o.rowCount.toUInt32.toNat
        omega
      · show o.baseRow.toUInt32.toNat + o.rowCount.toUInt32.toNat ≤ _
        omega
      · show file.bytes.length = o.rowCount.toUInt32.toNat * ROW_BYTES
        rw [hrows]
        exact hlen

/-- A server main has filled in is of a range, and of the file opened. -/
theorem accepts_ranged {opts : List Opt} {host : Host} {s : Server}
    (h : accepts opts host = .ok s) :
    Ranged s ∧ ∃ file, opened opts host = some file ∧
      s.map = file.bytes := by
  unfold accepts at h
  unfold opened
  split at h
  case h_1 => cases h
  case h_2 o ho =>
    exact setup_ranged h (readOpts_bounded ho ⟨by decide, by decide⟩)

-- ============================================================== the loop

section Loop

variable {s : Server} {ids buf : List UInt8} {count i : UInt32}
  {d : UInt64}

/-- The one compare is the range test on whole numbers. -/
theorem local_lt_iff (h : Ranged s) (id : UInt32) :
    id - s.base32 < s.rows32 ↔
      s.base32.toNat ≤ id.toNat ∧
        id.toNat < s.base32.toNat + s.rows32.toNat := by
  have hid := id.toNat_lt
  have hfits := h.fits
  unfold UINT32_MAX at hfits
  rw [UInt32.lt_iff_toNat_lt, UInt32.toNat_sub]
  omega

/-- Within the range the difference is the row's place in the file. -/
theorem local_toNat (h : Ranged s) {id : UInt32}
    (hlt : id - s.base32 < s.rows32) :
    (id - s.base32).toNat = id.toNat - s.base32.toNat := by
  obtain ⟨hlo, -⟩ := (local_lt_iff h id).mp hlt
  have hid := id.toNat_lt
  rw [UInt32.toNat_sub]
  omega

/-- The id the loop reads at `i`. -/
def idAt (ids : List UInt8) (i : Nat) : Nat := natAt ids (4 * i) 4

/-- Row `id` of the file, by its global number. -/
def fileRow (s : Server) (id : Nat) : List UInt8 :=
  bytesAt s.map ((id - s.base32.toNat) * ROW_BYTES) ROW_BYTES

/-- `id` is one of the server's rows. -/
def Owns (s : Server) (id : Nat) : Prop :=
  s.base32.toNat ≤ id ∧ id < s.base32.toNat + s.rows32.toNat

/-- The offsets the loop forms for one id are what they would be in
unbounded arithmetic. -/
theorem offsets_exact (i : UInt32) (hi : i.toNat < 2 ^ 21) (hat : d.toNat ≤ 2 ^ 32) :
    (4 * i.toUInt64).toNat = 4 * i.toNat ∧
      (i.toUInt64 * UInt64.ofNat ROW_BYTES).toNat = i.toNat * ROW_BYTES ∧
      (d + i.toUInt64 * UInt64.ofNat ROW_BYTES).toNat
        = d.toNat + i.toNat * ROW_BYTES := by
  have hu : i.toUInt64.toNat = i.toNat := UInt32.toNat_toUInt64 i
  have hrow := rowOffset_toNat (x := i.toUInt64) (by rw [hu]; omega)
  rw [hu] at hrow
  refine ⟨?_, hrow, ?_⟩
  · rw [UInt64.toNat_mul, hu]
    show 4 * i.toNat % 2 ^ 64 = _
    omega
  · rw [UInt64.toNat_add, hrow]
    unfold ROW_BYTES
    omega

theorem load32_spec (ids : List UInt8) {off : UInt64} {k : Nat}
    (hoff : off.toNat = 4 * k)
    (hk : 4 * k + 4 ≤ ids.length) :
    ∃ id, load32 ids off = .ok id ∧ id.toNat = idAt ids k := by
  refine ⟨rdU32 ids off.toNat, if_pos (by omega), ?_⟩
  rw [rdU32_toNat (by omega), hoff]
  rfl

/-- The bytes at an offset, out of a front that reaches past them. -/
theorem bytesAt_of_take {a b : List UInt8} {off w : Nat}
    (h : a.take (off + w) = b.take (off + w)) :
    bytesAt a off w = bytesAt b off w := by
  unfold bytesAt
  rw [List.take_drop, List.take_drop, h]

/-- How the loop ends from `i`: every id left is owned and its row is in
place, or one is not and the status says so. Nothing before row `i` or
after row `count` changes. -/
structure Copied (s : Server) (ids : List UInt8) (d i count : Nat)
    (buf : List UInt8) (st : UInt32) (buf' : List UInt8) : Prop where
  status : st = ST_OK ∨ st = ST_RANGE
  owned : st = ST_OK ↔ ∀ k, i ≤ k → k < count → Owns s (idAt ids k)
  rows : st = ST_OK → ∀ k, i ≤ k → k < count →
    bytesAt buf' (d + k * ROW_BYTES) ROW_BYTES = fileRow s (idAt ids k)
  length : buf'.length = buf.length
  front : buf'.take (d + i * ROW_BYTES) = buf.take (d + i * ROW_BYTES)
  back : buf'.drop (d + count * ROW_BYTES)
    = buf.drop (d + count * ROW_BYTES)

/-- The copy loop, from any round on. -/
theorem gatherLoop_spec (h : Ranged s)
    (hids : ids.length = 4 * s.maxRows.toNat)
    (hcount : count.toNat ≤ s.maxRows.toNat) (hat : d.toNat ≤ 2 ^ 32) :
    ∀ (rounds : Nat) (i : UInt32) (buf : List UInt8),
      i.toNat + rounds = count.toNat →
      d.toNat + s.maxRows.toNat * ROW_BYTES ≤ buf.length →
      ∃ st buf', gatherLoop s ids count d rounds i buf = .ok (st, buf') ∧
        Copied s ids d.toNat i.toNat count.toNat buf st buf' := by
  intro rounds
  induction rounds with
  | zero =>
      intro i buf hi hroom
      exact ⟨ST_OK, buf, rfl, .inl rfl, by
        simp only [true_iff]
        intro k hik hk
        omega, by
        intro _ k hik hk
        omega, rfl, rfl, rfl⟩
  | succ rounds ih =>
      intro i buf hi hroom
      have hmax := h.maxRows.2
      have hlt : i < count := by
        rw [UInt32.lt_iff_toNat_lt]
        omega
      have hnext : (i + 1).toNat = i.toNat + 1 := by
        rw [UInt32.toNat_add]
        show (i.toNat + 1) % 2 ^ 32 = _
        omega
      obtain ⟨hload, -, hstore⟩ :=
        offsets_exact i (by omega) hat
      obtain ⟨id, hid, hidAt⟩ := load32_spec ids hload (by omega)
      unfold gatherLoop
      rw [if_pos hlt, hid]
      simp only
      by_cases hown : id - s.base32 < s.rows32
      · -- the id is the server's: its row is copied and the loop goes on
        have howns : Owns s (idAt ids i.toNat) := by
          rw [← hidAt]
          exact (local_lt_iff h id).mp hown
        have hlocal := local_toNat h hown
        have hrow : ((id - s.base32).toUInt64
            * UInt64.ofNat ROW_BYTES).toNat
              = (id.toNat - s.base32.toNat) * ROW_BYTES := by
          have hu := UInt32.toNat_toUInt64 (id - s.base32)
          have hid := id.toNat_lt
          rw [rowOffset_toNat (by rw [hu, hlocal]; omega), hu, hlocal]
        have hsrc : (id.toNat - s.base32.toNat) * ROW_BYTES + ROW_BYTES
            ≤ s.map.length := by
          rw [h.size, ← Nat.succ_mul]
          refine Nat.mul_le_mul_right _ ?_
          obtain ⟨hlo, hhi⟩ := (local_lt_iff h id).mp hown
          omega
        have hdst : d.toNat + i.toNat * ROW_BYTES + ROW_BYTES
            ≤ buf.length := by
          unfold ROW_BYTES at *
          omega
        have hbytes : bytesAt s.map
            ((id.toNat - s.base32.toNat) * ROW_BYTES) ROW_BYTES
              = fileRow s (idAt ids i.toNat) := by
          rw [fileRow, hidAt]
        have hblen : (fileRow s (idAt ids i.toNat)).length = ROW_BYTES := by
          rw [← hbytes]
          exact length_bytesAt hsrc
        have hfit : d.toNat + i.toNat * ROW_BYTES
            + (fileRow s (idAt ids i.toNat)).length ≤ buf.length := by
          rw [hblen]
          exact hdst
        rw [if_neg (by rw [ge_iff_le, UInt32.not_le]; exact hown)]
        unfold memcpy
        rw [hrow, hstore, if_pos hsrc, if_pos hdst, hbytes]
        simp only
        set buf₁ := splice buf (d.toNat + i.toNat * ROW_BYTES)
          (fileRow s (idAt ids i.toNat)) with hbuf₁
        have hlen₁ : buf₁.length = buf.length :=
          length_splice (by omega)
        obtain ⟨st, buf', heq, hc⟩ := ih (i + 1) buf₁ (by omega)
          (by omega)
        rw [hnext] at hc
        have hstep : d.toNat + (i.toNat + 1) * ROW_BYTES
            = d.toNat + i.toNat * ROW_BYTES + ROW_BYTES := by ring
        have hfront := hc.front
        rw [hstep] at hfront
        have hwritten : buf₁.take
            (d.toNat + i.toNat * ROW_BYTES + ROW_BYTES)
              = buf.take (d.toNat + i.toNat * ROW_BYTES)
                ++ fileRow s (idAt ids i.toNat) := by
          have hw := take_splice hfit
          rwa [hblen] at hw
        refine ⟨st, buf', heq, hc.status, ?_, ?_, by rw [hc.length, hlen₁],
          ?_, ?_⟩
        · refine hc.owned.trans ⟨fun hall k hik hk => ?_,
            fun hall k hik hk => hall k (by omega) hk⟩
          by_cases hki : k = i.toNat
          · rw [hki]; exact howns
          · exact hall k (by omega) hk
        · intro hst k hik hk
          by_cases hki : k = i.toNat
          · have hw := bytesAt_splice hfit
            rw [hblen] at hw
            rw [hki, bytesAt_of_take hfront]
            exact hw
          · exact hc.rows hst k (by omega) hk
        · have h₁ := congrArg (List.take (d.toNat + i.toNat * ROW_BYTES))
            (hfront.trans hwritten)
          rw [List.take_take, Nat.min_eq_left (by omega),
            List.take_append_of_le_length (by rw [List.length_take]; omega),
            List.take_take, Nat.min_self] at h₁
          exact h₁
        · rw [hc.back, hbuf₁]
          refine drop_splice hfit ?_
          rw [hblen]
          have : (i.toNat + 1) * ROW_BYTES ≤ count.toNat * ROW_BYTES :=
            Nat.mul_le_mul_right _ (by omega)
          omega
      · -- it is not: nothing is copied and the loop ends
        rw [if_pos (UInt32.not_lt.mp hown)]
        refine ⟨ST_RANGE, buf, rfl, .inr rfl, ?_, ?_, rfl, rfl, rfl⟩
        · refine ⟨fun hst => absurd hst (by decide), fun hall => ?_⟩
          refine absurd ((local_lt_iff h id).mpr ?_) hown
          rw [hidAt]
          exact hall i.toNat le_rfl (by omega)
        · exact fun hst => absurd hst (by decide)

end Loop

-- ============================================================ the gather

/-- No sum and no product on the way to a gather of `count` rows
wraps. -/
structure Unwrapped (s : Server) (count : UInt32) : Prop where
  range : (s.baseRow + s.rowCount).toNat
    = s.baseRow.toNat + s.rowCount.toNat
  file : (s.rowCount * UInt64.ofNat ROW_BYTES).toNat
    = s.rowCount.toNat * ROW_BYTES
  resp : (respSize s).toNat = HDR_BYTES + s.maxRows.toNat * ROW_BYTES
  ids : (idsSize s).toNat = 4 * s.maxRows.toNat
  index : ∀ i : UInt32, i < count → (i + 1).toNat = i.toNat + 1
  load : ∀ i : UInt32, i < count → (4 * i.toUInt64).toNat = 4 * i.toNat
  store : ∀ i : UInt32, i < count →
    (UInt64.ofNat HDR_BYTES
      + i.toUInt64 * UInt64.ofNat ROW_BYTES).toNat
        = HDR_BYTES + i.toNat * ROW_BYTES
  source : ∀ row : UInt32, row < s.rows32 →
    (row.toUInt64 * UInt64.ofNat ROW_BYTES).toNat = row.toNat * ROW_BYTES

theorem Ranged.unwrapped {s : Server} {count : UInt32} (h : Ranged s)
    (hcount : count ≤ s.maxRows) : Unwrapped s count := by
  have hc : count.toNat ≤ s.maxRows.toNat :=
    UInt32.le_iff_toNat_le.mp hcount
  have hmax := h.maxRows.2
  have hfits := h.fits
  have hb := h.base
  have hr := h.rows
  have hm : s.maxRows.toUInt64.toNat = s.maxRows.toNat :=
    UInt32.toNat_toUInt64 _
  have hlt : ∀ i : UInt32, i < count → i.toNat < 2 ^ 21 := by
    intro i hi
    have := UInt32.lt_iff_toNat_lt.mp hi
    omega
  unfold UINT32_MAX at hfits
  refine ⟨?_, ?_, ?_, ?_, fun i hi => ?_, fun i hi => ?_, fun i hi => ?_,
    fun row _ => ?_⟩
  · rw [UInt64.toNat_add]
    omega
  · exact rowOffset_toNat (by omega)
  · unfold respSize
    rw [UInt64.toNat_add, rowOffset_toNat (by omega), hm]
    show (16 + s.maxRows.toNat * 160) % 2 ^ 64 = 16 + s.maxRows.toNat * 160
    omega
  · unfold idsSize
    rw [UInt64.toNat_mul, hm]
    show s.maxRows.toNat * 4 % 2 ^ 64 = _
    omega
  · have := hlt i hi
    rw [UInt32.toNat_add]
    show (i.toNat + 1) % 2 ^ 32 = _
    omega
  · exact (offsets_exact i (d := 0) (hlt i hi) (by decide)).1
  · exact (offsets_exact i (hlt i hi) (by decide)).2.2
  · have hu := UInt32.toNat_toUInt64 row
    rw [rowOffset_toNat (by rw [hu]; exact row.toNat_lt), hu]

/-- A gather on a server main accepted: every id in the range, and the
rows are copied in order; one id outside, and the status says so. No
access leaves its buffer and no offset wraps. -/
theorem gather_exact {opts : List Opt} {host : Host} {s : Server}
    (h : accepts opts host = .ok s) (ids resp : List UInt8)
    (count : UInt32) (hids : ids.length = (idsSize s).toNat)
    (hresp : resp.length = (respSize s).toNat)
    (hcount : count ≤ s.maxRows) :
    (∃ file, opened opts host = some file ∧ s.map = file.bytes) ∧
      Unwrapped s count ∧
      ∃ st resp',
        gatherRows s ids count resp (UInt64.ofNat HDR_BYTES)
          = .ok (st, resp') ∧
        (st = ST_OK ∨ st = ST_RANGE) ∧
        (st = ST_OK ↔ ∀ i < count.toNat,
          s.baseRow.toNat ≤ idAt ids i ∧
            idAt ids i < s.baseRow.toNat + s.rowCount.toNat) ∧
        (st = ST_OK → ∀ i < count.toNat,
          bytesAt resp' (HDR_BYTES + i * ROW_BYTES) ROW_BYTES
            = bytesAt s.map
                ((idAt ids i - s.baseRow.toNat) * ROW_BYTES) ROW_BYTES) ∧
        s.map.length = s.rowCount.toNat * ROW_BYTES ∧
        resp'.length = resp.length ∧
        resp'.take HDR_BYTES = resp.take HDR_BYTES ∧
        resp'.drop (HDR_BYTES + count.toNat * ROW_BYTES)
          = resp.drop (HDR_BYTES + count.toNat * ROW_BYTES) := by
  obtain ⟨hr, hfile⟩ := accepts_ranged h
  have hu := hr.unwrapped hcount
  have hat : (UInt64.ofNat HDR_BYTES).toNat = HDR_BYTES := rfl
  obtain ⟨st, resp', heq, hc⟩ := gatherLoop_spec hr
    (hids.trans hu.ids) (UInt32.le_iff_toNat_le.mp hcount)
    (d := UInt64.ofNat HDR_BYTES) (by decide) count.toNat 0 resp
    (by simp) (by rw [hresp, hu.resp, hat])
  have hzero : (0 : UInt32).toNat = 0 := rfl
  rw [hat, hzero] at hc
  refine ⟨hfile, hu, st, resp', heq, hc.status, ?_, ?_, ?_, hc.length, ?_,
    hc.back⟩
  · rw [← hr.base, ← hr.rows]
    exact hc.owned.trans ⟨fun hall i hi => hall i (Nat.zero_le _) hi,
      fun hall i _ hi => hall i hi⟩
  · intro hst i hi
    rw [← hr.base]
    exact hc.rows hst i (Nat.zero_le _) hi
  · rw [hr.size, hr.rows]
  · simpa using hc.front

/-- A server of one row. -/
def oneRow : Host where
  file _ := some ⟨List.replicate 160 7, by
    rw [List.length_replicate]
    decide⟩
  fstat := true
  mmap := true
  pageSize := 4096
  socket := true
  bind _ := true
  listen := true

/-- Row 5, as its server. -/
def oneRowOpts : List Opt :=
  [.file "half.bin", .baseRow (some 5), .rowCount (some 1),
    .maxRows (some 2)]

/-- The server main makes of them. -/
def oneRowServer : Server where
  map := List.replicate 160 7
  pageSize := 4096
  baseRow := 5
  rowCount := 1
  base32 := 5
  rows32 := 1
  maxRows := 2
  threads := 8

set_option maxRecDepth 2000 in
theorem gather_exact_oneRow :
    Unwrapped oneRowServer 2 ∧
      ∃ st resp',
        gatherRows oneRowServer [5, 0, 0, 0, 4, 0, 0, 0] 2
          (List.replicate 336 0) (UInt64.ofNat HDR_BYTES)
            = .ok (st, resp') ∧
        (st = ST_OK ∨ st = ST_RANGE) ∧
        (st = ST_OK ↔ ∀ i < 2,
          5 ≤ idAt [5, 0, 0, 0, 4, 0, 0, 0] i ∧
            idAt [5, 0, 0, 0, 4, 0, 0, 0] i < 5 + 1) := by
  have haccepts : accepts oneRowOpts oneRow = .ok oneRowServer := rfl
  obtain ⟨-, hu, st, resp', heq, hst, hown, -⟩ := gather_exact haccepts
    [5, 0, 0, 0, 4, 0, 0, 0] (List.replicate 336 0) 2 rfl
    (by rw [List.length_replicate]; rfl) (by decide)
  exact ⟨hu, st, resp', heq, hst, hown⟩

end PleRowServer.Daemon
