/-
tools/ple_export_half.py, the walk over a range of global rows: the
shard map with its check, and `iter_range`, which resolves each shard's
place in the file by its id and hands the bytes to a sink in blocks.

# What is read where

Bytes of the table are addressed by `x`, row `x / 160`, byte `x % 160`.
`tableByte` is the file's byte at that address, through the header's
offsets; it is `none` where the header has no such shard or the file no
such byte. Both loops of `iter_range` are spelled out against it: the
inner one keeps a position in the file, the outer one a row, and neither
may lose step with `x`.

`drop_cache` only advises the kernel and is left out.
-/
import Mathlib.Data.List.Nodup
import Mathlib.Data.List.Perm.Subperm
import Mathlib.Data.Int.Basic
import Mathlib.Tactic.Ring
import Mathlib.Tactic.Linarith

namespace PleRowServer.Export

def ROW_BYTES : Nat := 160
def ROWS_PER_SHARD : Nat := 2500012
def N_SHARDS : Nat := 128

/-- The bytes of one shard. -/
def SPAN : Nat := ROWS_PER_SHARD * ROW_BYTES

-- ================================================================= model

/-- `(abs_begin, abs_end, shape, dtype)` of one shard. -/
structure Shard where
  begin_ : Int
  end_ : Int
  shape : Nat × Nat
  dtype : String
deriving DecidableEq, Repr

/-- The dictionary `shard_map` returns: each id once. -/
structure ShardMap where
  entries : List (Int × Shard)
  nodup : (entries.map Prod.fst).Nodup

/-- `shards[i]`, or none for a KeyError. -/
def ShardMap.get (m : ShardMap) (i : Int) : Option Shard :=
  m.entries.lookup i

/-- One shard's assertions of `check`. -/
def Shard.ok (s : Shard) : Bool :=
  s.shape == (ROWS_PER_SHARD, ROW_BYTES) &&
    (s.dtype == "F8_E4M3" || s.dtype == "F8_E4M3FN") &&
    s.end_ - s.begin_ == (SPAN : Int)

/-- `check` raises nothing. -/
def check (m : ShardMap) : Bool :=
  m.entries.length == N_SHARDS &&
    (List.range N_SHARDS).all fun i =>
      match m.get i with
      | none => false
      | some s => s.ok

/-- Why the walk raises. `spinning` is no exception: it stands for the
loop a block size of 0 never leaves. -/
inductive Err
  | key (sh : Int)
  | badOffset
  | shortRead (pos : Int) (got want : Nat)
  | spinning
deriving DecidableEq, Repr

/-- `os.pread(fd, n, pos)` of a regular file. -/
def pread (file : List UInt8) (n : Nat) (pos : Int) :
    Except Err (List UInt8) :=
  if pos < 0 then .error .badOffset
  else .ok ((file.drop pos.toNat).take n)

section Walk

variable {σ : Type} (file : List UInt8) (block : Nat)
  (sink : σ → List UInt8 → σ)

/-- The inner loop: `remaining` bytes from `pos`, block by block. The
bytes left bound its rounds. -/
def readBlocks : Nat → Int → Nat → σ → σ × Option Err
  | _, _, 0, s => (s, none)
  | 0, _, _ + 1, s => (s, some .spinning)
  | rounds + 1, pos, remaining, s =>
      let n := min block remaining
      match pread file n pos with
      | .error e => (s, some e)
      | .ok buf =>
          if buf.length ≠ n then (s, some (.shortRead pos buf.length n))
          else readBlocks rounds (pos + n) (remaining - n) (sink s buf)

/-- The outer loop, from row `g`. The rows left bound its rounds. -/
def walk (m : ShardMap) (stop : Int) : Nat → Int → σ → σ × Option Err
  | 0, _, s => (s, none)
  | rounds + 1, g, s =>
      if g < stop then
        let sh := g / ROWS_PER_SHARD
        let local_ := g % ROWS_PER_SHARD
        let take := (min (ROWS_PER_SHARD - local_) (stop - g)).toNat
        match m.get sh with
        | none => (s, some (.key sh))
        | some shard =>
            let remaining := take * ROW_BYTES
            match readBlocks file block sink remaining
                (shard.begin_ + local_ * ROW_BYTES) remaining s with
            | (s, some e) => (s, some e)
            | (s, none) => walk m stop rounds (g + take) s
      else (s, none)

/-- `iter_range`. -/
def iterRange (m : ShardMap) (start count : Int) (s : σ) :
    σ × Option Err :=
  walk file block sink m (start + count) count.toNat start s

end Walk

/-- A sink that keeps what it is handed. -/
def collect (bufs : List (List UInt8)) (b : List UInt8) :
    List (List UInt8) := bufs ++ [b]

/-- The buffers `iter_range` hands to its sink, and how it ends. -/
def pieces (file : List UInt8) (block : Nat) (m : ShardMap)
    (start count : Int) : List (List UInt8) × Option Err :=
  iterRange file block collect m start count []

-- ============================================================= the range

/-- The byte of a file at a position, if there is one. -/
def byteAt (file : List UInt8) (pos : Int) : Option UInt8 :=
  if pos < 0 then none else file[pos.toNat]?

/-- Row `g` as the header places it: byte `j` is at offset
`(g mod 2500012) * 160 + j` of the range of shard `g div 2500012`. -/
def row (file : List UInt8) (m : ShardMap) (g : Int) :
    List (Option UInt8) :=
  (List.range ROW_BYTES).map fun j : Nat =>
    (m.get (g / ROWS_PER_SHARD)).bind fun s =>
      byteAt file (s.begin_ + (g % ROWS_PER_SHARD) * ROW_BYTES + j)

/-- Rows `start` to `start + count - 1`, one after the other. -/
def rows (file : List UInt8) (m : ShardMap) (start count : Int) :
    List (Option UInt8) :=
  (List.range count.toNat).flatMap fun k : Nat => row file m (start + k)

/-- The file holds every byte of these rows. -/
def Holds (file : List UInt8) (m : ShardMap) (start count : Int) : Prop :=
  none ∉ rows file m start count

/-- Byte `x` of the table. -/
def tableByte (file : List UInt8) (m : ShardMap) (x : Int) :
    Option UInt8 :=
  (m.get (x / SPAN)).bind fun s => byteAt file (s.begin_ + x % SPAN)

/-- `n` bytes of the table from address `x`. -/
def stretch (file : List UInt8) (m : ShardMap) (x : Int) (n : Nat) :
    List (Option UInt8) :=
  (List.range n).map fun k : Nat => tableByte file m (x + k)

section Addresses

variable {file : List UInt8} {m : ShardMap}

@[simp] theorem length_stretch (x : Int) (n : Nat) :
    (stretch file m x n).length = n := by simp [stretch]

theorem stretch_add (x : Int) (a b : Nat) :
    stretch file m x (a + b)
      = stretch file m x a ++ stretch file m (x + a) b := by
  simp only [stretch, List.range_add, List.map_append, List.map_map]
  refine congrArg _ (List.map_congr_left fun k _ => ?_)
  simp only [Function.comp_apply, Nat.cast_add]
  rw [Int.add_assoc]

/-- A row's bytes are the table's from its address. -/
theorem row_eq (g : Int) :
    row file m g = stretch file m (g * ROW_BYTES) ROW_BYTES := by
  refine List.map_congr_left fun j hj => ?_
  have hj : (j : Int) < ROW_BYTES := by exact_mod_cast List.mem_range.mp hj
  have hspan : (SPAN : Int) = ROWS_PER_SHARD * ROW_BYTES := rfl
  have hdiv : (g * ROW_BYTES + j) / SPAN = g / ROWS_PER_SHARD := by
    simp only [SPAN, ROW_BYTES, ROWS_PER_SHARD] at *
    omega
  have hmod : (g * ROW_BYTES + j) % SPAN
      = (g % ROWS_PER_SHARD) * ROW_BYTES + j := by
    simp only [SPAN, ROW_BYTES, ROWS_PER_SHARD] at *
    omega
  simp only [tableByte, hdiv, hmod, Int.add_assoc]

/-- The rows of a range are one stretch of the table. -/
theorem rows_eq (start count : Int) :
    rows file m start count
      = stretch file m (start * ROW_BYTES) (count.toNat * ROW_BYTES) := by
  unfold rows
  generalize count.toNat = n
  induction n with
  | zero => simp [stretch]
  | succ n ih =>
      rw [List.range_succ, List.flatMap_append, ih, List.flatMap_singleton,
        row_eq, Nat.succ_mul, stretch_add]
      congr 2
      push_cast
      ring

end Addresses

-- ============================================================ inner loop

/-- `n` bytes of the file from `pos`. -/
def fileBytes (file : List UInt8) (pos : Int) (n : Nat) :
    List (Option UInt8) :=
  (List.range n).map fun k : Nat => byteAt file (pos + k)

section Blocks

variable {file : List UInt8} {m : ShardMap} {block : Nat} {pos x : Int}

@[simp] theorem length_fileBytes (n : Nat) :
    (fileBytes file pos n).length = n := by simp [fileBytes]

theorem fileBytes_add (a b : Nat) :
    fileBytes file pos (a + b)
      = fileBytes file pos a ++ fileBytes file (pos + a) b := by
  simp only [fileBytes, List.range_add, List.map_append, List.map_map]
  refine congrArg _ (List.map_congr_left fun k _ => ?_)
  simp only [Function.comp_apply, Nat.cast_add, Int.add_assoc]

/-- A read that comes back whole is those bytes of the file; one that
does not misses some of them. -/
theorem pread_spec (file : List UInt8) (pos : Int) {n : Nat}
    (hn : 0 < n) :
    match pread file n pos with
    | .error _ => none ∈ fileBytes file pos n
    | .ok buf => if buf.length = n then
          buf.map some = fileBytes file pos n
        else none ∈ fileBytes file pos n := by
  unfold pread
  split
  case h_1 e he =>
    split at he
    case isFalse => cases he
    case isTrue hneg =>
      refine List.mem_map.mpr ⟨0, List.mem_range.mpr hn, ?_⟩
      simp [byteAt, hneg]
  case h_2 buf hbuf =>
    split at hbuf
    case isTrue => cases hbuf
    case isFalse hpos =>
      obtain rfl := Except.ok.inj hbuf
      have hbyte : ∀ k : Nat, byteAt file (pos + k)
          = file[pos.toNat + k]? := by
        intro k
        have hk : ¬ pos + k < 0 := by omega
        have : (pos + k).toNat = pos.toNat + k := by omega
        simp only [byteAt, hk, if_false, this]
      rw [List.length_take, List.length_drop]
      split
      case isTrue hlen =>
        refine List.ext_getElem? fun k => ?_
        simp only [fileBytes, List.getElem?_map, hbyte]
        rcases Nat.lt_or_ge k n with hk | hk
        · rw [List.getElem?_take_of_lt hk, List.getElem?_drop,
            List.getElem?_range hk, Option.map_some,
            List.getElem?_eq_getElem (by omega)]
          rfl
        · rw [List.getElem?_eq_none (by
            simp only [List.length_take, List.length_drop]; omega),
            List.getElem?_eq_none (by simpa using hk)]
          rfl
      case isFalse hlen =>
        refine List.mem_map.mpr ⟨file.length - pos.toNat,
          List.mem_range.mpr (by omega), ?_⟩
        rw [hbyte]
        exact List.getElem?_eq_none (by omega)

/-- How a walk over `want` ends: whole, or short of it with an error and
some byte missing. -/
def Walked (want : List (Option UInt8)) (bufs : List (List UInt8))
    (e : Option Err) : Prop :=
  (e = none ∧ bufs.flatten.map some = want) ∨
    (e ≠ none ∧ e ≠ some .spinning ∧ bufs.flatten.map some <+: want ∧
      bufs.flatten.length < want.length)

/-- What a walk already handed over stays in front. -/
theorem Walked.append {a b : List (Option UInt8)} {bufs new : List (List UInt8)}
    {e : Option Err} (hbufs : bufs.flatten.map some = a)
    (h : Walked b new e) : Walked (a ++ b) (bufs ++ new) e := by
  rcases h with ⟨he, hall⟩ | ⟨he, hs, hpre, hlt⟩
  · refine .inl ⟨he, ?_⟩
    rw [List.flatten_append, List.map_append, hbufs, hall]
  · refine .inr ⟨he, hs, ?_, ?_⟩
    · rw [List.flatten_append, List.map_append, hbufs]
      exact (List.prefix_append_right_inj a).mpr hpre
    · have : bufs.flatten.length = a.length := by
        rw [← hbufs, List.length_map]
      rw [List.flatten_append, List.length_append, List.length_append]
      omega

/-- A walk that stopped short misses what comes after as well. -/
theorem Walked.short {a : List (Option UInt8)} {bufs : List (List UInt8)}
    {e : Option Err} (h : Walked a bufs e) (he : e ≠ none)
    (b : List (Option UInt8)) : Walked (a ++ b) bufs e := by
  obtain ⟨-, hs, hpre, hlt⟩ := h.resolve_left fun h => he h.1
  refine .inr ⟨he, hs, hpre.trans (List.prefix_append a b), ?_⟩
  rw [List.length_append]
  omega

/-- The inner loop hands over the bytes from `pos`, in blocks that are
not empty and not too long; it fails only on bytes the file lacks. -/
theorem readBlocks_spec (file : List UInt8) (hb : 0 < block) :
    ∀ (rounds remaining : Nat) (pos : Int) (bufs : List (List UInt8)),
      remaining ≤ rounds →
      ∃ new e, readBlocks file block collect rounds pos remaining bufs
          = (bufs ++ new, e) ∧
        (∀ b ∈ new, b.length ≤ block) ∧
        Walked (fileBytes file pos remaining) new e ∧
        (e ≠ none → none ∈ fileBytes file pos remaining) := by
  intro rounds
  induction rounds with
  | zero =>
      intro remaining pos bufs hle
      obtain rfl : remaining = 0 := by omega
      exact ⟨[], none, by simp [readBlocks], by simp, .inl ⟨rfl, rfl⟩,
        fun h => absurd rfl h⟩
  | succ rounds ih =>
      intro remaining pos bufs hle
      cases remaining with
      | zero =>
          exact ⟨[], none, by simp [readBlocks], by simp, .inl ⟨rfl, rfl⟩,
            fun h => absurd rfl h⟩
      | succ left =>
          set n := min block (left + 1) with hn
          have hpos : 0 < n := by omega
          have hsplit : left + 1 = n + (left + 1 - n) := by omega
          have hread := pread_spec file pos hpos
          have hstop : ∀ e, e ≠ Err.spinning →
              none ∈ fileBytes file pos n →
              ∃ new e', ((bufs, some e) : _ × Option Err)
                  = (bufs ++ new, e') ∧ (∀ b ∈ new, b.length ≤ block) ∧
                Walked (fileBytes file pos (left + 1)) new e' ∧
                (e' ≠ none → none ∈ fileBytes file pos (left + 1)) := by
            intro e he hnone
            refine ⟨[], some e, by simp, by simp, .inr ⟨by simp, by simpa,
              by simp, by simp⟩, fun _ => ?_⟩
            rw [hsplit, fileBytes_add]
            exact List.mem_append_left _ hnone
          simp only [readBlocks, ← hn]
          cases hp : pread file n pos with
          | error e =>
              rw [hp] at hread
              refine hstop e ?_ hread
              unfold pread at hp
              split at hp
              · cases hp; simp
              · cases hp
          | ok buf =>
              rw [hp] at hread
              simp only at hread ⊢
              by_cases hlen : buf.length = n
              case neg =>
                rw [if_neg hlen] at hread
                rw [if_pos hlen]
                exact hstop _ (by simp) hread
              case pos =>
                rw [if_pos hlen] at hread
                rw [if_neg (not_not.mpr hlen)]
                obtain ⟨new, e, heq, hshort, hwalk, hmiss⟩ :=
                  ih (left + 1 - n) (pos + n) (bufs ++ [buf]) (by omega)
                refine ⟨buf :: new, e, ?_, ?_, ?_, fun he => ?_⟩
                · rw [collect, heq]; simp
                · intro b hmem
                  rcases List.mem_cons.mp hmem with rfl | hmem
                  · omega
                  · exact hshort b hmem
                · rw [hsplit, fileBytes_add]
                  exact Walked.append (show [buf].flatten.map some = _ by
                    simpa using hread) hwalk
                · rw [hsplit, fileBytes_add]
                  exact List.mem_append_right _ (hmiss he)

end Blocks

-- ============================================================ outer loop

/-- No buffer of `bufs`, which start at byte `x` of the table, has bytes
of two shards. -/
def Within (x : Int) (bufs : List (List UInt8)) : Prop :=
  ∀ pre b post, bufs = pre ++ b :: post → ∀ k : Nat, k < b.length →
    (x + pre.flatten.length + k) / (SPAN : Int)
      = (x + pre.flatten.length) / (SPAN : Int)

theorem Within.append {x : Int} {a b : List (List UInt8)}
    (ha : Within x a) (hb : Within (x + a.flatten.length) b) :
    Within x (a ++ b) := by
  intro pre buf post hsplit
  rcases List.append_eq_append_iff.mp hsplit with ⟨c, rfl, hc⟩ | ⟨c, ha', hc⟩
  · have := hb c buf post hc
    rw [List.flatten_append, List.length_append]
    push_cast
    rw [← Int.add_assoc]
    exact this
  · cases c with
    | nil =>
        rw [List.append_nil] at ha'
        subst ha'
        have := hb [] buf post (by simpa using hc.symm)
        simpa using this
    | cons y c =>
        obtain ⟨rfl, rfl⟩ : buf = y ∧ post = c ++ b := by simpa using hc
        exact ha pre buf c ha'

/-- Buffers that all lie in one shard's range. -/
theorem within_of_shard {x : Int} (sh : Int) {bufs : List (List UInt8)}
    (hlo : sh * SPAN ≤ x) (hhi : x + bufs.flatten.length ≤ (sh + 1) * SPAN) :
    Within x bufs := by
  rintro pre b post rfl k hk
  simp only [List.flatten_append, List.flatten_cons, List.length_append]
    at hhi
  push_cast at hhi
  simp only [SPAN, ROW_BYTES, ROWS_PER_SHARD] at *
  omega

section Shards

variable {file : List UInt8} {m : ShardMap} {block : Nat}

/-- Inside one shard the table's bytes are the file's. -/
theorem fileBytes_eq {g : Int} {shard : Shard} {take : Nat}
    (hget : m.get (g / ROWS_PER_SHARD) = some shard)
    (hfit : g % ROWS_PER_SHARD + take ≤ ROWS_PER_SHARD) :
    fileBytes file (shard.begin_ + g % ROWS_PER_SHARD * ROW_BYTES)
        (take * ROW_BYTES)
      = stretch file m (g * ROW_BYTES) (take * ROW_BYTES) := by
  refine List.map_congr_left fun k hk => ?_
  have hk : k < take * ROW_BYTES := List.mem_range.mp hk
  have hdiv : (g * ROW_BYTES + k) / SPAN = g / ROWS_PER_SHARD := by
    simp only [SPAN, ROW_BYTES, ROWS_PER_SHARD] at *
    omega
  have hmod : (g * ROW_BYTES + k) % SPAN
      = g % ROWS_PER_SHARD * ROW_BYTES + k := by
    simp only [SPAN, ROW_BYTES, ROWS_PER_SHARD] at *
    omega
  simp only [tableByte, hdiv, hmod, hget, Option.bind_some, Int.add_assoc]

/-- A row without a shard is missing. -/
theorem missing_of_key {g : Int} {n : Nat} (hn : 0 < n)
    (hget : m.get (g / ROWS_PER_SHARD) = none) :
    none ∈ stretch file m (g * ROW_BYTES) (n * ROW_BYTES) := by
  refine List.mem_map.mpr ⟨0, List.mem_range.mpr (by
    simp only [ROW_BYTES]; omega), ?_⟩
  have hdiv : (g * ROW_BYTES + (0 : Nat)) / SPAN = g / ROWS_PER_SHARD := by
    simp only [SPAN, ROW_BYTES, ROWS_PER_SHARD] at *
    omega
  simp only [tableByte, hdiv, hget, Option.bind_none]

/-- The outer loop walks the rows from `g`, shard by shard. -/
theorem walk_spec (file : List UInt8) (m : ShardMap) (hb : 0 < block)
    (stop : Int) :
    ∀ (rounds : Nat) (g : Int) (bufs : List (List UInt8)),
      stop - g ≤ rounds →
      ∃ new e, walk file block collect m stop rounds g bufs
          = (bufs ++ new, e) ∧
        (∀ b ∈ new, b.length ≤ block) ∧ Within (g * ROW_BYTES) new ∧
        Walked (stretch file m (g * ROW_BYTES)
          ((stop - g).toNat * ROW_BYTES)) new e ∧
        (e ≠ none → none ∈ stretch file m (g * ROW_BYTES)
          ((stop - g).toNat * ROW_BYTES)) := by
  have hover : ∀ (g : Int) (bufs : List (List UInt8)), stop ≤ g →
      ∃ new e, ((bufs, none) : _ × Option Err) = (bufs ++ new, e) ∧
        (∀ b ∈ new, b.length ≤ block) ∧ Within (g * ROW_BYTES) new ∧
        Walked (stretch file m (g * ROW_BYTES)
          ((stop - g).toNat * ROW_BYTES)) new e ∧
        (e ≠ none → none ∈ stretch file m (g * ROW_BYTES)
          ((stop - g).toNat * ROW_BYTES)) := by
    intro g bufs hle
    have hz : (stop - g).toNat = 0 := by omega
    refine ⟨[], none, by simp, by simp, ?_, .inl ⟨rfl, ?_⟩,
      fun h => absurd rfl h⟩
    · intro pre b post h
      simp at h
    · simp [hz, stretch]
  intro rounds
  induction rounds with
  | zero =>
      intro g bufs hle
      exact hover g bufs (by omega)
  | succ rounds ih =>
      intro g bufs hle
      unfold walk
      split
      case isFalse hge => exact hover g bufs (by omega)
      case isTrue hlt =>
        have hloc : 0 ≤ g % ROWS_PER_SHARD ∧
            g % ROWS_PER_SHARD < ROWS_PER_SHARD := by
          simp only [ROWS_PER_SHARD]; omega
        simp only
        cases hget : m.get (g / ROWS_PER_SHARD) with
        | none =>
            have hmiss : none ∈ stretch file m (g * ROW_BYTES)
                ((stop - g).toNat * ROW_BYTES) :=
              missing_of_key (by omega) hget
            refine ⟨[], some (.key (g / ROWS_PER_SHARD)), by simp, by simp, ?_, .inr ⟨by simp,
              by simp, by simp, ?_⟩, fun _ => hmiss⟩
            · intro pre b post h
              simp at h
            · exact List.length_pos_of_mem hmiss
        | some shard =>
            set take := (min (ROWS_PER_SHARD - g % ROWS_PER_SHARD)
              (stop - g)).toNat with htake
            have hpos : 0 < take := by omega
            have hfit : g % ROWS_PER_SHARD + take ≤ ROWS_PER_SHARD := by
              omega
            have hsplit : (stop - g).toNat * ROW_BYTES = take * ROW_BYTES
                + (stop - (g + take)).toNat * ROW_BYTES := by
              rw [← Nat.add_mul]
              congr 1
              omega
            have haddr : ((g + take : Int)) * ROW_BYTES
                = g * ROW_BYTES + ((take * ROW_BYTES : Nat) : Int) := by
              push_cast
              ring
            obtain ⟨new, e, heq, hshort, hwalk, hmiss⟩ := readBlocks_spec
              file hb (take * ROW_BYTES) (take * ROW_BYTES)
              (shard.begin_ + g % ROWS_PER_SHARD * ROW_BYTES) bufs le_rfl
            rw [fileBytes_eq hget hfit] at hwalk hmiss
            have hlen : new.flatten.length ≤ take * ROW_BYTES := by
              rcases hwalk with ⟨-, hall⟩ | ⟨-, -, -, hlt'⟩
              · have := congrArg List.length hall
                simp only [List.length_map, length_stretch] at this
                exact this.le
              · rw [length_stretch] at hlt'
                exact hlt'.le
            have hwithin : Within (g * ROW_BYTES) new := by
              refine within_of_shard (g / ROWS_PER_SHARD) ?_ ?_ <;>
                simp only [SPAN, ROW_BYTES, ROWS_PER_SHARD] at * <;> omega
            rw [hsplit, stretch_add, ← haddr]
            simp only [heq]
            cases e with
            | some err =>
                exact ⟨new, some err, rfl, hshort, hwithin,
                  hwalk.short (by simp) _, fun he =>
                    List.mem_append_left _ (hmiss he)⟩
            | none =>
                obtain ⟨rest, e, heq', hshort', hwithin', hwalk', hmiss'⟩ :=
                  ih (g + take) (bufs ++ new) (by omega)
                have hall := (hwalk.resolve_right fun h => h.1 rfl).2
                have hlen' : (new.flatten.length : Int)
                    = ((take * ROW_BYTES : Nat) : Int) := by
                  have := congrArg List.length hall
                  simp only [List.length_map, length_stretch] at this
                  exact_mod_cast this
                refine ⟨new ++ rest, e, ?_, ?_, hwithin.append ?_,
                  hwalk'.append hall, fun he =>
                    List.mem_append_right _ (hmiss' he)⟩
                · simp only [heq', List.append_assoc]
                · intro b hmem
                  exact (List.mem_append.mp hmem).elim (hshort b) (hshort' b)
                · rw [hlen', ← haddr]
                  exact hwithin'

end Shards

-- ================================================================ check

/-- A header that passes `check` has shards 0 to 127 and no other. -/
theorem check_get {m : ShardMap} (h : check m = true) (i : Int) :
    (∃ s, m.get i = some s) ↔ 0 ≤ i ∧ i < N_SHARDS := by
  simp only [check, Bool.and_eq_true, beq_iff_eq, List.all_eq_true,
    List.mem_range] at h
  obtain ⟨hlen, hall⟩ := h
  have hmem : ∀ j s, m.get j = some s → j ∈ m.entries.map Prod.fst := by
    intro j s hj
    obtain ⟨l₁, l₂, hsplit, -⟩ := List.lookup_eq_some_iff.mp hj
    rw [hsplit]
    simp
  have hget : ∀ n < N_SHARDS, ∃ s, m.get (n : Nat) = some s := by
    intro n hn
    have := hall n hn
    cases hs : m.get (n : Nat) with
    | none => rw [hs] at this; cases this
    | some s => exact ⟨s, rfl⟩
  constructor
  · rintro ⟨s, hs⟩
    have hkeys : (m.entries.map Prod.fst).Perm
        ((List.range N_SHARDS).map fun n : Nat => (n : Int)) := by
      have hnd : ((List.range N_SHARDS).map fun n : Nat => (n : Int)).Nodup :=
        List.Nodup.map (fun a b h => Int.ofNat_inj.mp h) List.nodup_range
      refine ((List.subperm_of_subset hnd ?_).perm_of_length_le ?_).symm
      · intro j hj
        obtain ⟨n, hn, rfl⟩ := List.mem_map.mp hj
        obtain ⟨s, hs⟩ := hget n (List.mem_range.mp hn)
        exact hmem n s hs
      · simp [hlen]
    obtain ⟨n, hn, rfl⟩ := List.mem_map.mp (hkeys.mem_iff.mp (hmem i s hs))
    have := List.mem_range.mp hn
    omega
  · rintro ⟨hlo, hhi⟩
    have := hget i.toNat (by omega)
    rwa [Int.toNat_of_nonneg hlo] at this

/-- Rows the file holds are rows of the table. -/
theorem Holds.range {m : ShardMap} (h : check m = true)
    {file : List UInt8} {start count : Int}
    (hh : Holds file m start count) (hpos : 0 < count) :
    0 ≤ start ∧ start + count ≤ N_SHARDS * ROWS_PER_SHARD := by
  have hrow : ∀ k : Nat, k < count.toNat →
      0 ≤ (start + k) / ROWS_PER_SHARD ∧
        (start + k) / ROWS_PER_SHARD < N_SHARDS := by
    intro k hk
    refine (check_get h _).mp ?_
    by_contra hnone
    refine hh (List.mem_flatMap.mpr ⟨k, List.mem_range.mpr hk,
      List.mem_map.mpr ⟨0, by decide, ?_⟩⟩)
    cases hs : m.get ((start + k) / ROWS_PER_SHARD) with
    | none => rfl
    | some s => exact absurd ⟨s, hs⟩ hnone
  have hfirst := hrow 0 (by omega)
  have hlast := hrow (count.toNat - 1) (by omega)
  simp only [ROWS_PER_SHARD, N_SHARDS] at *
  omega

/-- Both loops together: what the sink gets, and how the walk ends. -/
theorem pieces_spec (file : List UInt8) (m : ShardMap) (start count : Int)
    {block : Nat} (hb : 0 < block) :
    (∀ b ∈ (pieces file block m start count).1, b.length ≤ block) ∧
      Within (start * ROW_BYTES) (pieces file block m start count).1 ∧
      Walked (rows file m start count) (pieces file block m start count).1
        (pieces file block m start count).2 ∧
      ((pieces file block m start count).2 = none
        ↔ Holds file m start count) := by
  obtain ⟨new, e, heq, hshort, hwithin, hwalk, hmiss⟩ := walk_spec
    file m hb (start + count) count.toNat start []
    (by omega)
  have hlen : (start + count - start).toNat = count.toNat := by
    congr 1
    omega
  rw [hlen, ← rows_eq] at hwalk hmiss
  have hp : pieces file block m start count = (new, e) := by
    simpa [pieces, iterRange] using heq
  rw [hp]
  refine ⟨hshort, hwithin, hwalk, fun he hn => ?_, fun hh => ?_⟩
  · obtain ⟨-, hall⟩ := hwalk.resolve_right fun h => h.1 he
    rw [← hall] at hn
    simp at hn
  · by_contra he
    exact hh (hmiss he)

/-- `iter_range` returns exactly if there is nothing to read or the rows
are the table's and in the file. -/
theorem pieces_returns {m : ShardMap} (hc : check m = true)
    (file : List UInt8) (start count : Int) {block : Nat}
    (hb : 0 < block) :
    (pieces file block m start count).2 = none ↔
      count ≤ 0 ∨ 0 ≤ start ∧
        start + count ≤ N_SHARDS * ROWS_PER_SHARD ∧
        Holds file m start count := by
  obtain ⟨-, -, -, hend⟩ := pieces_spec file m start count hb
  refine hend.trans ⟨fun hh => ?_, fun hh => ?_⟩
  · by_cases hpos : count ≤ 0
    · exact .inl hpos
    · obtain ⟨hlo, hhi⟩ := hh.range hc (by omega)
      exact .inr ⟨hlo, hhi, hh⟩
  · rcases hh with hle | ⟨-, -, hh⟩
    · have : count.toNat = 0 := by omega
      simp [Holds, rows, this]
    · exact hh

/-- `iter_range` hands over the rows asked for: from the front, all of
them exactly if it returns, and it returns exactly if there is nothing
to read or the rows are the table's and in the file. -/
theorem iterRange_exact {m : ShardMap} (hc : check m = true)
    (file : List UInt8) (start count : Int) {block : Nat}
    (hb : 0 < block) :
    let out := pieces file block m start count
    out.1.flatten.map some <+: rows file m start count ∧
      (out.2 = none
        ↔ out.1.flatten.map some = rows file m start count) ∧
      (out.2 = none ↔ count ≤ 0 ∨ 0 ≤ start ∧
        start + count ≤ N_SHARDS * ROWS_PER_SHARD ∧
        Holds file m start count) ∧
      out.2 ≠ some .spinning ∧ (∀ b ∈ out.1, b.length ≤ block) ∧
      Within (start * ROW_BYTES) out.1 := by
  intro out
  obtain ⟨hshort, hwithin, hwalk, -⟩ :=
    pieces_spec file m start count hb
  change Walked _ out.1 out.2 at hwalk
  refine ⟨?_, ?_, pieces_returns hc file start count hb, ?_, hshort,
    hwithin⟩
  · rcases hwalk with ⟨-, hall⟩ | ⟨-, -, hpre, -⟩
    · exact ⟨[], by rw [List.append_nil, hall]⟩
    · exact hpre
  · rcases hwalk with ⟨he, hall⟩ | ⟨he, -, -, hlt⟩
    · exact ⟨fun _ => hall, fun _ => he⟩
    · refine ⟨fun h => absurd h he, fun h => ?_⟩
      rw [← h, List.length_map] at hlt
      exact absurd hlt (Nat.lt_irrefl _)
  · rcases hwalk with ⟨he, -⟩ | ⟨-, hs, -, -⟩
    · rw [he]; simp
    · exact hs

/-- A header whose shards lie in the file in reverse order. -/
def reversed : ShardMap where
  entries := (List.range N_SHARDS).map fun i : Nat => (i,
    ⟨(N_SHARDS - 1 - i) * SPAN, (N_SHARDS - i) * SPAN,
      (ROWS_PER_SHARD, ROW_BYTES), "F8_E4M3"⟩)
  nodup := by decide +kernel

theorem iterRange_exact_reversed :
    let out := pieces [1, 2, 3] 2 reversed (127 * 2500012) 1
    out.1.flatten.map some <+: rows [1, 2, 3] reversed (127 * 2500012) 1 ∧
      (out.2 = none ↔ out.1.flatten.map some
        = rows [1, 2, 3] reversed (127 * 2500012) 1) ∧
      (out.2 = none ↔ (1 : Int) ≤ 0 ∨ 0 ≤ (127 * 2500012 : Int) ∧
        (127 * 2500012 + 1 : Int) ≤ N_SHARDS * ROWS_PER_SHARD ∧
        Holds [1, 2, 3] reversed (127 * 2500012) 1) ∧
      out.2 ≠ some .spinning ∧ (∀ b ∈ out.1, b.length ≤ 2) ∧
      Within (127 * 2500012 * ROW_BYTES) out.1 :=
  iterRange_exact (by decide +kernel) [1, 2, 3] (127 * 2500012) 1
    (by decide)

end PleRowServer.Export
