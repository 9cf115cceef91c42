/-
tools/ple_export_half.py, the checksum gate, for a block size that is
positive and has room: what `--digest`, which cuts the pieces
`iter_range` hands it into blocks again, comes to, and `--digest-plain`,
which reads the exported file block by block. Every loop is back then,
so these are total functions; Main.lean has the modes as they run, for
any block size, and says when they agree with these.

A line is kept as the block it names rather than as its text, so that
one statement covers the hash as well: `Line.text` prints it for any
`sha256`.

The sink is a mutable buffer with a tail flush. What it keeps, piece
after piece, is that the lines printed so far followed by the plain
digest of the bytes it holds are the plain digest of everything it was
fed (`Sink.finish_feed`).
-/
import PleRowServer.Export.IterRange

namespace PleRowServer.Export

-- ================================================================= lines

/-- A line of output: block `idx` with the bytes hashed, or the total
with all of them. -/
inductive Line
  | block (idx : Nat) (chunk : List UInt8)
  | total (all : List UInt8)
deriving DecidableEq, Repr

/-- `f"{n:04d}"`. -/
def pad4 (n : Nat) : String :=
  String.ofList (List.replicate (4 - (toString n).length) '0') ++ toString n

/-- The line as printed, `sha` giving the hex digest. -/
def Line.text (sha : List UInt8 → String) : Line → String
  | .block idx chunk =>
      "block " ++ pad4 idx ++ " " ++ sha chunk ++ " " ++
        toString chunk.length
  | .total all => "TOTAL " ++ sha all

/-- The blocks hashed, in order. -/
def blocks (lines : List Line) : List (List UInt8) :=
  lines.filterMap fun
    | .block _ chunk => some chunk
    | .total _ => none

-- ========================================================= --digest-plain

/-- The loop of `--digest-plain`, `rest` of the file unread. -/
def plainLoop (block : Nat) (rest : List UInt8) (idx : Nat)
    (all : List UInt8) : List Line :=
  if _h : rest.take block = [] then [.total all]
  else
    .block idx (rest.take block) ::
      plainLoop block (rest.drop block) (idx + 1) (all ++ rest.take block)
termination_by rest.length
decreasing_by
  have hpos : 0 < (rest.take block).length := List.length_pos_iff.mpr _h
  simp only [List.length_take, List.length_drop] at *
  omega

/-- The lines of `--digest-plain` on a file. -/
def digestPlain (block : Nat) (file : List UInt8) : List Line :=
  plainLoop block file 0 []

-- ============================================================== --digest

/-- The sink's state, what it has printed included. -/
structure Sink where
  buf : List UInt8 := []
  idx : Nat := 0
  all : List UInt8 := []
  lines : List Line := []

/-- `while len(state["buf"]) >= block`. The bytes held bound the
rounds. -/
def Sink.flush (block : Nat) : Nat → Sink → Sink
  | 0, st => st
  | rounds + 1, st =>
      if block ≤ st.buf.length then
        flush block rounds
          { buf := st.buf.drop block
            idx := st.idx + 1
            all := st.all ++ st.buf.take block
            lines := st.lines ++ [.block st.idx (st.buf.take block)] }
      else st

/-- `sink(b)`. -/
def Sink.feed (block : Nat) (st : Sink) (b : List UInt8) : Sink :=
  flush block (st.buf ++ b).length { st with buf := st.buf ++ b }

/-- What is printed once the walk has returned. -/
def Sink.close (st : Sink) : List Line :=
  if st.buf = [] then st.lines ++ [.total st.all]
  else st.lines ++ [.block st.idx st.buf, .total (st.all ++ st.buf)]

/-- The lines of `--digest --start --count`. -/
def digest (file : List UInt8) (block : Nat) (m : ShardMap)
    (start count : Int) : List Line × Option Err :=
  match iterRange file block (Sink.feed block) m start count {} with
  | (st, none) => (st.close, none)
  | (st, some e) => (st.lines, some e)

/-- The flat file of `--start --count`. -/
def exportFlat (file : List UInt8) (block : Nat) (m : ShardMap)
    (start count : Int) : List UInt8 × Option Err :=
  iterRange file block (· ++ ·) m start count []

-- ============================================================== any sink

section AnySink

variable {σ : Type} {file : List UInt8} {block : Nat} {m : ShardMap}

theorem readBlocks_sink (sink : σ → List UInt8 → σ) (s : σ) :
    ∀ (rounds remaining : Nat) (pos : Int) (bufs : List (List UInt8)),
      readBlocks file block sink rounds pos remaining (bufs.foldl sink s)
        = ((readBlocks file block collect rounds pos remaining
              bufs).1.foldl sink s,
            (readBlocks file block collect rounds pos remaining bufs).2) := by
  intro rounds
  induction rounds with
  | zero => intro remaining pos bufs; cases remaining <;> rfl
  | succ rounds ih =>
      intro remaining pos bufs
      cases remaining with
      | zero => rfl
      | succ left =>
          simp only [readBlocks]
          cases pread file (min block (left + 1)) pos with
          | error e => rfl
          | ok buf =>
              simp only
              split
              case isTrue => rfl
              case isFalse =>
                rw [← ih, collect, List.foldl_append]
                rfl

theorem walk_sink (sink : σ → List UInt8 → σ) (s : σ) (stop : Int) :
    ∀ (rounds : Nat) (g : Int) (bufs : List (List UInt8)),
      walk file block sink m stop rounds g (bufs.foldl sink s)
        = ((walk file block collect m stop rounds g bufs).1.foldl sink s,
            (walk file block collect m stop rounds g bufs).2) := by
  intro rounds
  induction rounds with
  | zero => intro g bufs; rfl
  | succ rounds ih =>
      intro g bufs
      unfold walk
      split
      case isFalse => rfl
      case isTrue =>
        simp only
        cases m.get (g / ROWS_PER_SHARD) with
        | none => rfl
        | some shard =>
            simp only [readBlocks_sink sink s]
            rcases readBlocks file block collect _ _ _ bufs with ⟨new, _ | e⟩
            · exact ih _ new
            · rfl

/-- Whatever the sink, `iter_range` feeds it the same pieces. -/
theorem iterRange_sink (sink : σ → List UInt8 → σ) (s : σ)
    (start count : Int) :
    iterRange file block sink m start count s
      = ((pieces file block m start count).1.foldl sink s,
          (pieces file block m start count).2) :=
  walk_sink sink s (start + count) count.toNat start []

end AnySink

-- =========================================================== re-blocking

section Reblock

variable {block : Nat}

/-- One whole block in front of the rest. -/
theorem plainLoop_block {chunk rest : List UInt8} {idx : Nat}
    {all : List UInt8} (hb : 0 < block) (hc : chunk.length = block) :
    plainLoop block (chunk ++ rest) idx all
      = .block idx chunk :: plainLoop block rest (idx + 1) (all ++ chunk) := by
  have htake : (chunk ++ rest).take block = chunk := by
    rw [← hc, List.take_left]
  have hdrop : (chunk ++ rest).drop block = rest := by
    rw [← hc, List.drop_left]
  have hne : chunk ≠ [] := List.length_pos_iff.mp (hc ▸ hb)
  rw [plainLoop, htake, hdrop, dif_neg hne]

/-- The lines printed and those the bytes held and `rest` still give. -/
def Sink.finish (block : Nat) (st : Sink) (rest : List UInt8) : List Line :=
  st.lines ++ plainLoop block (st.buf ++ rest) st.idx st.all

theorem Sink.finish_flush (hb : 0 < block) (rest : List UInt8) :
    ∀ (rounds : Nat) (st : Sink),
      (flush block rounds st).finish block rest = st.finish block rest := by
  intro rounds
  induction rounds with
  | zero => intro st; rfl
  | succ rounds ih =>
      intro st
      unfold flush
      split
      case isFalse => rfl
      case isTrue hle =>
        have hlen : (st.buf.take block).length = block := by
          rw [List.length_take]; omega
        rw [ih]
        simp only [finish]
        have hsplit : st.buf ++ rest
            = st.buf.take block ++ (st.buf.drop block ++ rest) := by
          rw [← List.append_assoc, List.take_append_drop]
        rw [hsplit, plainLoop_block hb hlen]
        simp

theorem Sink.finish_feed (hb : 0 < block) (st : Sink)
    (b rest : List UInt8) :
    (st.feed block b).finish block rest = st.finish block (b ++ rest) := by
  rw [feed, finish_flush hb]
  simp [finish]

/-- After a flush less than a block is held. -/
theorem Sink.flush_lt (hb : 0 < block) :
    ∀ (rounds : Nat) (st : Sink), st.buf.length ≤ rounds →
      (flush block rounds st).buf.length < block := by
  intro rounds
  induction rounds with
  | zero => intro st h; unfold flush; omega
  | succ rounds ih =>
      intro st h
      unfold flush
      split
      case isFalse hlt => omega
      case isTrue hle =>
        refine ih _ ?_
        simp only [List.length_drop]
        omega

/-- All pieces fed, one after the other. -/
theorem Sink.finish_foldl (hb : 0 < block) (bufs : List (List UInt8)) :
    ∀ (st : Sink) (rest : List UInt8),
      (bufs.foldl (feed block) st).finish block rest
        = st.finish block (bufs.flatten ++ rest) := by
  induction bufs with
  | nil => intro st rest; rfl
  | cons b bufs ih =>
      intro st rest
      rw [List.foldl_cons, ih, finish_feed hb, List.flatten_cons,
        List.append_assoc]

theorem Sink.foldl_lt (hb : 0 < block) (bufs : List (List UInt8)) :
    ∀ st : Sink, st.buf.length < block →
      (bufs.foldl (feed block) st).buf.length < block := by
  induction bufs with
  | nil => intro st h; exact h
  | cons b bufs ih =>
      intro st _
      exact ih _ (flush_lt hb _ _ le_rfl)

/-- Closing the sink prints what the plain digest of the bytes it holds
would. -/
theorem Sink.close_eq {st : Sink}
    (h : st.buf.length < block) : st.close = st.finish block [] := by
  have htake : st.buf.take block = st.buf := List.take_of_length_le h.le
  have hdrop : st.buf.drop block = [] := List.drop_of_length_le h.le
  have hend : ∀ idx all, plainLoop block [] idx all = [.total all] := by
    intro idx all
    rw [plainLoop, dif_pos (by simp)]
  unfold close finish
  rw [List.append_nil, plainLoop, htake, hdrop, hend]
  split <;> rfl

/-- Fed the pieces of some bytes, the sink prints their plain digest. -/
theorem close_foldl (hb : 0 < block) (bufs : List (List UInt8)) :
    (bufs.foldl (Sink.feed block) {}).close
      = digestPlain block bufs.flatten := by
  rw [Sink.close_eq (Sink.foldl_lt hb bufs {} hb),
    Sink.finish_foldl hb]
  simp [Sink.finish, digestPlain]

end Reblock

-- ======================================================== first difference

section Differ

variable {block : Nat}

/-- How many bytes two files have in common from the front. -/
def agree : List UInt8 → List UInt8 → Nat
  | a :: as, b :: bs => if a = b then agree as bs + 1 else 0
  | _, _ => 0

theorem agree_le (xs ys : List UInt8) :
    agree xs ys ≤ xs.length ∧ agree xs ys ≤ ys.length := by
  fun_induction agree xs ys with
  | case1 as b bs ih => simpa using ih
  | case2 a as b bs hne => simp
  | case3 xs ys h => simp

theorem agree_take (xs ys : List UInt8) :
    xs.take (agree xs ys) = ys.take (agree xs ys) := by
  fun_induction agree xs ys with
  | case1 as b bs ih => simpa using ih
  | case2 a as b bs hne => simp
  | case3 xs ys h => simp

/-- Files that differ differ at the next byte, or one of them has
none. -/
theorem agree_ne {xs ys : List UInt8} (h : xs ≠ ys) :
    xs[agree xs ys]? ≠ ys[agree xs ys]? := by
  fun_induction agree xs ys with
  | case1 as b bs ih => simpa using ih fun heq => h (by rw [heq])
  | case2 a as b bs hne => simpa using hne
  | case3 xs ys hcons =>
      cases xs with
      | nil =>
          cases ys with
          | nil => exact absurd rfl h
          | cons b bs => simp
      | cons a as =>
          cases ys with
          | nil => simp
          | cons b bs => exact absurd rfl (hcons a as b bs rfl)

/-- The block a plain read hashes `i`-th. -/
theorem blocks_plainLoop (hb : 0 < block) :
    ∀ (i : Nat) (rest : List UInt8) (idx : Nat) (all : List UInt8),
      (blocks (plainLoop block rest idx all))[i]?
        = if i * block < rest.length then
            some ((rest.drop (i * block)).take block)
          else none := by
  intro i
  induction i with
  | zero =>
      intro rest idx all
      rw [plainLoop]
      cases rest with
      | nil => simp [blocks]
      | cons b bs =>
          have hne : (b :: bs).take block ≠ [] := by simp; omega
          simp [blocks, hne]
  | succ i ih =>
      intro rest idx all
      rw [plainLoop]
      split
      case isTrue hnil =>
        have : rest = [] := by
          rcases List.take_eq_nil_iff.mp hnil with h | h
          · omega
          · exact h
        simp [blocks, this]
      case isFalse hne =>
        have hstep : (i + 1) * block = i * block + block := by ring
        have hpos : 0 < rest.length := by
          rcases rest with _ | _
          · simp at hne
          · simp
        refine (ih (rest.drop block) (idx + 1) _).trans ?_
        rw [List.length_drop, List.drop_drop, hstep, Nat.add_comm block]
        split <;> split <;> first | rfl | omega

/-- Two files that differ have the same blocks before the one with the
first byte that differs, and that one differs. -/
theorem blocks_differ (hb : 0 < block) {xs ys : List UInt8}
    (h : xs ≠ ys) :
    (∀ j < agree xs ys / block,
        (blocks (digestPlain block xs))[j]?
          = (blocks (digestPlain block ys))[j]?) ∧
      (blocks (digestPlain block xs))[agree xs ys / block]?
        ≠ (blocks (digestPlain block ys))[agree xs ys / block]? := by
  obtain ⟨hx, hy⟩ := agree_le xs ys
  have htake := agree_take xs ys
  have hne := agree_ne h
  generalize agree xs ys = d at *
  refine ⟨fun j hj => ?_, ?_⟩
  · have hend : (j + 1) * block ≤ d :=
      (Nat.mul_le_mul_right block hj).trans (Nat.div_mul_le_self d block)
    have hcut : j * block + block = (j + 1) * block := by ring
    have hchunk : ∀ zs : List UInt8, (zs.drop (j * block)).take block
        = ((zs.take d).drop (j * block)).take block := by
      intro zs
      rw [List.take_drop, List.take_drop, List.take_take,
        Nat.min_eq_left (by omega)]
    simp only [digestPlain]
    rw [blocks_plainLoop hb, blocks_plainLoop hb, if_pos (by omega),
      if_pos (by omega), hchunk xs, hchunk ys, htake]
  · have hlo : d / block * block ≤ d := Nat.div_mul_le_self d block
    have hhi : d < d / block * block + block := by
      have := Nat.lt_div_mul_add (a := d) hb
      omega
    simp only [digestPlain]
    rw [blocks_plainLoop hb, blocks_plainLoop hb]
    generalize d / block * block = at_ at *
    have hbyte : ∀ zs : List UInt8,
        zs[d]? = ((zs.drop at_).take block)[d - at_]? := by
      intro zs
      rw [List.getElem?_take_of_lt (by omega), List.getElem?_drop]
      congr 1
      omega
    have hgone : ∀ zs : List UInt8, ¬ at_ < zs.length → zs[d]? = none :=
      fun zs hz => List.getElem?_eq_none (by omega)
    intro heq
    refine hne ?_
    split at heq <;> split at heq
    case isTrue.isTrue =>
      rw [hbyte xs, hbyte ys, Option.some.inj heq]
    case isTrue.isFalse => exact absurd heq (by simp)
    case isFalse.isTrue => exact absurd heq (by simp)
    case isFalse.isFalse hxs hys => rw [hgone xs hxs, hgone ys hys]

end Differ

-- ================================================================ the gate

section Gate

variable {file : List UInt8} {m : ShardMap} {start count : Int}
  {block cut : Nat}

theorem exportFlat_eq :
    exportFlat file block m start count
      = ((pieces file block m start count).1.flatten,
          (pieces file block m start count).2) := by
  have hfold : ∀ (bufs : List (List UInt8)) (acc : List UInt8),
      bufs.foldl (· ++ ·) acc = acc ++ bufs.flatten := by
    intro bufs
    induction bufs with
    | nil => simp
    | cons b bufs ih => simp [ih]
  simp only [exportFlat, iterRange_sink, hfold, List.nil_append]

theorem digest_end :
    (digest file block m start count).2
      = (pieces file block m start count).2 := by
  unfold digest
  rw [iterRange_sink]
  cases (pieces file block m start count).2 <;> rfl

/-- A digest that ends well prints the plain digest of its pieces. -/
theorem digest_lines (hb : 0 < block)
    (h : (pieces file block m start count).2 = none) :
    (digest file block m start count).1
      = digestPlain block (pieces file block m start count).1.flatten := by
  unfold digest
  rw [iterRange_sink, h, ← close_foldl hb]

/-- The walk ends well or not, and delivers the same bytes, whatever the
block size. -/
theorem pieces_block (file : List UInt8) (m : ShardMap)
    (start count : Int) (hb : 0 < block) (hcut : 0 < cut) :
    ((pieces file block m start count).2 = none
        ↔ (pieces file cut m start count).2 = none) ∧
      ((pieces file cut m start count).2 = none →
        (pieces file block m start count).1.flatten
          = (pieces file cut m start count).1.flatten) := by
  obtain ⟨-, -, hwalk, hend⟩ := pieces_spec file m start count hb
  obtain ⟨-, -, hwalk', hend'⟩ := pieces_spec file m start count hcut
  refine ⟨hend.trans hend'.symm, fun hnone => ?_⟩
  obtain ⟨-, hall⟩ := hwalk.resolve_right
    fun h => h.1 (hend.mpr (hend'.mp hnone))
  obtain ⟨-, hall'⟩ := hwalk'.resolve_right fun h => h.1 hnone
  exact List.map_injective_iff.mpr (Option.some_injective _)
    (hall.trans hall'.symm)

end Gate

/-- The two digests print the same lines: that of the safetensors, cut
to `block`, and the plain one of the flat file an export in blocks of
`cut` has written. Both walks end well for the ranges `iter_range` can
deliver, and for those only. Any other file in place of the flat one
shows in the block with the first byte that differs, and not before. -/
theorem flat_gate {m : ShardMap} (hc : check m = true)
    (file : List UInt8) (start count : Int) {block cut : Nat}
    (hb : 0 < block) (hcut : 0 < cut) :
    let lines := digest file block m start count
    let flat := exportFlat file cut m start count
    (lines.2 = none ↔ flat.2 = none) ∧
      (flat.2 = none ↔ count ≤ 0 ∨ 0 ≤ start ∧
        start + count ≤ N_SHARDS * ROWS_PER_SHARD ∧
        Holds file m start count) ∧
      (flat.2 = none → lines.1 = digestPlain block flat.1 ∧
        ∀ other, other ≠ flat.1 →
          (∀ j < agree flat.1 other / block,
            (blocks lines.1)[j]? = (blocks (digestPlain block other))[j]?) ∧
          (blocks lines.1)[agree flat.1 other / block]?
            ≠ (blocks (digestPlain block other))[
                agree flat.1 other / block]?) := by
  intro lines flat
  have hflat : flat = _ := exportFlat_eq
  obtain ⟨hends, hbytes⟩ := pieces_block file m start count hb hcut
  refine ⟨?_, ?_, fun hnone => ?_⟩
  · have hend : lines.2 = (pieces file block m start count).2 :=
      digest_end
    rw [hflat, hend]
    exact hends
  · rw [hflat]
    exact pieces_returns hc file start count hcut
  · rw [hflat] at hnone
    have hlines : lines.1 = digestPlain block flat.1 := by
      refine (digest_lines hb (hends.mpr hnone)).trans ?_
      rw [hbytes hnone, hflat]
    rw [hlines]
    exact ⟨rfl, fun other hne => blocks_differ hb hne.symm⟩

end PleRowServer.Export
