/-
tools/ple_export_half.py, `main`: the three modes as a command line runs
them, with whatever integer `--block-mib` is given.

The block size reaches three loops. Where it is positive they are those
of `iterRange`, `Export.digest` and `Export.digestPlain` and come back,
unless `f.read` cannot have its block; a negative one is refused by the
first read. A size of 0 is neither: `os.pread` and the sink make no
headway on it and `f.read` takes it for the end of the file.

Fuel counts the rounds of a loop, and a run that has none left is not
back yet (`none`). A mode that is not back with any fuel never ends.
-/
import PleRowServer.Export.Digest

namespace PleRowServer.Export.Main

/-- What a regular file holds; its size is an `off_t`. -/
structure RegularFile where
  bytes : List UInt8
  fits : bytes.length < 2 ^ 63

/-- Why a mode raises: what the walk raises for, a length that is
negative, or one too long to allocate. -/
inductive Raised
  | walk (e : Err)
  | badLength (n : Int)
  | noRoom (n : Int)
deriving DecidableEq, Repr

-- ================================================================= model

/-- `os.pread(fd, n, pos)`: the length and the offset are checked before
anything is read. -/
def preadAt (f : RegularFile) (n pos : Int) : Except Raised (List UInt8) :=
  if n < 0 then .error (.badLength n)
  else if pos < 0 ∨ 2 ^ 63 ≤ pos then .error (.walk .badOffset)
  else .ok ((f.bytes.drop pos.toNat).take n.toNat)

/-- `f.read(n)` with `rest` of the file unread, where `room` bytes can be
allocated at once. -/
def fread (room : Nat) (n : Int) (rest : List UInt8) :
    Except Raised (List UInt8) :=
  if n = -1 then .ok rest
  else if n < 0 then .error (.badLength n)
  else if (room : Int) < n then .error (.noRoom n)
  else .ok (rest.take n.toNat)

section Walk

variable {σ : Type} (f : RegularFile) (block : Int)
  (sink : σ → List UInt8 → Option σ)

/-- The inner loop of `iter_range`. -/
def blockLoop : Nat → Int → Int → σ → Option (σ × Option Raised)
  | 0, _, remaining, s => if remaining = 0 then some (s, none) else none
  | fuel + 1, pos, remaining, s =>
      if remaining = 0 then some (s, none)
      else
        let n := min block remaining
        match preadAt f n pos with
        | .error e => some (s, some e)
        | .ok buf =>
            if (buf.length : Int) ≠ n then
              some (s, some (.walk (.shortRead pos buf.length n.toNat)))
            else do
              let s ← sink s buf
              blockLoop fuel (pos + n) (remaining - n) s

/-- The outer loop of `iter_range`, from row `g`. -/
def rowLoop (m : ShardMap) (stop : Int) :
    Nat → Int → σ → Option (σ × Option Raised)
  | 0, g, s => if g < stop then none else some (s, none)
  | fuel + 1, g, s =>
      if g < stop then
        let sh := g / ROWS_PER_SHARD
        let local_ := g % ROWS_PER_SHARD
        let take := min (ROWS_PER_SHARD - local_) (stop - g)
        match m.get sh with
        | none => some (s, some (.walk (.key sh)))
        | some shard => do
            match ← blockLoop f block sink (fuel + 1)
              (shard.begin_ + local_ * ROW_BYTES) (take * ROW_BYTES) s with
            | (s, some e) => some (s, some e)
            | (s, none) => rowLoop m stop fuel (g + take) s
      else some (s, none)

end Walk

/-- `buf[:block]`. -/
def front (block : Int) (buf : List UInt8) : List UInt8 :=
  if block < 0 then buf.take (buf.length - block.natAbs)
  else buf.take block.toNat

/-- `while len(state["buf"]) >= block`. -/
def sinkLoop (block : Int) : Nat → Sink → Option Sink
  | 0, st => if block ≤ st.buf.length then none else some st
  | fuel + 1, st =>
      if block ≤ st.buf.length then
        let chunk := front block st.buf
        sinkLoop block fuel
          { buf := st.buf.drop chunk.length
            idx := st.idx + 1
            all := st.all ++ chunk
            lines := st.lines ++ [.block st.idx chunk] }
      else some st

/-- `block = a.block_mib * 1024 * 1024`. -/
def blockOf (blockMib : Int) : Int := blockMib * 1024 * 1024

/-- The walk to stdout. -/
def stream (blockMib : Int) (f : RegularFile) (m : ShardMap)
    (start count : Int) (fuel : Nat) :
    Option (List UInt8 × Option Raised) :=
  rowLoop f (blockOf blockMib) (fun out buf => some (out ++ buf)) m
    (start + count) fuel start []

/-- `--digest`. -/
def digest (blockMib : Int) (f : RegularFile) (m : ShardMap)
    (start count : Int) (fuel : Nat) :
    Option (List Line × Option Raised) := do
  let sink st b := sinkLoop (blockOf blockMib) fuel
    { st with buf := st.buf ++ b }
  match ← rowLoop f (blockOf blockMib) sink m (start + count) fuel start
    {} with
  | (st, none) => some (st.close, none)
  | (st, some e) => some (st.lines, some e)

/-- The loop of `--digest-plain`. -/
def readLoop (room : Nat) (block : Int) :
    Nat → List UInt8 → Nat → List UInt8 → List Line →
      Option (List Line × Option Raised)
  | 0, _, _, _, _ => none
  | fuel + 1, rest, idx, all, lines =>
      match fread room block rest with
      | .error e => some (lines, some e)
      | .ok [] => some (lines ++ [.total all], none)
      | .ok buf =>
          readLoop room block fuel (rest.drop buf.length) (idx + 1)
            (all ++ buf) (lines ++ [.block idx buf])

/-- `--digest-plain`. -/
def digestPlain (room : Nat) (blockMib : Int) (f : RegularFile)
    (fuel : Nat) : Option (List Line × Option Raised) :=
  readLoop room (blockOf blockMib) fuel f.bytes 0 [] []

/-- The mode finishes or raises, after finitely many rounds. -/
def Ends {α : Type} (mode : Nat → Option α) : Prop :=
  ∃ fuel out, mode fuel = some out

/-- The walk gets as far as its first read: row `start` has a shard, and
a place in the file a read can be asked for. -/
def Readable (m : ShardMap) (start : Int) : Prop :=
  ∃ shard, m.get (start / ROWS_PER_SHARD) = some shard ∧
    0 ≤ shard.begin_ + start % ROWS_PER_SHARD * ROW_BYTES ∧
    shard.begin_ + start % ROWS_PER_SHARD * ROW_BYTES < 2 ^ 63

-- ============================================================= more fuel

section MoreFuel

variable {σ : Type} {f : RegularFile} {block : Int} {m : ShardMap}
  {sink sink' : σ → List UInt8 → Option σ} {α : Type}

/-- What the mode is back with, it is back with on more fuel. -/
def Steady (mode : Nat → Option α) : Prop :=
  ∀ k k' out, k ≤ k' → mode k = some out → mode k' = some out

/-- Two runs that are back are back with the same. -/
theorem Steady.unique {mode : Nat → Option α} {k k' : Nat} {x y : α}
    (h : Steady mode) (hx : mode k = some x) (hy : mode k' = some y) :
    x = y := by
  have hx' := h k (max k k') x (Nat.le_max_left k k') hx
  have hy' := h k' (max k k') y (Nat.le_max_right k k') hy
  exact Option.some.inj (hx'.symm.trans hy')

/-- A sink that takes whatever another one takes. -/
def Extends (sink sink' : σ → List UInt8 → Option σ) : Prop :=
  ∀ s buf t, sink s buf = some t → sink' s buf = some t

/-- With nothing left the loop is over. -/
theorem blockLoop_done {pos : Int} (fuel : Nat) (s : σ) :
    blockLoop f block sink fuel pos 0 s = some (s, none) := by
  cases fuel <;> rw [blockLoop, if_pos rfl]

/-- More rounds change no run of the loop of blocks that ends. -/
theorem blockLoop_mono (hs : Extends sink sink') :
    ∀ (k k' : Nat) (pos remaining : Int) (s : σ) (out : σ × Option Raised),
      k ≤ k' → blockLoop f block sink k pos remaining s = some out →
      blockLoop f block sink' k' pos remaining s = some out := by
  intro k
  induction k with
  | zero =>
      intro k' pos remaining s out _ h
      rw [blockLoop] at h
      split at h
      case isTrue hz =>
        rw [hz, blockLoop_done]
        exact h
      case isFalse => cases h
  | succ k ih =>
      intro k' pos remaining s out hle h
      obtain ⟨k', rfl⟩ : ∃ n, k' = n + 1 := ⟨k' - 1, by omega⟩
      rw [blockLoop] at h ⊢
      by_cases hz : remaining = 0
      · rw [if_pos hz] at h ⊢
        exact h
      rw [if_neg hz] at h ⊢
      simp only at h ⊢
      cases hread : preadAt f (min block remaining) pos with
      | error e =>
          rw [hread] at h
          exact h
      | ok buf =>
          rw [hread] at h
          simp only at h ⊢
          split at h
          case isTrue hshort => rw [if_pos hshort, h]
          case isFalse hfull =>
            rw [if_neg hfull]
            obtain ⟨t, ht, hrest⟩ := Option.bind_eq_some_iff.mp h
            rw [hs s buf t ht]
            exact ih k' _ _ t out (by omega) hrest

/-- More rounds change no run of the loop of rows that ends. -/
theorem rowLoop_mono {stop : Int} (hs : Extends sink sink') :
    ∀ (k k' : Nat) (g : Int) (s : σ) (out : σ × Option Raised), k ≤ k' →
      rowLoop f block sink m stop k g s = some out →
      rowLoop f block sink' m stop k' g s = some out := by
  intro k
  induction k with
  | zero =>
      intro k' g s out _ h
      rw [rowLoop] at h
      split at h
      case isTrue => cases h
      case isFalse hge => cases k' <;> rw [rowLoop, if_neg hge, h]
  | succ k ih =>
      intro k' g s out hle h
      obtain ⟨k', rfl⟩ : ∃ n, k' = n + 1 := ⟨k' - 1, by omega⟩
      rw [rowLoop] at h ⊢
      by_cases hlt : g < stop
      case neg =>
        rw [if_neg hlt] at h ⊢
        exact h
      rw [if_pos hlt] at h ⊢
      simp only at h ⊢
      cases hget : m.get (g / ROWS_PER_SHARD) with
      | none =>
          rw [hget] at h
          exact h
      | some shard =>
          rw [hget] at h
          simp only at h ⊢
          obtain ⟨⟨t, e⟩, hblock, hrest⟩ := Option.bind_eq_some_iff.mp h
          rw [blockLoop_mono hs (k + 1) (k' + 1) _ _ s (t, e) (by omega)
            hblock]
          cases e with
          | some e => exact hrest
          | none => exact ih k' _ t out (by omega) hrest

/-- More rounds change no run of the sink that ends. -/
theorem sinkLoop_mono :
    ∀ (k k' : Nat) (st out : Sink), k ≤ k' →
      sinkLoop block k st = some out → sinkLoop block k' st = some out := by
  intro k
  induction k with
  | zero =>
      intro k' st out _ h
      rw [sinkLoop] at h
      split at h
      case isTrue => cases h
      case isFalse hlt => cases k' <;> rw [sinkLoop, if_neg hlt, h]
  | succ k ih =>
      intro k' st out hle h
      obtain ⟨k', rfl⟩ : ∃ n, k' = n + 1 := ⟨k' - 1, by omega⟩
      rw [sinkLoop] at h ⊢
      split at h
      case isTrue hfull =>
        rw [if_pos hfull]
        exact ih k' _ out (by omega) h
      case isFalse hlt => rw [if_neg hlt, h]

/-- An export that ends does so with any more rounds. -/
theorem stream_steady {blockMib start count : Int} :
    Steady (stream blockMib f m start count) :=
  fun k k' out hle h => rowLoop_mono (fun _ _ _ h => h) k k' _ _ out hle h

/-- A digest that ends does so with any more rounds. -/
theorem digest_steady {blockMib start count : Int} :
    Steady (digest blockMib f m start count) := by
  intro k k' out hle h
  unfold digest at h ⊢
  dsimp only at h ⊢
  obtain ⟨⟨st, e⟩, hrun, hrest⟩ := Option.bind_eq_some_iff.mp h
  rw [rowLoop_mono (fun s buf t ht => sinkLoop_mono k k' _ t hle ht) k k'
    _ _ (st, e) hle hrun]
  exact hrest

end MoreFuel

-- ========================================================= positive block

section Positive

variable {σ : Type} {f : RegularFile} {block : Nat} {pos : Int}
  {sink : σ → List UInt8 → Option σ} {total : σ → List UInt8 → σ}
  {P : σ → Prop}

/-- A read of a positive length gives the same bytes as `pread`, and
raises or comes back short where that does. -/
theorem preadAt_eq (f : RegularFile) {n : Nat} (hn : 0 < n) (pos : Int) :
    (∃ buf, preadAt f n pos = .ok buf ∧ pread f.bytes n pos = .ok buf) ∨
      (∃ e, preadAt f n pos = .error e) ∧
        ∀ buf, pread f.bytes n pos = .ok buf → buf.length ≠ n := by
  have hfits := f.fits
  have hnn : ¬ (n : Int) < 0 := by omega
  unfold preadAt pread
  rw [if_neg hnn, Int.toNat_natCast]
  by_cases hneg : pos < 0
  · rw [if_pos (.inl hneg), if_pos hneg]
    exact .inr ⟨⟨_, rfl⟩, fun buf h => by cases h⟩
  · by_cases hbig : 2 ^ 63 ≤ pos
    · rw [if_pos (.inr hbig), if_neg hneg]
      refine .inr ⟨⟨_, rfl⟩, fun buf h => ?_⟩
      obtain rfl := Except.ok.inj h
      rw [List.length_take, List.length_drop]
      omega
    · rw [if_neg (by omega), if_neg hneg]
      exact .inl ⟨_, rfl, rfl⟩

/-- What the sink has to do: come back with what the total one gives, as
long as it is handed pieces of at most a block. -/
def Served (block : Nat) (P : σ → Prop)
    (sink : σ → List UInt8 → Option σ) (total : σ → List UInt8 → σ) : Prop :=
  ∀ s buf, P s → buf.length ≤ block →
    sink s buf = some (total s buf) ∧ P (total s buf)

/-- The loop is back, and has ended as the total one has: with the same
state, and raising where that fails. -/
def Agrees (P : σ → Prop) (run : Option (σ × Option Raised))
    (out : σ × Option Err) : Prop :=
  ∃ e, run = some (out.1, e) ∧ (e = none ↔ out.2 = none) ∧ P out.1

/-- Two runs that ended well, in one state, agree. -/
theorem Agrees.done {s : σ} (hs : P s) :
    Agrees P (some (s, none)) (s, none) :=
  ⟨none, rfl, ⟨fun _ => rfl, fun _ => rfl⟩, hs⟩

/-- Two runs that raised, in one state, agree. -/
theorem Agrees.raised {s : σ} (hs : P s) (e : Raised) (e' : Err) :
    Agrees P (some (s, some e)) (s, some e') :=
  ⟨some e, rfl, by simp, hs⟩

/-- The inner loop comes back, with what `readBlocks` gives. -/
theorem blockLoop_agrees (hb : 0 < block)
    (hsink : Served block P sink total) :
    ∀ (rounds fuel remaining : Nat) (pos : Int) (s : σ),
      remaining ≤ rounds → remaining ≤ fuel → P s →
      Agrees P (blockLoop f block sink fuel pos remaining s)
        (readBlocks f.bytes block total rounds pos remaining s) := by
  intro rounds
  induction rounds with
  | zero =>
      intro fuel remaining pos s hle _ hs
      obtain rfl : remaining = 0 := by omega
      rw [Nat.cast_zero, blockLoop_done, readBlocks]
      exact .done hs
  | succ rounds ih =>
      intro fuel remaining pos s hle hfuel hs
      cases remaining with
      | zero =>
          rw [Nat.cast_zero, blockLoop_done, readBlocks]
          exact .done hs
      | succ left =>
          obtain ⟨fuel, rfl⟩ : ∃ k, fuel = k + 1 := ⟨fuel - 1, by omega⟩
          obtain ⟨n, hn⟩ : ∃ n, n = min block (left + 1) := ⟨_, rfl⟩
          have hmin : min (block : Int) ((left + 1 : Nat) : Int) = n := by
            omega
          rw [blockLoop, if_neg (by omega), hmin]
          simp only [readBlocks, ← hn]
          rcases preadAt_eq f (show 0 < n by omega) pos with
            ⟨buf, hread, hread'⟩ | ⟨⟨e, hread⟩, hshort⟩
          · simp only [hread, hread']
            by_cases hlen : buf.length = n
            · obtain ⟨hserved, hs'⟩ := hsink s buf hs (by omega)
              have hsub : ((left + 1 : Nat) : Int) - n
                  = ((left + 1 - n : Nat) : Int) := by omega
              rw [if_neg (by simp [hlen]), if_neg (by simp [hlen]), hserved,
                hsub]
              exact ih fuel (left + 1 - n) (pos + n) (total s buf)
                (by omega) (by omega) hs'
            · rw [if_pos (by omega), if_pos hlen]
              exact .raised hs _ _
          · simp only [hread]
            cases hread' : pread f.bytes n pos with
            | error e' => exact .raised hs _ _
            | ok buf =>
                simp only [if_pos (hshort buf hread')]
                exact .raised hs _ _

/-- The outer loop comes back, with what `walk` gives. -/
theorem rowLoop_agrees (hb : 0 < block)
    (hsink : Served block P sink total) {m : ShardMap} (stop : Int) :
    ∀ (rounds fuel : Nat) (g : Int) (s : σ),
      stop - g ≤ rounds → (stop - g).toNat + SPAN ≤ fuel → P s →
      Agrees P (rowLoop f block sink m stop fuel g s)
        (walk f.bytes block total m stop rounds g s) := by
  intro rounds
  induction rounds with
  | zero =>
      intro fuel g s hle hfuel hs
      have hge : ¬ g < stop := by omega
      rw [walk]
      cases fuel <;> rw [rowLoop, if_neg hge] <;> exact .done hs
  | succ rounds ih =>
      intro fuel g s hle hfuel hs
      obtain ⟨fuel, rfl⟩ : ∃ k, fuel = k + 1 :=
        ⟨fuel - 1, by simp only [SPAN, ROW_BYTES, ROWS_PER_SHARD] at *; omega⟩
      rw [rowLoop, walk]
      by_cases hlt : g < stop
      case neg =>
        rw [if_neg hlt, if_neg hlt]
        exact .done hs
      case pos =>
        rw [if_pos hlt, if_pos hlt]
        simp only
        cases m.get (g / ROWS_PER_SHARD) with
        | none => exact .raised hs _ _
        | some shard =>
            obtain ⟨take, htake⟩ : ∃ take : Nat, take = (min
                (ROWS_PER_SHARD - g % ROWS_PER_SHARD) (stop - g)).toNat :=
              ⟨_, rfl⟩
            have hcast : min (ROWS_PER_SHARD - g % ROWS_PER_SHARD)
                (stop - g) = take := by
              simp only [ROWS_PER_SHARD] at *
              omega
            have hpos : 0 < take := by
              simp only [ROWS_PER_SHARD] at *
              omega
            have hspan : take * ROW_BYTES ≤ fuel + 1 := by
              simp only [SPAN, ROW_BYTES, ROWS_PER_SHARD] at *
              omega
            simp only [hcast, Int.toNat_natCast]
            obtain ⟨e, hrun, hends, hs'⟩ := blockLoop_agrees hb hsink
              (take * ROW_BYTES) (fuel + 1) (take * ROW_BYTES)
              (shard.begin_ + g % ROWS_PER_SHARD * ROW_BYTES) s le_rfl
              hspan hs
            push_cast at hrun
            rw [hrun]
            rcases hout : readBlocks f.bytes block total (take * ROW_BYTES)
              (shard.begin_ + g % ROWS_PER_SHARD * ROW_BYTES)
              (take * ROW_BYTES) s with ⟨s', e'⟩
            rw [hout] at hends hs'
            cases e' with
            | some e' =>
                obtain ⟨x, rfl⟩ := Option.ne_none_iff_exists'.mp
                  (mt hends.mp (by simp))
                exact .raised hs' _ _
            | none =>
                obtain rfl := hends.mpr rfl
                exact ih fuel (g + take) s' (by omega) (by omega) hs'

/-- The bytes held bound the rounds of the sink. -/
theorem sinkLoop_eq (hb : 0 < block) :
    ∀ (rounds fuel : Nat) (st : Sink), st.buf.length ≤ rounds →
      st.buf.length ≤ fuel →
      sinkLoop block fuel st = some (Sink.flush block rounds st) := by
  intro rounds
  induction rounds with
  | zero =>
      intro fuel st hle _
      have hlt : ¬ (block : Int) ≤ st.buf.length := by omega
      cases fuel <;> rw [sinkLoop, if_neg hlt] <;> rfl
  | succ rounds ih =>
      intro fuel st hle hfuel
      by_cases hfull : block ≤ st.buf.length
      · obtain ⟨fuel, rfl⟩ : ∃ k, fuel = k + 1 := ⟨fuel - 1, by omega⟩
        have hfront : front block st.buf = st.buf.take block := by
          rw [front, if_neg (by omega), Int.toNat_natCast]
        have hlen : (st.buf.take block).length = block := by
          rw [List.length_take]; omega
        rw [sinkLoop, if_pos (by omega), Sink.flush, if_pos hfull]
        simp only [hfront, hlen]
        refine ih fuel _ ?_ ?_ <;> simp only [List.length_drop] <;> omega
      · have hlt : ¬ (block : Int) ≤ st.buf.length := by omega
        rw [Sink.flush, if_neg hfull]
        cases fuel <;> rw [sinkLoop, if_neg hlt]

/-- The sink of `--digest` takes any bytes, and hashes whole blocks. -/
theorem served_digest (hb : 0 < block) {fuel : Nat}
    (hfuel : 2 * block ≤ fuel) :
    Served block (fun st : Sink => st.buf.length < block)
      (fun st b => sinkLoop block fuel { st with buf := st.buf ++ b })
      (Sink.feed block) := by
  intro st b hst hle
  have hlen : (st.buf ++ b).length ≤ fuel := by
    rw [List.length_append]; omega
  exact ⟨sinkLoop_eq hb _ fuel _ le_rfl hlen, Sink.flush_lt hb _ _ le_rfl⟩

/-- A read that returns gives what is next. -/
theorem fread_eq {room : Nat} {rest buf : List UInt8} (hb : 0 < block)
    (h : fread room block rest = .ok buf) : buf = rest.take block := by
  rw [fread, if_neg (by omega), if_neg (by omega)] at h
  split at h
  case isTrue => cases h
  case isFalse => exact (Except.ok.inj h).symm

/-- The reads reach the end of the file, unless the first one is too
long. -/
theorem readLoop_returns (room : Nat) (hb : 0 < block) :
    ∀ (fuel : Nat) (rest : List UInt8) (idx : Nat) (all : List UInt8)
      (lines : List Line), rest.length < fuel →
      ∃ out, readLoop room block fuel rest idx all lines = some out := by
  intro fuel
  induction fuel with
  | zero => intro rest idx all lines h; omega
  | succ fuel ih =>
      intro rest idx all lines h
      rw [readLoop]
      split
      case h_1 => exact ⟨_, rfl⟩
      case h_2 => exact ⟨_, rfl⟩
      case h_3 buf hne hread =>
        have hpos : 0 < buf.length := List.length_pos_iff.mpr hne
        have hle : buf.length ≤ rest.length := by
          rw [fread_eq hb hread, List.length_take]
          omega
        refine ih _ _ _ _ ?_
        rw [List.length_drop]
        omega

/-- Reads that end well print what `plainLoop` does. -/
theorem readLoop_finished (room : Nat) (hb : 0 < block) :
    ∀ (fuel : Nat) (rest : List UInt8) (idx : Nat) (all : List UInt8)
      (lines out : List Line),
      readLoop room block fuel rest idx all lines = some (out, none) →
      out = lines ++ plainLoop block rest idx all := by
  intro fuel
  induction fuel with
  | zero => intro rest idx all lines out h; cases h
  | succ fuel ih =>
      intro rest idx all lines out h
      rw [readLoop] at h
      split at h
      case h_1 => cases h
      case h_2 hbuf =>
        obtain rfl : lines ++ [.total all] = out := by
          cases h
          rfl
        rw [plainLoop, dif_pos (fread_eq hb hbuf).symm]
      case h_3 buf hne hbuf =>
        have htake := fread_eq hb hbuf
        have hcut : (rest.take block).length = min block rest.length := by
          rw [List.length_take]
        have hdrop : rest.drop (rest.take block).length
            = rest.drop block := by
          rcases Nat.le_total block rest.length with hle | hle
          · rw [hcut, Nat.min_eq_left hle]
          · rw [hcut, Nat.min_eq_right hle, List.drop_length,
              List.drop_of_length_le hle]
        rw [ih _ _ _ _ _ h, htake, hdrop, List.append_assoc]
        conv => rhs; rw [plainLoop]
        rw [dif_neg (by rw [← htake]; exact fun h => hne (h ▸ rfl))]
        rfl

/-- Where a block has room, every read is made. -/
theorem readLoop_room {room : Nat} (hroom : (block : Int) ≤ room) :
    ∀ (fuel : Nat) (rest : List UInt8) (idx : Nat) (all : List UInt8)
      (lines : List Line) (out : List Line × Option Raised),
      readLoop room block fuel rest idx all lines = some out →
      out.2 = none := by
  have hread : ∀ rest, fread room block rest = .ok (rest.take block) := by
    intro rest
    rw [fread, if_neg (by omega), if_neg (by omega), if_neg (by omega),
      Int.toNat_natCast]
  intro fuel
  induction fuel with
  | zero => intro rest idx all lines out h; cases h
  | succ fuel ih =>
      intro rest idx all lines out h
      rw [readLoop, hread] at h
      split at h
      case h_1 hbuf => cases hbuf
      case h_2 => cases h; rfl
      case h_3 => exact ih _ _ _ _ out h

end Positive

-- =============================================================== the rest

section Refused

variable {σ : Type} {f : RegularFile} {block pos : Int}
  {sink : σ → List UInt8 → Option σ} {m : ShardMap} {g stop : Int}

/-- A negative length and an offset out of range raise at once, and so
does a row without a shard. -/
theorem rowLoop_refused (h : block < 0 ∨ ¬ Readable m g ∨ stop ≤ g)
    (s : σ) : ∃ out, rowLoop f block sink m stop 1 g s = some out := by
  rw [rowLoop]
  by_cases hlt : g < stop
  case neg => exact ⟨_, if_neg hlt⟩
  case pos =>
    rw [if_pos hlt]
    simp only
    cases hget : m.get (g / ROWS_PER_SHARD) with
    | none => exact ⟨_, rfl⟩
    | some shard =>
        have hrem : ¬ min (ROWS_PER_SHARD - g % ROWS_PER_SHARD) (stop - g)
            * ROW_BYTES = 0 := by
          simp only [ROWS_PER_SHARD, ROW_BYTES]
          omega
        have hread : ∀ remaining, ∃ e, preadAt f (min block remaining)
            (shard.begin_ + g % ROWS_PER_SHARD * ROW_BYTES) = .error e := by
          intro remaining
          unfold preadAt
          split
          case isTrue => exact ⟨_, rfl⟩
          case isFalse hn =>
            refine ⟨_, if_pos ?_⟩
            by_contra hpos
            have hreadable : Readable m g :=
              ⟨shard, hget, by omega, by omega⟩
            rcases h with h | h | h
            · omega
            · exact h hreadable
            · omega
        obtain ⟨e, he⟩ := hread (min (ROWS_PER_SHARD - g % ROWS_PER_SHARD)
          (stop - g) * ROW_BYTES)
        simp only [blockLoop, if_neg hrem, he]
        exact ⟨_, rfl⟩

/-- With blocks of 0 the inner loop reads nothing, hands nothing over
and is where it was. -/
theorem blockLoop_spins {remaining : Int} (hrem : 0 < remaining)
    (hpos : 0 ≤ pos) (hend : pos < 2 ^ 63) :
    ∀ (fuel : Nat) (s : σ),
      blockLoop f 0 sink fuel pos remaining s = none := by
  have hmin : min 0 remaining = 0 := min_eq_left hrem.le
  have hread : preadAt f 0 pos = .ok [] := by
    rw [preadAt, if_neg (by omega), if_neg (by omega)]
    rfl
  intro fuel
  induction fuel with
  | zero =>
      intro s
      rw [blockLoop, if_neg hrem.ne']
  | succ fuel ih =>
      intro s
      rw [blockLoop, if_neg hrem.ne']
      simp only [hmin, hread, List.length_nil, Nat.cast_zero, ne_eq,
        not_true_eq_false, if_false, add_zero, sub_zero]
      cases sink s [] with
      | none => rfl
      | some s' => exact ih s'

/-- With blocks of no bytes no row is ever through. -/
theorem rowLoop_spins (hread : Readable m g) (hlt : g < stop) (s : σ) :
    ∀ fuel : Nat, rowLoop f 0 sink m stop fuel g s = none := by
  intro fuel
  obtain ⟨shard, hget, hpos, hend⟩ := hread
  have hrem : 0 < min (ROWS_PER_SHARD - g % ROWS_PER_SHARD) (stop - g)
      * ROW_BYTES := by
    simp only [ROWS_PER_SHARD, ROW_BYTES]
    omega
  cases fuel with
  | zero => rw [rowLoop, if_pos hlt]
  | succ fuel =>
      rw [rowLoop, if_pos hlt]
      simp only [hget, blockLoop_spins hrem hpos hend]
      rfl

/-- Without a positive block size no row is walked to its end. -/
theorem blockLoop_idle (hb : block ≤ 0) :
    ∀ (fuel : Nat) (pos remaining : Int) (s t : σ), 0 < remaining →
      blockLoop f block sink fuel pos remaining s ≠ some (t, none) := by
  intro fuel
  induction fuel with
  | zero =>
      intro pos remaining s t hrem h
      rw [blockLoop, if_neg hrem.ne'] at h
      cases h
  | succ fuel ih =>
      intro pos remaining s t hrem h
      rw [blockLoop, if_neg hrem.ne'] at h
      simp only at h
      split at h
      case h_1 => cases h
      case h_2 buf _ =>
        split at h
        case isTrue => cases h
        case isFalse =>
          obtain ⟨s', -, hrest⟩ := Option.bind_eq_some_iff.mp h
          exact ih _ _ s' t (by omega) hrest

/-- Without a positive block size no number of rounds walks the rows to
their end. -/
theorem rowLoop_idle (hb : block ≤ 0) (hlt : g < stop) (s t : σ) :
    ∀ fuel : Nat, rowLoop f block sink m stop fuel g s
      ≠ some (t, none) := by
  intro fuel h
  cases fuel with
  | zero =>
      rw [rowLoop, if_pos hlt] at h
      cases h
  | succ fuel =>
      rw [rowLoop, if_pos hlt] at h
      simp only at h
      split at h
      case h_1 => cases h
      case h_2 shard _ =>
        have hrem : 0 < min (ROWS_PER_SHARD - g % ROWS_PER_SHARD) (stop - g)
            * ROW_BYTES := by
          simp only [ROWS_PER_SHARD, ROW_BYTES]
          omega
        obtain ⟨⟨t', e⟩, hblock, hrest⟩ := Option.bind_eq_some_iff.mp h
        cases e with
        | some e => cases hrest
        | none => exact blockLoop_idle hb _ _ _ s t' hrem hblock

end Refused

-- ================================================================= modes

section Modes

variable {blockMib start count : Int} {m : ShardMap} {f : RegularFile}

/-- A positive block size is a natural number of bytes. -/
theorem blockOf_pos (h : 0 < blockMib) :
    ∃ block : Nat, blockOf blockMib = block ∧ 0 < block := by
  refine ⟨(blockOf blockMib).toNat, ?_, ?_⟩ <;> unfold blockOf <;> omega

/-- With a positive block size the stream is the flat export. -/
theorem stream_agrees {block fuel : Nat} (hblock : blockOf blockMib = block)
    (hb : 0 < block) (hfuel : count.toNat + SPAN ≤ fuel) :
    Agrees (fun _ => True) (stream blockMib f m start count fuel)
      (exportFlat f.bytes block m start count) := by
  have hserved : Served block (fun _ => True)
      (fun out buf : List UInt8 => some (out ++ buf)) (· ++ ·) :=
    fun _ _ _ _ => ⟨rfl, trivial⟩
  have hspare : (start + count - start).toNat + SPAN ≤ fuel := by
    have : (start + count - start).toNat = count.toNat := by omega
    omega
  rw [stream, hblock]
  exact rowLoop_agrees hb hserved (start + count) count.toNat fuel start []
    (by omega) hspare trivial

/-- With a positive block size `--digest` prints what `digest` does. -/
theorem digest_agrees {block fuel : Nat} (hblock : blockOf blockMib = block)
    (hb : 0 < block) (hfuel : count.toNat + SPAN ≤ fuel)
    (hsink : 2 * block ≤ fuel) :
    Agrees (fun _ => True) (digest blockMib f m start count fuel)
      (Export.digest f.bytes block m start count) := by
  have hspare : (start + count - start).toNat + SPAN ≤ fuel := by
    have : (start + count - start).toNat = count.toNat := by omega
    omega
  obtain ⟨e, hrun, hends, -⟩ := rowLoop_agrees hb (served_digest hb hsink)
    (m := m) (f := f) (start + count) count.toNat fuel start {} (by omega)
    hspare hb
  rw [digest, hblock]
  simp only [hrun, Option.bind_eq_bind, Option.bind_some, Export.digest,
    iterRange]
  rcases hout : walk f.bytes block (Sink.feed block) m (start + count)
    count.toNat start {} with ⟨st, e'⟩
  rw [hout] at hends
  cases e' with
  | none =>
      obtain rfl := hends.mpr rfl
      exact .done trivial
  | some e' =>
      obtain ⟨x, rfl⟩ := Option.ne_none_iff_exists'.mp
        (mt hends.mp (by simp))
      exact .raised trivial _ _

/-- A run of `stream` that is back has written the flat export. -/
theorem stream_run {block k : Nat} {out : List UInt8 × Option Raised}
    (h : stream blockMib f m start count k = some out)
    (hblock : blockOf blockMib = block) (hb : 0 < block) :
    out.1 = (exportFlat f.bytes block m start count).1 ∧
      (out.2 = none ↔
        (exportFlat f.bytes block m start count).2 = none) := by
  have hagrees : Agrees (fun _ => True)
      (stream blockMib f m start count (count.toNat + SPAN))
      (exportFlat f.bytes block m start count) :=
    stream_agrees hblock hb le_rfl
  obtain ⟨e, hrun, hends, -⟩ := hagrees
  obtain rfl := stream_steady.unique h hrun
  exact ⟨rfl, hends⟩

/-- A run of `--digest` that is back has printed what `digest` does. -/
theorem digest_run {block k : Nat} {out : List Line × Option Raised}
    (h : digest blockMib f m start count k = some out)
    (hblock : blockOf blockMib = block) (hb : 0 < block) :
    out.1 = (Export.digest f.bytes block m start count).1 ∧
      (out.2 = none ↔
        (Export.digest f.bytes block m start count).2 = none) := by
  have hagrees : Agrees (fun _ => True)
      (digest blockMib f m start count (count.toNat + SPAN + 2 * block))
      (Export.digest f.bytes block m start count) :=
    digest_agrees hblock hb (by omega) (by omega)
  obtain ⟨e, hrun, hends, -⟩ := hagrees
  obtain rfl := digest_steady.unique h hrun
  exact ⟨rfl, hends⟩

/-- An export that ends well has written the flat export, whatever blocks
it was told to read. -/
theorem stream_written {half : List UInt8} {k : Nat}
    (h : stream blockMib f m start count k = some (half, none)) :
    ∃ cut, 0 < cut ∧
      exportFlat f.bytes cut m start count = (half, none) := by
  by_cases hpos : 0 < blockMib
  · obtain ⟨block, hblock, hb⟩ := blockOf_pos hpos
    obtain ⟨hout, hend⟩ := stream_run h hblock hb
    exact ⟨block, hb, Prod.ext hout.symm (hend.mp rfl)⟩
  · have hnone : ¬ start < start + count := by
      intro hlt
      refine rowLoop_idle ?_ hlt _ _ k h
      unfold blockOf
      omega
    have hend : ∀ fuel, stream blockMib f m start count fuel
        = some ([], none) := by
      intro fuel
      unfold stream
      cases fuel <;> rw [rowLoop, if_neg hnone]
    have hhalf : half = [] := by
      have := hend k
      rw [h] at this
      cases this
      rfl
    refine ⟨1, Nat.one_pos, ?_⟩
    have hzero : count.toNat = 0 := by omega
    rw [hhalf, exportFlat, iterRange, hzero]
    rfl

/-- The plain digest ends with the total of the file. -/
theorem plainLoop_last {block : Nat} (hb : 0 < block) (rest : List UInt8)
    (idx : Nat) (all : List UInt8) :
    (plainLoop block rest idx all).getLast? = some (.total (all ++ rest)) := by
  fun_induction plainLoop block rest idx all with
  | case1 rest idx all hnil =>
      have hrest : rest = [] :=
        (List.take_eq_nil_iff.mp hnil).resolve_left (by omega)
      rw [hrest, List.append_nil]
      rfl
  | case2 rest idx all hne ih =>
      rw [List.getLast?_cons, ih, List.append_assoc, List.take_append_drop]
      rfl

/-- What agrees with a result has ended. -/
theorem Agrees.ends {σ : Type} {P : σ → Prop}
    {run : Option (σ × Option Raised)} {out : σ × Option Err}
    (h : Agrees P run out) : ∃ x, run = some x := by
  obtain ⟨e, hrun, -⟩ := h
  exact ⟨_, hrun⟩

/-- The walk is sure to end unless it gets to read blocks of 0. -/
theorem walk_ends {σ : Type} {sink : σ → List UInt8 → Option σ} (s : σ)
    (h : blockMib < 0 ∨ count ≤ 0 ∨ ¬ Readable m start) :
    ∃ out, rowLoop f (blockOf blockMib) sink m (start + count) 1 start s
      = some out := by
  refine rowLoop_refused ?_ s
  rcases h with h | h | h
  · exact .inl (by unfold blockOf; omega)
  · exact .inr (.inr (by omega))
  · exact .inr (.inl h)

/-- A walk that gets to read blocks of 0 never ends. -/
theorem walk_spins {σ : Type} {sink : σ → List UInt8 → Option σ} (s : σ)
    (h : ¬ (blockMib ≠ 0 ∨ count ≤ 0 ∨ ¬ Readable m start)) (fuel : Nat) :
    rowLoop f (blockOf blockMib) sink m (start + count) fuel start s
      = none := by
  obtain ⟨hzero, h⟩ := not_or.mp h
  obtain ⟨hcount, hread⟩ := not_or.mp h
  rw [not_not.mp hzero]
  exact rowLoop_spins (not_not.mp hread) (by omega) s fuel

/-- When an export ends. -/
theorem stream_ends : Ends (stream blockMib f m start count)
    ↔ blockMib ≠ 0 ∨ count ≤ 0 ∨ ¬ Readable m start := by
  constructor
  · intro ⟨fuel, out, hrun⟩
    by_contra h
    rw [stream, walk_spins _ h] at hrun
    cases hrun
  · intro h
    by_cases hpos : 0 < blockMib
    · obtain ⟨block, hblock, hb⟩ := blockOf_pos hpos
      exact ⟨_, (stream_agrees hblock hb le_rfl).ends⟩
    · exact ⟨1, walk_ends [] (h.imp_left fun hne => by omega)⟩

/-- When `--digest` ends. -/
theorem digest_ends : Ends (digest blockMib f m start count)
    ↔ blockMib ≠ 0 ∨ count ≤ 0 ∨ ¬ Readable m start := by
  constructor
  · intro ⟨fuel, out, hrun⟩
    by_contra h
    simp only [digest, walk_spins _ h] at hrun
    cases hrun
  · intro h
    by_cases hpos : 0 < blockMib
    · obtain ⟨block, hblock, hb⟩ := blockOf_pos hpos
      exact ⟨count.toNat + SPAN + 2 * block, (digest_agrees hblock hb
        (by omega) (by omega)).ends⟩
    · have hrefused : blockMib < 0 ∨ count ≤ 0 ∨ ¬ Readable m start :=
        h.imp_left fun hne => by omega
      have hwalk : ∃ out, rowLoop f (blockOf blockMib)
          (fun st b => sinkLoop (blockOf blockMib) 1
            { st with buf := st.buf ++ b }) m (start + count) 1 start {}
          = some out := walk_ends _ hrefused
      obtain ⟨⟨st, e⟩, hout⟩ := hwalk
      refine ⟨1, ?_⟩
      simp only [digest, hout, Option.bind_eq_bind, Option.bind_some]
      cases e <;> exact ⟨_, rfl⟩

/-- When `--digest-plain` hashes the file. -/
theorem digestPlain_ends {room : Nat} :
    Ends (digestPlain room blockMib f) ∧
        (∀ fuel lines, digestPlain room blockMib f fuel
          = some (lines, none) → lines.getLast? = some (.total f.bytes))
      ↔ blockMib ≠ 0 ∨ f.bytes = [] := by
  have hzero : blockMib = 0 → ∀ fuel,
      digestPlain room blockMib f (fuel + 1) = some ([.total []], none) := by
    intro h fuel
    rw [h]
    rfl
  constructor
  · intro ⟨_, hall⟩
    by_contra h
    obtain ⟨hne, hfile⟩ := not_or.mp h
    have := hall 1 _ (hzero (not_not.mp hne) 0)
    simp only [List.getLast?_singleton, Option.some.injEq,
      Line.total.injEq] at this
    exact hfile this.symm
  · intro h
    rcases lt_trichotomy blockMib 0 with hneg | hz | hpos
    · have hrun : ∀ fuel, digestPlain room blockMib f (fuel + 1)
          = some ([], some (.badLength (blockOf blockMib))) := by
        intro fuel
        have h1 : ¬ blockOf blockMib = -1 := by unfold blockOf; omega
        have h2 : blockOf blockMib < 0 := by unfold blockOf; omega
        rw [digestPlain, readLoop, fread, if_neg h1, if_pos h2]
      refine ⟨⟨1, _, hrun 0⟩, fun fuel lines hlines => ?_⟩
      cases fuel with
      | zero => cases hlines
      | succ fuel => rw [hrun fuel] at hlines; cases hlines
    · have hfile : f.bytes = [] := h.resolve_left (not_not.mpr hz)
      refine ⟨⟨1, _, hzero hz 0⟩, fun fuel lines hlines => ?_⟩
      cases fuel with
      | zero => cases hlines
      | succ fuel =>
          rw [hzero hz fuel] at hlines
          cases hlines
          rw [hfile]
          rfl
    · obtain ⟨block, hblock, hb⟩ := blockOf_pos hpos
      unfold digestPlain
      rw [hblock]
      refine ⟨⟨f.bytes.length + 1, readLoop_returns room hb _ _ _ _ _
        (by omega)⟩, fun fuel lines hlines => ?_⟩
      rw [readLoop_finished room hb _ _ _ _ _ _ hlines, List.nil_append]
      exact plainLoop_last hb _ _ _

end Modes

/-- When each mode is sure to end. Of all block sizes only 0 makes a
loop that does not: the walk to stdout and `--digest` spin from the
first read on, if they get there, and `--digest-plain` ends with the
total of nothing, which is the file's if that is empty. -/
theorem modes_end (blockMib start count : Int) (m : ShardMap)
    (f : RegularFile) (room : Nat) :
    (Ends (stream blockMib f m start count)
        ↔ blockMib ≠ 0 ∨ count ≤ 0 ∨ ¬ Readable m start) ∧
      (Ends (digest blockMib f m start count)
        ↔ blockMib ≠ 0 ∨ count ≤ 0 ∨ ¬ Readable m start) ∧
      (Ends (digestPlain room blockMib f) ∧
          (∀ fuel lines, digestPlain room blockMib f fuel
            = some (lines, none) →
            lines.getLast? = some (.total f.bytes))
        ↔ blockMib ≠ 0 ∨ f.bytes = []) :=
  ⟨stream_ends, digest_ends, digestPlain_ends⟩

/-- `--block-mib 0` on the first row of a table of one byte. -/
theorem modes_spin :
    check reversed = true ∧
      ¬ Ends (stream 0 ⟨[1], by decide⟩ reversed 0 1) ∧
      ¬ Ends (digest 0 ⟨[1], by decide⟩ reversed 0 1) ∧
      digestPlain 4096 0 ⟨[1], by decide⟩ 1 = some ([.total []], none) := by
  have hread : Readable reversed 0 :=
    ⟨⟨127 * SPAN, 128 * SPAN, (ROWS_PER_SHARD, ROW_BYTES), "F8_E4M3"⟩,
      by decide +kernel, by decide, by decide⟩
  have hspin : ¬ ((0 : Int) ≠ 0 ∨ (1 : Int) ≤ 0 ∨ ¬ Readable reversed 0) := by
    simp [hread]
  exact ⟨by decide +kernel, mt stream_ends.mp hspin,
    mt digest_ends.mp hspin, rfl⟩

-- ================================================================ the gate

/-- Where a block of the size given can be allocated, `--digest` of a range
prints the lines `--digest-plain` prints of the file an export of the
range has written, in blocks of any size. All three come back, the two
walks well for the ranges `iter_range` can deliver and for those only. Of
any other file the plain digest differs in the block with the first byte
that differs, and not before. -/
theorem digest_gate {m : ShardMap} (hc : check m = true) (f : RegularFile)
    (start count : Int) (sha : List UInt8 → String) {room : Nat}
    {mib cut : Int} (hmib : 1 ≤ mib) (hcut : 1 ≤ cut)
    (hroom : blockOf mib ≤ room) :
    Ends (digest mib f m start count) ∧ Ends (stream cut f m start count) ∧
      (∀ flat, Ends (digestPlain room mib flat)) ∧
      ∀ k k' lines out, digest mib f m start count k = some lines →
        stream cut f m start count k' = some out →
        (lines.2 = none ↔ out.2 = none) ∧
        (out.2 = none ↔ count ≤ 0 ∨ 0 ≤ start ∧
          start + count ≤ N_SHARDS * ROWS_PER_SHARD ∧
          Holds f.bytes m start count) ∧
        (out.2 = none → ∀ (flat : RegularFile) k'' plain,
          digestPlain room mib flat k'' = some plain →
          plain.2 = none ∧
          (flat.bytes = out.1 →
            plain.1.map (Line.text sha) = lines.1.map (Line.text sha)) ∧
          (flat.bytes ≠ out.1 →
            let first := agree out.1 flat.bytes / (blockOf mib).toNat
            (∀ j < first,
              (blocks lines.1)[j]? = (blocks plain.1)[j]?) ∧
            (blocks lines.1)[first]? ≠ (blocks plain.1)[first]?)) := by
  obtain ⟨block, hblock, hb⟩ := blockOf_pos (show 0 < mib by omega)
  obtain ⟨cutBytes, hcutBytes, hcb⟩ := blockOf_pos (show 0 < cut by omega)
  refine ⟨digest_ends.mpr (.inl (by omega)),
    stream_ends.mpr (.inl (by omega)),
    fun flat => (digestPlain_ends.mpr (.inl (by omega))).1, ?_⟩
  intro k k' lines out hlines hout
  obtain ⟨hprinted, hlend⟩ := digest_run hlines hblock hb
  obtain ⟨hwritten, hoend⟩ := stream_run hout hcutBytes hcb
  obtain ⟨hends, hreach, hsame⟩ := flat_gate hc f.bytes start count hb hcb
  refine ⟨hlend.trans (hends.trans hoend.symm), hoend.trans hreach, ?_⟩
  intro hnone flat k'' plain hplain
  obtain ⟨hall, hdiffer⟩ := hsame (hoend.mp hnone)
  -- the plain digest reads the flat file to its end
  have hgood : plain.2 = none := by
    unfold digestPlain at hplain
    rw [hblock] at hplain
    exact readLoop_room (hblock ▸ hroom) _ _ _ _ _ _ hplain
  have hread : plain.1 = Export.digestPlain block flat.bytes := by
    obtain ⟨text, e⟩ := plain
    obtain rfl : e = none := hgood
    unfold digestPlain at hplain
    rw [hblock] at hplain
    exact readLoop_finished room hb _ _ _ _ _ _ hplain
  refine ⟨hgood, fun heq => ?_, fun hne => ?_⟩
  · rw [hread, hprinted, hall, heq, hwritten]
  · have hsize : (blockOf mib).toNat = block := by rw [hblock]; rfl
    rw [hread, hprinted, hwritten, hsize]
    exact hdiffer flat.bytes (hwritten ▸ hne)

/-- Two rows of a checkpoint, where `reversed` has those of its last
shard. -/
def lastRows : RegularFile :=
  ⟨List.replicate 160 7 ++ List.replicate 160 8, by
    rw [List.length_append, List.length_replicate, List.length_replicate]
    decide⟩

theorem digest_gate_lastRows :
    digest 1 lastRows reversed (127 * 2500012) 2 2
        = some ([.block 0 lastRows.bytes, .total lastRows.bytes], none) ∧
      stream 2 lastRows reversed (127 * 2500012) 2 2
        = some (lastRows.bytes, none) ∧
      ∀ (flat : RegularFile) k plain,
        digestPlain (2 ^ 20) 1 flat k = some plain →
        plain.2 = none ∧
        (flat.bytes = lastRows.bytes → plain.1.map (Line.text fun _ => "00")
          = [Line.block 0 lastRows.bytes,
              .total lastRows.bytes].map (Line.text fun _ => "00")) ∧
        (flat.bytes ≠ lastRows.bytes →
          let first := agree lastRows.bytes flat.bytes / (blockOf 1).toNat
          (∀ j < first, (blocks [Line.block 0 lastRows.bytes,
              .total lastRows.bytes])[j]? = (blocks plain.1)[j]?) ∧
          (blocks [Line.block 0 lastRows.bytes,
              .total lastRows.bytes])[first]? ≠ (blocks plain.1)[first]?) := by
  have hdigest : digest 1 lastRows reversed (127 * 2500012) 2 2
      = some ([.block 0 lastRows.bytes, .total lastRows.bytes], none) := by
    decide +kernel
  have hstream : stream 2 lastRows reversed (127 * 2500012) 2 2
      = some (lastRows.bytes, none) := by
    decide +kernel
  refine ⟨hdigest, hstream, ?_⟩
  have hcheck : check reversed = true := by decide +kernel
  have hroom : blockOf 1 ≤ ((2 ^ 20 : Nat) : Int) := by decide
  obtain ⟨-, -, -, hgate⟩ := digest_gate hcheck lastRows (127 * 2500012) 2
    (fun _ => "00") le_rfl (show (1 : Int) ≤ 2 by decide) hroom
  exact (hgate 2 2 _ _ hdigest hstream).2.2 rfl

/-- With a block no index can count, `--digest` prints what it does with
any other, and `--digest-plain` of the same rows prints nothing. -/
theorem digest_gate_noRoom :
    check reversed = true ∧
      digest (2 ^ 43) lastRows reversed (127 * 2500012) 2 2
        = some ([.block 0 lastRows.bytes, .total lastRows.bytes], none) ∧
      stream 1 lastRows reversed (127 * 2500012) 2 2
        = some (lastRows.bytes, none) ∧
      ∀ room < 2 ^ 63, digestPlain room (2 ^ 43) lastRows 1
        = some ([], some (.noRoom (2 ^ 63))) := by
  refine ⟨by decide +kernel, by decide +kernel, by decide +kernel, ?_⟩
  intro room hroom
  have hblock : blockOf (2 ^ 43) = 2 ^ 63 := by decide
  rw [digestPlain, hblock, readLoop, fread, if_neg (by decide),
    if_neg (by decide), if_pos (by omega)]

end PleRowServer.Export.Main
