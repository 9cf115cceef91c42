/-
Byte strings as both ends of a wire see them: little-endian naturals of
a fixed width, reads and writes at an offset of a buffer, and the fixed
record formats of a `struct`-style packer.

# Reading what was written

Everything downstream needs one of two facts. `natAt_splice` and its
relatives say what a read at an offset returns after a write at the
same or another offset; `unpack_pack` says that a packed record unpacks
to its own fields. Both reduce to `leNat_leBytes`: a width-`w` encoding
reads back modulo `256 ^ w`.
-/
import Mathlib.Data.List.Basic
import Mathlib.Tactic.Ring

namespace PleRowServer.Base

-- ============================================= little-endian naturals

/-- The low `w` bytes of `v`, least significant first. -/
def leBytes : Nat → Nat → List UInt8
  | 0, _ => []
  | w + 1, v => UInt8.ofNat v :: leBytes w (v / 256)

/-- The natural a little-endian byte string denotes. -/
def leNat : List UInt8 → Nat
  | [] => 0
  | b :: bs => b.toNat + 256 * leNat bs

@[simp] theorem length_leBytes (w v : Nat) : (leBytes w v).length = w := by
  induction w generalizing v with
  | zero => rfl
  | succ w ih => simp [leBytes, ih]

theorem leNat_lt (bs : List UInt8) : leNat bs < 256 ^ bs.length := by
  induction bs with
  | nil => simp [leNat]
  | cons b bs ih =>
      have hb : b.toNat < 256 := b.toNat_lt
      simp only [leNat, List.length_cons, pow_succ]
      omega

/-- A width-`w` encoding reads back modulo `256 ^ w`. -/
theorem leNat_leBytes (w v : Nat) : leNat (leBytes w v) = v % 256 ^ w := by
  induction w generalizing v with
  | zero => simp [leBytes, leNat, Nat.mod_one]
  | succ w ih =>
      simp only [leBytes, leNat, ih]
      rw [show (256 : Nat) ^ (w + 1) = 256 * 256 ^ w by ring,
        Nat.mod_mul]
      simp [UInt8.toNat_ofNat']

theorem leNat_leBytes_of_lt {w v : Nat} (h : v < 256 ^ w) :
    leNat (leBytes w v) = v := by
  rw [leNat_leBytes, Nat.mod_eq_of_lt h]

/-- Every byte string is the encoding of what it denotes. -/
theorem leBytes_leNat (bs : List UInt8) :
    leBytes bs.length (leNat bs) = bs := by
  induction bs with
  | nil => rfl
  | cons b bs ih =>
      have hb : b.toNat < 256 := b.toNat_lt
      have hdiv : leNat (b :: bs) / 256 = leNat bs := by
        simp only [leNat]; omega
      have hbyte : UInt8.ofNat (leNat (b :: bs)) = b := by
        apply UInt8.toNat_inj.mp
        simp only [leNat, UInt8.toNat_ofNat']
        omega
      simp only [List.length_cons, leBytes, hdiv, hbyte, ih]

-- ================================================== reads at an offset

/-- The `w` bytes at offset `off`. -/
def bytesAt (bs : List UInt8) (off w : Nat) : List UInt8 :=
  (bs.drop off).take w

/-- The little-endian natural in the `w` bytes at offset `off`. -/
def natAt (bs : List UInt8) (off w : Nat) : Nat := leNat (bytesAt bs off w)

theorem length_bytesAt {bs : List UInt8} {off w : Nat}
    (h : off + w ≤ bs.length) : (bytesAt bs off w).length = w := by
  simp only [bytesAt, List.length_take, List.length_drop]
  omega

theorem natAt_lt (bs : List UInt8) (off w : Nat) :
    natAt bs off w < 256 ^ w := by
  refine (leNat_lt _).trans_le (Nat.pow_le_pow_right (by decide) ?_)
  simp only [bytesAt, List.length_take]
  omega

/-- A read inside the first part of a concatenation. -/
theorem bytesAt_append_left {a b : List UInt8} {off w : Nat}
    (h : off + w ≤ a.length) : bytesAt (a ++ b) off w = bytesAt a off w := by
  unfold bytesAt
  rw [List.drop_append_of_le_length (by omega),
    List.take_append_of_le_length (by simp; omega)]

/-- A read inside the second part of a concatenation. -/
theorem bytesAt_append_right {a b : List UInt8} {off w : Nat} :
    bytesAt (a ++ b) (a.length + off) w = bytesAt b off w := by
  unfold bytesAt
  rw [← List.drop_drop, List.drop_left]

theorem natAt_append_left {a b : List UInt8} {off w : Nat}
    (h : off + w ≤ a.length) : natAt (a ++ b) off w = natAt a off w := by
  unfold natAt
  rw [bytesAt_append_left h]

/-- A read that lies in a prefix sees only the prefix. -/
theorem natAt_of_initial {a c : List UInt8} {off w : Nat} (hac : a <+: c)
    (h : off + w ≤ a.length) : natAt c off w = natAt a off w := by
  obtain ⟨b, rfl⟩ := hac
  exact natAt_append_left h

/-- Reading an encoded field at its own offset. -/
theorem natAt_field {a b : List UInt8} {w v off : Nat}
    (hoff : off = a.length) :
    natAt (a ++ leBytes w v ++ b) off w = v % 256 ^ w := by
  subst hoff
  unfold natAt
  rw [List.append_assoc, show a.length = a.length + 0 by rfl,
    bytesAt_append_right]
  simp [bytesAt, leNat_leBytes]

-- ================================================== writes at an offset

/-- Overwrite `buf` from offset `off` with `bs`; what lies beyond the
buffer's end is dropped. -/
def splice (buf : List UInt8) (off : Nat) (bs : List UInt8) : List UInt8 :=
  (buf.take off ++ bs ++ buf.drop (off + bs.length)).take buf.length

@[simp] theorem length_splice {buf : List UInt8} {off : Nat}
    {bs : List UInt8} (h : off ≤ buf.length) :
    (splice buf off bs).length = buf.length := by
  simp only [splice, List.length_take, List.length_append, List.length_drop]
  omega

/-- A write that fits, in full. -/
theorem splice_eq {buf : List UInt8} {off : Nat} {bs : List UInt8}
    (h : off + bs.length ≤ buf.length) :
    splice buf off bs = buf.take off ++ bs ++ buf.drop (off + bs.length) := by
  unfold splice
  rw [List.take_of_length_le]
  simp only [List.length_append, List.length_take, List.length_drop]
  omega

/-- A write extends the part of the buffer filled before it. -/
theorem take_splice {buf : List UInt8} {off : Nat} {bs : List UInt8}
    (h : off + bs.length ≤ buf.length) :
    (splice buf off bs).take (off + bs.length) = buf.take off ++ bs := by
  rw [splice_eq h, List.take_left']
  simp only [List.length_append, List.length_take]
  omega

/-- A write that fits is read back where it was made. -/
theorem bytesAt_splice {buf : List UInt8} {off : Nat} {bs : List UInt8}
    (h : off + bs.length ≤ buf.length) :
    bytesAt (splice buf off bs) off bs.length = bs := by
  have hlen : (buf.take off).length = off := by
    rw [List.length_take]; omega
  unfold bytesAt
  rw [splice_eq h, List.append_assoc, List.drop_left' hlen, List.take_left]

/-- What lies past a write is untouched. -/
theorem drop_splice {buf : List UInt8} {off n : Nat} {bs : List UInt8}
    (h : off + bs.length ≤ buf.length) (hn : off + bs.length ≤ n) :
    (splice buf off bs).drop n = buf.drop n := by
  rw [splice_eq h]
  have hlen : (buf.take off ++ bs).length = off + bs.length := by
    simp only [List.length_append, List.length_take]
    omega
  obtain ⟨k, rfl⟩ := Nat.exists_eq_add_of_le hn
  rw [← List.drop_drop, ← List.drop_drop (j := off + bs.length), ← hlen,
    List.drop_left, hlen]

/-- A write at the front, read back as the front of the buffer. -/
theorem take_splice_zero {buf bs : List UInt8} {n : Nat}
    (h : bs.length ≤ n) (hn : n ≤ buf.length) :
    (splice buf 0 bs).take n = bs ++ (buf.drop bs.length).take (n - bs.length) := by
  rw [splice_eq (by omega)]
  simp only [List.take_zero, List.nil_append, Nat.zero_add]
  rw [List.take_append]
  simp [List.take_of_length_le h]

-- ====================================================== record formats

/-- The integer codes of a packed record: unsigned, 1, 2, 4 and 8
bytes. -/
inductive Code
  | B | H | I | Q
deriving DecidableEq, Repr

/-- Bytes one code takes in the standard (unpadded) layout. -/
def Code.width : Code → Nat
  | .B => 1
  | .H => 2
  | .I => 4
  | .Q => 8

/-- Bytes a whole format takes. -/
def calcsize (fmt : List Code) : Nat := (fmt.map Code.width).sum

/-- `struct.pack("<...")`: `none` stands for `struct.error`, raised on a
wrong number of values and on a value its code cannot hold. -/
def pack : List Code → List Nat → Option (List UInt8)
  | [], [] => some []
  | c :: cs, v :: vs =>
      if v < 256 ^ c.width then
        (pack cs vs).map (leBytes c.width v ++ ·)
      else none
  | _, _ => none

/-- `struct.unpack("<...")`: `none` stands for `struct.error`, raised on
a buffer of another size than the format's. -/
def unpack : List Code → List UInt8 → Option (List Nat)
  | [], bs => if bs = [] then some [] else none
  | c :: cs, bs =>
      if bs.length < c.width then none
      else (unpack cs (bs.drop c.width)).map (leNat (bs.take c.width) :: ·)

theorem pack_cons {c : Code} {v : Nat} (h : v < 256 ^ c.width)
    (cs : List Code) (vs : List Nat) :
    pack (c :: cs) (v :: vs) = (pack cs vs).map (leBytes c.width v ++ ·) :=
  if_pos h

/-- A packed record has the size of its format. -/
theorem length_of_pack {fmt : List Code} {vs : List Nat} {bs : List UInt8}
    (h : pack fmt vs = some bs) : bs.length = calcsize fmt := by
  induction fmt generalizing vs bs with
  | nil =>
      cases vs with
      | nil => simp only [pack, Option.some.injEq] at h; simp [← h, calcsize]
      | cons v vs => simp [pack] at h
  | cons c cs ih =>
      cases vs with
      | nil => simp [pack] at h
      | cons v vs =>
          simp only [pack] at h
          split at h
          case isFalse => cases h
          case isTrue =>
            obtain ⟨tl, htl, rfl⟩ := Option.map_eq_some_iff.mp h
            simp [ih htl, calcsize]

/-- The fields of a record that starts at offset `off`, each read at
its own offset. -/
def fieldsAt (bs : List UInt8) : Nat → List Code → List Nat
  | _, [] => []
  | off, c :: cs => natAt bs off c.width :: fieldsAt bs (off + c.width) cs

/-- A record of the right size unpacks to the fields at its offsets. -/
theorem unpack_eq (fmt : List Code) (bs : List UInt8) (off : Nat)
    (h : bs.length = off + calcsize fmt) :
    unpack fmt (bs.drop off) = some (fieldsAt bs off fmt) := by
  induction fmt generalizing off with
  | nil => simp_all [unpack, fieldsAt, calcsize]
  | cons c cs ih =>
      have hlen : (bs.drop off).length = c.width + calcsize cs := by
        simp only [List.length_drop, h, calcsize, List.map_cons, List.sum_cons]
        omega
      simp only [unpack, fieldsAt]
      rw [if_neg (by omega), List.drop_drop,
        ih _ (by rw [h]; simp only [calcsize, List.map_cons, List.sum_cons]; omega)]
      rfl

/-- A packed record unpacks to its own fields. -/
theorem unpack_pack {fmt : List Code} {vs : List Nat} {bs : List UInt8}
    (h : pack fmt vs = some bs) : unpack fmt bs = some vs := by
  induction fmt generalizing vs bs with
  | nil =>
      cases vs with
      | nil => simp only [pack, Option.some.injEq] at h; simp [← h, unpack]
      | cons v vs => simp [pack] at h
  | cons c cs ih =>
      cases vs with
      | nil => simp [pack] at h
      | cons v vs =>
          simp only [pack] at h
          split at h
          case isFalse => cases h
          case isTrue hv =>
            obtain ⟨tl, htl, rfl⟩ := Option.map_eq_some_iff.mp h
            simp [unpack, ih htl, leNat_leBytes_of_lt hv]

/-- Each field of a packed record, read at its own offset. -/
theorem fieldsAt_of_pack {fmt : List Code} {vs : List Nat}
    {bs : List UInt8} (h : pack fmt vs = some bs) : fieldsAt bs 0 fmt = vs := by
  have hu := unpack_eq fmt bs 0
    (by rw [length_of_pack h, Nat.zero_add])
  rw [List.drop_zero, unpack_pack h] at hu
  exact (Option.some.inj hu).symm

end PleRowServer.Base
