/-
rowserverd.c, the log: `log_line`, which formats a line into a buffer on
its stack and writes it out, and `log_capped`, which formats into a
smaller one first and may add how many lines were dropped.

A store that does not lie inside its buffer is an outcome of its own
(`none`), so that staying inside is something to prove. What a buffer
holds before it is written to is a parameter.

# Where a message is cut

`vsnprintf` is given one byte less than the buffer has, to keep a byte
for the newline, and uses the last of what it is given for its own
terminator. The length taken for a message that did not fit counts that
terminator in.
-/
import PleRowServer.Base.Bytes
import PleRowServer.Daemon.Ratelimit
import Mathlib.Data.List.TakeWhile

namespace PleRowServer.Daemon

open Base

-- ================================================================== text

def NUL : UInt8 := 0
def NEWLINE : UInt8 := 10

/-- The bytes of a text in ASCII. -/
def ascii (cs : List Char) : List UInt8 := cs.map fun c => c.toNat.toUInt8

/-- A number in decimal. -/
def decimal (n : Nat) : List UInt8 := ascii (Nat.toDigits 10 n)

/-- `"%02d"` of a number below 100. -/
def twoDigits (n : Nat) : List UInt8 :=
  [(48 + n / 10).toUInt8, (48 + n % 10).toUInt8]

/-- `struct tm`, as gmtime_r fills it in. -/
structure Tm where
  year : Int
  mon : Fin 12
  mday : Fin 32
  hour : Fin 24
  min : Fin 60
  sec : Fin 61
  /-- `tm_year`, an int, counts from 1900 -/
  year_int : -2 ^ 31 ≤ year - 1900 ∧ year - 1900 < 2 ^ 31

/-- `"%Y"`. -/
def yearText (year : Int) : List UInt8 :=
  (if year < 0 then ascii ['-'] else []) ++ decimal year.natAbs

/-- `strftime` of `"%Y-%m-%dT%H:%M:%SZ "`. -/
def stampOf (tm : Tm) : List UInt8 :=
  yearText tm.year ++ ascii ['-'] ++ twoDigits (tm.mon + 1) ++ ascii ['-'] ++
    twoDigits tm.mday ++ ascii ['T'] ++ twoDigits tm.hour ++ ascii [':'] ++
    twoDigits tm.min ++ ascii [':'] ++ twoDigits tm.sec ++ ascii ['Z', ' ']

/-- Neither a NUL nor a newline. -/
def Plain (bs : List UInt8) : Prop := NUL ∉ bs ∧ NEWLINE ∉ bs

/-- Two plain texts in a row. -/
theorem Plain.append {a b : List UInt8} (ha : Plain a) (hb : Plain b) :
    Plain (a ++ b) :=
  ⟨by simp [ha.1, hb.1], by simp [ha.2, hb.2]⟩

/-- A decimal is plain. -/
theorem plain_decimal (n : Nat) : Plain (decimal n) := by
  have hbyte : ∀ b ∈ decimal n, 48 ≤ b.toNat := by
    intro b hb
    obtain ⟨c, hc, rfl⟩ := List.mem_map.mp hb
    have hd := Nat.isDigit_of_mem_toDigits (by omega) le_rfl hc
    simp only [Char.isDigit, Bool.and_eq_true, decide_eq_true_eq] at hd
    have hlo : 48 ≤ c.toNat := UInt32.le_iff_toNat_le.mp hd.1
    have hhi : c.toNat ≤ 57 := UInt32.le_iff_toNat_le.mp hd.2
    show 48 ≤ c.toNat.toUInt8.toNat
    rw [Nat.toUInt8_eq, UInt8.toNat_ofNat_of_lt' (by
      show c.toNat < 256; omega)]
    exact hlo
  exact ⟨fun h => absurd (hbyte _ h) (by decide), fun h =>
    absurd (hbyte _ h) (by decide)⟩

/-- A decimal has no more digits than its number takes. -/
theorem length_decimal {n k : Nat} (hk : 0 < k) (h : n < 10 ^ k) :
    (decimal n).length ≤ k := by
  unfold decimal ascii
  rw [List.length_map]
  exact (Nat.length_toDigits_le_iff (by omega) hk).mpr h

/-- The longest timestamp there is. -/
theorem length_stampOf (tm : Tm) : (stampOf tm).length ≤ 28 := by
  have hyear := tm.year_int
  have hdigits : (decimal tm.year.natAbs).length ≤ 10 :=
    length_decimal (by omega) (by omega)
  have hsign : (if tm.year < 0 then ascii ['-'] else []).length ≤ 1 := by
    split <;> simp [ascii]
  simp only [stampOf, yearText, twoDigits, ascii, List.length_append,
    List.length_map, List.length_cons, List.length_nil] at *
  omega

/-- Two digits are plain. -/
theorem plain_twoDigits {n : Nat} (hn : n < 100) : Plain (twoDigits n) := by
  have hbyte : ∀ b ∈ twoDigits n, 48 ≤ b.toNat := by
    intro b hb
    simp only [twoDigits, List.mem_cons, List.not_mem_nil, or_false] at hb
    rcases hb with rfl | rfl <;>
      rw [Nat.toUInt8_eq, UInt8.toNat_ofNat_of_lt' (by
        show _ < 256; omega)] <;> omega
  exact ⟨fun h => absurd (hbyte _ h) (by decide), fun h =>
    absurd (hbyte _ h) (by decide)⟩

/-- The timestamp is plain. -/
theorem plain_stampOf (tm : Tm) : Plain (stampOf tm) := by
  have hyear : Plain (yearText tm.year) := by
    unfold yearText
    refine Plain.append ?_ (plain_decimal _)
    split
    · exact ⟨by decide, by decide⟩
    · exact ⟨by simp, by simp⟩
  have hdash : Plain (ascii ['-']) := ⟨by decide, by decide⟩
  have hcolon : Plain (ascii [':']) := ⟨by decide, by decide⟩
  have htee : Plain (ascii ['T']) := ⟨by decide, by decide⟩
  have hmon : Plain (twoDigits (tm.mon + 1)) := plain_twoDigits (by omega)
  have hday : Plain (twoDigits tm.mday) := plain_twoDigits (by omega)
  have hhour : Plain (twoDigits tm.hour) := plain_twoDigits (by omega)
  have hmin : Plain (twoDigits tm.min) := plain_twoDigits (by omega)
  have hsec : Plain (twoDigits tm.sec) := plain_twoDigits (by omega)
  have hdate := (((hyear.append hdash).append hmon).append hdash).append hday
  have hclock := ((((hdate.append htee).append hhour).append hcolon).append
    hmin).append hcolon
  exact (hclock.append hsec).append ⟨by decide, by decide⟩

-- =============================================================== buffers

/-- Bytes stored in a buffer, none if they do not lie inside it. -/
def store (buf : List UInt8) (at_ : Nat) (bs : List UInt8) :
    Option (List UInt8) :=
  if at_ + bs.length ≤ buf.length then some (splice buf at_ bs) else none

/-- `vsnprintf` of a text into `size` bytes: what it returns and what it
stores. -/
def vsnprintf (size : Nat) (text : List UInt8) : Int × List UInt8 :=
  if text.length < 2 ^ 31 then
    (text.length, if size = 0 then [] else text.take (size - 1) ++ [NUL])
  else (-1, [])

/-- A buffer's bytes up to its first NUL, as `"%s"` prints them. -/
def cstr (buf : List UInt8) : List UInt8 := buf.takeWhile (· ≠ NUL)

def LINE : Nat := 512
def CAPPED : Nat := 384

/-- A buffer on the stack. -/
def fresh (size : Nat) (junk : Nat → UInt8) : List UInt8 :=
  (List.range size).map junk

-- ================================================================= model

/-- Where the newline goes, a text of length `m` having been formatted
at `n`. -/
def lineEnd (n : Nat) (m : Int) : Nat :=
  n + (if m.toNat < LINE - n - 1 then m.toNat else LINE - n - 1)

/-- `log_line` at a time and for a formatted text: what it writes to
stderr, write by write. -/
def logLine (junk : Nat → UInt8) (tm : Tm) (text : List UInt8) :
    Option (List (List UInt8)) := do
  let stamp := stampOf tm
  let line ← store (fresh LINE junk) 0 (stamp ++ [NUL])
  let n := stamp.length
  let (m, formatted) := vsnprintf (LINE - n - 1) text
  let line ← store line n formatted
  if m < 0 then return []
  let n := lineEnd n m
  let line ← store line n [NEWLINE]
  return [line.take (n + 1)]

/-- What `log_capped` adds to a line. -/
def moreText (dropped : Int64) : List UInt8 :=
  if 0 < dropped then
    ascii " (and ".toList ++ decimal dropped.toInt.toNat ++
      ascii " more not logged)".toList
  else []

/-- `log_capped`, its limiter's answer being `dropped`. -/
def logCapped (junk junk' : Nat → UInt8) (tm : Tm) (dropped : Int64)
    (text : List UInt8) : Option (List (List UInt8)) := do
  if dropped < 0 then return []
  let (m, formatted) := vsnprintf CAPPED text
  let line ← store (fresh CAPPED junk') 0 formatted
  if m < 0 then return []
  logLine junk tm (cstr line ++ moreText dropped)

-- ============================================================== log_line

section Store

variable {buf front : List UInt8} {n : Nat}

/-- A store after `front` extends it. -/
theorem store_extends (bs : List UInt8) (hfront : buf.take n = front)
    (hn : front.length = n) (hroom : n + bs.length ≤ buf.length) :
    ∃ buf', store buf n bs = some buf' ∧ buf'.length = buf.length ∧
      ∀ k ≤ bs.length, buf'.take (n + k) = front ++ bs.take k := by
  refine ⟨splice buf n bs, if_pos hroom, length_splice (by omega), ?_⟩
  intro k hk
  have hall := take_splice hroom
  have hcut : (splice buf n bs).take (n + k)
      = ((splice buf n bs).take (n + bs.length)).take (n + k) := by
    rw [List.take_take, Nat.min_eq_left (by omega)]
  rw [hcut, hall, hfront, List.take_append, hn, Nat.add_sub_cancel_left,
    List.take_of_length_le (by omega)]

/-- A buffer has its size whatever is in it. -/
theorem length_fresh (size : Nat) (junk : Nat → UInt8) :
    (fresh size junk).length = size := by simp [fresh]

end Store

/-- What `log_line` puts between the timestamp and the newline. -/
def bodyText (tm : Tm) (text : List UInt8) : List UInt8 :=
  if (stampOf tm).length + text.length < 511 then text
  else text.take (510 - (stampOf tm).length) ++ [NUL]

section LogLine

variable {junk junk' : Nat → UInt8} {tm : Tm} {text : List UInt8}

/-- A text of less than 2^31 bytes is formatted, and cut to the buffer. -/
theorem length_formatted (size : Nat) (hs : 0 < size)
    (ht : text.length < 2 ^ 31) :
    vsnprintf size text
      = ((text.length : Int), text.take (size - 1) ++ [NUL]) := by
  unfold vsnprintf
  rw [if_pos ht, if_neg (by omega)]

/-- What is written of the message ends within the buffer, where
`log_line` thinks it does. -/
theorem bodyText_end (tm : Tm) (text : List UInt8) :
    (stampOf tm).length + (bodyText tm text).length ≤ 511 ∧
      lineEnd (stampOf tm).length text.length
        = (stampOf tm).length + (bodyText tm text).length := by
  have hstamp := length_stampOf tm
  have hline : LINE = 512 := rfl
  unfold bodyText lineEnd
  by_cases h : (stampOf tm).length + text.length < 511
  · rw [if_pos h, if_pos (by omega)]
    omega
  · rw [if_neg h, if_neg (by omega), List.length_append, List.length_take,
      List.length_singleton]
    omega

/-- What is written of the message is the front of what vsnprintf has
stored. -/
theorem bodyText_stored (tm : Tm) (text : List UInt8) :
    let stored := text.take (LINE - (stampOf tm).length - 1 - 1) ++ [NUL]
    (bodyText tm text).length ≤ stored.length ∧
      stored.take (bodyText tm text).length = bodyText tm text := by
  have hstamp := length_stampOf tm
  have hsize : LINE - (stampOf tm).length - 1 - 1
      = 510 - (stampOf tm).length := by
    simp only [LINE]
    omega
  simp only [hsize]
  unfold bodyText
  split
  case isTrue h =>
    rw [List.take_of_length_le (l := text) (by omega)]
    exact ⟨by simp, by rw [List.take_left]⟩
  case isFalse h => exact ⟨le_rfl, by rw [List.take_length]⟩

/-- `log_line` stays inside its buffer, and writes one line or, if the
text has no length an int can hold, nothing. -/
theorem logLine_eq (junk : Nat → UInt8) (tm : Tm) (text : List UInt8) :
    logLine junk tm text = some (if text.length < 2 ^ 31 then
      [stampOf tm ++ bodyText tm text ++ [NEWLINE]] else []) := by
  have hstamp := length_stampOf tm
  obtain ⟨hle, hend⟩ := bodyText_end tm text
  obtain ⟨hbody, hstored⟩ := bodyText_stored tm text
  set stamp := stampOf tm with hs
  obtain ⟨line, hline, hlen, hfront⟩ := store_extends
    (stamp ++ [NUL]) (List.take_zero (l := fresh LINE junk)) rfl
    (by rw [length_fresh]; simp [LINE]; omega)
  rw [length_fresh] at hlen
  have hn : line.take stamp.length = stamp := by
    have := hfront stamp.length (by simp)
    rwa [Nat.zero_add, List.nil_append, List.take_left] at this
  unfold logLine
  simp only [← hs, hline, Option.bind_eq_bind, Option.bind_some]
  by_cases ht : text.length < 2 ^ 31
  case neg =>
    have hv : vsnprintf (LINE - stamp.length - 1) text = (-1, []) := by
      unfold vsnprintf
      rw [if_neg ht]
    obtain ⟨line', hline', -⟩ := store_extends [] hn rfl
      (by rw [hlen]; simp [LINE]; omega)
    rw [hv, if_neg ht]
    simp [hline']
  case pos =>
    have hv := length_formatted (LINE - stamp.length - 1)
      (by simp only [LINE]; omega) ht
    obtain ⟨line', hline', hlen', hfront'⟩ := store_extends
      (text.take (LINE - stamp.length - 1 - 1) ++ [NUL]) hn rfl (by
        rw [hlen, List.length_append, List.length_take,
          List.length_singleton]
        simp only [LINE]
        omega)
    have htake := hfront' _ hbody
    rw [hstored] at htake
    obtain ⟨line'', hline'', -, hfront''⟩ := store_extends
      [NEWLINE] htake (by rw [List.length_append])
      (by rw [hlen', hlen, List.length_singleton]; simp only [LINE]; omega)
    have hneg : ¬ (text.length : Int) < 0 := by omega
    rw [hv, if_pos ht]
    simp only [hline', Option.bind_some, if_neg hneg, hend, hline'']
    have hall := hfront'' 1 le_rfl
    rw [List.take_of_length_le (l := [NEWLINE]) (by simp)] at hall
    rw [hall]
    rfl

-- ============================================================ log_capped

/-- A C string ends at the first NUL, whatever follows. -/
theorem cstr_append (a b : List UInt8) :
    cstr (a ++ NUL :: b) = cstr a := by
  unfold cstr
  induction a with
  | nil => simp
  | cons x a ih =>
      simp only [List.cons_append, List.takeWhile_cons]
      split
      case isTrue => rw [ih]
      case isFalse => rfl

/-- A C string is the beginning of its buffer. -/
theorem cstr_initial (a : List UInt8) : cstr a <+: a :=
  List.takeWhile_prefix _

/-- A C string has no NUL: it ends before the first. -/
theorem nul_not_mem_cstr (a : List UInt8) : NUL ∉ cstr a := by
  intro h
  have := List.mem_takeWhile_imp h
  simp at this

/-- The suffix at its longest. -/
theorem length_moreText (dropped : Int64) :
    (moreText dropped).length ≤ 42 := by
  have hlt := dropped.toInt_lt
  have hdigits : (decimal dropped.toInt.toNat).length ≤ 19 :=
    length_decimal (by omega) (by omega)
  unfold moreText
  split
  case isTrue =>
    simp only [List.length_append, ascii, List.length_map]
    have hand : " (and ".toList.length = 6 := rfl
    have hnot : " more not logged)".toList.length = 17 := rfl
    omega
  case isFalse => simp

/-- The suffix is plain. -/
theorem plain_moreText (dropped : Int64) : Plain (moreText dropped) := by
  unfold moreText
  split
  case isTrue =>
    refine Plain.append (Plain.append ?_ (plain_decimal _)) ?_
    · exact ⟨by decide, by decide⟩
    · exact ⟨by decide, by decide⟩
  case isFalse => exact ⟨by simp, by simp⟩

/-- What `log_capped` keeps of a text. -/
def cappedText (text : List UInt8) : List UInt8 :=
  cstr (text.take (CAPPED - 1))

/-- What is kept of a message is its beginning. -/
theorem cappedText_initial (text : List UInt8) : cappedText text <+: text :=
  (cstr_initial _).trans (List.take_prefix _ _)

/-- A text without a NUL is kept whole, or as far as the buffer goes. -/
theorem cappedText_plain {text : List UInt8} (h : NUL ∉ text) :
    cappedText text = text ∨
      CAPPED ≤ text.length ∧ (cappedText text).length + 1 = CAPPED := by
  have hall : cappedText text = text.take (CAPPED - 1) := by
    refine List.takeWhile_eq_self_iff.mpr fun b hb => ?_
    have hne : b ≠ NUL := fun he => h (he ▸ List.mem_of_mem_take hb)
    simpa using hne
  rw [hall]
  by_cases hfit : text.length ≤ CAPPED - 1
  · exact .inl (List.take_of_length_le hfit)
  · refine .inr ⟨by omega, ?_⟩
    rw [List.length_take]
    simp only [CAPPED] at *
    omega

/-- `log_capped` stays inside both buffers, and a line let through goes
out whole, with what it adds. -/
theorem logCapped_eq (junk junk' : Nat → UInt8) (tm : Tm)
    (dropped : Int64) (text : List UInt8) :
    logCapped junk junk' tm dropped text = some
      (if dropped < 0 then [] else if text.length < 2 ^ 31 then
        [stampOf tm ++ (cappedText text ++ moreText dropped) ++ [NEWLINE]]
      else []) := by
  unfold logCapped
  by_cases hd : dropped < 0
  · simp [hd]
  · rw [if_neg hd, if_neg hd]
    by_cases ht : text.length < 2 ^ 31
    · rw [length_formatted CAPPED (by decide) ht, if_pos ht]
      obtain ⟨line, hline, -, hfront⟩ := store_extends
        (text.take (CAPPED - 1) ++ [NUL])
        (List.take_zero (l := fresh CAPPED junk')) rfl (by
          rw [length_fresh, List.length_append, List.length_take,
            List.length_singleton]
          simp only [CAPPED]
          omega)
      have hneg : ¬ (text.length : Int) < 0 := by omega
      have hcstr : cstr line = cappedText text := by
        have hall := hfront _ le_rfl
        rw [List.take_length, List.nil_append] at hall
        rw [← List.take_append_drop (0 + (text.take (CAPPED - 1)
          ++ [NUL]).length) line, hall, List.append_assoc]
        exact cstr_append _ _
      simp only [hline, Option.bind_eq_bind, Option.bind_some, if_neg hneg,
        hcstr]
      have hstamp := length_stampOf tm
      have hmore := length_moreText dropped
      have hkept : (cappedText text).length ≤ 383 := by
        refine (cstr_initial _).length_le.trans ?_
        rw [List.length_take]
        simp only [CAPPED]
        omega
      have hbody : bodyText tm (cappedText text ++ moreText dropped)
          = cappedText text ++ moreText dropped := by
        unfold bodyText
        rw [if_pos (by rw [List.length_append]; omega)]
      refine (logLine_eq _ _ _).trans ?_
      rw [if_pos (by rw [List.length_append]; omega), hbody]
    · have hv : vsnprintf CAPPED text = (-1, []) := by
        unfold vsnprintf
        rw [if_neg ht]
      obtain ⟨line, hline, -⟩ := store_extends []
        (List.take_zero (l := fresh CAPPED junk')) rfl (by simp)
      rw [hv, if_neg ht]
      simp [hline]

-- ================================================================= lines

/-- A text as it is to be logged: in one write the timestamp, the text
or as much of its front as there is room for, and a newline. -/
def WellLogged (tm : Tm) (text : List UInt8)
    (writes : Option (List (List UInt8))) : Prop :=
  ∃ shown, writes = some [stampOf tm ++ shown ++ [NEWLINE]] ∧
    shown <+: text ∧
    (shown = text ∨ LINE < (stampOf tm).length + text.length + 1) ∧
    (NUL ∉ text → NUL ∉ stampOf tm ++ shown ++ [NEWLINE])

/-- One given to `log_capped`: with as much of its front as the staging
buffer has room for, all of it if that is enough, and its count whole. -/
def WellCapped (tm : Tm) (dropped : Int64) (text : List UInt8)
    (writes : Option (List (List UInt8))) : Prop :=
  ∃ shown, writes
      = some [stampOf tm ++ (shown ++ moreText dropped) ++ [NEWLINE]] ∧
    shown = cappedText text ∧ shown <+: text ∧
    (NUL ∉ text → shown = text ∨
      CAPPED ≤ text.length ∧ shown.length + 1 = CAPPED) ∧
    NUL ∉ stampOf tm ++ (shown ++ moreText dropped)

/-- The byte of a text that does not fit at which the terminator
stands is one itself. -/
def CutAtNul (tm : Tm) (text : List UInt8) : Prop :=
  text.length < 2 ^ 31 ∧ text[510 - (stampOf tm).length]? = some NUL

/-- A line that shows a beginning of the message has no NUL of its own. -/
theorem wellLogged_of_initial {shown : List UInt8} (h : shown <+: text) :
    NUL ∉ text → NUL ∉ stampOf tm ++ shown ++ [NEWLINE] := by
  intro ht hn
  simp only [List.mem_append, List.mem_singleton] at hn
  rcases hn with (hn | hn) | hn
  · exact (plain_stampOf tm).1 hn
  · exact ht (h.subset hn)
  · exact absurd hn (by decide)

/-- A text is well logged exactly if the terminator is not counted in,
or stands for a NUL of the text's own. -/
theorem wellLogged_iff :
    WellLogged tm text (logLine junk tm text)
      ↔ (stampOf tm).length + text.length < 511 ∨ CutAtNul tm text := by
  have hstamp := length_stampOf tm
  rw [logLine_eq]
  constructor
  · intro h
    obtain ⟨shown, hout, hpre, -, -⟩ := h
    by_cases ht : text.length < 2 ^ 31
    case neg =>
      rw [if_neg ht] at hout
      simp at hout
    rw [if_pos ht] at hout
    have hbody : bodyText tm text = shown := by simpa using hout
    unfold bodyText at hbody
    by_cases hfit : (stampOf tm).length + text.length < 511
    · exact .inl hfit
    · rw [if_neg hfit] at hbody
      refine .inr ⟨ht, ?_⟩
      obtain ⟨rest, hrest⟩ := hpre
      have hcut : (text.take (510 - (stampOf tm).length)).length
          = 510 - (stampOf tm).length := by
        rw [List.length_take]
        omega
      rw [← hrest, ← hbody, List.append_assoc,
        List.getElem?_append_right (by omega), hcut, Nat.sub_self]
      rfl
  · intro h
    have ht : text.length < 2 ^ 31 := by
      rcases h with h | h
      · omega
      · exact h.1
    rw [if_pos ht]
    have hpre : bodyText tm text <+: text ∧ (bodyText tm text = text ∨
        LINE < (stampOf tm).length + text.length + 1) := by
      unfold bodyText
      by_cases hfit : (stampOf tm).length + text.length < 511
      · rw [if_pos hfit]
        exact ⟨List.prefix_refl _, .inl rfl⟩
      · obtain ⟨-, hnul⟩ := h.resolve_left hfit
        have hcut : text.take (510 - (stampOf tm).length) ++ [NUL]
            = text.take (510 - (stampOf tm).length + 1) := by
          rw [List.take_add_one, hnul]
          rfl
        rw [if_neg hfit, hcut]
        refine ⟨List.take_prefix _ _, ?_⟩
        by_cases hwhole : text.length ≤ 510 - (stampOf tm).length + 1
        · exact .inl (List.take_of_length_le hwhole)
        · refine .inr ?_
          simp only [LINE]
          omega
    exact ⟨_, rfl, hpre.1, hpre.2, wellLogged_of_initial hpre.1⟩

/-- What `log_capped` prints is as it should be. -/
theorem wellCapped {dropped : Int64} (hd : ¬ dropped < 0)
    (ht : text.length < 2 ^ 31) :
    WellCapped tm dropped text (logCapped junk junk' tm dropped text) := by
  refine ⟨cappedText text, ?_, rfl, cappedText_initial text,
    cappedText_plain, ?_⟩
  · rw [logCapped_eq, if_neg hd, if_pos ht]
  · intro hn
    simp only [List.mem_append] at hn
    rcases hn with hn | hn | hn
    · exact (plain_stampOf tm).1 hn
    · exact nul_not_mem_cstr _ hn
    · exact (plain_moreText dropped).1 hn

end LogLine

/-- `log_line` and `log_capped` stay inside their buffers, and what
`log_capped` lets through goes out whole. A text given to `log_line` is
well logged exactly if it and the timestamp take less than 511 bytes or
the byte it is cut at is a NUL already. -/
theorem log_lines (junk junk' : Nat → UInt8) (tm : Tm) (text : List UInt8) :
    logLine junk tm text ≠ none ∧
      (∀ dropped, logCapped junk junk' tm dropped text ≠ none) ∧
      (text.length < 2 ^ 31 → ∀ dropped : Int64, ¬ dropped < 0 →
        WellCapped tm dropped text (logCapped junk junk' tm dropped text)) ∧
      (WellLogged tm text (logLine junk tm text) ∧
        (∀ dropped : Int64, ¬ dropped < 0 →
          WellCapped tm dropped text (logCapped junk junk' tm dropped text))
        ↔ (stampOf tm).length + text.length < 511 ∨ CutAtNul tm text) := by
  refine ⟨by rw [logLine_eq]; simp, fun dropped => by rw [logCapped_eq]; simp,
    fun ht dropped hd => wellCapped hd ht, ?_⟩
  rw [wellLogged_iff]
  refine ⟨fun h => h.1, fun h => ⟨h, fun dropped hd => wellCapped hd ?_⟩⟩
  have hstamp := length_stampOf tm
  rcases h with h | h
  · omega
  · exact h.1

/-- A second of the year 2026. -/
def someDay : Tm where
  year := 2026
  mon := 8
  mday := 15
  hour := 12
  min := 0
  sec := 0
  year_int := by decide

/-- A message of 490 letters goes out with a NUL in front of the
newline. -/
theorem log_line_terminated :
    ¬ WellLogged someDay (List.replicate 490 97)
      (logLine (fun _ => 0) someDay (List.replicate 490 97)) := by
  have hstamp : (stampOf someDay).length = 21 := by decide
  rw [wellLogged_iff, hstamp, List.length_replicate]
  intro h
  rcases h with h | h
  · omega
  · have := h.2
    rw [hstamp, List.getElem?_replicate] at this
    exact absurd this (by decide)

end PleRowServer.Daemon
