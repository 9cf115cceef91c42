/-
rowserverd.c, the command line as it is typed: `parse_u64` on the text of
an option, what a list of options makes of main's variables, and main
from there to the socket it listens on.

`parse_u64` is strtoull with every way out of it closed but two: leading
white space is skipped, and a minus sign negates modulo 2^64 (`Numeral`
says what is left of both). Neither gives a range that main would not
check again, so a server that starts has exactly the range its last
--base-row and --row-count name (`startup_iff`).
-/
import PleRowServer.Daemon.Gather
import Mathlib.Data.List.TakeWhile

namespace PleRowServer.Daemon

-- =============================================================== strtoull

/-- `isspace` in the C locale, which the daemon never leaves. -/
def isspace (c : Char) : Bool :=
  c == ' ' || (9 ≤ c.toNat && c.toNat ≤ 13)

/-- The sign strtoull takes off the front, and whether it is a minus. -/
def takeSign : List Char → List Char × Bool
  | '+' :: _ => (['+'], false)
  | '-' :: _ => (['-'], true)
  | _ => ([], false)

/-- `strtoull(text, &end, 10)`: the value, `end` as an offset into
`text`, and whether errno is ERANGE. -/
def strtoull (text : List Char) : UInt64 × Nat × Bool :=
  let blank := text.takeWhile isspace
  let rest := text.drop blank.length
  let (sign, negate) := takeSign rest
  let digits := (rest.drop sign.length).takeWhile Char.isDigit
  if digits = [] then (0, 0, false)
  else
    let stop := blank.length + sign.length + digits.length
    let n := Nat.ofDigitChars 10 digits 0
    if n < 2 ^ 64 then
      (if negate then -UInt64.ofNat n else UInt64.ofNat n, stop, false)
    else (UInt64.ofNat (2 ^ 64 - 1), stop, true)

/-- `parse_u64`, with none for its -1. -/
def parseU64 (text : List Char) : Option UInt64 :=
  let (v, stop, range) := strtoull text
  if range || stop == 0 || stop != text.length then none else some v

/-- `text` is a numeral of `v`: white space, a sign, digits, no more. -/
structure Numeral (text : List Char) (v : UInt64) : Prop where
  parts : ∃ blank sign digits, text = blank ++ (sign ++ digits) ∧
    (∀ c ∈ blank, isspace c = true) ∧
    (sign = [] ∨ sign = ['+'] ∨ sign = ['-']) ∧
    digits ≠ [] ∧ (∀ c ∈ digits, c.isDigit = true) ∧
    Nat.ofDigitChars 10 digits 0 < 2 ^ 64 ∧
    v = if sign = ['-'] then -UInt64.ofNat (Nat.ofDigitChars 10 digits 0)
      else UInt64.ofNat (Nat.ofDigitChars 10 digits 0)

section Text

variable {text blank sign digits rest : List Char} {v : UInt64}

/-- A digit is neither white space nor a sign. -/
theorem digit_plain {c : Char} (h : c.isDigit = true) :
    isspace c = false ∧ c ≠ '+' ∧ c ≠ '-' := by
  have hr : 48 ≤ c.toNat ∧ c.toNat ≤ 57 := by
    simpa [Char.isDigit, UInt32.le_iff_toNat_le] using h
  refine ⟨?_, ?_, ?_⟩
  · have hsp : c ≠ ' ' := by rintro rfl; revert hr; decide
    simp only [isspace, Bool.or_eq_false_iff, beq_eq_false_iff_ne,
      Bool.and_eq_false_iff, decide_eq_false_iff_not]
    exact ⟨hsp, .inr (by omega)⟩
  · rintro rfl; revert hr; decide
  · rintro rfl; revert hr; decide

/-- The sign in front of what does not begin with one. -/
theorem takeSign_append (hs : sign = [] ∨ sign = ['+'] ∨ sign = ['-'])
    (hd : ∀ c ∈ digits.head?, c ≠ '+' ∧ c ≠ '-') :
    takeSign (sign ++ digits) = (sign, decide (sign = ['-'])) := by
  rcases hs with rfl | rfl | rfl
  · cases digits with
    | nil => rfl
    | cons c cs =>
        obtain ⟨hp, hm⟩ := hd c rfl
        rw [List.nil_append]
        unfold takeSign
        split
        case h_1 h => exact absurd (List.cons.inj h).1 hp
        case h_2 h => exact absurd (List.cons.inj h).1 hm
        case h_3 => rfl
  · rfl
  · rfl

/-- What takeSign takes is a sign or nothing, and the front of the text. -/
theorem takeSign_spec (rest : List Char) :
    rest = (takeSign rest).1 ++ rest.drop (takeSign rest).1.length ∧
      ((takeSign rest).1 = [] ∨ (takeSign rest).1 = ['+'] ∨
        (takeSign rest).1 = ['-']) ∧
      (takeSign rest).2 = decide ((takeSign rest).1 = ['-']) := by
  unfold takeSign
  split
  case h_1 => exact ⟨rfl, .inr (.inl rfl), rfl⟩
  case h_2 => exact ⟨rfl, .inr (.inr rfl), rfl⟩
  case h_3 => exact ⟨rfl, .inl rfl, rfl⟩

/-- The longest front of `l ++ tail` in `p` is `l`, if `tail` does not
begin in `p`. -/
theorem takeWhile_front {p : Char → Bool} {l tail : List Char}
    (hl : ∀ c ∈ l, p c = true) (ht : ∀ c ∈ tail.head?, p c = false) :
    (l ++ tail).takeWhile p = l := by
  rw [List.takeWhile_append_of_pos hl]
  cases tail with
  | nil => rw [List.takeWhile_nil, List.append_nil]
  | cons c cs =>
      rw [List.takeWhile_cons_of_neg (by simp [ht c rfl]), List.append_nil]

/-- A text is its longest front in `p` and what is behind it. -/
theorem takeWhile_split (p : Char → Bool) (l : List Char) :
    l = l.takeWhile p ++ l.drop (l.takeWhile p).length :=
  (List.prefix_iff_eq_append.mp (List.takeWhile_prefix p)).symm

/-- `parse_u64` reads numerals, and nothing but numerals. -/
theorem parseU64_iff : parseU64 text = some v ↔ Numeral text v := by
  constructor
  · intro h
    have htext := takeWhile_split isspace text
    have hblank : ∀ c ∈ text.takeWhile isspace, isspace c = true :=
      fun c hc => List.mem_takeWhile_imp hc
    simp only [parseU64, strtoull] at h
    set blank := text.takeWhile isspace
    set rest := text.drop blank.length
    obtain ⟨hrest, hsign, hneg⟩ := takeSign_spec rest
    have hdigits := takeWhile_split Char.isDigit
      (rest.drop (takeSign rest).1.length)
    have hdig : ∀ c ∈ (rest.drop (takeSign rest).1.length).takeWhile
        Char.isDigit, c.isDigit = true := fun c hc => List.mem_takeWhile_imp hc
    set sign := (takeSign rest).1
    set digits := (rest.drop sign.length).takeWhile Char.isDigit
    set tail := (rest.drop sign.length).drop digits.length
    have hlen : text.length
        = blank.length + sign.length + digits.length + tail.length := by
      rw [htext, hrest, hdigits]
      simp only [List.length_append]
      omega
    by_cases hnone : digits = []
    · simp only [hnone, if_true] at h
      cases h
    by_cases hlt : Nat.ofDigitChars 10 digits 0 < 2 ^ 64
    · simp only [hnone, if_false, hlt, if_true, hneg] at h
      split at h
      case isTrue => cases h
      case isFalse hok =>
        simp only [Bool.false_or, Bool.or_eq_true, bne_iff_ne, ne_eq,
          beq_iff_eq, not_or, not_not] at hok
        have htail : tail = [] := List.length_eq_zero_iff.mp (by omega)
        rw [htail, List.append_nil] at hdigits
        rw [hdigits] at hrest
        rw [hrest] at htext
        refine ⟨blank, sign, digits, htext, hblank, hsign, hnone, hdig,
          hlt, ?_⟩
        simpa using (Option.some.inj h).symm
    · simp only [hnone, if_false, hlt, if_false] at h
      cases h
  · rintro ⟨blank, sign, digits, rfl, hblank, hsign, hne, hdig, hlt, rfl⟩
    obtain ⟨d, ds, rfl⟩ := List.exists_cons_of_ne_nil hne
    have hd := digit_plain (hdig d (by simp))
    have hfront : ∀ c ∈ (sign ++ d :: ds).head?, isspace c = false := by
      rcases hsign with rfl | rfl | rfl <;> intro c hc <;>
        obtain rfl := Option.some.inj hc
      · exact hd.1
      · rfl
      · rfl
    have hsigned : takeSign (sign ++ d :: ds)
        = (sign, decide (sign = ['-'])) :=
      takeSign_append hsign fun c hc => by
        obtain rfl := Option.some.inj hc
        exact hd.2
    have hall : (d :: ds).takeWhile Char.isDigit = d :: ds :=
      List.takeWhile_eq_self_iff.mpr hdig
    unfold parseU64 strtoull
    simp only [takeWhile_front hblank hfront, List.drop_left, hsigned, hall,
      if_neg hne, if_pos hlt]
    simp [Nat.add_assoc]

example : parseU64 [' ', '-', '1'] = some 18446744073709551615 := by decide

/-- A number as it is printed is read back. -/
theorem numeral_digits {n : Nat} (h : n < 2 ^ 64) :
    Numeral (Nat.toDigits 10 n) (UInt64.ofNat n) := by
  have hval : Nat.ofDigitChars 10 (Nat.toDigits 10 n) 0 = n :=
    Nat.ofDigitChars_ten_toDigits
  refine ⟨[], [], Nat.toDigits 10 n, rfl, by simp, .inl rfl,
    Nat.toDigits_ne_nil, fun c hc =>
      Nat.isDigit_of_mem_toDigits (by decide) (by decide) hc, ?_, ?_⟩
  · rwa [hval]
  · rw [hval]
    rfl

/-- A text is a numeral of one number at most. -/
theorem Numeral.unique {u : UInt64} (h : Numeral text u)
    (h' : Numeral text v) : u = v :=
  Option.some.inj ((parseU64_iff.mpr h).symm.trans (parseU64_iff.mpr h'))

end Text

-- ============================================================ the options

/-- The options getopt_long knows, and what it answers for any other. -/
inductive Flag
  | file | baseRow | rowCount | port | maxRows | threads | warm | noWarm
  | help | unknown
deriving DecidableEq, Repr

/-- What one call of getopt_long returns, with its optarg. -/
structure Arg where
  flag : Flag
  optarg : List Char
deriving DecidableEq, Repr

/-- The switch on it, up to the compares. -/
def Arg.read (a : Arg) : Opt :=
  match a.flag with
  | .file => .file (String.ofList a.optarg)
  | .baseRow => .baseRow (parseU64 a.optarg)
  | .rowCount => .rowCount (parseU64 a.optarg)
  | .port => .port (parseU64 a.optarg)
  | .maxRows => .maxRows (parseU64 a.optarg)
  | .threads => .threads (parseU64 a.optarg)
  | .warm => .warm
  | .noWarm => .noWarm
  | .help => .help
  | .unknown => .unknown

/-- `listen_on`, whether it has a socket to return. -/
def listenOn (host : Host) (port : UInt64) : Bool :=
  host.socket && host.bind port && host.listen

/-- What main has come to in front of its accept loop: the server it
filled in, the port it listens on, and whether it was to warm the map. -/
structure Started where
  server : Server
  port : UInt64
  warm : Bool

/-- main on a command line, up to its accept loop. -/
def startup (args : List Arg) (host : Host) : Except Refusal Started :=
  match readOpts (args.map Arg.read) {} with
  | .error r => .error r
  | .ok o =>
      match setup o host with
      | .error r => .error r
      | .ok s =>
          if listenOn host o.port then .ok ⟨s, o.port, o.warm⟩
          else .error .listenFailed

/-- The numbers an option may have; none for an option without one. -/
def Flag.limits : Flag → Option (Nat × Nat)
  | .baseRow | .rowCount => some (0, 2 ^ 64 - 1)
  | .port => some (1, 65535)
  | .maxRows => some (1, 2097152)
  | .threads => some (1, 256)
  | _ => none

/-- An option main reads on after. -/
def Arg.Fine (a : Arg) : Prop :=
  a.flag ≠ .help ∧ a.flag ≠ .unknown ∧
    ∀ lo hi, a.flag.limits = some (lo, hi) →
      ∃ v, Numeral a.optarg v ∧ lo ≤ v.toNat ∧ v.toNat ≤ hi

/-- The last of the options that `f` has something of. -/
def pick {α : Type} (f : Arg → Option α) (args : List Arg) : Option α :=
  (args.filterMap f).getLast?

/-- The number of an option `flag`. -/
def numberOf (flag : Flag) (a : Arg) : Option UInt64 :=
  if a.flag = flag then parseU64 a.optarg else none

def pathOf (a : Arg) : Option String :=
  if a.flag = .file then some (String.ofList a.optarg) else none

def warmOf (a : Arg) : Option Bool :=
  match a.flag with
  | .warm => some true
  | .noWarm => some false
  | _ => none

/-- What fine options make of main's variables. -/
def settle (o : Settings) (args : List Arg) : Settings where
  path := (pick pathOf args).or o.path
  baseRow := (pick (numberOf .baseRow) args).getD o.baseRow
  rowCount := (pick (numberOf .rowCount) args).getD o.rowCount
  haveBase := o.haveBase || (pick (numberOf .baseRow) args).isSome
  haveCount := o.haveCount || (pick (numberOf .rowCount) args).isSome
  port := (pick (numberOf .port) args).getD o.port
  maxRows := ((pick (numberOf .maxRows) args).map UInt64.toUInt32).getD
    o.maxRows
  threads := ((pick (numberOf .threads) args).map UInt64.toNat).getD
    o.threads
  warm := (pick warmOf args).getD o.warm

section Options

variable {α : Type} {f : Arg → Option α} {a : Arg} {args : List Arg}
  {o o' : Settings} {host : Host} {s : Server} {flag : Flag} {v : UInt64}

theorem pick_nil : pick f [] = none := rfl

theorem pick_cons : pick f (a :: args) = (pick f args).or (f a) := by
  unfold pick
  cases h : f a with
  | none => rw [List.filterMap_cons_none h, Option.or_none]
  | some x =>
      rw [List.filterMap_cons_some h, List.getLast?_cons]
      cases (args.filterMap f).getLast? <;> rfl

theorem settle_nil : settle o [] = o := by
  simp [settle, pick_nil]

/-- Options settle one after the other. -/
theorem settle_cons : settle o (a :: args) = settle (settle o [a]) args := by
  simp only [settle, pick_cons, pick_nil, Option.none_or, Option.or_assoc,
    Option.map_or, Option.getD_or, Option.isSome_or, Bool.or_assoc,
    Bool.or_comm]

theorem pick_one : pick f [a] = f a := by
  rw [pick_cons, pick_nil, Option.none_or]

/-- An option with a number is fine if the number is within its limits. -/
theorem fine_number {lo hi : Nat} (h : a.flag.limits = some (lo, hi)) :
    a.Fine ↔ ∃ v, parseU64 a.optarg = some v ∧ lo ≤ v.toNat ∧
      v.toNat ≤ hi := by
  constructor
  · rintro ⟨-, -, hn⟩
    obtain ⟨v, hv, hlim⟩ := hn lo hi h
    exact ⟨v, parseU64_iff.mpr hv, hlim⟩
  · rintro ⟨v, hv, hlim⟩
    refine ⟨?_, ?_, fun lo' hi' h' => ?_⟩
    · intro he; rw [he] at h; cases h
    · intro he; rw [he] at h; cases h
    · rw [h] at h'
      cases h'
      exact ⟨v, parseU64_iff.mp hv, hlim⟩

/-- One without is, unless it ends the program. -/
theorem fine_plain (h : a.flag.limits = none) :
    a.Fine ↔ a.flag ≠ .help ∧ a.flag ≠ .unknown := by
  constructor
  · exact fun hf => ⟨hf.1, hf.2.1⟩
  · rintro ⟨hh, hu⟩
    refine ⟨hh, hu, fun lo hi h' => ?_⟩
    rw [h] at h'
    cases h'

/-- The compare of the three bounded options. -/
theorem within_iff {n hi : UInt64} :
    ¬ (n < 1 || n > hi) = true ↔ 1 ≤ n.toNat ∧ n.toNat ≤ hi.toNat := by
  simp only [Bool.or_eq_true, decide_eq_true_eq, not_or, gt_iff_lt,
    UInt64.not_lt, UInt64.le_iff_toNat_le]
  rfl

/-- What one option settles. -/
theorem settle_one : settle o [a] =
    match a.flag with
    | .file => { o with path := some (String.ofList a.optarg) }
    | .baseRow => { o with
        baseRow := (parseU64 a.optarg).getD o.baseRow
        haveBase := o.haveBase || (parseU64 a.optarg).isSome }
    | .rowCount => { o with
        rowCount := (parseU64 a.optarg).getD o.rowCount
        haveCount := o.haveCount || (parseU64 a.optarg).isSome }
    | .port => { o with port := (parseU64 a.optarg).getD o.port }
    | .maxRows => { o with
        maxRows := ((parseU64 a.optarg).map UInt64.toUInt32).getD o.maxRows }
    | .threads => { o with
        threads := ((parseU64 a.optarg).map UInt64.toNat).getD o.threads }
    | .warm => { o with warm := true }
    | .noWarm => { o with warm := false }
    | _ => o := by
  obtain ⟨flag, text⟩ := a
  cases flag <;>
    simp [settle, pick_one, numberOf, pathOf, warmOf]

/-- One option. -/
theorem readOpt_read :
    readOpt o a.read = .ok o' ↔ a.Fine ∧ o' = settle o [a] := by
  rw [settle_one]
  obtain ⟨flag, text⟩ := a
  cases flag
  case file | warm | noWarm =>
    rw [fine_plain rfl]
    simp [Arg.read, readOpt, eq_comm]
  case help | unknown =>
    rw [fine_plain rfl]
    simp [Arg.read, readOpt]
  case baseRow | rowCount =>
    rw [fine_number rfl]
    simp only [Arg.read]
    cases hp : parseU64 text with
    | none => simp [readOpt]
    | some v =>
        have := v.toNat_lt
        simp [readOpt, eq_comm]
        omega
  case port | maxRows | threads =>
    rw [fine_number rfl]
    simp only [Arg.read]
    cases hp : parseU64 text with
    | none => simp [readOpt]
    | some v =>
        simp only [readOpt]
        split
        case isTrue hout =>
          have hn := mt within_iff.mpr (not_not.mpr hout)
          refine ⟨fun h => (by cases h), fun h => absurd ?_ hn⟩
          obtain ⟨⟨u, hu, hlim⟩, -⟩ := h
          obtain rfl := Option.some.inj hu
          exact hlim
        case isFalse hin =>
          have hlim := within_iff.mp hin
          refine ⟨fun h => ⟨⟨v, rfl, hlim⟩, (Except.ok.inj h).symm⟩,
            fun h => ?_⟩
          rw [h.2]
          rfl

/-- The option loop reads fine options, and of each the last counts. -/
theorem readOpts_read : readOpts (args.map Arg.read) o = .ok o' ↔
    (∀ a ∈ args, a.Fine) ∧ o' = settle o args := by
  induction args generalizing o with
  | nil =>
      rw [settle_nil]
      exact ⟨fun h => ⟨by simp, (Except.ok.inj h).symm⟩,
        fun h => by rw [h.2]; rfl⟩
  | cons a args ih =>
      rw [settle_cons, List.map_cons, readOpts, List.forall_mem_cons]
      constructor
      · intro h
        split at h
        case h_1 => cases h
        case h_2 o₁ h₁ =>
          obtain ⟨hfine, rfl⟩ := readOpt_read.mp h₁
          obtain ⟨hall, rfl⟩ := ih.mp h
          exact ⟨⟨hfine, hall⟩, rfl⟩
      · rintro ⟨⟨hfine, hall⟩, rfl⟩
        rw [readOpt_read.mpr ⟨hfine, rfl⟩]
        exact ih.mpr ⟨hall, rfl⟩

/-- `t` is the text of the last option `flag`. -/
def Last (flag : Flag) (args : List Arg) (t : List Char) : Prop :=
  ∃ pre post, args = pre ++ ⟨flag, t⟩ :: post ∧ ∀ a ∈ post, a.flag ≠ flag

/-- The last option `flag` names `v`. -/
def Named (flag : Flag) (args : List Arg) (v : UInt64) : Prop :=
  ∃ t, Last flag args t ∧ Numeral t v

/-- The last option `flag` names `v`, or there is none and `v` is the
default. -/
def NamedOr (flag : Flag) (args : List Arg) (dflt v : UInt64) : Prop :=
  Named flag args v ∨ (∀ a ∈ args, a.flag ≠ flag) ∧ v = dflt

theorem pick_none : pick f args = none ↔ ∀ a ∈ args, f a = none := by
  unfold pick
  rw [List.getLast?_eq_none_iff, List.filterMap_eq_nil_iff]

/-- What is picked is from the last option there is something of. -/
theorem pick_some {x : α} : pick f args = some x ↔
    ∃ pre a post, args = pre ++ a :: post ∧ f a = some x ∧
      ∀ b ∈ post, f b = none := by
  induction args with
  | nil => simp [pick_nil]
  | cons a args ih =>
      rw [pick_cons, Option.or_eq_some_iff, ih]
      constructor
      · rintro (⟨pre, b, post, rfl, hb, hpost⟩ | ⟨hnone, ha⟩)
        · exact ⟨a :: pre, b, post, rfl, hb, hpost⟩
        · exact ⟨[], a, args, rfl, ha, pick_none.mp hnone⟩
      · rintro ⟨pre, b, post, heq, hb, hpost⟩
        cases pre with
        | nil =>
            cases heq
            exact .inr ⟨pick_none.mpr hpost, hb⟩
        | cons c pre =>
            cases heq
            exact .inl ⟨pre, b, post, rfl, hb, hpost⟩

/-- Of fine options, the number picked is the one the last of them
names. -/
theorem pick_number (h : ∀ a ∈ args, a.Fine) (hl : flag.limits ≠ none) :
    pick (numberOf flag) args = some v ↔ Named flag args v := by
  obtain ⟨lim, hlim⟩ := Option.ne_none_iff_exists'.mp hl
  have hnone : ∀ a ∈ args, numberOf flag a = none ↔ a.flag ≠ flag := by
    intro a ha
    unfold numberOf
    split
    case isFalse hne => exact ⟨fun _ => hne, fun _ => rfl⟩
    case isTrue heq =>
      obtain ⟨u, hu, -⟩ := (fine_number (heq ▸ hlim)).mp (h a ha)
      rw [hu]
      simp [heq]
  rw [pick_some]
  constructor
  · rintro ⟨pre, a, post, rfl, ha, hpost⟩
    unfold numberOf at ha
    split at ha
    case isFalse => cases ha
    case isTrue heq =>
      subst heq
      exact ⟨a.optarg, ⟨pre, post, rfl, fun b hb =>
        (hnone b (by simp [hb])).mp (hpost b hb)⟩, parseU64_iff.mp ha⟩
  · rintro ⟨t, ⟨pre, post, rfl, hpost⟩, hnum⟩
    refine ⟨pre, _, post, rfl, ?_, fun b hb =>
      (hnone b (by simp [hb])).mpr (hpost b hb)⟩
    unfold numberOf
    rw [if_pos rfl]
    exact parseU64_iff.mpr hnum

end Options

-- ============================================================== the setup

section Setup

variable {args : List Arg} {o : Settings} {host : Host} {s : Server}
  {t : Started}

/-- main's three compares are one bound on the unwrapped sum. -/
theorem fits_iff {base rows : UInt64} :
    ¬ (base > UInt64.ofNat UINT32_MAX || rows > UInt64.ofNat UINT32_MAX ||
      base + rows > UInt64.ofNat UINT32_MAX) = true ↔
        base.toNat + rows.toNat < 2 ^ 32 := by
  constructor
  · intro h
    exact Nat.lt_succ_of_le (range_fits h).1
  · intro h
    have hadd : (base + rows).toNat = base.toNat + rows.toNat := by
      rw [UInt64.toNat_add]
      omega
    have hmax : (UInt64.ofNat UINT32_MAX).toNat = 2 ^ 32 - 1 := rfl
    simp only [Bool.or_eq_true, decide_eq_true_eq, not_or, gt_iff_lt,
      UInt64.not_lt, UInt64.le_iff_toNat_le, hmax, hadd]
    omega

/-- A file of exactly `rows` rows. -/
theorem size_iff {file : File} {rows : UInt64} (h : rows.toNat < 2 ^ 32) :
    UInt64.ofNat file.bytes.length = rows * UInt64.ofNat ROW_BYTES ↔
      file.bytes.length = rows.toNat * ROW_BYTES := by
  have hlt := file.size_lt
  rw [← UInt64.toNat_inj, rowOffset_toNat h, UInt64.toNat_ofNat',
    Nat.mod_eq_of_lt (by omega)]

/-- What main goes on with after the option loop. -/
theorem setup_iff : setup o host = .ok s ↔
    (o.path.isSome = true ∧ o.haveBase = true ∧ o.haveCount = true) ∧
      0 < o.rowCount.toNat ∧
      o.baseRow.toNat + o.rowCount.toNat < 2 ^ 32 ∧
      ∃ file, o.path.bind host.file = some file ∧ host.fstat = true ∧
        host.mmap = true ∧
        file.bytes.length = o.rowCount.toNat * ROW_BYTES ∧
        s = ⟨file.bytes, host.pageSize, o.baseRow, o.rowCount,
          o.baseRow.toUInt32, o.rowCount.toUInt32, o.maxRows,
          o.threads⟩ := by
  have hgiven : ¬ (o.path.isNone || !o.haveBase || !o.haveCount) = true ↔
      o.path.isSome = true ∧ o.haveBase = true ∧ o.haveCount = true := by
    cases o.path <;> cases o.haveBase <;> cases o.haveCount <;> simp
  have hpos : ¬ o.rowCount = 0 ↔ 0 < o.rowCount.toNat := by
    rw [← UInt64.toNat_inj]
    exact Nat.pos_iff_ne_zero.symm
  unfold setup
  by_cases h₁ : (o.path.isNone || !o.haveBase || !o.haveCount) = true
  · rw [if_pos h₁]
    exact ⟨fun h => (by cases h), fun h => absurd h₁ (hgiven.mpr h.1)⟩
  by_cases h₂ : o.rowCount = 0
  · rw [if_neg h₁, if_pos h₂]
    exact ⟨fun h => (by cases h), fun h => absurd h₂ (hpos.mpr h.2.1)⟩
  rw [if_neg h₁, if_neg h₂]
  split
  case isTrue h₃ =>
    exact ⟨fun h => (by cases h), fun h => absurd h₃ (fits_iff.mpr h.2.2.1)⟩
  case isFalse h₃ =>
    have hfits : o.baseRow.toNat + o.rowCount.toNat < 4294967296 :=
      fits_iff.mp h₃
    cases hfile : o.path.bind host.file with
    | none => simp
    | some file =>
        have hsize : UInt64.ofNat file.bytes.length
            = o.rowCount * UInt64.ofNat ROW_BYTES ↔
              file.bytes.length = o.rowCount.toNat * ROW_BYTES :=
          size_iff (by omega)
        cases hstat : host.fstat <;> cases hmmap : host.mmap <;>
          by_cases hlen : file.bytes.length = o.rowCount.toNat * ROW_BYTES <;>
          simp [hsize, hlen, hgiven.mp h₁, hpos.mp h₂, hfits, eq_comm]

/-- Of a file it can open, measure and map, main checks the numbers it was
given. -/
theorem setup_refused {f : File} (hfile : o.path.bind host.file = some f)
    (hbase : o.haveBase = true) (hcount : o.haveCount = true)
    (hstat : host.fstat = true) :
    (o.rowCount.toNat = 0 → setup o host = .error .noRows) ∧
      (0 < o.rowCount.toNat →
        2 ^ 32 ≤ o.baseRow.toNat + o.rowCount.toNat →
        setup o host = .error .doesNotFit) ∧
      (0 < o.rowCount.toNat →
        o.baseRow.toNat + o.rowCount.toNat < 2 ^ 32 →
        f.bytes.length ≠ o.rowCount.toNat * ROW_BYTES →
        setup o host = .error .wrongSize) := by
  have hgiven : ¬ (o.path.isNone || !o.haveBase || !o.haveCount) = true := by
    cases hp : o.path with
    | none => rw [hp] at hfile; cases hfile
    | some p => simp [hbase, hcount]
  have hzero : 0 < o.rowCount.toNat → ¬ o.rowCount = 0 := by
    intro h h0
    rw [h0] at h
    exact absurd h (by decide)
  unfold setup
  rw [if_neg hgiven]
  refine ⟨fun h => ?_, fun h hbig => ?_, fun h hfits hlen => ?_⟩
  · rw [if_pos (UInt64.toNat_inj.mp h)]
  · rw [if_neg (hzero h), if_pos (not_not.mp (mt fits_iff.mp (by omega)))]
  · have hsize := mt (size_iff (by omega)).mp hlen
    rw [if_neg (hzero h), if_neg (fits_iff.mpr hfits), hfile]
    simp [hstat, hsize]

/-- What a command line, on a host, says of a server. -/
structure Commands (args : List Arg) (host : Host) (s : Server) : Prop where
  fine : ∀ a ∈ args, a.Fine
  opened : ∃ path file, Last .file args path ∧
    host.file (String.ofList path) = some file ∧ file.bytes = s.map
  base : Named .baseRow args s.baseRow
  rows : Named .rowCount args s.rowCount
  pos : 0 < s.rowCount.toNat
  fits : s.baseRow.toNat + s.rowCount.toNat < 2 ^ 32
  stated : host.fstat = true
  mapped : host.mmap = true
  size : s.map.length = s.rowCount.toNat * ROW_BYTES
  pageSize : s.pageSize = host.pageSize
  base32 : s.base32.toNat = s.baseRow.toNat
  rows32 : s.rows32.toNat = s.rowCount.toNat
  maxRows : ∃ v, NamedOr .maxRows args 131072 v ∧ s.maxRows.toNat = v.toNat
  threads : ∃ v, NamedOr .threads args 8 v ∧ s.threads = v.toNat

/-- An option with a number, or its default. -/
theorem namedOr_iff {flag : Flag} {dflt v : UInt64}
    (h : ∀ a ∈ args, a.Fine) (hl : flag.limits ≠ none) :
    (pick (numberOf flag) args).getD dflt = v ↔
      NamedOr flag args dflt v := by
  unfold NamedOr
  rw [← pick_number h hl]
  cases hp : pick (numberOf flag) args with
  | some u =>
      have hsome : ¬ ∀ a ∈ args, a.flag ≠ flag := by
        obtain ⟨pre, a, post, rfl, ha, -⟩ := pick_some.mp hp
        intro hall
        unfold numberOf at ha
        rw [if_neg (hall a (by simp))] at ha
        cases ha
      simp [hsome]
  | none =>
      have hnone : ∀ a ∈ args, a.flag ≠ flag := by
        intro a ha heq
        have hfine := pick_none.mp hp a ha
        obtain ⟨lim, hlim⟩ := Option.ne_none_iff_exists'.mp hl
        obtain ⟨u, hu, -⟩ := (fine_number (heq ▸ hlim)).mp (h a ha)
        unfold numberOf at hfine
        rw [if_pos heq, hu] at hfine
        cases hfine
      exact ⟨fun h => .inr ⟨hnone, h.symm⟩,
        fun h => (h.resolve_left fun h => by cases h).2.symm⟩

/-- What fine options name is within the limits of the option. -/
theorem Named.within {flag : Flag} {v : UInt64} {lo hi : Nat}
    (hn : Named flag args v) (h : ∀ a ∈ args, a.Fine)
    (hl : flag.limits = some (lo, hi)) : lo ≤ v.toNat ∧ v.toNat ≤ hi := by
  obtain ⟨t, ⟨pre, post, rfl, -⟩, hnum⟩ := hn
  obtain ⟨-, -, hlim⟩ := h ⟨flag, t⟩ (by simp)
  obtain ⟨u, hu, hin⟩ := hlim lo hi hl
  rwa [hnum.unique hu]

/-- main's path is the one of the last --file. -/
theorem path_iff {p : String} : pick pathOf args = some p ↔
    ∃ path, Last .file args path ∧ String.ofList path = p := by
  rw [pick_some]
  constructor
  · rintro ⟨pre, a, post, rfl, ha, hpost⟩
    unfold pathOf at ha hpost
    split at ha
    case isFalse => cases ha
    case isTrue heq =>
      refine ⟨a.optarg, ⟨pre, post, by rw [← heq], fun b hb hf => ?_⟩,
        Option.some.inj ha⟩
      have := hpost b hb
      rw [if_pos hf] at this
      cases this
  · rintro ⟨path, ⟨pre, post, rfl, hpost⟩, rfl⟩
    refine ⟨pre, _, post, rfl, rfl, fun b hb => ?_⟩
    unfold pathOf
    rw [if_neg (hpost b hb)]

/-- The file main opens is the one the last --file names. -/
theorem settle_file {file : File} :
    (settle {} args).path.bind host.file = some file ↔
      ∃ path, Last .file args path ∧
        host.file (String.ofList path) = some file := by
  simp only [settle, Option.or_none, Option.bind_eq_some_iff, path_iff]
  constructor
  · rintro ⟨-, ⟨path, hlast, rfl⟩, hfile⟩
    exact ⟨path, hlast, hfile⟩
  · rintro ⟨path, hlast, hfile⟩
    exact ⟨_, ⟨path, hlast, rfl⟩, hfile⟩

/-- The last of --warm and --no-warm says `warm`, or there is neither and
the map is warmed. -/
def WarmOr (args : List Arg) (warm : Bool) : Prop :=
  (∃ pre a post, args = pre ++ a :: post ∧
      a.flag = (if warm then .warm else .noWarm) ∧
      ∀ b ∈ post, b.flag ≠ .warm ∧ b.flag ≠ .noWarm) ∨
    (∀ a ∈ args, a.flag ≠ .warm ∧ a.flag ≠ .noWarm) ∧ warm = true

theorem warmOf_none {a : Arg} :
    warmOf a = none ↔ a.flag ≠ .warm ∧ a.flag ≠ .noWarm := by
  unfold warmOf
  split <;> simp_all

theorem warmOf_some {a : Arg} {warm : Bool} :
    warmOf a = some warm ↔ a.flag = if warm then .warm else .noWarm := by
  obtain ⟨flag, text⟩ := a
  cases warm <;> cases flag <;> simp [warmOf]

theorem warm_iff {warm : Bool} :
    (pick warmOf args).getD true = warm ↔ WarmOr args warm := by
  have hor : WarmOr args warm ↔ pick warmOf args = some warm ∨
      pick warmOf args = none ∧ warm = true := by
    rw [pick_some, pick_none]
    simp only [WarmOr, warmOf_none, warmOf_some]
  rw [hor]
  cases pick warmOf args with
  | none => simp [eq_comm]
  | some b => simp

/-- The limits keep what main narrows to 32 bits. -/
theorem maxRows_narrow {v : UInt64} (h : ∀ a ∈ args, a.Fine)
    (hv : NamedOr .maxRows args 131072 v) :
    v.toUInt32.toNat = v.toNat := by
  have hle : v.toNat ≤ 2097152 := by
    rcases hv with hn | ⟨-, rfl⟩
    · exact (hn.within h rfl).2
    · decide
  rw [UInt64.toNat_toUInt32]
  omega

/-- main reads on after fine options, and goes on with what they
settle. -/
theorem accepts_settles : accepts (args.map Arg.read) host = .ok s ↔
    (∀ a ∈ args, a.Fine) ∧ setup (settle {} args) host = .ok s := by
  unfold accepts
  constructor
  · intro h
    split at h
    case h_1 => cases h
    case h_2 o ho =>
      obtain ⟨hfine, rfl⟩ := readOpts_read.mp ho
      exact ⟨hfine, h⟩
  · rintro ⟨hfine, h⟩
    rw [readOpts_read.mpr ⟨hfine, rfl⟩]
    exact h

/-- The server filled in is the one the command line and the host
describe. -/
theorem accepts_commands :
    accepts (args.map Arg.read) host = .ok s ↔ Commands args host s := by
  rw [accepts_settles, setup_iff]
  have hmax : DEFAULT_MAX_ROWS = (131072 : UInt64).toUInt32 := rfl
  have hthr : DEFAULT_THREADS = (8 : UInt64).toNat := rfl
  simp only [settle_file]
  simp only [settle, Option.or_none, Bool.false_or, hmax, hthr,
    Option.getD_map]
  constructor
  · rintro ⟨hfine, ⟨-, hbase, hrows⟩, hpos, hfits, file,
      ⟨path, hlast, hfile⟩, hstat, hmmap, hlen, rfl⟩
    obtain ⟨b, hb⟩ := Option.isSome_iff_exists.mp hbase
    obtain ⟨r, hr⟩ := Option.isSome_iff_exists.mp hrows
    simp only [hb, hr, Option.getD_some] at hpos hfits hlen ⊢
    have hm : NamedOr .maxRows args 131072
        ((pick (numberOf .maxRows) args).getD 131072) :=
      (namedOr_iff hfine (by decide)).mp rfl
    refine ⟨hfine, ⟨path, file, hlast, hfile, rfl⟩,
      (pick_number hfine (by decide)).mp hb,
      (pick_number hfine (by decide)).mp hr, hpos, hfits,
      hstat, hmmap, hlen, rfl, ?_, ?_, ⟨_, hm, maxRows_narrow hfine hm⟩,
      ⟨_, (namedOr_iff hfine (by decide)).mp rfl, rfl⟩⟩
    · exact (UInt64.toNat_toUInt32 b).trans (Nat.mod_eq_of_lt (by omega))
    · exact (UInt64.toNat_toUInt32 r).trans (Nat.mod_eq_of_lt (by omega))
  · rintro ⟨hfine, ⟨path, file, hlast, hfile, hmap⟩, hbase, hrows, hpos,
      hfits, hstat, hmmap, hlen, hpage, hb32, hr32, ⟨m, hm, hmr⟩,
      t, ht, hth⟩
    have hb := (pick_number hfine (by decide)).mpr hbase
    have hr := (pick_number hfine (by decide)).mpr hrows
    have hp := path_iff.mpr ⟨path, hlast, rfl⟩
    simp only [hb, hr, hp, Option.getD_some, Option.isSome_some]
    refine ⟨hfine, ⟨trivial, trivial, trivial⟩, hpos, hfits, file,
      ⟨path, hlast, hfile⟩, hstat, hmmap, hmap ▸ hlen, ?_⟩
    rw [(namedOr_iff hfine (by decide)).mpr hm,
      (namedOr_iff hfine (by decide)).mpr ht]
    have e₁ : s.base32 = s.baseRow.toUInt32 := UInt32.toNat_inj.mp <| by
      rw [UInt64.toNat_toUInt32, Nat.mod_eq_of_lt (by omega)]
      exact hb32
    have e₂ : s.rows32 = s.rowCount.toUInt32 := UInt32.toNat_inj.mp <| by
      rw [UInt64.toNat_toUInt32, Nat.mod_eq_of_lt (by omega)]
      exact hr32
    have e₃ : s.maxRows = m.toUInt32 := UInt32.toNat_inj.mp <| by
      rw [maxRows_narrow hfine hm]
      exact hmr
    rw [← e₁, ← e₂, ← e₃, hmap, ← hpage, ← hth]

/-- Past fine options all that is left is the setup and the socket. -/
theorem startup_fine (h : ∀ a ∈ args, a.Fine) :
    startup args host = match setup (settle {} args) host with
      | .error r => .error r
      | .ok s =>
          if listenOn host (settle {} args).port then
            .ok ⟨s, (settle {} args).port, (settle {} args).warm⟩
          else .error .listenFailed := by
  unfold startup
  rw [readOpts_read.mpr ⟨h, rfl⟩]

/-- A command line starts a server if the options settle, the setup goes
through and there is a socket to listen on. -/
theorem startup_settles : startup args host = .ok t ↔
    accepts (args.map Arg.read) host = .ok t.server ∧
      (settle {} args).port = t.port ∧ (settle {} args).warm = t.warm ∧
      listenOn host t.port = true := by
  constructor
  · intro h
    have hfine : ∀ a ∈ args, a.Fine := by
      unfold startup at h
      split at h
      case h_1 => cases h
      case h_2 o ho => exact (readOpts_read.mp ho).1
    rw [startup_fine hfine] at h
    split at h
    case h_1 => cases h
    case h_2 s hs =>
      split at h
      case isFalse => cases h
      case isTrue hlisten =>
        cases h
        exact ⟨accepts_settles.mpr ⟨hfine, hs⟩, rfl, rfl, hlisten⟩
  · rintro ⟨h, hport, hwarm, hlisten⟩
    obtain ⟨hfine, hs⟩ := accepts_settles.mp h
    rw [startup_fine hfine, hs]
    simp only [hport, hwarm, hlisten, if_true]

/-- main comes to its accept loop on a command line exactly if it reads on
after every option, the last --base-row and --row-count are a range of u32
ids that is not empty, the last --file can be opened, measured and mapped
and holds exactly the rows of the range, and the port can be listened on.
The server is then that range of that file, with the last of every other
option or its default. -/
theorem startup_iff (args : List Arg) (host : Host) (t : Started) :
    startup args host = .ok t ↔
      Commands args host t.server ∧ NamedOr .port args 9000 t.port ∧
        WarmOr args t.warm ∧ host.socket = true ∧
        host.bind t.port = true ∧ host.listen = true := by
  have hport : DEFAULT_PORT = 9000 := rfl
  have hlisten : listenOn host t.port = true ↔ host.socket = true ∧
      host.bind t.port = true ∧ host.listen = true := by
    simp only [listenOn, Bool.and_eq_true, and_assoc]
  rw [startup_settles, accepts_commands, hlisten]
  refine and_congr_right fun hcom => ?_
  simp only [settle, hport, namedOr_iff hcom.fine
    (show Flag.port.limits ≠ none by decide), warm_iff]

end Setup

end PleRowServer.Daemon
