import PieceEmu.Lib.Words

/-!
# Text, as the C library reads it

A text is a list of bytes, and hexadecimal numbers are read off it in three ways.

| function | skips | takes | without a digit |
|---|---|---|---|
| `strtol`, base 16 | blanks, a sign, `0x` before a digit | the digits | reads nothing |
| `scanf`, `%x` | blanks, a sign, `0x` | the digits | fails, and stops the scan |
| `scanf`, `%2hhx` | blanks | the same, in two bytes | fails |

None of them looks at what follows the digits. `stoi` and `stoul` throw when `strtol`
reads nothing, and when the number is too large; a scan keeps the low bits.
Strings are indexed with a check (`charAt`, `cStr`, `substr`): the byte behind the last
is the terminator, and what lies behind it is out of range.
-/

namespace CText

/-- The byte of an ASCII character. -/
def ch (c : Char) : U8 := BitVec.ofNat 8 c.toNat

/-- The bytes of an ASCII text. -/
def str (s : String) : List U8 := s.toList.map ch

/-! ### Hexadecimal digits -/

/-- The value of a hexadecimal digit. -/
def hexVal (c : U8) : Option ℕ :=
  if ch '0' ≤ c ∧ c ≤ ch '9' then some (c.toNat - '0'.toNat)
  else if ch 'a' ≤ c ∧ c ≤ ch 'f' then some (c.toNat - 'a'.toNat + 10)
  else if ch 'A' ≤ c ∧ c ≤ ch 'F' then some (c.toNat - 'A'.toNat + 10)
  else none

/-- `isxdigit`. -/
def isHex (c : U8) : Bool := (hexVal c).isSome

/-- The number that digits write, the most significant first. -/
def ofDigits (ds : List U8) : ℕ := ds.foldl (fun n c => 16 * n + (hexVal c).getD 0) 0

/-- A number of one or more hexadecimal digits, within 32 bits. -/
def IsWord (ds : List U8) : Prop := ds ≠ [] ∧ (∀ c ∈ ds, isHex c) ∧ ofDigits ds < 2 ^ 32

instance (ds : List U8) : Decidable (IsWord ds) := inferInstanceAs (Decidable (_ ∧ _ ∧ _))

/-- The digit of a value below 16, in lower case. -/
def hexDigit (n : ℕ) : U8 :=
  if n < 10 then BitVec.ofNat 8 ('0'.toNat + n) else BitVec.ofNat 8 ('a'.toNat + (n - 10))

/-- `{:02x}`. -/
def formatHex8 (v : U8) : List U8 := [hexDigit (v.toNat / 16), hexDigit (v.toNat % 16)]

/-! ### Reading numbers -/

/-- `isspace`. -/
def isSpace (c : U8) : Bool := c == ch ' ' || (0x09 ≤ c && c ≤ 0x0D)

/-- A number that was read: its sign and its magnitude. -/
structure Num where
  neg : Bool
  magnitude : ℕ
  deriving DecidableEq

namespace Num

/-- The value, with its sign. -/
def toInt (n : Num) : ℤ := if n.neg then -n.magnitude else n.magnitude

/-- `strtoul` of 64 bits, of which `w` are stored. -/
def toWord (w : ℕ) (n : Num) : BitVec w :=
  if n.magnitude < 2 ^ 64 then BitVec.ofInt w n.toInt else BitVec.allOnes w

end Num

/-- A sign, if there is one: whether it is a minus, and what follows. -/
def splitSign (s : List U8) : Bool × List U8 :=
  match s with
  | [] => (false, [])
  | c :: rest =>
    if c = ch '-' then (true, rest) else if c = ch '+' then (false, rest) else (false, s)

/-- The text starts with `0x`. -/
def hasHexPrefix (s : List U8) : Bool :=
  s.head? == some (ch '0') && (s[1]? == some (ch 'x') || s[1]? == some (ch 'X'))

/-- `strtol` in base 16, before the range check. -/
def strtol16 (s : List U8) : Option Num :=
  let (neg, s) := splitSign (s.dropWhile isSpace)
  -- without a digit behind it, the `0` of `0x` is the number
  let s := if hasHexPrefix s && (s[2]?).any isHex then s.drop 2 else s
  let ds := s.takeWhile isHex
  if ds = [] then none else some ⟨neg, ofDigits ds⟩

/-- The exceptions of the string functions. -/
inductive TextError
  /-- An index behind the terminator. No exception, but a read out of range. -/
  | accessOutOfRange
  /-- `std::invalid_argument`. -/
  | invalidArgument
  /-- `std::out_of_range`. -/
  | outOfRange
  deriving DecidableEq, Repr

/-- `std::stoi` in base 16. -/
def stoi16 (s : List U8) : Except TextError ℤ :=
  match strtol16 s with
  | none => .error .invalidArgument
  | some n =>
    if -2 ^ 31 ≤ n.toInt ∧ n.toInt < 2 ^ 31 then .ok n.toInt else .error .outOfRange

/-- `std::stoul` in base 16, of 64 bits, of which 32 are kept. -/
def stoul16 (s : List U8) : Except TextError U32 :=
  match strtol16 s with
  | none => .error .invalidArgument
  | some n => if n.magnitude < 2 ^ 64 then .ok (n.toWord 32) else .error .outOfRange

/-- The conversion `%x`: the number, and the text behind it. -/
def scanHex (s : List U8) : Option (Num × List U8) :=
  let (neg, s) := splitSign (s.dropWhile isSpace)
  let s := if hasHexPrefix s then s.drop 2 else s
  let ds := s.takeWhile isHex
  if ds = [] then none else some (⟨neg, ofDigits ds⟩, s.dropWhile isHex)

/-- `sscanf` with `%x,%x`, into two words that were zero. -/
def scanHexPair (s : List U8) : U32 × U32 :=
  match scanHex s with
  | none => (0, 0)
  | some (a, rest) =>
    if rest.head? = some (ch ',') then
      match scanHex rest.tail with
      | some (b, _) => (a.toWord 32, b.toWord 32)
      | none => (a.toWord 32, 0)
    else (a.toWord 32, 0)

/-- `sscanf` with `%02hhx`, into a byte that was zero: blanks do not count for the
width. -/
def scanHexByte (s : List U8) : U8 :=
  match scanHex ((s.dropWhile isSpace).take 2) with
  | some (n, _) => n.toWord 8
  | none => 0

/-! ### Strings -/

/-- `s[i]`. -/
def charAt (s : List U8) (i : ℕ) : Except TextError U8 :=
  if i ≤ s.length then .ok (s.getD i 0) else .error .accessOutOfRange

/-- The text at `s.c_str() + i`, to be read. -/
def cStr (s : List U8) (i : ℕ) : Except TextError (List U8) :=
  if i ≤ s.length then .ok (s.drop i) else .error .accessOutOfRange

/-- `s.substr(pos, n)`, to the end without an `n`. -/
def substr (s : List U8) (pos : ℕ) (n : Option ℕ) : Except TextError (List U8) :=
  if pos ≤ s.length then .ok (n.elim (s.drop pos) (s.drop pos).take) else .error .outOfRange

/-- `s.find(c, pos)`, from a position within the string. -/
def findFrom (s : List U8) (c : U8) (pos : ℕ) : Option ℕ :=
  ((s.drop pos).findIdx? (· = c)).map (pos + ·)

/-- `s.rfind(c)`. -/
def rfind (s : List U8) (c : U8) : Option ℕ :=
  (s.reverse.findIdx? (· = c)).map (s.length - 1 - ·)

/-- The text before the first `c`. -/
def before (c : U8) (s : List U8) : List U8 := s.takeWhile (· ≠ c)

/-- The text behind the first `c`. -/
def after (c : U8) (s : List U8) : List U8 := (s.dropWhile (· ≠ c)).tail

section

variable {s : List U8} {i : ℕ}

theorem charAt_of_le (h : i ≤ s.length) : charAt s i = .ok (s.getD i 0) := if_pos h

theorem charAt_of_lt (h : s.length < i) : charAt s i = .error .accessOutOfRange :=
  if_neg h.not_ge

theorem cStr_of_le (h : i ≤ s.length) : cStr s i = .ok (s.drop i) := if_pos h

theorem cStr_of_lt (h : s.length < i) : cStr s i = .error .accessOutOfRange :=
  if_neg h.not_ge

theorem substr_of_le (h : i ≤ s.length) (n : Option ℕ) :
    substr s i n = .ok (n.elim (s.drop i) (s.drop i).take) := if_pos h

/-- What is found lies in the string. -/
theorem findFrom_lt {c : U8} {pos : ℕ} (h : findFrom s c pos = some i) : i < s.length := by
  obtain ⟨k, hk, rfl⟩ := Option.map_eq_some_iff.mp h
  obtain ⟨hlt, -⟩ := List.findIdx?_eq_some_iff_getElem.mp hk
  rw [List.length_drop] at hlt
  omega

theorem rfind_lt {c : U8} (h : rfind s c = some i) : i < s.length := by
  obtain ⟨k, hk, rfl⟩ := Option.map_eq_some_iff.mp h
  obtain ⟨hlt, -⟩ := List.findIdx?_eq_some_iff_getElem.mp hk
  rw [List.length_reverse] at hlt
  omega

end

/-! ### Numbers without anything around them -/

/-- `tolower`. -/
def lower (c : U8) : U8 := if ch 'A' ≤ c ∧ c ≤ ch 'Z' then c + 0x20 else c

/-- Digits may be in either case. -/
theorem hexVal_lower (c : U8) : hexVal (lower c) = hexVal c := by
  revert c
  decide +kernel

theorem hexVal_hexDigit {n : ℕ} (h : n < 16) : hexVal (hexDigit n) = some n := by
  revert n
  decide +kernel

/-- What else a digit is not. -/
theorem isHex_distinct (c : U8) (h : isHex c = true) :
    isSpace c = false ∧ c ≠ ch '-' ∧ c ≠ ch '+' ∧ c ≠ ch 'x' ∧ c ≠ ch 'X' ∧ c ≠ ch '=' := by
  revert c
  decide +kernel

theorem hasHexPrefix_of_isHex {s : List U8} (h : ∀ c ∈ s, isHex c = true) :
    hasHexPrefix s = false := by
  match s with
  | [] => rfl
  | [c] => simp [hasHexPrefix]
  | c :: d :: s =>
    obtain ⟨-, -, -, hx, hX, -⟩ := isHex_distinct d (h d (by simp))
    simp [hasHexPrefix, hx, hX]

/-- **`stoi` reads a number of digits alone** as the number it is. -/
theorem stoi16_digits {s : List U8} (hne : s ≠ []) (hs : ∀ c ∈ s, isHex c = true)
    (hlt : ofDigits s < 2 ^ 31) : stoi16 s = .ok (ofDigits s) := by
  have hread : strtol16 s = some ⟨false, ofDigits s⟩ := by
    obtain ⟨c, t, rfl⟩ := List.exists_cons_of_ne_nil hne
    obtain ⟨hspace, hminus, hplus, -⟩ := isHex_distinct c (hs c List.mem_cons_self)
    have hsign : splitSign ((c :: t).dropWhile isSpace) = (false, c :: t) := by
      rw [List.dropWhile_cons_of_neg (by rw [hspace]; exact Bool.false_ne_true)]
      simp only [splitSign, if_neg hminus, if_neg hplus]
    have hall : (c :: t).takeWhile isHex = c :: t := by
      rw [← List.append_nil (c :: t), List.takeWhile_append_of_pos hs, List.takeWhile_nil]
    simp only [strtol16, hsign, hasHexPrefix_of_isHex hs, Bool.false_and, Bool.false_eq_true,
      if_false, hall, if_neg hne]
  rw [stoi16, hread]
  exact if_pos ⟨by simp only [Num.toInt]; omega, by simp only [Num.toInt]; omega⟩

/-! ### Fields of one length -/

/-- A part of a text made of parts of one length. -/
theorem exists_split_flatMap {α β : Type*} {f : α → List β} {w : ℕ} (hw : ∀ a, (f a).length = w)
    {l : List α} {i : ℕ} {a : α} (h : l[i]? = some a) :
    ∃ front back, l.flatMap f = front ++ f a ++ back ∧ front.length = w * i := by
  induction l generalizing i with
  | nil => exact absurd h nofun
  | cons b l ih =>
    cases i with
    | zero =>
      obtain rfl : b = a := Option.some.inj h
      exact ⟨[], l.flatMap f, by rw [List.flatMap_cons, List.nil_append], by simp⟩
    | succ i =>
      obtain ⟨front, back, heq, hlen⟩ := ih h
      refine ⟨f b ++ front, back, ?_, ?_⟩
      · rw [List.flatMap_cons, heq, List.append_assoc, List.append_assoc, List.append_assoc]
      · rw [List.length_append, hw, hlen, Nat.mul_succ, Nat.add_comm]

end CText
