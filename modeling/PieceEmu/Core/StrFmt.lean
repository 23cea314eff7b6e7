import PieceEmu.Core.Disasm

/-!
# Formatted text

`piece::format` stands in for `std::format` where the standard library has none: `vformat`
reads a format string from left to right, copies what is between the fields, and gives each
field the next argument. Here the format string is taken the other way round. A format is a
list of pieces, a character or a field each (`Piece`), and its string is spelled from them;
what a field makes of an argument is stated without the code (`Spec.render`).

| question | theorem |
|---|---|
| when does a format string print, and what? | `StrFmt.vformat_ok_iff` |
| can a number be read back from its field? | `StrFmt.scanDec_field` |
| is the line of the disassembler the one it formats? | `StrFmt.vformat_line` |
-/

open CText

namespace StrFmt

/-! ### The code -/

/-- `Arg`, as `make_arg` makes it: `bool` and `char` are strings. -/
inductive Arg
  | signed (s : BitVec 64)
  | unsigned (u : U64)
  | str (t : List U8)

/-- The exceptions. -/
inductive Error
  | unsupportedSpec
  | badStringType
  | badIntegerType
  | unterminated
  | positional
  | tooFew
  deriving DecidableEq

/-- Their texts. -/
def Error.what : Error → String
  | unsupportedSpec => "piece::format: unsupported format spec"
  | badStringType => "piece::format: bad type for string"
  | badIntegerType => "piece::format: bad type for integer"
  | unterminated => "piece::format: unterminated field"
  | positional => "piece::format: positional args unsupported"
  | tooFew => "piece::format: too few arguments"

/-- `digits`. -/
def digits (upper : Bool) : List U8 :=
  str (if upper then "0123456789ABCDEF" else "0123456789abcdef")

/-- The loop over the digits of a number, `fuel` times at most. -/
def digitLoop (upper : Bool) (base : ℕ) : ℕ → ℕ → List U8 → List U8
  | 0, _, body => body
  | fuel + 1, mag, body =>
    let body := (digits upper).getD (mag % base) 0 :: body
    if mag / base = 0 then body else digitLoop upper base fuel (mag / base) body

/-- A number with its sign, in a field. -/
def padNumber (zero neg : Bool) (width : ℕ) (body : List U8) : List U8 :=
  let sign := if neg then [ch '-'] else []
  let len := body.length + sign.length
  if zero then sign ++ (List.replicate (width - len) (ch '0') ++ body)
  else List.replicate (width - len) (ch ' ') ++ (sign ++ body)

/-- `append_field`, of a number. -/
def appendNumber (neg : Bool) (mag : ℕ) (zero : Bool) (width : ℕ) (type : U8) :
    Except Error (List U8) :=
  if type = 0 ∨ type = ch 'd' then
    .ok (padNumber zero neg width (digitLoop false 10 (mag + 1) mag []))
  else if type = ch 'x' then
    .ok (padNumber zero neg width (digitLoop false 16 (mag + 1) mag []))
  else if type = ch 'X' then
    .ok (padNumber zero neg width (digitLoop true 16 (mag + 1) mag []))
  else .error .badIntegerType

/-- `append_field`: what it appends. The width is a `size_t`. -/
def appendField (a : Arg) (spec : List U8) : Except Error (List U8) :=
  let zero : Bool := spec.head? = some (ch '0')
  let spec := if zero then spec.tail else spec
  let width := ofDec (spec.takeWhile isDigit) % 2 ^ 64
  let spec := spec.dropWhile isDigit
  let type := spec.headD 0
  if spec.tail ≠ [] then .error .unsupportedSpec
  else
    match a with
    | .str t =>
      if type ≠ 0 ∧ type ≠ ch 's' then .error .badStringType
      else .ok (t ++ List.replicate (width - t.length) (ch ' '))
    | .unsigned u => appendNumber false u.toNat zero width type
    | .signed s =>
      let neg : Bool := s.toInt < 0
      appendNumber neg (if neg then (0 - s).toNat else s.toNat) zero width type

/-- `vformat`. -/
def vformat : List U8 → List Arg → Except Error (List U8)
  | [], _ => .ok []
  | c :: s, args =>
    if c = ch '}' then
      (vformat (if s.head? = some (ch '}') then s.tail else s) args).map (ch '}' :: ·)
    else if c ≠ ch '{' then (vformat s args).map (c :: ·)
    else if s.head? = some (ch '{') then (vformat s.tail args).map (ch '{' :: ·)
    else if s.all (· ≠ ch '}') then .error .unterminated
    else
      let field := s.takeWhile (· ≠ ch '}')
      if field ≠ [] ∧ field.head? ≠ some (ch ':') then .error .positional
      else
        match args with
        | [] => .error .tooFew
        | a :: args =>
          (appendField a field.tail).bind fun t =>
            (vformat (s.dropWhile (· ≠ ch '}')).tail args).map (t ++ ·)
termination_by s => s.length
decreasing_by
  · split_ifs <;> simp only [List.length_tail, List.length_cons] <;> omega
  · exact Nat.lt_succ_self _
  · simp only [List.length_tail, List.length_cons]
    omega
  · have := (List.dropWhile_sublist (fun x => decide (x ≠ ch '}')) (l := s)).length_le
    simp only [List.length_tail, List.length_cons]
    omega

/-! ### The format -/

/-- The types of a field. -/
inductive Conv
  | none | d | x | X | s
  deriving DecidableEq

namespace Conv

/-- The letter. -/
def letter : Conv → List U8
  | none => []
  | d => [ch 'd']
  | x => [ch 'x']
  | X => [ch 'X']
  | s => [ch 's']

/-- The base of a type for numbers, and whether its digits are upper-case letters. -/
def base? : Conv → Option (ℕ × Bool)
  | none => some (10, false)
  | d => some (10, false)
  | x => some (16, false)
  | X => some (16, true)
  | s => Option.none

end Conv

/-- What stands in a field. -/
structure Spec where
  zero : Bool := false
  width : ℕ := 0
  conv : Conv := .none

/-- A piece of a format. -/
inductive Piece
  | lit (c : U8)
  | field (sp : Spec)

/-- The text of a field, behind the colon. -/
def Spec.text (sp : Spec) : List U8 :=
  (if sp.zero then [ch '0'] else []) ++ ((if sp.width = 0 then [] else dec sp.width) ++
    sp.conv.letter)

/-- The text of a piece in the format string. -/
def Piece.text : Piece → List U8
  | lit c => if c = ch '{' ∨ c = ch '}' then [c, c] else [c]
  | field sp => ch '{' :: ((if sp.text = [] then [] else ch ':' :: sp.text) ++ [ch '}'])

/-- A number, in base `b`. -/
def numeral (b : ℕ) (upper : Bool) (n : ℕ) : List U8 :=
  (Nat.toDigits b n).map fun c => ch (if upper then c.toUpper else c)

/-- The value of an integer argument. -/
def Arg.value? : Arg → Option ℤ
  | .signed s => some s.toInt
  | .unsigned u => some u.toNat
  | .str _ => none

/-- A number in a field: zeroes stand behind the sign, blanks in front of it. -/
def Spec.number (sp : Spec) (b : ℕ) (upper : Bool) (v : ℤ) : List U8 :=
  let sign := if v < 0 then [ch '-'] else []
  if sp.zero then
    sign ++ (numeral b upper v.natAbs).leftpad (sp.width - sign.length) (ch '0')
  else (sign ++ numeral b upper v.natAbs).leftpad sp.width (ch ' ')

/-- **What a field prints of an argument.** -/
def Spec.render (sp : Spec) (a : Arg) : Except Error (List U8) :=
  match a with
  | .str t =>
    if sp.conv = .none ∨ sp.conv = .s then
      .ok (t ++ List.replicate (sp.width - t.length) (ch ' '))
    else .error .badStringType
  | .signed s =>
    match sp.conv.base? with
    | some (b, upper) => .ok (sp.number b upper s.toInt)
    | none => .error .badIntegerType
  | .unsigned u =>
    match sp.conv.base? with
    | some (b, upper) => .ok (sp.number b upper u.toNat)
    | none => .error .badIntegerType

/-- **What a format prints.** -/
def print : List Piece → List Arg → Except Error (List U8)
  | [], _ => .ok []
  | .lit c :: ps, args => (print ps args).map (c :: ·)
  | .field _ :: _, [] => .error .tooFew
  | .field sp :: ps, a :: args =>
    (sp.render a).bind fun t => (print ps args).map (t ++ ·)

/-! ### Numbers -/

/-- **The loop makes the numeral.** -/
theorem digitLoop_eq (upper : Bool) {b : ℕ} (hpos : 0 < b) (hb : b ≤ 16) (fuel n : ℕ)
    (ds : List Char) :
    digitLoop upper b fuel n (ds.map fun c => ch (if upper then c.toUpper else c)) =
      (Nat.toDigitsCore b fuel n ds).map fun c => ch (if upper then c.toUpper else c) := by
  have hdigit : ∀ upper : Bool, ∀ i : Fin 16, (digits upper).getD i.val 0 =
      ch (if upper then i.val.digitChar.toUpper else i.val.digitChar) := by decide +kernel
  induction fuel generalizing n ds with
  | zero => rfl
  | succ fuel ih =>
    have hlt : n % b < 16 := Nat.lt_of_lt_of_le (Nat.mod_lt n hpos) hb
    unfold digitLoop Nat.toDigitsCore
    dsimp only
    rw [hdigit upper ⟨n % b, hlt⟩]
    by_cases hlast : n / b = 0
    · rw [if_pos hlast, if_pos hlast]
      rfl
    · rw [if_neg hlast, if_neg hlast]
      exact ih (n / b) ((n % b).digitChar :: ds)

theorem digitLoop_numeral (upper : Bool) {b : ℕ} (hpos : 0 < b) (hb : b ≤ 16) (n : ℕ) :
    digitLoop upper b (n + 1) n [] = numeral b upper n :=
  digitLoop_eq upper hpos hb (n + 1) n []

/-- **The field that the code makes.** -/
theorem padNumber_numeral (sp : Spec) (b : ℕ) (upper : Bool) (v : ℤ) :
    padNumber sp.zero (v < 0) sp.width (numeral b upper v.natAbs) = sp.number b upper v := by
  unfold padNumber Spec.number List.leftpad
  simp only [decide_eq_true_eq, List.length_append, Nat.sub_sub, Nat.add_comm]

/-- The magnitude of a signed argument, the least number included. -/
theorem signed_mag (s : BitVec 64) :
    (if s.toInt < 0 then (0 - s).toNat else s.toNat) = s.toInt.natAbs := by
  have hs := s.isLt
  rw [BitVec.toInt_eq_toNat_cond]
  split_ifs with h1 h2 h2
  · omega
  · rfl
  · have hzero : (0 : BitVec 64).toNat = 0 := rfl
    rw [BitVec.toNat_sub, hzero]
    omega
  · omega

/-- A number has no zero in front. -/
theorem head_dec {n : ℕ} (h : 0 < n) : (dec n).head? ≠ some (ch '0') := by
  induction n using Nat.strong_induction_on with
  | _ n ih =>
    rw [dec]
    by_cases hlt : n < 10
    · have hall : ∀ i : Fin 10, 0 < i.val → ch i.val.digitChar ≠ ch '0' := by decide +kernel
      rw [Nat.toDigits_of_lt_base hlt]
      exact fun heq => hall ⟨n, hlt⟩ h (Option.some.inj heq)
    · have hrec := ih (n / 10) (by omega) (by omega)
      rw [dec] at hrec
      rw [Nat.toDigits_of_base_le (by decide) (Nat.not_lt.mp hlt), List.map_append,
        List.head?_append_of_ne_nil _ (by simp)]
      exact hrec

/-! ### Fields -/

/-- The letter of a type is no digit. -/
theorem takeWhile_letter (c : Conv) :
    c.letter.takeWhile isDigit = [] ∧ c.letter.dropWhile isDigit = c.letter := by
  cases c <;> decide

/-- The field behind the flag: the width is read, and the type is left. -/
theorem takeWhile_width (w : ℕ) (c : Conv) :
    ofDec (((if w = 0 then [] else dec w) ++ c.letter).takeWhile isDigit) = w ∧
      ((if w = 0 then [] else dec w) ++ c.letter).dropWhile isDigit = c.letter := by
  obtain ⟨htake, hdrop⟩ := takeWhile_letter c
  split_ifs with hw
  · rw [List.nil_append, htake, hdrop, hw]
    exact ⟨rfl, rfl⟩
  · have hdigits : ∀ d ∈ dec w, isDigit d = true := fun _ => isDigit_of_mem_dec
    rw [List.takeWhile_append_of_pos hdigits, List.dropWhile_append_of_pos hdigits, htake, hdrop,
      List.append_nil, ofDec_dec]
    exact ⟨rfl, rfl⟩

/-- Behind the flag there is no zero. -/
theorem head_width (w : ℕ) (c : Conv) :
    ((if w = 0 then [] else dec w) ++ c.letter).head? ≠ some (ch '0') := by
  split_ifs with hw
  · cases c <;> decide
  · have hne : dec w ≠ [] := fun h => Nat.toDigits_ne_nil (List.map_eq_nil_iff.mp h)
    rw [List.head?_append_of_ne_nil _ hne]
    exact head_dec (Nat.pos_of_ne_zero hw)

/-- A number is appended as its type says. -/
theorem appendNumber_letter (sp : Spec) (v : ℤ) :
    appendNumber (v < 0) v.natAbs sp.zero sp.width (sp.conv.letter.headD 0) =
      match sp.conv.base? with
      | some (b, upper) => .ok (sp.number b upper v)
      | none => .error .badIntegerType := by
  obtain ⟨zero, w, c⟩ := sp
  have hnumber := fun b upper => padNumber_numeral ⟨zero, w, c⟩ b upper v
  cases c <;> simp [appendNumber, Conv.letter, Conv.base?, digitLoop_numeral, hnumber, ch]

/-- **A field is read as it was written.** -/
theorem appendField_text (sp : Spec) (hw : sp.width < 2 ^ 64) (a : Arg) :
    appendField a sp.text = sp.render a := by
  obtain ⟨zero, w, c⟩ := sp
  obtain ⟨hwidth, hletter⟩ := takeWhile_width w c
  have hhead := head_width w c
  have hzero : decide ((Spec.text ⟨zero, w, c⟩).head? = some (ch '0')) = zero := by
    cases zero with
    | false => exact decide_eq_false hhead
    | true => rfl
  have hrest : (if zero then (Spec.text ⟨zero, w, c⟩).tail else Spec.text ⟨zero, w, c⟩) =
      (if w = 0 then [] else dec w) ++ c.letter := by
    cases zero <;> rfl
  have hmod : w % 2 ^ 64 = w := Nat.mod_eq_of_lt hw
  have htail : c.letter.tail = [] := by cases c <;> rfl
  unfold appendField
  dsimp only
  rw [hzero, hrest, hwidth, hletter, hmod, htail, if_neg (by simp)]
  cases a with
  | str t => cases c <;> rfl
  | unsigned u =>
    have hneg : decide (((u.toNat : ℕ) : ℤ) < 0) = false := decide_eq_false (by omega)
    have hnumber := appendNumber_letter ⟨zero, w, c⟩ u.toNat
    rw [hneg] at hnumber
    exact hnumber
  | signed s =>
    dsimp only
    simp only [decide_eq_true_eq]
    rw [signed_mag]
    exact appendNumber_letter ⟨zero, w, c⟩ s.toInt

/-! ### Formats -/

theorem vformat_lit (c : U8) (s : List U8) (args : List Arg) :
    vformat ((Piece.lit c).text ++ s) args = (vformat s args).map (c :: ·) := by
  have hdiff : ch '{' ≠ ch '}' := by decide
  unfold Piece.text
  dsimp only
  split_ifs with hbrace
  · rcases hbrace with rfl | rfl
    · show vformat (ch '{' :: ch '{' :: s) args = _
      rw [vformat, if_neg hdiff, if_neg (by simp), List.head?_cons, if_pos rfl, List.tail_cons]
    · show vformat (ch '}' :: ch '}' :: s) args = _
      rw [vformat, if_pos rfl, List.head?_cons, if_pos rfl, List.tail_cons]
  · rw [not_or] at hbrace
    show vformat (c :: s) args = _
    rw [vformat, if_neg hbrace.2, if_pos hbrace.1]

/-- The text of a field has no closing brace. -/
theorem close_not_mem_text (sp : Spec) : ∀ c ∈ sp.text, c ≠ ch '}' := by
  intro c hc
  rcases List.mem_append.mp hc with hc | hc
  · split_ifs at hc
    · rw [List.mem_singleton.mp hc]
      decide
    · exact absurd hc List.not_mem_nil
  · rcases List.mem_append.mp hc with hc | hc
    · split_ifs at hc
      · exact absurd hc List.not_mem_nil
      · rintro rfl
        exact not_mem_dec (by decide) _ hc
    · have hletter : ∀ k : Conv, (k.letter.all (· ≠ ch '}')) = true := by
        intro k
        cases k <;> decide
      exact of_decide_eq_true (List.all_eq_true.mp (hletter sp.conv) c hc)

/-- What stands between the braces of a field. -/
def Spec.inner (sp : Spec) : List U8 := if sp.text = [] then [] else ch ':' :: sp.text

theorem close_not_mem_inner (sp : Spec) : ∀ c ∈ sp.inner, c ≠ ch '}' := by
  intro c hc
  rw [Spec.inner] at hc
  split_ifs at hc
  · exact absurd hc List.not_mem_nil
  · rcases List.mem_cons.mp hc with rfl | hc
    · decide
    · exact close_not_mem_text sp c hc

theorem tail_inner (sp : Spec) : sp.inner.tail = sp.text := by
  rw [Spec.inner]
  split_ifs with h
  · exact h.symm
  · rfl

/-- **A field is found**, up to its brace. -/
theorem vformat_field (sp : Spec) (s : List U8) (args : List Arg) :
    vformat ((Piece.field sp).text ++ s) args =
      if h : args = [] then .error .tooFew
      else
        (appendField (args.head h) sp.text).bind fun t =>
          (vformat s args.tail).map (t ++ ·) := by
  have hopen : ch '{' ≠ ch '}' := by decide
  have htext : (Piece.field sp).text ++ s = ch '{' :: (sp.inner ++ ch '}' :: s) := by
    simp [Piece.text, Spec.inner]
  have hne : ∀ c ∈ sp.inner, decide (c ≠ ch '}') = true := fun c hc =>
    decide_eq_true (close_not_mem_inner sp c hc)
  have htake : (sp.inner ++ ch '}' :: s).takeWhile (fun c => decide (c ≠ ch '}')) = sp.inner := by
    rw [List.takeWhile_append_of_pos hne]
    simp
  have hdrop : (sp.inner ++ ch '}' :: s).dropWhile (fun c => decide (c ≠ ch '}')) =
      ch '}' :: s := by
    rw [List.dropWhile_append_of_pos hne]
    simp
  have hhead : (sp.inner ++ ch '}' :: s).head? ≠ some (ch '{') := by
    rw [Spec.inner]
    split_ifs
    · exact fun h => absurd (Option.some.inj h) (by decide)
    · exact fun h => absurd (Option.some.inj h) (by decide)
  have hany : ¬(sp.inner ++ ch '}' :: s).all (fun c => decide (c ≠ ch '}')) = true := by
    simp
  have hcolon : ¬(sp.inner ≠ [] ∧ sp.inner.head? ≠ some (ch ':')) := by
    rw [Spec.inner]
    split_ifs <;> simp
  rw [htext, vformat, if_neg hopen, if_neg (by simp), if_neg hhead, if_neg hany]
  dsimp only
  rw [htake, hdrop, if_neg hcolon, tail_inner]
  cases args with
  | nil => rfl
  | cons a args => rfl

/-- What a format string prints is what its pieces print, errors included. -/
theorem vformat_pieces (ps : List Piece)
    (hwidth : ∀ sp, Piece.field sp ∈ ps → sp.width < 2 ^ 64) (args : List Arg) :
    vformat (ps.flatMap Piece.text) args = print ps args := by
  induction ps generalizing args with
  | nil => rw [List.flatMap_nil, vformat, print]
  | cons p ps ih =>
    have htail := ih fun sp hsp => hwidth sp (List.mem_cons_of_mem p hsp)
    rw [List.flatMap_cons]
    cases p with
    | lit c => rw [vformat_lit, htail, print]
    | field sp =>
      rw [vformat_field]
      cases args with
      | nil => rfl
      | cons a args =>
        have hfield := appendField_text sp (hwidth sp List.mem_cons_self) a
        rw [dif_neg (List.cons_ne_nil a args), List.head_cons, List.tail_cons, hfield, htail, print]

/-- The fields of a format. -/
def fields : List Piece → List Spec
  | [] => []
  | .lit _ :: ps => fields ps
  | .field sp :: ps => sp :: fields ps

/-- A format, with texts in place of the fields. -/
def weave : List Piece → List (List U8) → List U8
  | [], _ => []
  | .lit c :: ps, ts => c :: weave ps ts
  | .field _ :: ps, ts => ts.headD [] ++ weave ps ts.tail

theorem map_eq_ok {x : Except Error (List U8)} {f : List U8 → List U8} {t : List U8} :
    x.map f = .ok t ↔ ∃ u, x = .ok u ∧ f u = t := by
  cases x with
  | error e => simp [Except.map]
  | ok u => simp [Except.map]

/-- **When a format string prints, and what**, for every format whose widths fit a `size_t` and
all arguments: there is an argument for each field, each of them suits its field, and what is
printed is the format with the texts of the arguments in place of the fields. -/
theorem vformat_ok_iff (ps : List Piece)
    (hwidth : ∀ sp, Piece.field sp ∈ ps → sp.width < 2 ^ 64) (args : List Arg) (t : List U8) :
    vformat (ps.flatMap Piece.text) args = .ok t ↔
      (fields ps).length ≤ args.length ∧
        ∃ ts, List.Forall₂ (fun p u => p.1.render p.2 = .ok u) ((fields ps).zip args) ts ∧
          t = weave ps ts := by
  rw [vformat_pieces ps hwidth]
  clear hwidth
  induction ps generalizing args t with
  | nil => simp [print, fields, weave, eq_comm]
  | cons p ps ih =>
    cases p with
    | lit c =>
      rw [print, map_eq_ok, fields]
      constructor
      · rintro ⟨u, hu, rfl⟩
        obtain ⟨hlen, ts, hts, rfl⟩ := (ih args u).mp hu
        exact ⟨hlen, ts, hts, rfl⟩
      · rintro ⟨hlen, ts, hts, rfl⟩
        exact ⟨weave ps ts, (ih args _).mpr ⟨hlen, ts, hts, rfl⟩, rfl⟩
    | field sp =>
      cases args with
      | nil => simp [print, fields]
      | cons a args =>
        rw [print, fields, List.zip_cons_cons, List.length_cons, List.length_cons,
          Nat.add_le_add_iff_right]
        cases hfield : sp.render a with
        | error e =>
          -- a field that cannot be rendered fails the whole
          refine iff_of_false (by simp [Except.bind]) ?_
          rintro ⟨-, ts, hts, -⟩
          obtain ⟨u, us, hu, -, -⟩ := List.forall₂_cons_left_iff.mp hts
          simp [hfield] at hu
        | ok v =>
          show (print ps args).map (v ++ ·) = .ok t ↔ _
          rw [map_eq_ok]
          constructor
          · rintro ⟨u, hu, rfl⟩
            obtain ⟨hlen, ts, hts, rfl⟩ := (ih args u).mp hu
            exact ⟨hlen, v :: ts, .cons hfield hts, rfl⟩
          · rintro ⟨hlen, ts, hts, rfl⟩
            obtain ⟨u, us, hu, hus, rfl⟩ := List.forall₂_cons_left_iff.mp hts
            have huv : v = u := Except.ok.inj (hfield.symm.trans hu)
            subst huv
            exact ⟨weave ps us, (ih args _).mpr ⟨hlen, us, hus, rfl⟩, rfl⟩

/-- A register in a dump: `R{:2d}={:08X}`. -/
theorem vformat_ok_iff_register :
    vformat (([.lit (ch 'R'), .field { width := 2, conv := .d }, .lit (ch '='),
        .field { zero := true, width := 8, conv := .X }] : List Piece).flatMap Piece.text)
        [.signed 7, .unsigned 0xBEEF] = .ok (str "R 7=0000BEEF") := by
  refine (vformat_ok_iff _ ?_ _ _).mpr ⟨by decide, [str " 7", str "0000BEEF"], ?_, by decide⟩
  · intro sp hsp
    simp only [List.mem_cons, reduceCtorEq, Piece.field.injEq, List.not_mem_nil, false_or,
      or_false] at hsp
    rcases hsp with rfl | rfl <;> decide
  · exact .cons rfl (.cons rfl .nil)

/-! ### Numbers read back -/

/-- Zeroes in front of a number do not count. -/
theorem digitsOf_replicate (k : ℕ) {ds : List U8} {n : ℕ} (h : DigitsOf ds n) :
    DigitsOf (List.replicate k (ch '0') ++ ds) n where
  ne_nil := fun heq => h.ne_nil (List.append_eq_nil_iff.mp heq).2
  digits := by
    intro c hc
    rcases List.mem_append.mp hc with hc | hc
    · rw [List.eq_of_mem_replicate hc]
      decide
    · exact h.digits c hc
  value := by
    have hzero : ofDec (List.replicate k (ch '0')) = 0 := by
      induction k with
      | zero => rfl
      | succ k ih => exact ih
    have hvalue := h.value
    rw [ofDec] at hzero hvalue ⊢
    rw [List.foldl_append, hzero, hvalue]

theorem digitsOf_dec (n : ℕ) : DigitsOf (dec n) n where
  ne_nil := fun h => Nat.toDigits_ne_nil (List.map_eq_nil_iff.mp h)
  digits := fun _ => isDigit_of_mem_dec
  value := ofDec_dec n

/-- A signed number is read behind blanks. -/
theorem scanDec_blanks (k : ℕ) (v : ℤ) {ds : List U8} (h : DigitsOf ds v.natAbs) (hv : IsInt v) :
    scanDec (List.replicate k (ch ' ') ++ ((if v < 0 then [ch '-'] else []) ++ ds)) =
      some (v, []) := by
  have hblank : ∀ c ∈ List.replicate k (ch ' '), isSpace c = true := by
    intro c hc
    rw [List.eq_of_mem_replicate hc]
    decide
  by_cases hneg : v < 0
  · have htake : ds.takeWhile isDigit = ds := by
      have := @List.takeWhile_append_of_pos _ isDigit ds [] h.digits
      rwa [List.append_nil, List.takeWhile_nil, List.append_nil] at this
    have hdrop : ds.dropWhile isDigit = [] := by
      have := @List.dropWhile_append_of_pos _ isDigit ds [] h.digits
      rwa [List.append_nil, List.dropWhile_nil] at this
    have hvalue : Num.toInt ⟨true, ofDec ds⟩ = v := by
      show -((ofDec ds : ℕ) : ℤ) = v
      rw [h.value]
      omega
    rw [if_pos hneg, scanDec, List.dropWhile_append_of_pos hblank]
    show (if ds.takeWhile isDigit = [] then none
      else if IsInt (Num.toInt ⟨true, ofDec (ds.takeWhile isDigit)⟩) then
        some (Num.toInt ⟨true, ofDec (ds.takeWhile isDigit)⟩, ds.dropWhile isDigit)
      else none) = _
    rw [htake, hdrop, if_neg h.ne_nil, hvalue, if_pos hv]
  · have hscan := scanDec_append h (by have := hv.2; omega) [] rfl
    have hvalue : ((v.natAbs : ℕ) : ℤ) = v := by omega
    rw [List.append_nil, hvalue] at hscan
    rw [if_neg hneg]
    rw [scanDec] at hscan ⊢
    rw [List.dropWhile_append_of_pos hblank]
    exact hscan

theorem scanDec_number (sp : Spec) {v : ℤ} (hv : IsInt v) :
    scanDec (sp.number 10 false v) = some (v, []) := by
  have hnumeral : numeral 10 false v.natAbs = dec v.natAbs := rfl
  rw [Spec.number, hnumeral]
  by_cases hzero : sp.zero = true
  · rw [if_pos hzero]
    exact scanDec_blanks 0 v (digitsOf_replicate _ (digitsOf_dec v.natAbs)) hv
  · rw [if_neg hzero]
    exact scanDec_blanks _ v (digitsOf_dec v.natAbs) hv

theorem width_le_number (sp : Spec) (b : ℕ) (upper : Bool) (v : ℤ) :
    sp.width ≤ (sp.number b upper v).length := by
  unfold Spec.number List.leftpad
  by_cases hzero : sp.zero = true
  · rw [if_pos hzero]
    simp only [List.length_append, List.length_replicate]
    omega
  · rw [if_neg hzero]
    simp only [List.length_append, List.length_replicate]
    omega

/-- **A number is read back** from a field of a decimal type, of any width, with zeroes or with
blanks in front, the least `int` included: `sscanf` with `%d` finds the number that was
printed, and nothing behind it. The numbers are those that the `int` of a `%d` can store. -/
theorem scanDec_field (sp : Spec) (hwidth : sp.width < 2 ^ 64)
    (hconv : sp.conv = .none ∨ sp.conv = .d) (a : Arg) (v : ℤ) (hv : a.value? = some v)
    (hint : IsInt v) :
    ∃ t, vformat (Piece.field sp).text [a] = .ok t ∧ sp.width ≤ t.length ∧
      scanDec t = some (v, []) := by
  have hformat := vformat_pieces [.field sp] (fun sp' h => by
    rw [Piece.field.inj (List.mem_singleton.mp h)]
    exact hwidth) [a]
  rw [List.flatMap_singleton] at hformat
  have hbase : sp.conv.base? = some (10, false) := by
    rcases hconv with h | h <;> rw [h] <;> rfl
  have hrender : sp.render a = .ok (sp.number 10 false v) := by
    cases a with
    | str t => exact absurd hv (by simp [Arg.value?])
    | signed s =>
      rw [← Option.some.inj hv]
      simp only [Spec.render, hbase]
    | unsigned u =>
      rw [← Option.some.inj hv]
      simp only [Spec.render, hbase]
  refine ⟨sp.number 10 false v, ?_, width_le_number sp 10 false v, scanDec_number sp hint⟩
  rw [hformat, print, hrender]
  show Except.ok (sp.number 10 false v ++ []) = _
  rw [List.append_nil]

/-- The least `int`, in a field of 16 places with zeroes. -/
theorem scanDec_field_least :
    ∃ t, vformat (Piece.field { zero := true, width := 16, conv := .d }).text
        [.signed (-2147483648)] = .ok t ∧ 16 ≤ t.length ∧ scanDec t = some (-2147483648, []) :=
  scanDec_field { zero := true, width := 16, conv := .d } (by decide) (.inr rfl)
    (.signed (-2147483648)) (-2147483648) (by decide) (by decide)

/-! ### The line of the disassembler -/

/-- The format of a line of the disassembler. -/
def linePieces : List Piece :=
  (str "0x").map .lit ++ (.field { zero := true, width := 6, conv := .X } ::
    ((str ": ").map .lit ++ (.field { zero := true, width := 4, conv := .X } ::
      ((str "  ").map .lit ++ [.field {}]))))

theorem print_lits (cs : List U8) (ps : List Piece) (args : List Arg) :
    print (cs.map .lit ++ ps) args = (print ps args).map (cs ++ ·) := by
  induction cs with
  | nil =>
    show print ps args = _
    cases print ps args <;> rfl
  | cons c cs ih =>
    rw [List.map_cons, List.cons_append, print, ih]
    cases print ps args <;> rfl

/-- A field for addresses and words. -/
theorem number_hex (w n : ℕ) :
    Spec.number { zero := true, width := w, conv := .X } 16 true n = hexPadded w n := by
  have hneg : ¬(n : ℤ) < 0 := by omega
  rw [Spec.number, if_neg hneg]
  rfl

/-- **The line of the disassembler** is what `vformat` makes of its format. -/
theorem vformat_line (addr : U32) (i : Insn) :
    vformat (str "0x{:06X}: {:04X}  {}") [.unsigned (addr.setWidth 64),
        .unsigned (i.raw.setWidth 64), .str (Disasm.mnemonic addr i)] =
      .ok (Disasm.line addr i) := by
  have hformat : str "0x{:06X}: {:04X}  {}" = linePieces.flatMap Piece.text := by decide +kernel
  have hwidth : ∀ sp, Piece.field sp ∈ linePieces → sp.width < 2 ^ 64 := by
    intro sp hsp
    simp only [linePieces, List.mem_append, List.mem_cons, List.mem_map, Piece.field.injEq,
      reduceCtorEq, and_false, exists_false, false_or, List.not_mem_nil, or_false] at hsp
    rcases hsp with rfl | rfl | rfl <;> decide
  have haddr : (addr.setWidth 64).toNat = addr.toNat :=
    BitVec.toNat_setWidth_of_le (by decide)
  have hraw : (i.raw.setWidth 64).toNat = i.raw.toNat := BitVec.toNat_setWidth_of_le (by decide)
  rw [hformat, vformat_pieces linePieces hwidth, linePieces, print_lits, print, print_lits, print,
    print_lits, print]
  simp only [Spec.render, Conv.base?, haddr, hraw, number_hex]
  simp [print, Except.map, Except.bind, Disasm.line]

end StrFmt
