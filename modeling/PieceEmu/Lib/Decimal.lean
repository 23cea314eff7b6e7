import PieceEmu.Lib.CText

/-!
# Numbers in a text

The text of a number in base 10 has digits only, with a `-` in front of a negative one, and
the number is read back from it (`CText.ofDec_dec`, `CText.decInt_inj`); so is a number in
base 16, with zeroes in front (`CText.ofDigits_hexPadded`). A scan into an `int` reads the
digits up to the first character that is none (`CText.scanDec_append`). A text made of fields
that do not contain the separator determines the fields (`CText.append_cons_inj`).
-/

namespace CText

/-- `{}` of a number without sign, `%llu`. -/
def dec (n : ℕ) : List U8 := (Nat.toDigits 10 n).map ch

/-- `{}` of a signed number, `%lld`. -/
def decInt (n : ℤ) : List U8 := if n < 0 then ch '-' :: dec n.natAbs else dec n.natAbs

theorem decInt_natCast (n : ℕ) : decInt n = dec n := if_neg (by omega)

/-- The number that decimal digits write. -/
def ofDec (ds : List U8) : ℕ := ds.foldl (fun n c => 10 * n + (c.toNat - '0'.toNat)) 0

/-- `isdigit`. -/
def isDigit (c : U8) : Bool := ch '0' ≤ c && c ≤ ch '9'

/-- An ASCII digit is its byte. -/
theorem ch_of_isDigit {c : Char} (h : c.isDigit = true) :
    (ch c).toNat = c.toNat ∧ isDigit (ch c) = true := by
  obtain ⟨hlow, hhigh⟩ : 48 ≤ c.toNat ∧ c.toNat ≤ 57 := by
    simpa [Char.isDigit, UInt32.le_iff_toNat_le] using h
  have hch : (ch c).toNat = c.toNat := by
    rw [ch, BitVec.toNat_ofNat, Nat.mod_eq_of_lt (by omega)]
  refine ⟨hch, ?_⟩
  rw [isDigit, Bool.and_eq_true, decide_eq_true_iff, decide_eq_true_iff, BitVec.le_def,
    BitVec.le_def, hch]
  exact ⟨hlow, hhigh⟩

theorem isDigit_of_mem_dec {n : ℕ} {c : U8} (h : c ∈ dec n) : isDigit c = true := by
  obtain ⟨d, hd, rfl⟩ := List.mem_map.mp h
  exact (ch_of_isDigit (Nat.isDigit_of_mem_toDigits (by decide) (by decide) hd)).2

theorem ofDec_map_ch {l : List Char} (hl : ∀ c ∈ l, c.isDigit = true) :
    ofDec (l.map ch) = Nat.ofDigitChars 10 l 0 := by
  rw [ofDec, List.foldl_map, Nat.ofDigitChars]
  generalize (0 : ℕ) = init
  induction l generalizing init with
  | nil => rfl
  | cons c l ih =>
    rw [List.foldl_cons, List.foldl_cons, (ch_of_isDigit (hl c List.mem_cons_self)).1]
    exact ih (fun d hd => hl d (List.mem_cons_of_mem c hd)) _

/-- **A number is read back from its digits.** -/
theorem ofDec_dec (n : ℕ) : ofDec (dec n) = n :=
  (ofDec_map_ch fun _ hc => Nat.isDigit_of_mem_toDigits (by decide) (by decide) hc).trans
    Nat.ofDigitChars_ten_toDigits

theorem dec_inj {n m : ℕ} (h : dec n = dec m) : n = m := by
  rw [← ofDec_dec n, h, ofDec_dec]

/-- The characters of the text of a number. -/
theorem mem_decInt {n : ℤ} {c : U8} (h : c ∈ decInt n) : isDigit c = true ∨ c = ch '-' := by
  rw [decInt] at h
  split_ifs at h
  · rcases List.mem_cons.mp h with h | h
    · exact .inr h
    · exact .inl (isDigit_of_mem_dec h)
  · exact .inl (isDigit_of_mem_dec h)

/-- What is no digit is not in the text of a number. -/
theorem not_mem_dec {c : U8} (hc : isDigit c = false) (n : ℕ) : c ∉ dec n := fun h => by
  rw [isDigit_of_mem_dec h] at hc
  cases hc

theorem not_mem_decInt {c : U8} (hc : isDigit c = false) (hminus : c ≠ ch '-') (n : ℤ) :
    c ∉ decInt n := fun h => by
  rcases mem_decInt h with hdigit | heq
  · rw [hdigit] at hc
    cases hc
  · exact hminus heq

/-- A text of digits does not start with a sign. -/
theorem dec_ne_minus (n : ℕ) (rest : List U8) : dec n ≠ ch '-' :: rest := by
  intro h
  exact not_mem_dec (by decide) n (h ▸ List.mem_cons_self)

/-- **A signed number is determined by its text.** -/
theorem decInt_inj {n m : ℤ} (h : decInt n = decInt m) : n = m := by
  rw [decInt, decInt] at h
  split_ifs at h with hn hm hm
  · have := dec_inj (List.cons.inj h).2
    omega
  · exact absurd h.symm (dec_ne_minus _ _)
  · exact absurd h (dec_ne_minus _ _)
  · have := dec_inj h
    omega

/-! ### Scanning a number -/

/-- The values of an `int`. -/
def IsInt (v : ℤ) : Prop := -2 ^ 31 ≤ v ∧ v < 2 ^ 31

instance (v : ℤ) : Decidable (IsInt v) := inferInstanceAs (Decidable (_ ∧ _))

theorem isInt_natCast {n : ℕ} (h : n < 2 ^ 31) : IsInt n := ⟨by omega, by omega⟩

/-- The conversion `%d` into an `int`: the number, and the text behind it. What is stored of
a number that is no value of an `int` is undefined in C, and has no result here. -/
def scanDec (s : List U8) : Option (ℤ × List U8) :=
  let (neg, s) := splitSign (s.dropWhile isSpace)
  let ds := s.takeWhile isDigit
  if ds = [] then none
  else
    let v := Num.toInt ⟨neg, ofDec ds⟩
    if IsInt v then some (v, s.dropWhile isDigit) else none

/-- An ordinary character of a format. -/
def scanChar (c : Char) (s : List U8) : Option (List U8) :=
  if s.head? = some (ch c) then some s.tail else none

/-- Digits that write a number. -/
structure DigitsOf (ds : List U8) (n : ℕ) : Prop where
  ne_nil : ds ≠ []
  digits : ∀ c ∈ ds, isDigit c = true
  value : ofDec ds = n

/-- **A number is read up to the first character that is no digit.** -/
theorem scanDec_append {ds : List U8} {n : ℕ} (h : DigitsOf ds n) (hn : n < 2 ^ 31)
    (rest : List U8) (hrest : rest.takeWhile isDigit = []) :
    scanDec (ds ++ rest) = some (↑n, rest.dropWhile isDigit) := by
  have hdigit : ∀ c : U8, isDigit c = true → isSpace c = false ∧ c ≠ ch '-' ∧ c ≠ ch '+' := by
    decide +kernel
  have hsplit : splitSign ((ds ++ rest).dropWhile isSpace) = (false, ds ++ rest) := by
    cases hds : ds with
    | nil => exact absurd hds h.ne_nil
    | cons c ds' =>
      obtain ⟨hspace, hminus, hplus⟩ := hdigit c (h.digits c (hds ▸ List.mem_cons_self))
      rw [List.cons_append, List.dropWhile_cons_of_neg (by simp [hspace]), splitSign,
        if_neg hminus, if_neg hplus]
  unfold scanDec
  rw [hsplit]
  dsimp only
  rw [List.takeWhile_append_of_pos h.digits, List.dropWhile_append_of_pos h.digits, hrest,
    List.append_nil, if_neg h.ne_nil, h.value]
  exact if_pos (isInt_natCast hn)

theorem scanDec_cons {ds : List U8} {n : ℕ} (h : DigitsOf ds n) (hn : n < 2 ^ 31) {c : U8}
    (hc : isDigit c = false) (rest : List U8) :
    scanDec (ds ++ c :: rest) = some (↑n, c :: rest) := by
  rw [scanDec_append h hn _ (List.takeWhile_cons_of_neg (by simp [hc])),
    List.dropWhile_cons_of_neg (by simp [hc])]

theorem scanChar_cons (c : Char) (rest : List U8) : scanChar c (ch c :: rest) = some rest :=
  if_pos rfl

/-! ### Hexadecimal numbers -/

/-- `{:X}`. -/
def hex (n : ℕ) : List U8 := (Nat.toDigits 16 n).map fun c => ch c.toUpper

/-- `{:06X}` and the like: zeroes in front, up to a width. -/
def hexPadded (w n : ℕ) : List U8 := List.replicate (w - (hex n).length) (ch '0') ++ hex n

theorem hexVal_digitChar {d : ℕ} (h : d < 16) : hexVal (ch d.digitChar.toUpper) = some d := by
  revert d
  decide +kernel

theorem hex_of_lt {n : ℕ} (h : n < 16) : hex n = [ch n.digitChar.toUpper] := by
  rw [hex, Nat.toDigits_of_lt_base h, List.map_singleton]

theorem hex_of_le {n : ℕ} (h : 16 ≤ n) :
    hex n = hex (n / 16) ++ [ch (n % 16).digitChar.toUpper] := by
  rw [hex, Nat.toDigits_of_base_le (by decide) h, List.map_append, List.map_singleton, hex]

theorem ofDigits_append_singleton (ds : List U8) (c : U8) :
    ofDigits (ds ++ [c]) = 16 * ofDigits ds + (hexVal c).getD 0 := by
  rw [ofDigits, List.foldl_append, List.foldl_cons, List.foldl_nil, ofDigits]

theorem ofDigits_hex (n : ℕ) : ofDigits (hex n) = n := by
  induction n using Nat.strong_induction_on with
  | _ n ih =>
    by_cases h : n < 16
    · rw [hex_of_lt h, ofDigits, List.foldl_cons, List.foldl_nil, hexVal_digitChar h]
      simp
    · rw [hex_of_le (by omega), ofDigits_append_singleton, ih _ (by omega),
        hexVal_digitChar (Nat.mod_lt _ (by decide)), Option.getD_some]
      omega

theorem isHex_of_mem_hex {n : ℕ} {c : U8} (hc : c ∈ hex n) : isHex c = true := by
  induction n using Nat.strong_induction_on with
  | _ n ih =>
    by_cases h : n < 16
    · rw [hex_of_lt h, List.mem_singleton] at hc
      rw [hc, isHex, hexVal_digitChar h]
      rfl
    · rw [hex_of_le (by omega)] at hc
      rcases List.mem_append.mp hc with hc | hc
      · exact ih _ (by omega) hc
      · rw [List.mem_singleton.mp hc, isHex, hexVal_digitChar (Nat.mod_lt _ (by decide))]
        rfl

/-- **A number is read back from its hexadecimal digits**, whatever their width. -/
theorem ofDigits_hexPadded (w n : ℕ) : ofDigits (hexPadded w n) = n := by
  have hzero (k : ℕ) : ofDigits (List.replicate k (ch '0') ++ hex n) = ofDigits (hex n) := by
    induction k with
    | zero => rfl
    | succ k ih => exact ih
  exact (hzero _).trans (ofDigits_hex n)

theorem hexPadded_inj {w n m : ℕ} (h : hexPadded w n = hexPadded w m) : n = m := by
  rw [← ofDigits_hexPadded w n, h, ofDigits_hexPadded]

theorem isHex_of_mem_hexPadded {w n : ℕ} {c : U8} (hc : c ∈ hexPadded w n) : isHex c = true := by
  rcases List.mem_append.mp hc with hc | hc
  · rw [(List.mem_replicate.mp hc).2]
    rfl
  · exact isHex_of_mem_hex hc

/-! ### Separators -/

/-- **A text determines what stands before and behind its first separator.** -/
theorem append_cons_inj {α : Type*} {c : α} {a b as bs : List α} (ha : c ∉ a) (hb : c ∉ b)
    (h : a ++ c :: as = b ++ c :: bs) : a = b ∧ as = bs := by
  induction a generalizing b with
  | nil =>
    cases b with
    | nil => exact ⟨rfl, (List.cons.inj h).2⟩
    | cons x b => exact absurd ((List.cons.inj h).1 ▸ List.mem_cons_self) hb
  | cons x a ih =>
    cases b with
    | nil => exact absurd ((List.cons.inj h).1.symm ▸ List.mem_cons_self) ha
    | cons y b =>
      obtain ⟨rfl, htail⟩ := List.cons.inj h
      obtain ⟨rfl, hrest⟩ := ih (fun hc => ha (List.mem_cons_of_mem x hc))
        (fun hc => hb (List.mem_cons_of_mem x hc)) htail
      exact ⟨rfl, hrest⟩

/-- **Lines determine the text they are in**: each ends with its separator and has no
other. -/
theorem flatMap_lines_inj {α β : Type*} {f : α → List β} {c : β} (hf : ∀ a, c ∉ f a)
    (hinj : ∀ a b, f a = f b → a = b) {as bs : List α}
    (h : as.flatMap (fun a => f a ++ [c]) = bs.flatMap (fun a => f a ++ [c])) : as = bs := by
  induction as generalizing bs with
  | nil =>
    cases bs with
    | nil => rfl
    | cons b bs => simp at h
  | cons a as ih =>
    cases bs with
    | nil => simp at h
    | cons b bs =>
      simp only [List.flatMap_cons, List.append_assoc, List.cons_append, List.nil_append] at h
      obtain ⟨hline, hrest⟩ := append_cons_inj (hf a) (hf b) h
      rw [hinj a b hline, ih hrest]

end CText
