import PieceEmu.Lib.Decimal

/-!
# The assembly language of the listings

A line (`Asm`) is a name, which for a delayed branch has the mark `.d`, a tab, and operands
with commas between them. There are six kinds of operands, and the text of one (`Operand.text`)
shows the kind (`Operand.kindOf_text`) and with it everything else (`Operand.text_inj`). Since
no operand has a comma or a blank in it, a line is determined by its text too
(`Asm.text_inj`), up to how the mark `.d` is told from the end of a name, which depends on the
names.
-/

open CText

/-! ### Operands -/

/-- An operand. -/
inductive Operand
  | reg (r : BitVec 4)
  /-- `%psr`, `%sp`, `%alr` or `%ahr`. -/
  | special (k : BitVec 2)
  /-- `[%r]`, or `[%r]+`. -/
  | mem (r : BitVec 4) (inc : Bool)
  /-- `[%sp+off]`. -/
  | sp (off : ℤ)
  | imm (n : ℤ)
  | target (a : U32)

namespace Operand

/-- The kinds of operands. -/
inductive Kind
  | reg | special | mem (inc : Bool) | sp | imm | target
  deriving DecidableEq

/-- The kind of an operand. -/
def kind : Operand → Kind
  | reg _ => .reg
  | special _ => .special
  | mem _ inc => .mem inc
  | sp _ => .sp
  | imm _ => .imm
  | target _ => .target

/-- The name of a special register. -/
def specialName (k : BitVec 2) : List U8 := str (["%psr", "%sp", "%alr", "%ahr"].getD k.toNat "")

/-- The text of an operand. -/
def text : Operand → List U8
  | reg r => str "%r" ++ dec r.toNat
  | special k => specialName k
  | mem r inc => str "[%r" ++ (dec r.toNat ++ ch ']' :: if inc then str "+" else [])
  | sp off => str "[%sp+" ++ (decInt off ++ ch ']' :: [])
  | imm n => decInt n
  | target a => str "0x" ++ hexPadded 6 a.toNat

/-- The kind of operand that a text is of. -/
def kindOf (t : List U8) : Kind :=
  if (str "%r").isPrefixOf t then .reg
  else if (str "%").isPrefixOf t then .special
  else if (str "[%r").isPrefixOf t then .mem (t.any (· = ch '+'))
  else if (str "[").isPrefixOf t then .sp
  else if t.any (· = ch 'x') then .target
  else .imm

/-- What may stand in the text of an operand, or of a name. -/
def plain (c : U8) : Bool := c ≠ ch ',' && c ≠ ch ' ' && c ≠ ch '\t' && c ≠ ch '?'

theorem plain_of_isDigit {c : U8} (h : isDigit c = true) : plain c = true := by
  revert c
  decide +kernel

theorem plain_of_isHex {c : U8} (h : isHex c = true) : plain c = true := by
  revert c
  decide +kernel

theorem plain_of_mem_dec {n : ℕ} {c : U8} (h : c ∈ dec n) : plain c = true :=
  plain_of_isDigit (isDigit_of_mem_dec h)

theorem plain_of_mem_decInt {n : ℤ} {c : U8} (h : c ∈ decInt n) : plain c = true := by
  rcases mem_decInt h with h | rfl
  · exact plain_of_isDigit h
  · rfl

/-- The operands have no separators in them. -/
theorem plain_of_mem_text {o : Operand} {c : U8} (h : c ∈ o.text) : plain c = true := by
  have hstr {s : String} (hs : ∀ c ∈ str s, plain c = true) (hc : c ∈ str s) : plain c = true :=
    hs c hc
  cases o with
  | reg r =>
    rcases List.mem_append.mp h with h | h
    · exact hstr (by decide +kernel) h
    · exact plain_of_mem_dec h
  | special k =>
    have hall : ∀ k : BitVec 2, ∀ c ∈ specialName k, plain c = true := by decide +kernel
    exact hall k c h
  | mem r inc =>
    rcases List.mem_append.mp h with h | h
    · exact hstr (by decide +kernel) h
    · rcases List.mem_append.mp h with h | h
      · exact plain_of_mem_dec h
      · rcases List.mem_cons.mp h with rfl | h
        · rfl
        · cases inc with
          | false => exact absurd h List.not_mem_nil
          | true => exact hstr (by decide +kernel) h
  | sp off =>
    rcases List.mem_append.mp h with h | h
    · exact hstr (by decide +kernel) h
    · rcases List.mem_append.mp h with h | h
      · exact plain_of_mem_decInt h
      · rw [List.mem_singleton.mp h]
        rfl
  | imm n => exact plain_of_mem_decInt h
  | target a =>
    rcases List.mem_append.mp h with h | h
    · exact hstr (by decide +kernel) h
    · exact plain_of_isHex (isHex_of_mem_hexPadded h)

/-- What a number starts with. -/
theorem decInt_eq_cons (n : ℤ) :
    ∃ c t, decInt n = c :: t ∧ c ≠ ch '%' ∧ c ≠ ch '[' ∧ ch 'x' ∉ c :: t := by
  have hdigit : ∀ c : U8, isDigit c = true ∨ c = ch '-' → c ≠ ch '%' ∧ c ≠ ch '[' ∧ c ≠ ch 'x' := by
    decide +kernel
  cases hn : decInt n with
  | nil =>
    rw [decInt] at hn
    split_ifs at hn
    exact absurd (List.map_eq_nil_iff.mp hn) Nat.toDigits_ne_nil
  | cons c t =>
    have hmem (d : U8) (hd : d ∈ c :: t) := hdigit d (mem_decInt (hn ▸ hd))
    exact ⟨c, t, rfl, (hmem c List.mem_cons_self).1, (hmem c List.mem_cons_self).2.1,
      fun hx => (hmem _ hx).2.2 rfl⟩

/-- **The kind of an operand is seen in its text.** -/
theorem kindOf_text (o : Operand) : kindOf o.text = o.kind := by
  cases o with
  | reg r => rfl
  | special k =>
    revert k
    decide +kernel
  | mem r inc =>
    have hplus : ch '+' ∈ (mem r inc).text ↔ inc = true := by
      have hno : ch '+' ∉ dec r.toNat := not_mem_dec (by decide) _
      have hstr : ch '+' ∉ str "[%r" := by decide
      cases inc with
      | false => simpa [text, hno, hstr] using (by decide : ch '+' ≠ ch ']')
      | true => simp [text, str]
    have hany : ((mem r inc).text.any (· = ch '+')) = inc := by
      rw [Bool.eq_iff_iff, ← hplus]
      simp
    exact congrArg Kind.mem hany
  | sp off => rfl
  | imm n =>
    obtain ⟨c, t, hn, hpercent, hbracket, hx⟩ := decInt_eq_cons n
    have hany : ¬(c :: t).any (· = ch 'x') = true := by
      rw [List.any_eq_true]
      rintro ⟨d, hd, hdx⟩
      exact hx (of_decide_eq_true hdx ▸ hd)
    rw [text, hn, kindOf, if_neg, if_neg, if_neg, if_neg, if_neg hany, kind]
    all_goals
      simp [str, hpercent.symm, hbracket.symm]
  | target a =>
    rw [text, kindOf, if_neg, if_neg, if_neg, if_neg, if_pos, kind]
    all_goals simp [str, ch]

/-- **An operand is determined by its text.** -/
theorem text_inj {a b : Operand} (h : a.text = b.text) : a = b := by
  have hkind : a.kind = b.kind := by rw [← kindOf_text, h, kindOf_text]
  cases a <;> cases b <;> simp only [kind, reduceCtorEq] at hkind
  case reg.reg r r' =>
    rw [BitVec.eq_of_toNat_eq (dec_inj (List.append_cancel_left h))]
  case special.special k k' =>
    have hall : ∀ k k' : BitVec 2, specialName k = specialName k' → k = k' := by decide +kernel
    rw [hall k k' h]
  case mem.mem r inc r' inc' =>
    have hno (n : ℕ) : ch ']' ∉ dec n := not_mem_dec (by decide) n
    obtain ⟨hr, hinc⟩ := append_cons_inj (hno _) (hno _) (List.append_cancel_left h)
    rw [BitVec.eq_of_toNat_eq (dec_inj hr)]
    cases inc <;> cases inc' <;> first | rfl | exact absurd hinc (by decide)
  case sp.sp off off' =>
    have hno (n : ℤ) : ch ']' ∉ decInt n := not_mem_decInt (by decide) (by decide) n
    rw [decInt_inj (append_cons_inj (hno _) (hno _) (List.append_cancel_left h)).1]
  case imm.imm n n' => rw [decInt_inj h]
  case target.target a a' =>
    rw [BitVec.eq_of_toNat_eq (hexPadded_inj (List.append_cancel_left h))]

end Operand

/-! ### Lines -/

/-- A line of assembly language. -/
structure Asm where
  name : String
  /-- A delayed branch. -/
  delayed : Bool
  operands : List Operand

namespace Asm

/-- The name, with the mark of a delayed branch. -/
def head (a : Asm) : List U8 := str a.name ++ if a.delayed then str ".d" else []

/-- The operands, separated. -/
def operandsText : List Operand → List U8
  | [] => []
  | o :: os => ch '\t' :: (o.text ++ os.flatMap fun o => ch ',' :: ch ' ' :: o.text)

/-- The text of a line. -/
def text (a : Asm) : List U8 := a.head ++ operandsText a.operands

/-- The operands with a separator behind each. -/
theorem operandsText_append (o : Operand) (os : List Operand) :
    o.text ++ os.flatMap (fun o => ch ',' :: ch ' ' :: o.text) ++ [ch ',', ch ' '] =
      (o :: os).flatMap fun o => (o.text ++ [ch ',']) ++ [ch ' '] := by
  induction os generalizing o with
  | nil => simp
  | cons o' os ih => simpa using ih o'

theorem operandsText_inj {os os' : List Operand} (h : operandsText os = operandsText os') :
    os = os' := by
  cases os with
  | nil =>
    cases os' with
    | nil => rfl
    | cons o' os' => exact absurd h.symm (List.cons_ne_nil _ _)
  | cons o os =>
    cases os' with
    | nil => exact absurd h (List.cons_ne_nil _ _)
    | cons o' os' =>
      refine flatMap_lines_inj (fun o hc => ?_) (fun a b hab => ?_)
        (((operandsText_append o os).symm.trans ?_).trans (operandsText_append o' os'))
      · rcases List.mem_append.mp hc with hc | hc
        · have := Operand.plain_of_mem_text hc
          revert this
          decide
        · revert hc
          decide
      · exact Operand.text_inj (List.append_cancel_right hab)
      · rw [(List.cons.inj h).2]

/-- **A line is determined by its text**: the name is what stands before the tab. -/
theorem text_inj {a b : Asm} (ha : ch '\t' ∉ a.head) (hb : ch '\t' ∉ b.head)
    (h : a.text = b.text) : a.head = b.head ∧ a.operands = b.operands := by
  obtain ⟨name, d, os⟩ := a
  obtain ⟨name', d', os'⟩ := b
  cases os with
  | nil =>
    cases os' with
    | nil => exact ⟨List.append_cancel_right h, rfl⟩
    | cons o' os' =>
      refine absurd ?_ ha
      rw [show head ⟨name, d, []⟩ = text ⟨name, d, []⟩ from (List.append_nil _).symm, h]
      exact List.mem_append_right _ List.mem_cons_self
  | cons o os =>
    cases os' with
    | nil =>
      refine absurd ?_ hb
      rw [show head ⟨name', d', []⟩ = text ⟨name', d', []⟩ from (List.append_nil _).symm, ← h]
      exact List.mem_append_right _ List.mem_cons_self
    | cons o' os' =>
      obtain ⟨hhead, htail⟩ := append_cons_inj ha hb h
      exact ⟨hhead, operandsText_inj (congrArg (ch '\t' :: ·) htail)⟩

/-- A line of names and operands has no mark on it. -/
theorem mark_not_mem {a : Asm} (hhead : ∀ c ∈ a.head, Operand.plain c = true) :
    ch '?' ∉ a.text := by
  intro hmem
  have hplain : Operand.plain (ch '?') = false := rfl
  rcases List.mem_append.mp hmem with hmem | hmem
  · exact absurd (hhead _ hmem) (by rw [hplain]; decide)
  · cases hops : a.operands with
    | nil =>
      rw [hops] at hmem
      exact absurd hmem List.not_mem_nil
    | cons o os =>
      rw [hops, operandsText, List.mem_cons, List.mem_append, List.mem_flatMap] at hmem
      rcases hmem with hmem | hmem | ⟨o', -, hmem⟩
      · exact absurd hmem (by decide)
      · exact absurd (Operand.plain_of_mem_text hmem) (by rw [hplain]; decide)
      · rcases List.mem_cons.mp hmem with hmem | hmem
        · exact absurd hmem (by decide)
        · rcases List.mem_cons.mp hmem with hmem | hmem
          · exact absurd hmem (by decide)
          · exact absurd (Operand.plain_of_mem_text hmem) (by rw [hplain]; decide)

end Asm
