import PieceEmu.Core.StepCases
import PieceEmu.Lib.BitFields

/-!
# The EXT prefix

What the instruction set says of the prefix: the 13 bits of `ext imm13` extend the
immediate of the instruction that follows, two prefixes in a row extend it by 26 bits,
and of three or more the first and the last count. An `ExtPrefix` is what a row of
prefixes amounts to, and the operands are concatenations of its bits with those of the
instruction, extended to 32 bits:

| operand | no prefix | one | two |
|---|---|---|---|
| `immOperand`, `simmOperand` | `imm6` | `imm13 ++ imm6` | `imm13 ++ imm13' ++ imm6` |
| `rbOperand` | 0 | `imm13` | `imm13 ++ imm13'` |
| `pcrelOperand` | `sign8 ++ 0` | `imm13 ++ sign8 ++ 0` | `imm13[12:3] ++ imm13' ++ sign8 ++ 0` |

The combiners of the CPU compute them from the prefixes it has kept
(`ExtPrefix.extImm_eq` and its companions).
-/

/-! ### Rows of prefixes -/

/-- What a row of prefixes amounts to. -/
inductive ExtPrefix
  | none
  | one (e : BitVec 13)
  | two (e e' : BitVec 13)
  deriving DecidableEq

namespace ExtPrefix

/-- One more prefix: a third takes the place of the second. -/
def push (e : BitVec 13) : ExtPrefix → ExtPrefix
  | none => one e
  | one e₀ => two e₀ e
  | two e₀ _ => two e₀ e

/-- A row of prefixes. -/
def ofList (es : List (BitVec 13)) : ExtPrefix := es.foldl (fun p e => p.push e) none

theorem foldl_push_two (es : List (BitVec 13)) (e e' : BitVec 13) :
    es.foldl (fun p e => p.push e) (two e e') = two e (es.getLast?.getD e') := by
  induction es generalizing e' with
  | nil => rfl
  | cons e₁ es ih =>
    rw [List.foldl_cons]
    refine (ih e₁).trans ?_
    rw [List.getLast?_cons, Option.getD_some]

/-- **Of two or more prefixes the first and the last count.** -/
theorem ofList_first_last (e e' : BitVec 13) (es : List (BitVec 13)) :
    ofList (e :: es ++ [e']) = two e e' := by
  unfold ofList
  cases es with
  | nil => rfl
  | cons e₁ es =>
    refine (foldl_push_two (es ++ [e']) e e₁).trans ?_
    rw [List.getLast?_concat, Option.getD_some]

/-! ### Operands -/

/-- An immediate, extended with zeros. -/
def immOperand (imm6 : BitVec 6) : ExtPrefix → U32
  | none => imm6.setWidth 32
  | one e => (e ++ imm6).setWidth 32
  | two e e' => e ++ (e' ++ imm6)

/-- An immediate, extended with its sign. -/
def simmOperand (imm6 : BitVec 6) : ExtPrefix → U32
  | none => imm6.signExtend 32
  | one e => (e ++ imm6).signExtend 32
  | two e e' => e ++ (e' ++ imm6)

/-- The displacement of a register. -/
def rbOperand : ExtPrefix → U32
  | none => 0
  | one e => e.setWidth 32
  | two e e' => (e ++ e').setWidth 32

/-- The displacement of a branch, in bytes. -/
def pcrelOperand (sign8 : BitVec 8) : ExtPrefix → U32
  | none => (sign8 ++ 0#1).signExtend 32
  | one e => (e ++ sign8 ++ 0#1).signExtend 32
  | two e e' => e.extractLsb' 3 10 ++ (e' ++ sign8) ++ 0#1

/-- The prefixes that split a word, before its six low bits. -/
def ofWord (v : U32) : ExtPrefix := two (v.extractLsb' 19 13) (v.extractLsb' 6 13)

/-- A word is put together again from its three parts. -/
theorem append_extract (v : U32) :
    v.extractLsb' 19 13 ++ (v.extractLsb' 6 13 ++ v.extractLsb' 0 6) = v := by
  ext i hi
  simp only [BitVec.getElem_append, BitVec.getElem_extractLsb']
  split_ifs
  · rw [BitVec.getLsbD_eq_getElem (by omega)]
    congr 1
    omega
  · rw [BitVec.getLsbD_eq_getElem (by omega)]
    congr 1
    omega
  · rw [BitVec.getLsbD_eq_getElem (by omega)]
    congr 1
    omega

/-- **Splitting is exact**: the operand is the word that was split, whether its extension
is signed or not. -/
theorem immOperand_ofWord (v : U32) : immOperand (v.extractLsb' 0 6) (ofWord v) = v :=
  append_extract v

theorem simmOperand_ofWord (v : U32) : simmOperand (v.extractLsb' 0 6) (ofWord v) = v :=
  append_extract v

/-- **Every even displacement is reached**: its bits 31–22, 21–9 and 8–1 are those of two
prefixes and of the branch. -/
theorem pcrelOperand_two (d : U32) (hd : d.getLsbD 0 = false) :
    pcrelOperand (d.extractLsb' 1 8)
      (two (d.extractLsb' 22 10 ++ 0#3) (d.extractLsb' 9 13)) = d := by
  have hhigh : (d.extractLsb' 22 10 ++ 0#3).extractLsb' 3 10 = d.extractLsb' 22 10 := by
    ext i hi
    have h3 : ¬3 + i < 3 := by omega
    rw [BitVec.getElem_extractLsb', BitVec.getLsbD_append, BitVec.getElem_extractLsb']
    simp [h3, hi]
  refine (congrArg (· ++ (d.extractLsb' 9 13 ++ d.extractLsb' 1 8) ++ 0#1) hhigh).trans ?_
  change d.extractLsb' 22 10 ++ (d.extractLsb' 9 13 ++ d.extractLsb' 1 8) ++ 0#1 = d
  ext i hi
  simp only [BitVec.getElem_append, BitVec.getElem_extractLsb']
  split_ifs
  · cases i with
    | zero => simpa using hd.symm
    | succ i => omega
  · rw [BitVec.getLsbD_eq_getElem (by omega)]
    congr 1
    omega
  · rw [BitVec.getLsbD_eq_getElem (by omega)]
    congr 1
    omega
  · rw [BitVec.getLsbD_eq_getElem (by omega)]
    congr 1
    omega

/-! ### The combiners -/

/-- The prefixes a CPU has kept. -/
def PendingIn (s : CpuState) : ExtPrefix → Prop
  | none => s.pendingExtCount = 0
  | one e => s.pendingExtCount = 1 ∧ s.pendingExt0 = e.setWidth 32
  | two e e' =>
    s.pendingExtCount = 2 ∧ s.pendingExt0 = e.setWidth 32 ∧ s.pendingExt1 = e'.setWidth 32

open BitFields

variable {s : CpuState} {px : ExtPrefix}

theorem extImm_eq (h : PendingIn s px) (imm6 : BitVec 6) :
    s.extImm (imm6.setWidth 32) 6 = immOperand imm6 px := by
  unfold CpuState.extImm
  dsimp only
  rw [setWidth_and_mask imm6 (by decide : 6 < 32)]
  cases px with
  | none =>
    rw [show s.pendingExtCount = 0 from h]
    rfl
  | one e =>
    obtain ⟨hn, h0⟩ := h
    rw [hn, h0]
    exact shiftLeft_or_eq_append e imm6
  | two e e' =>
    obtain ⟨hn, h0, h1⟩ := h
    rw [hn, h0, h1]
    change e.setWidth 32 <<< 19 ||| e'.setWidth 32 <<< 6 ||| imm6.setWidth 32 = e ++ (e' ++ imm6)
    rw [BitVec.or_assoc, shiftLeft_or_eq_append, shiftLeft_or_eq_append]
    exact BitVec.setWidth_eq _

theorem extSimm_eq (h : PendingIn s px) (imm6 : BitVec 6) :
    s.extSimm (imm6.setWidth 32) 6 = simmOperand imm6 px := by
  unfold CpuState.extSimm
  dsimp only
  rw [setWidth_and_mask imm6 (by decide : 6 < 32)]
  cases px with
  | none =>
    rw [show s.pendingExtCount = 0 from h]
    exact xor_sub_sign imm6 (by decide) (by decide)
  | one e =>
    obtain ⟨hn, h0⟩ := h
    rw [hn, h0, shiftLeft_or_eq_append]
    exact xor_sub_sign (e ++ imm6) (by decide) (by decide)
  | two e e' =>
    obtain ⟨hn, h0, h1⟩ := h
    rw [hn, h0, h1, if_pos (by decide)]
    change ((e.setWidth 32).setWidth 64 <<< 19 ||| (e'.setWidth 32).setWidth 64 <<< 6 |||
      (imm6.setWidth 32).setWidth 64).setWidth 32 = e ++ (e' ++ imm6)
    rw [BitVec.setWidth_setWidth (by decide), BitVec.setWidth_setWidth (by decide),
      BitVec.setWidth_setWidth (by decide), BitVec.or_assoc, shiftLeft_or_eq_append,
      shiftLeft_or_eq_append, BitVec.setWidth_setWidth_of_le _ (by decide)]
    exact BitVec.setWidth_eq _

theorem extRb_eq (h : PendingIn s px) : s.extRb = rbOperand px := by
  unfold CpuState.extRb
  cases px with
  | none =>
    rw [show s.pendingExtCount = 0 from h]
    rfl
  | one e =>
    obtain ⟨hn, h0⟩ := h
    rw [hn, h0]
    rfl
  | two e e' =>
    obtain ⟨hn, h0, h1⟩ := h
    rw [hn, h0, h1]
    exact shiftLeft_or_eq_append e e'

/-- The sign of a displacement of 31 bits, set by hand. -/
theorem set_sign (y : BitVec 31) :
    (if (y.setWidth 32).getLsbD 30 then y.setWidth 32 ||| 0x80000000 else y.setWidth 32) =
      y.signExtend 32 := by
  have hbit : (y.setWidth 32).getLsbD 30 = y.msb := by
    rw [BitVec.getLsbD_setWidth, BitVec.msb_eq_getLsbD_last]
    rfl
  rw [hbit]
  cases hy : y.msb with
  | false => exact (BitVec.signExtend_eq_setWidth_of_msb_false hy).symm
  | true =>
    rw [if_pos rfl, show (0x80000000 : U32) = 1#32 <<< 31 from rfl]
    ext i hi
    rw [BitVec.getElem_or, BitVec.getElem_setWidth, BitVec.getElem_signExtend, hy,
      ← BitVec.getLsbD_eq_getElem (x := 1#32 <<< 31), getLsbD_one_shiftLeft i (by decide)]
    by_cases h : i < 31
    · simp [h, h.ne]
    · have h31 : i = 31 := by omega
      simp [h31]

/-- Twice the combined displacement is the displacement in bytes. -/
theorem two_mul_extPcrel (h : PendingIn s px) (sign8 : BitVec 8) :
    2 * s.extPcrel (sign8.setWidth 32) = pcrelOperand sign8 px := by
  unfold CpuState.extPcrel
  dsimp only
  rw [show (0xFF : U32) = 1#32 <<< 8 - 1 from rfl,
    setWidth_and_mask sign8 (by decide : 8 < 32)]
  cases px with
  | none =>
    rw [show s.pendingExtCount = 0 from h]
    refine (congrArg (2 * ·) (xor_sub_sign sign8 (by decide) (by decide))).trans ?_
    exact two_mul_signExtend sign8 (by decide)
  | one e =>
    obtain ⟨hn, h0⟩ := h
    rw [hn, h0, shiftLeft_or_eq_append]
    refine (congrArg (2 * ·) (xor_sub_sign (e ++ sign8) (by decide) (by decide))).trans ?_
    exact two_mul_signExtend (e ++ sign8) (by decide)
  | two e e' =>
    obtain ⟨hn, h0, h1⟩ := h
    have hhigh : e.setWidth 32 >>> 3 = (e.extractLsb' 3 10).setWidth 32 := by
      ext i hi
      rw [BitVec.getElem_ushiftRight, BitVec.getLsbD_setWidth, BitVec.getElem_setWidth,
        BitVec.getLsbD_extractLsb']
      by_cases h : i < 10
      · have h' : 3 + i < 32 := by omega
        simp [h, h']
      · have h' : e.getLsbD (3 + i) = false := BitVec.getLsbD_of_ge e _ (by omega)
        simp [h, h']
    have hraw : sign8.setWidth 32 ||| e'.setWidth 32 <<< 8 ||| (e.setWidth 32 >>> 3) <<< 21 =
        (e.extractLsb' 3 10 ++ (e' ++ sign8)).setWidth 32 := by
      rw [BitVec.or_comm (sign8.setWidth 32), shiftLeft_or_eq_append, hhigh, BitVec.or_comm,
        shiftLeft_or_eq_append]
    rw [hn, h0, h1, show ((0xFF : ℕ) : U32) = 1#32 <<< 8 - 1 from rfl,
      setWidth_and_mask sign8 (by decide), hraw, set_sign]
    exact (two_mul_signExtend (e.extractLsb' 3 10 ++ (e' ++ sign8)) (by decide)).trans
      (BitVec.signExtend_eq _)

end ExtPrefix
