import Mathlib.Algebra.BigOperators.Intervals
import PieceEmu.Core.Flags
import PieceEmu.Core.MacProbe

/-!
# The sum of products

`mac` on operand arrays that can be read without side effect: each pointer is even, and
its `count` halfwords are all in installed SRAM or all in open bus above the flash
(`MacLayout.Operand`). What it has to compute there is `MacExact`, stated on the integers:

| part | value after `mac` |
|---|---|
| accumulator | the old one plus the sum of the signed products, modulo `2^64` |
| `MO` | set if it was, or if one of the prefix sums leaves the signed 64-bit range |
| count | 0 |
| pointers | advanced by twice the count |
| everything else | unchanged, but for the cycle counter and the pending `ext` |

The slow loop does this (`Machine.macSlow_exact`). The two shortcuts do it on sound
layouts only (`MacLayout.macExact_iff`): fast path B writes the pointers back as
`SRAM_BASE` plus an offset, and so drops the upper four bits that the slow loop and fast
path A keep (`MacLayout.mirrored_not_exact`).
-/

/-! ### Accumulating signed numbers -/

/-- A number a signed 64-bit word can hold. -/
def Fits64 (x : ℤ) : Prop := -2 ^ 63 ≤ x ∧ x < 2 ^ 63

instance (x : ℤ) : Decidable (Fits64 x) := inferInstanceAs (Decidable (_ ∧ _))

namespace Machine

/-- **The overflow check** is that of the signed sum. -/
theorem macOverflow_iff_not_fits (u x : U64) :
    macOverflow u x = true ↔ ¬Fits64 (u.toInt + x.toInt) := by
  have hsadd : macOverflow u x = u.saddOverflow x := by
    rw [BitVec.saddOverflow_eq, macOverflow, BitVec.msb_and, BitVec.msb_not, BitVec.msb_xor,
      BitVec.msb_xor]
    cases u.msb <;> cases x.msb <;> cases (u + x).msb <;> rfl
  rw [hsadd, BitVec.saddOverflow, Fits64]
  simp only [ge_iff_le, Bool.or_eq_true, decide_eq_true_eq]
  omega

theorem mo_macFlag (p : Psr) (u x : U64) :
    (macFlag p u x).mo = true ↔ p.mo = true ∨ macOverflow u x = true := by
  unfold macFlag
  cases hm : p.mo <;> cases macOverflow u x <;> simp [hm]

/-- Setting `MO` twice is setting it once. -/
theorem setMo_setMo (p : Psr) (v w : Bool) : (p.setMo v).setMo w = p.setMo w := by
  have hbit : ((BitVec.ofBool v).setWidth 32 <<< 7) &&& ~~~(1#32 <<< 7) = 0#32 := by
    cases v <;> decide
  have hraw : ((p.raw &&& ~~~(1#32 <<< 7)) ||| ((BitVec.ofBool v).setWidth 32 <<< 7)) &&&
      ~~~(1#32 <<< 7) = p.raw &&& ~~~(1#32 <<< 7) := by
    rw [BitVec.and_or_distrib_right, hbit, BitVec.or_zero, BitVec.and_assoc, BitVec.and_self]
  exact congrArg (fun raw => Psr.mk (raw ||| ((BitVec.ofBool w).setWidth 32 <<< 7))) hraw

/-- Of the status register, the check touches `MO` only. -/
theorem setMo_macFlag (p : Psr) (u x : U64) :
    (macFlag p u x).setMo false = p.setMo false := by
  unfold macFlag
  split_ifs
  · exact setMo_setMo p true false
  · rfl

/-- **Accumulating a sequence**: the accumulator is the sum, and the flag is set by the
prefixes that overflow. -/
theorem foldl_macAccumulate (f : ℕ → ℤ) (hf : ∀ j, Fits64 (f j)) (p : Psr) (u : U64) (n : ℕ) :
    let s := ((List.range n).map fun j => BitVec.ofInt 64 (f j)).foldl macAccumulate (p, u)
    let part (k : ℕ) := u + BitVec.ofInt 64 (∑ j ∈ Finset.range k, f j)
    s.2 = part n ∧
      (s.1.mo = true ↔ p.mo = true ∨ ∃ k < n, ¬Fits64 ((part k).toInt + f k)) ∧
      s.1.setMo false = p.setMo false := by
  induction n with
  | zero =>
    refine ⟨?_, ?_, rfl⟩
    · exact (BitVec.add_zero u).symm
    · exact ⟨.inl, fun h => h.elim id fun ⟨k, hk, _⟩ => absurd hk (Nat.not_lt_zero k)⟩
  | succ n ih =>
    obtain ⟨hacc, hmo, hrest⟩ := ih
    have hterm : (BitVec.ofInt 64 (f n)).toInt = f n :=
      BitVec.toInt_ofInt_eq_self (by decide) (hf n).1 (hf n).2
    simp only [List.range_succ, List.map_append, List.foldl_append, List.map_cons, List.map_nil,
      List.foldl_cons, List.foldl_nil, macAccumulate]
    refine ⟨?_, ?_, (setMo_macFlag _ _ _).trans hrest⟩
    · rw [hacc, Finset.sum_range_succ, BitVec.ofInt_add, BitVec.add_assoc]
    · -- the last prefix is the accumulator the last product was added to
      rw [mo_macFlag, hmo, macOverflow_iff_not_fits, hacc, hterm, or_assoc]
      refine or_congr_right ⟨?_, ?_⟩
      · rintro (⟨k, hk, h⟩ | h)
        · exact ⟨k, Nat.lt_succ_of_lt hk, h⟩
        · exact ⟨n, Nat.lt_succ_self n, h⟩
      · rintro ⟨k, hk, h⟩
        rcases Nat.lt_succ_iff_lt_or_eq.mp hk with hk | rfl
        · exact .inl ⟨k, hk, h⟩
        · exact .inr h

/-- The product of two halfwords is the integer product. -/
theorem macProduct_eq (v w : U16) : macProduct v w = BitVec.ofInt 64 (v.toInt * w.toInt) := by
  rw [macProduct, BitVec.signExtend, BitVec.signExtend, BitVec.ofInt_mul]

theorem fits_mul (v w : U16) : Fits64 (v.toInt * w.toInt) := by
  have hbound (v : U16) : v.toInt.natAbs ≤ 2 ^ 15 := by
    have hlt := v.toInt_lt
    have hle := v.le_toInt
    omega
  have hmul : (v.toInt * w.toInt).natAbs ≤ 2 ^ 15 * 2 ^ 15 :=
    (Int.natAbs_mul _ _).trans_le (Nat.mul_le_mul (hbound v) (hbound w))
  constructor <;> omega

end Machine

/-! ### Operands that are read without side effect -/

namespace MacLayout

variable (L : MacLayout) (rsN : BitVec 4)

/-- The `count` halfwords of an array are all in installed SRAM. -/
def InSram (p : U32) : Prop :=
  ∀ j < (L.r rsN).toNat, Bus.regionOf L.flashSize (macOperand p j) = .sram ∧
    (Bus.mask28 (macOperand p j) - Bus.sramBase).toNat + 1 < L.sramSize

/-- The `count` halfwords of an array are all above the flash, without a wrap of the
28-bit address. -/
def AboveFlash (p : U32) : Prop :=
  Bus.flashBase.toNat + L.flashSize ≤ (Bus.mask28 p).toNat ∧
    (Bus.mask28 p).toNat + 2 * (L.r rsN).toNat ≤ 2 ^ 28

/-- An even pointer to `count` halfwords of installed SRAM, or of open bus. -/
def Operand (p : U32) : Prop := p &&& 1 = 0 ∧ (L.InSram rsN p ∨ L.AboveFlash rsN p)

variable {L} {rsN}

/-- An array above the flash is open bus. -/
theorem AboveFlash.regionOf {p : U32} (h : L.AboveFlash rsN p) {j : ℕ}
    (hj : j < (L.r rsN).toNat) : Bus.regionOf L.flashSize (macOperand p j) = .none := by
  obtain ⟨hlo, hhi⟩ := h
  have hlo' : 0xC00000 + L.flashSize ≤ (Bus.mask28 p).toNat := hlo
  -- without a wrap, the masked address advances as the pointer does
  have hm : (Bus.mask28 (macOperand p j)).toNat = (Bus.mask28 p).toNat + 2 * j := by
    rw [Bus.toNat_mask28] at hhi hlo' ⊢
    rw [Bus.toNat_mask28, macOperand, BitVec.toNat_add, BitVec.toNat_ofNat]
    omega
  refine Bus.regionOf_eq_none ?_ fun hf => ?_
  · change 0xC00000 ≤ (Bus.mask28 (macOperand p j)).toNat
    omega
  · have hlt : (Bus.mask28 (macOperand p j)).toNat < 0xC00000 + L.flashSize :=
      (Bus.regionOf_eq_flash_iff.mp hf).2
    omega

/-- An operand is in installed SRAM, or open bus. -/
theorem Operand.region {p : U32} (h : L.Operand rsN p) {j : ℕ} (hj : j < (L.r rsN).toNat) :
    Bus.regionOf L.flashSize (macOperand p j) = .sram ∧
        (Bus.mask28 (macOperand p j) - Bus.sramBase).toNat < L.sramSize ∨
      Bus.regionOf L.flashSize (macOperand p j) = .none := by
  rcases h.2 with h | h
  · exact .inl ⟨(h j hj).1, Nat.lt_of_succ_lt (h j hj).2⟩
  · exact .inr (h.regionOf hj)

end MacLayout

namespace Bus

variable {D : Type} (io : IoSpace D) (b : Bus D)

/-- The halfword at an even address of SRAM or open bus. -/
def operandHalf (a : U32) : U16 :=
  match regionOf b.flash.size a with
  | .sram => Words.le16 b.sram (mask28 a - sramBase).toNat
  | _ => 0xFFFF

/-- What reading it costs. -/
def operandCost (a : U32) : ℤ :=
  match regionOf b.flash.size a with
  | .sram => b.extReadCycles b.sramWait
  | _ => 0

/-- **Reading an operand**: its halfword, and a charge to the cycle counter. -/
theorem read16_operand (hw : b.watchpoints = []) {a : U32} (he : a &&& 1 = 0)
    (h : regionOf b.flash.size a = .sram ∧ (mask28 a - sramBase).toNat < b.sramSize ∨
      regionOf b.flash.size a = .none) :
    b.read16 io a = (b.operandHalf a, b.charge (b.operandCost a)) := by
  rw [read16_even_unwatched io b hw he, classify, operandHalf, operandCost]
  rcases h with ⟨hr, hlt⟩ | hr
  · rw [hr]
    exact Prod.ext (if_neg (Nat.not_le.mpr hlt)) rfl
  · rw [hr]
    exact Prod.ext rfl (charge_zero b).symm

end Bus

/-! ### What `mac` has to compute -/

namespace Machine

variable {D : Type} (io : IoSpace D) (m : Machine D) (rsN : BitVec 4)

/-- The `j`-th product, of two signed halfwords. -/
def macTerm (j : ℕ) : ℤ :=
  (m.bus.operandHalf (macOperand (m.cpu.r (rsN + 1)) j)).toInt *
    (m.bus.operandHalf (macOperand (m.cpu.r (rsN + 2)) j)).toInt

/-- The accumulator after `k` products. -/
def macPartial (k : ℕ) : U64 := m.acc + BitVec.ofInt 64 (∑ j ∈ Finset.range k, m.macTerm rsN j)

end Machine

/-- **The sum of products**: `m'` is `m` after a `mac` that adds up the products of its
two operand arrays. -/
structure MacExact {D : Type} (m m' : Machine D) (rsN : BitVec 4) : Prop where
  acc : m'.acc = m.macPartial rsN (m.cpu.r rsN).toNat
  /-- `MO` is sticky, and judged on every prefix. -/
  mo : m'.cpu.psr.mo = true ↔ m.cpu.psr.mo = true ∨
    ∃ k < (m.cpu.r rsN).toNat, ¬Fits64 ((m.macPartial rsN k).toInt + m.macTerm rsN k)
  count : m'.cpu.r rsN = 0
  first : m'.cpu.r (rsN + 1) = m.cpu.r (rsN + 1) + 2 * m.cpu.r rsN
  second : m'.cpu.r (rsN + 2) = m.cpu.r (rsN + 2) + 2 * m.cpu.r rsN
  others : ∀ n, n ≠ rsN → n ≠ rsN + 1 → n ≠ rsN + 2 → m'.cpu.r n = m.cpu.r n
  /-- The status register keeps its other bits. -/
  psr : m'.cpu.psr.setMo false = m.cpu.psr.setMo false
  cpu : m'.cpu = { m.cpu with
    r := m'.cpu.r, psr := m'.cpu.psr, alr := m'.cpu.alr, ahr := m'.cpu.ahr, pendingExtCount := 0 }
  /-- No byte of memory changes, and no device is reached. -/
  bus : ∃ c, m'.bus = m.bus.charge c

namespace Machine

variable {D : Type} (io : IoSpace D) {m : Machine D} {rsN : BitVec 4}

/-- **The slow loop computes the sum of products.** -/
theorem macSlow_exact (hw : m.bus.watchpoints = [])
    (h1 : m.macLayout.Operand rsN (m.cpu.r (rsN + 1)))
    (h2 : m.macLayout.Operand rsN (m.cpu.r (rsN + 2))) :
    MacExact m (m.flushExt.macSlow io rsN) rsN := by
  have hop {p : U32} (hp : p = m.cpu.r (rsN + 1) ∨ p = m.cpu.r (rsN + 2)) :
      m.macLayout.Operand rsN p := hp.elim (· ▸ h1) (· ▸ h2)
  have hreads (n : ℤ) (j : ℕ) (hj : j < (m.cpu.r rsN).toNat) (p : U32)
      (hp : p = m.cpu.r (rsN + 1) ∨ p = m.cpu.r (rsN + 2)) :=
    Bus.read16_operand io (m.bus.charge n) hw (macOperand_even (hop hp).1 j) ((hop hp).region hj)
  have hwalk := Bus.macWalk_eq io m.bus.operandHalf m.bus.operandCost hreads
  simp only [macProduct_eq] at hwalk
  obtain ⟨hacc, hmo, hpsr⟩ := foldl_macAccumulate (m.macTerm rsN) (fun j => fits_mul _ _)
    m.cpu.psr m.acc (m.cpu.r rsN).toNat
  have htwo : BitVec.ofNat 32 (2 * (m.cpu.r rsN).toNat) = 2 * m.cpu.r rsN := by
    rw [BitVec.ofNat_mul, BitVec.ofNat_toNat, BitVec.setWidth_eq]
    rfl
  have hslow := macSlow_eq io m.flushExt rsN
  have hr : (m.flushExt.macSlow io rsN).cpu.r = macAdvance rsN m.cpu.r (m.cpu.r rsN).toNat :=
    macSlow_r io m.flushExt rsN
  constructor
  · rw [hslow]
    dsimp only
    rw [acc_setAcc]
    exact (congrArg (fun w : List U64 × Bus D => (w.1.foldl macAccumulate _).2) hwalk).trans hacc
  · rw [hslow]
    exact (congrArg (fun w : List U64 × Bus D =>
      (w.1.foldl macAccumulate (m.cpu.psr, m.acc)).1.mo = true) hwalk).to_iff.trans hmo
  · rw [hr, macAdvance_rsN, BitVec.ofNat_toNat, BitVec.setWidth_eq, BitVec.sub_self]
    rfl
  · rw [hr, macAdvance_add_one, htwo]
  · rw [hr, macAdvance_add_two, htwo]
  · intro n h0 h1 h2
    rw [hr, macAdvance_of_ne _ _ h0 h1 h2]
  · rw [hslow]
    exact (congrArg (fun w : List U64 × Bus D =>
      (w.1.foldl macAccumulate (m.cpu.psr, m.acc)).1.setMo false) hwalk).trans hpsr
  · rw [hslow]
    rfl
  · exact ⟨_, (congrArg Machine.bus hslow).trans (congrArg Prod.snd hwalk)⟩

end Machine

namespace MacExact

variable {D : Type} {m m' m'' : Machine D} {rsN : BitVec 4}

/-- What `mac` has to compute is one accumulator. -/
theorem acc_eq (h : MacExact m m' rsN) (h' : MacExact m m'' rsN) : m'.acc = m''.acc :=
  h.acc.trans h'.acc.symm

/-- What `mac` has to compute is one register file. -/
theorem r_eq (h : MacExact m m' rsN) (h' : MacExact m m'' rsN) : m'.cpu.r = m''.cpu.r :=
  Machine.macRegs_ext rsN (h.count.trans h'.count.symm) (h.first.trans h'.first.symm)
    (h.second.trans h'.second.symm)
    fun n h0 h1 h2 => (h.others n h0 h1 h2).trans (h'.others n h0 h1 h2).symm

end MacExact

/-! ### The exact condition -/

namespace MacLayout

open Machine

variable {L : MacLayout} {insn : Insn}

/-- On the open-bus path, the sum of the probe leaves no operand in SRAM. -/
theorem openRun_of_sum (hsum : (L.probeProducts insn.rs 0 0).sum =
    BitVec.ofNat 64 (L.r insn.rs).toNat * 1) {p : U32}
    (hp : p = L.r (insn.rs + 1) ∨ p = L.r (insn.rs + 2)) (hop : L.Operand insn.rs p) :
    L.OpenRun insn.rs p := by
  refine ⟨hop.1, fun j hj => ?_⟩
  have hval := probeValue_eq_of_sum hsum hj
  have hval : L.probeValue 0 0 (macOperand p j) = 0xFFFF := hp.elim (· ▸ hval.1) (· ▸ hval.2)
  rcases hop.region hj with ⟨hr, hlt⟩ | hr
  · rw [probeValue, hr] at hval
    dsimp only at hval
    rw [if_neg (Nat.not_le.mpr hlt)] at hval
    exact absurd hval (by decide)
  · exact hr

variable (L) (insn)

/-- **The exact condition**: for even pointers to arrays in installed SRAM or in open bus,
`mac` computes the sum of products for every content of the machine if and only if the
layout is sound. -/
theorem macExact_iff (h1 : L.Operand insn.rs (L.r (insn.rs + 1)))
    (h2 : L.Operand insn.rs (L.r (insn.rs + 2))) :
    (∀ (D : Type) (io : IoSpace D) (m : Machine D), m.macLayout = L → m.bus.watchpoints = [] →
      MacExact m (m.hMac io insn) insn.rs) ↔ L.Sound insn.rs := by
  constructor
  · intro h
    -- the probe is a machine of the layout, and the slow loop is exact on it
    have hprobe (x y : U16) : MacExact (L.probe x y)
        ((L.probe x y).flushExt.macSlow (IoSpace.constant y) insn.rs) insn.rs :=
      macSlow_exact (m := L.probe x y) _ rfl h1 h2
    have hmac (x y : U16) := h Unit (IoSpace.constant y) (L.probe x y) rfl rfl
    unfold Sound
    split_ifs with hc hA hB
    · have hacc := (hmac 0 0).acc_eq (hprobe 0 0)
      rw [hMac_of_takesOpenBus (m := L.probe 0 0) _ rfl hc hA] at hacc
      have hacc : ((L.probe 0 0).macOpenBus insn.rs).acc =
        ((L.probe 0 0).macSlow (IoSpace.constant 0) insn.rs).acc := hacc
      have hsum : (L.probeProducts insn.rs 0 0).sum =
          BitVec.ofNat 64 (L.r insn.rs).toNat * 1 := by
        rw [← acc_macSlow_probe 0 0 h1.1 h2.1, ← hacc, acc_macOpenBus, acc_probe, BitVec.zero_add,
          BitVec.ofNat_toNat]
        exact (BitVec.mul_one _).symm
      exact ⟨openRun_of_sum hsum (.inl rfl) h1, openRun_of_sum hsum (.inr rfl) h2⟩
    · have hacc := (hmac 2 0xFFFF).acc_eq (hprobe 2 0xFFFF)
      have hr := (hmac 2 0xFFFF).r_eq (hprobe 2 0xFFFF)
      rw [hMac_of_takesSram (m := L.probe 2 0xFFFF) _ rfl hc hA hB] at hacc hr
      exact sramRun_of_acc_r hc hB h1.1 h2.1 hacc hr
  · rintro hs D io m rfl hw
    rw [hMac_eq_macSlow io hw hs]
    exact macSlow_exact io hw h1 h2

/-- A count of 1 in `%r0`, and pointers to the start of SRAM under the address tag 1 in
`%r1` and `%r2`. -/
def mirroredPointers : MacLayout :=
  ⟨fun n => if n = 0 then 1 else 0x10100000, 0x40000, 0x80000⟩

theorem mirroredPointers_operand : mirroredPointers.Operand 0 0x10100000 := by
  refine ⟨by decide, .inl fun j hj => ?_⟩
  obtain rfl : j = 0 := Nat.lt_one_iff.mp hj
  decide

/-- Mirrored pointers are even pointers into installed SRAM, and their layout is not
sound. -/
theorem macExact_iff_mirroredPointers :
    (∀ (D : Type) (io : IoSpace D) (m : Machine D), m.macLayout = mirroredPointers →
      m.bus.watchpoints = [] → MacExact m (m.hMac io ⟨0xB200⟩) 0) ↔ mirroredPointers.Sound 0 :=
  macExact_iff mirroredPointers ⟨0xB200⟩ mirroredPointers_operand mirroredPointers_operand

/-- **A pointer that loses its tag**: `mac` takes fast path B, and leaves `%r1` at
`0x00100002` instead of `0x10100002`. -/
theorem mirrored_not_exact :
    mirroredPointers.Operand 0 (mirroredPointers.r 1) ∧
      mirroredPointers.Operand 0 (mirroredPointers.r 2) ∧
      ¬MacExact (mirroredPointers.probe 0 0)
        ((mirroredPointers.probe 0 0).hMac (IoSpace.constant 0) ⟨0xB200⟩) 0 := by
  refine ⟨mirroredPointers_operand, mirroredPointers_operand, fun h => ?_⟩
  have hfirst : (0x00100002 : U32) = 0x10100002 := h.first
  exact absurd hfirst (by decide)

end MacLayout
