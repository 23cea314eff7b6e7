import PieceEmu.Core.MacProbe

/-!
# The bounds of the SRAM path of `mac`

Fast path B of `mac` indexes the SRAM bytes without a check of its own: the test that
selects it compares the end of each array with the installed size. The end is computed in
32 bits, and so is the offset of the first halfword, which is below zero for a pointer
below SRAM. With at most 1 MB installed, every index is in bounds exactly if the end of
neither array wraps (`Machine.sramIndices_lt_iff`); and with all indices in bounds `mac`
sees installed bytes only (`Machine.hMac_congr_sram`).
-/

namespace Machine

/-- The indices into the SRAM bytes of `k` turns of the loop of fast path B, in the order
they are used. -/
def macSramIndices : ℕ → U32 → U32 → List U32
  | 0, _, _ => []
  | k + 1, off1, off2 =>
    off1 :: (off1 + 1) :: off2 :: (off2 + 1) :: macSramIndices k (off1 + 2) (off2 + 2)

/-- The two bytes of a halfword of one of the arrays are indices of the loop. -/
theorem mem_macSramIndices {k : ℕ} {off1 off2 i : U32} :
    i ∈ macSramIndices k off1 off2 ↔
      ∃ j < k, ∃ off, (off = off1 ∨ off = off2) ∧
        (i = macOperand off j ∨ i = macOperand off j + 1) := by
  induction k generalizing off1 off2 with
  | zero => simp [macSramIndices]
  | succ k ih =>
    rw [macSramIndices]
    simp only [List.mem_cons, ih]
    constructor
    · rintro (rfl | rfl | rfl | rfl | ⟨j, hj, off, hoff, hi⟩)
      · exact ⟨0, Nat.succ_pos k, i, .inl rfl, .inl (Bus.macOperand_zero i).symm⟩
      · exact ⟨0, Nat.succ_pos k, off1, .inl rfl, .inr (by rw [Bus.macOperand_zero])⟩
      · exact ⟨0, Nat.succ_pos k, i, .inr rfl, .inl (Bus.macOperand_zero i).symm⟩
      · exact ⟨0, Nat.succ_pos k, off2, .inr rfl, .inr (by rw [Bus.macOperand_zero])⟩
      · rcases hoff with rfl | rfl
        · exact ⟨j + 1, Nat.succ_lt_succ hj, off1, .inl rfl, by rwa [Bus.macOperand_succ]⟩
        · exact ⟨j + 1, Nat.succ_lt_succ hj, off2, .inr rfl, by rwa [Bus.macOperand_succ]⟩
    · rintro ⟨_ | j, hj, off, hoff, hi⟩
      · rw [Bus.macOperand_zero] at hi
        rcases hoff with rfl | rfl <;> rcases hi with rfl | rfl <;> simp
      · rw [Bus.macOperand_succ] at hi
        have hoff : off + 2 = off1 + 2 ∨ off + 2 = off2 + 2 :=
          hoff.imp (congrArg (· + 2)) (congrArg (· + 2))
        exact .inr (.inr (.inr (.inr ⟨j, Nat.lt_of_succ_lt_succ hj, off + 2, hoff, hi⟩)))

/-- **A loop in bounds sees installed bytes only.** -/
theorem macSramLoop_congr {sram sram' : ℕ → U8} {size k : ℕ} {off1 off2 : U32}
    (hsize : size < 2 ^ 32) (hin : ∀ i ∈ macSramIndices k off1 off2, i.toNat < size)
    (heq : ∀ i < size, sram i = sram' i) (uacc : U64) (p : Psr) :
    macSramLoop sram k off1 off2 uacc p = macSramLoop sram' k off1 off2 uacc p := by
  induction k generalizing off1 off2 uacc p with
  | zero => rfl
  | succ k ih =>
    rw [macSramIndices] at hin
    simp only [List.forall_mem_cons] at hin
    obtain ⟨h1, h1', h2, h2', hrest⟩ := hin
    -- an offset in bounds is not the last word, so its second byte is the next one
    have hhalf {off : U32} (h : off.toNat < size) (h' : (off + 1).toNat < size) :
        Words.le16 sram off.toNat = Words.le16 sram' off.toNat := by
      have hnext : (off + 1).toNat = (off.toNat + 1) % 2 ^ 32 := BitVec.toNat_add off 1
      rw [Nat.mod_eq_of_lt (by omega)] at hnext
      rw [Words.le16, Words.le16, heq _ h, heq _ (hnext ▸ h')]
    rw [macSramLoop, macSramLoop, hhalf h1 h1', hhalf h2 h2']
    exact ih hrest _ _

variable {D : Type} (io : IoSpace D) (m : Machine D) (rsN : BitVec 4)

/-- `mac` enters fast path B. -/
def EntersSram : Prop :=
  m.cpu.r rsN ≠ 0 ∧ m.macTakesOpenBus rsN = false ∧ m.macTakesSram rsN = true

/-- The indices fast path B uses. -/
def sramIndices : List U32 :=
  macSramIndices (m.cpu.r rsN).toNat (Bus.mask28 (m.cpu.r (rsN + 1)) - Bus.sramBase)
    (Bus.mask28 (m.cpu.r (rsN + 2)) - Bus.sramBase)

/-- The end of the array at a pointer, which path B computes in 32 bits, does not wrap. -/
def EndFits (p : U32) : Prop :=
  (Bus.mask28 p - Bus.sramBase).toNat + 2 * (m.cpu.r rsN).toNat < 2 ^ 32

variable {m} {rsN}

/-- Then the indices of `sramIndices` are those of the loop that `mac` runs. -/
theorem hMac_of_entersSram {insn : Insn} (h : m.EntersSram insn.rs) :
    m.hMac io insn = m.flushExt.macSram insn.rs := by
  obtain ⟨hc, hA, hB⟩ := h
  have hA : m.flushExt.macTakesOpenBus insn.rs = false := hA
  have hB : m.flushExt.macTakesSram insn.rs = true := hB
  unfold hMac
  dsimp only
  rw [hA, hB, if_neg Bool.false_ne_true, if_pos rfl]
  exact if_neg hc

/-- **In bounds, `mac` sees installed bytes only**: whatever stands beyond them, the CPU and
the accumulator are the same after it. -/
theorem hMac_congr_sram {insn : Insn} (h : m.EntersSram insn.rs) (hsize : m.bus.sramSize < 2 ^ 32)
    (hin : ∀ i ∈ m.sramIndices insn.rs, i.toNat < m.bus.sramSize) {sram : ℕ → U8}
    (heq : ∀ i < m.bus.sramSize, m.bus.sram i = sram i) :
    (hMac io { m with bus := { m.bus with sram } } insn).cpu = (m.hMac io insn).cpu := by
  let m' : Machine D := { m with bus := { m.bus with sram } }
  have h' : m'.EntersSram insn.rs := h
  have hloop := macSramLoop_congr hsize hin heq m.acc m.cpu.psr
  rw [hMac_of_entersSram io h', hMac_of_entersSram io h]
  -- the sum and the flag are all that the path takes from the bytes
  let off1 := Bus.mask28 (m.cpu.r (insn.rs + 1)) - Bus.sramBase
  let off2 := Bus.mask28 (m.cpu.r (insn.rs + 2)) - Bus.sramBase
  let m₁ := m.flushExt.setR (insn.rs + 1) (Bus.sramBase + (off1 + 2 * m.cpu.r insn.rs))
  let m₂ := m₁.setR (insn.rs + 2) (Bus.sramBase + (off2 + 2 * m.cpu.r insn.rs))
  exact congrArg (fun r : U64 × Psr => (((m₂.setR insn.rs 0).setPsr r.2).setAcc r.1).cpu)
    hloop.symm

/-- The end test of fast path B, on the integers. -/
theorem end_le_of_macWithinSram {size : ℕ} {count p : U32}
    (h : macWithinSram size count p = true) :
    ((Bus.mask28 p - Bus.sramBase).toNat + 2 * count.toNat) % 2 ^ 32 ≤ size := by
  have h := of_decide_eq_true h
  rw [BitVec.toNat_add, BitVec.toNat_mul] at h
  have h : ((Bus.mask28 p - Bus.sramBase).toNat + count.toNat * 2 % 2 ^ 32) % 2 ^ 32 ≤ size := h
  omega

/-- An array whose end wraps has a halfword that is not installed. -/
theorem exists_not_installed {size n : ℕ} {off : U32} (hsize : size ≤ 2 ^ 20)
    (hoff : off.toNat < 2 ^ 28 ∨ 2 ^ 32 - 2 ^ 20 ≤ off.toNat) (hn : n ≠ 0)
    (hwrap : 2 ^ 32 ≤ off.toNat + 2 * n) : ∃ j < n, size ≤ (macOperand off j).toNat := by
  have hop (j : ℕ) : (macOperand off j).toNat = (off.toNat + 2 * j) % 2 ^ 32 := by
    rw [macOperand, BitVec.toNat_add, BitVec.toNat_ofNat]
    omega
  rcases hoff with h | h
  · -- the array runs through the whole of the address space above SRAM
    refine ⟨2 ^ 27, by omega, ?_⟩
    rw [hop]
    omega
  · refine ⟨0, Nat.pos_of_ne_zero hn, ?_⟩
    rw [hop]
    omega

/-- The offset of an address is at the start of the 32-bit range, or wraps below zero. -/
theorem mask28_sub_sramBase (p : U32) :
    (Bus.mask28 p - Bus.sramBase).toNat < 2 ^ 28 ∨
      2 ^ 32 - 2 ^ 20 ≤ (Bus.mask28 p - Bus.sramBase).toNat := by
  have hm := Bus.toNat_mask28 p
  rw [BitVec.toNat_sub]
  change (2 ^ 32 - 0x100000 + (Bus.mask28 p).toNat) % 2 ^ 32 < _ ∨
    _ ≤ (2 ^ 32 - 0x100000 + (Bus.mask28 p).toNat) % 2 ^ 32
  omega

variable (m) (rsN)

/-- **The bounds of fast path B**: with at most 1 MB of SRAM, every index is in bounds if
and only if the ends of both arrays do not wrap. -/
theorem sramIndices_lt_iff (hsize : m.bus.sramSize ≤ 2 ^ 20) :
    (m.EntersSram rsN → ∀ i ∈ m.sramIndices rsN, i.toNat < m.bus.sramSize) ↔
      (m.EntersSram rsN →
        m.EndFits rsN (m.cpu.r (rsN + 1)) ∧ m.EndFits rsN (m.cpu.r (rsN + 2))) := by
  refine forall_congr' fun henter => ?_
  obtain ⟨hc, -, hB⟩ := henter
  have hn : (m.cpu.r rsN).toNat ≠ 0 := fun h => hc (BitVec.eq_of_toNat_eq h)
  obtain ⟨hB, -⟩ := Bool.and_eq_true_iff.mp hB
  obtain ⟨hw1, hw2⟩ := Bool.and_eq_true_iff.mp hB
  constructor
  · intro hin
    have hfits {p : U32} (hp : Bus.mask28 p - Bus.sramBase =
          Bus.mask28 (m.cpu.r (rsN + 1)) - Bus.sramBase ∨
        Bus.mask28 p - Bus.sramBase = Bus.mask28 (m.cpu.r (rsN + 2)) - Bus.sramBase) :
        m.EndFits rsN p := by
      by_contra hwrap
      obtain ⟨j, hj, hge⟩ := exists_not_installed hsize (mask28_sub_sramBase p) hn
        (Nat.not_lt.mp hwrap)
      have hlt := hin _ (mem_macSramIndices.mpr ⟨j, hj, _, hp, .inl rfl⟩)
      omega
    exact ⟨hfits (.inl rfl), hfits (.inr rfl)⟩
  · rintro ⟨hf1, hf2⟩ i hi
    obtain ⟨j, hj, off, hoff, hi⟩ := mem_macSramIndices.mp hi
    have hend : off.toNat + 2 * (m.cpu.r rsN).toNat ≤ m.bus.sramSize := by
      have hle {p : U32} (hw : macWithinSram m.bus.sramSize (m.cpu.r rsN) p = true)
          (hf : m.EndFits rsN p) : (Bus.mask28 p - Bus.sramBase).toNat +
            2 * (m.cpu.r rsN).toNat ≤ m.bus.sramSize := by
        have h := end_le_of_macWithinSram hw
        rwa [Nat.mod_eq_of_lt hf] at h
      exact hoff.elim (· ▸ hle hw1 hf1) (· ▸ hle hw2 hf2)
    have hop : (macOperand off j).toNat = off.toNat + 2 * j := by
      rw [macOperand, BitVec.toNat_add, BitVec.toNat_ofNat]
      omega
    rcases hi with rfl | rfl
    · omega
    · have hone : (macOperand off j + 1).toNat = ((macOperand off j).toNat + 1) % 2 ^ 32 :=
        BitVec.toNat_add _ 1
      omega

/-- A count of 1 in `%r0`, and pointers to the halfword below SRAM in `%r1` and `%r2`. -/
def belowSram : MacLayout := ⟨fun n => if n = 0 then 1 else 0x0FFFFE, 0x40000, 0x80000⟩

theorem sramIndices_lt_iff_belowSram :
    ((belowSram.probe 0 0).EntersSram 0 →
        ∀ i ∈ (belowSram.probe 0 0).sramIndices 0, i.toNat < 0x40000) ↔
      ((belowSram.probe 0 0).EntersSram 0 → (belowSram.probe 0 0).EndFits 0 0x0FFFFE ∧
        (belowSram.probe 0 0).EndFits 0 0x0FFFFE) :=
  sramIndices_lt_iff (belowSram.probe 0 0) 0 (by decide)

/-- **An index below zero**: the end of the array wraps to 0, and path B indexes the SRAM
bytes at `0xFFFFFFFE`. -/
theorem belowSram_out_of_bounds :
    (belowSram.probe 0 0).EntersSram 0 ∧
      ∃ i ∈ (belowSram.probe 0 0).sramIndices 0, (belowSram.probe 0 0).bus.sramSize ≤ i.toNat :=
  ⟨by unfold EntersSram; decide, 0xFFFFFFFE, by decide, by decide⟩

end Machine
