import PieceEmu.Core.FlatView

/-!
# Data accesses to the installed SRAM

The SRAM is the memory the bus keeps notes of: which watchpoints an access meets, and who
wrote a byte last. What an access covers is decided by its width and the low 28 bits of its
address, rounded down (`MemOp.target`), however the address is spelt. Six routines take such
an access apart, each by itself; all of them note it in the same way, a read when the value
is there and a write while the old one still is (`Bus.access_read_sram`,
`Bus.access_write_sram`).
-/

namespace MemOp

/-- The alignment of an access: it is of `2 ^ align` bytes. -/
def align : MemOp → ℕ
  | read8 _ | write8 .. => 0
  | read16 _ | fetch16 _ | write16 .. => 1
  | read32 _ | write32 .. => 2

/-- The bytes of an access. -/
def width (op : MemOp) : ℕ := 2 ^ op.align

/-- An access that is not an instruction fetch. -/
def isData : MemOp → Bool
  | fetch16 _ => false
  | _ => true

/-- The value an access writes, zero-extended. -/
def stored : MemOp → U32
  | write8 _ v => v.setWidth 32
  | write16 _ v => v.setWidth 32
  | write32 _ v => v
  | _ => 0

/-- The first byte an access covers. -/
def target (op : MemOp) : U32 := Bus.down op.align op.addr

/-- The byte at an address of 28 bits is one of those an access covers. -/
def Covers (op : MemOp) (addr : U32) : Prop :=
  op.target.toNat ≤ addr.toNat ∧ addr.toNat < op.target.toNat + op.width

instance (op : MemOp) (addr : U32) : Decidable (op.Covers addr) :=
  inferInstanceAs (Decidable (_ ∧ _))

theorem width_pos (op : MemOp) : 0 < op.width := Nat.two_pow_pos _

theorem target_mod (op : MemOp) : op.target.toNat % op.width = 0 := by
  rw [target, Bus.toNat_down]
  exact Nat.mul_mod_left _ _

theorem target_lt (op : MemOp) : op.target.toNat < 2 ^ 28 := by
  have := Bus.mask28_lt op.addr
  rw [target, Bus.toNat_down]
  exact Nat.lt_of_le_of_lt (Nat.div_mul_le_self ..) this

theorem width_cases (op : MemOp) : op.width = 1 ∨ op.width = 2 ∨ op.width = 4 := by
  cases op <;> simp [width, align]

/-- No access runs over the end of the address space. -/
theorem target_add_width_le (op : MemOp) : op.target.toNat + op.width ≤ 2 ^ 28 := by
  have hlt := op.target_lt
  have hmod := op.target_mod
  rcases op.width_cases with h | h | h <;> rw [h] at hmod ⊢ <;> omega

theorem Covers.mask28 {op : MemOp} {addr : U32} (h : op.Covers addr) :
    Bus.mask28 addr = addr := by
  have hend := op.target_add_width_le
  obtain ⟨-, hlt⟩ := h
  rw [← BitVec.toNat_inj, Bus.toNat_mask28]
  exact Nat.mod_eq_of_lt (by omega)

end MemOp

namespace Bus

variable {D : Type}

/-- **An access to the installed SRAM**, with all its bytes. -/
def InSram (b : Bus D) (op : MemOp) : Prop :=
  sramBase.toNat ≤ op.target.toNat ∧
    op.target.toNat + op.width ≤ sramBase.toNat + min b.sramSize sramWindow.toNat

instance (b : Bus D) (op : MemOp) : Decidable (b.InSram op) := inferInstanceAs (Decidable (_ ∧ _))

variable (io : IoSpace D) {b : Bus D} {op : MemOp}

/-! ### The notes of an access -/

/-- The bus when an access has charged its cycles, and raised a fault if it had to. -/
def entered (b : Bus D) (fault : Bool) (n : ℤ) : Bus D := (b.flagged fault).charge n

/-- The memory with the value of a write stored in it. -/
def storeSram (b : Bus D) (op : MemOp) : Bus D :=
  let off := (op.target - sramBase).toNat
  match op with
  | .write8 _ v => { b with sram := Function.update b.sram off v }
  | .write16 _ v => { b with sram := Words.putLe16 b.sram off v }
  | .write32 _ v => { b with sram := Words.putLe32 b.sram off v }
  | _ => b

@[simp] theorem storeSram_shadowLastWriter (b : Bus D) (op : MemOp) (addr : U32) :
    (b.storeSram op).shadowLastWriter addr = b.shadowLastWriter addr := by
  cases op <;> rfl

theorem down_zero (addr : U32) : down 0 addr = mask28 addr := by
  rw [← BitVec.toNat_inj, toNat_down, pow_zero, Nat.div_one, Nat.mul_one]

theorem entered_false (b : Bus D) (n : ℤ) : b.entered false n = b.charge n := by
  rw [entered, flagged, Bool.or_false]

theorem InSram.bounds (h : b.InSram op) :
    0x100000 ≤ op.target.toNat ∧ op.target.toNat + op.width ≤ 0x100000 + min b.sramSize 0x100000 :=
  h

theorem InSram.offset (h : b.InSram op) :
    (op.target - sramBase).toNat + 0x100000 = op.target.toNat ∧
      (op.target - sramBase).toNat < b.sramSize := by
  obtain ⟨hlo, hhi⟩ := h.bounds
  have hsub : (op.target - sramBase).toNat = op.target.toNat - 0x100000 := toNat_sub_base hlo
  have hwidth := op.width_pos
  omega

theorem InSram.classify (h : b.InSram op) : b.classify op.target = .sram := by
  obtain ⟨hlo, hhi⟩ := h.bounds
  have hwidth := op.width_pos
  rw [Bus.classify, regionOf_eq, show mask28 op.target = op.target from mask28_down ..]
  exact if_pos (by omega)

/-- **A read of SRAM**: when the value is loaded, the read is noted. -/
theorem access_read_sram (hin : b.InSram op) (hd : op.isData = true) (hr : op.isWrite = false) :
    ∃ fault n, b.access io op =
      (b.sramHeld op.target op.width,
        (b.entered fault n).noteSramRead op.target (b.sramHeld op.target op.width) op.width) := by
  -- a halfword finds the SRAM by its window, the other widths by its region
  have hload := Nat.not_le.mpr hin.offset.2
  have hclass := hin.classify
  cases op with
  | read8 a =>
    refine ⟨false, b.extReadCycles b.sramWait, ?_⟩
    have hread : b.read8 io a = (b.sram (down 0 a - sramBase).toNat,
        (b.charge (b.extReadCycles b.sramWait)).noteSramRead (down 0 a)
          (b.sramHeld (down 0 a) 1) 1) := by
      change b.classify (down 0 a) = .sram at hclass
      rw [read8, ← down_zero]
      simp only [hclass]
      exact if_neg hload
    rw [entered_false, access, hread]
    rfl
  | read16 a =>
    refine ⟨misaligned 1 a, b.extReadCycles b.sramWait, ?_⟩
    have hwindow : down 1 a - sramBase < sramWindow :=
      (sub_sramBase_lt_iff _).mpr (mask28_down 1 a ▸ regionOf_eq_sram_iff.mp hclass)
    have hread : b.read16 io a = (Words.le16 b.sram (down 1 a - sramBase).toNat,
        (b.entered (misaligned 1 a) (b.extReadCycles b.sramWait)).noteSramRead (down 1 a)
          (b.sramHeld (down 1 a) 2) 2) := by
      rw [read16, alignTo_eq]
      exact (if_pos hwindow).trans (if_neg hload)
    rw [access, hread]
    rfl
  | read32 a =>
    refine ⟨misaligned 2 a, b.extReadCycles b.sramWait * 2, ?_⟩
    have hclass' : (b.flagged (misaligned 2 a)).classify (down 2 a) = .sram := hclass
    have hread : b.read32 io a = (Words.le32 b.sram (down 2 a - sramBase).toNat,
        (b.entered (misaligned 2 a) (b.extReadCycles b.sramWait * 2)).noteSramRead (down 2 a)
          (b.sramHeld (down 2 a) 4) 4) := by
      rw [read32_align, read32_aligned _ _ (down_mod_four a), hclass', mask28_down]
      exact if_neg hload
    rw [access, hread]
    rfl
  | fetch16 a => exact nomatch hd
  | write8 a v => exact nomatch hr
  | write16 a v => exact nomatch hr
  | write32 a v => exact nomatch hr

/-- **A write to SRAM**: while the old value is there, the write is noted. -/
theorem access_write_sram (hin : b.InSram op) (hw : op.isWrite = true) :
    ∃ fault n, (b.access io op).2 =
      ((b.entered fault n).noteSramWrite op.target op.stored op.width).storeSram op := by
  have hstore := hin.offset.2
  have hclass := hin.classify
  cases op with
  | write8 a v =>
    have hclass' : b.classify (down 0 a) = .sram := hclass
    refine ⟨false, b.extWriteCycles b.sramWait, ?_⟩
    rw [entered_false, access, write8, ← down_zero]
    simp only [hclass']
    exact congrArg Prod.fst (if_pos hstore)
  | write16 a v =>
    have hclass' : (b.flagged (misaligned 1 a)).classify (down 1 a) = .sram := hclass
    refine ⟨misaligned 1 a, b.extWriteCycles b.sramWait, ?_⟩
    rw [access, write16_align, write16, alignTo_one_even _ (down_even a), mask28_down]
    simp only [hclass']
    exact congrArg Prod.fst (if_pos hstore)
  | write32 a v =>
    have hclass' : (b.flagged (misaligned 2 a)).classify (down 2 a) = .sram := hclass
    refine ⟨misaligned 2 a, b.extWriteCycles b.sramWait * 2, ?_⟩
    rw [access, write32_align, write32_aligned _ _ (down_mod_four a), hclass', mask28_down]
    exact congrArg Prod.fst (if_pos hstore)
  | read8 a => exact nomatch hw
  | read16 a => exact nomatch hw
  | read32 a => exact nomatch hw
  | fetch16 a => exact nomatch hw

/-! ### Accesses elsewhere -/

section Elsewhere

variable {io}

/-- Beyond the installed SRAM the routines find nothing. -/
theorem le_offset_of_not_inSram (hsize : b.sramSize % 4 = 0) (hclass : b.classify op.target = .sram)
    (h : ¬b.InSram op) : b.sramSize ≤ (op.target - sramBase).toNat := by
  obtain ⟨hlo, hhi⟩ := regionOf_eq_sram_iff.mp hclass
  have hmask : mask28 op.target = op.target := mask28_down ..
  rw [hmask] at hlo hhi
  have hlo' : 0x100000 ≤ op.target.toNat := hlo
  have hhi' : op.target.toNat < 0x200000 := hhi
  have hsub : (op.target - sramBase).toNat = op.target.toNat - 0x100000 := toNat_sub_base hlo
  have hout : ¬op.target.toNat + op.width ≤ 0x100000 + min b.sramSize 0x100000 :=
    fun hle => h ⟨hlo, hle⟩
  -- the size is a multiple of four: an aligned access that begins inside also ends there
  have hmod := op.target_mod
  rcases op.width_cases with hw | hw | hw <;> rw [hw] at hmod hout <;> omega

/-- A register read returns a state of the devices, and makes no call. -/
theorem ioRead_wpCalls {addr : U32} {r : U16 × Bus D} (h : b.ioRead io addr = some r) :
    r.2.wpCalls = b.wpCalls := by
  unfold ioRead at h
  dsimp only at h
  split_ifs at h
  obtain ⟨f, -, rfl⟩ := Option.map_eq_some_iff.mp h
  rfl

/-- An address at which a routine finds no SRAM. -/
def OffSram (b : Bus D) (addr : U32) : Prop :=
  b.classify addr = .sram → b.sramSize ≤ (mask28 addr - sramBase).toNat

theorem classify_mask28 (addr : U32) : b.classify (mask28 addr) = b.classify addr :=
  regionOf_mask28 _

theorem offSram_down_zero {addr : U32} : b.OffSram (down 0 addr) ↔ b.OffSram addr := by
  rw [OffSram, OffSram, down_zero, classify_mask28, mask28_mask28]

theorem offSram_of_lt {addr : U32} (h : (mask28 addr).toNat < 0x100000) : b.OffSram addr :=
  fun hc => absurd (regionOf_eq_sram_iff.mp hc).1 (Nat.not_le.mpr h)

theorem read8_wpCalls {addr : U32} (hs : b.OffSram addr) :
    (b.read8 io addr).2.wpCalls = b.wpCalls := by
  unfold read8
  dsimp only
  rw [classify_mask28]
  cases hc : b.classify addr with
  | iram | flash | none => rfl
  | sram => exact congrArg (fun r : U8 × Bus D => r.2.wpCalls) (if_pos (hs hc))
  | io =>
    dsimp only
    split
    next hw b' hread => exact ioRead_wpCalls hread
    next => rfl

theorem read16_wpCalls {addr : U32} (he : addr &&& 1 = 0) (hs : b.OffSram addr) :
    (b.read16 io addr).2.wpCalls = b.wpCalls := by
  rw [read16_even io b he]
  cases hc : b.classify addr with
  | iram | flash | none => rfl
  | sram => exact congrArg (fun r : U16 × Bus D => r.2.wpCalls) (if_pos (hs hc))
  | io =>
    cases hread : b.ioRead io (mask28 addr) with
    | none => rfl
    | some r => exact ioRead_wpCalls hread

theorem read32_wpCalls {addr : U32} (ha : (mask28 addr).toNat % 4 = 0) (hs : b.OffSram addr) :
    (b.read32 io addr).2.wpCalls = b.wpCalls := by
  rw [read32_aligned io b ha]
  cases hc : b.classify addr with
  | iram | flash | none => rfl
  | sram => exact congrArg (fun r : U32 × Bus D => r.2.wpCalls) (if_pos (hs hc))
  | io =>
    obtain ⟨hlo, hhi⟩ := toNat_of_io b hc
    have htwo : (mask28 addr + 2).toNat = (mask28 addr).toNat + 2 :=
      BitVec.toNat_add_of_lt (show (mask28 addr).toNat + 2 < 2 ^ 32 by omega)
    -- two halfwords, each from the handler of its own address
    have hlow : (b.read16 io (mask28 addr)).2.wpCalls = b.wpCalls :=
      read16_wpCalls ((and_one_eq_zero_iff _).mpr (by omega))
        (offSram_of_lt (by rw [mask28_mask28]; omega))
    have hhigh : ((b.read16 io (mask28 addr)).2.read16 io (mask28 addr + 2)).2.wpCalls =
        (b.read16 io (mask28 addr)).2.wpCalls :=
      read16_wpCalls ((and_one_eq_zero_iff _).mpr (by omega))
        (offSram_of_lt (by rw [toNat_mask28]; omega))
    exact hhigh.trans hlow

theorem write8_wpCalls {addr : U32} (v : U8) (hs : b.OffSram addr) (hio : b.classify addr ≠ .io) :
    (b.write8 io addr v).1.wpCalls = b.wpCalls := by
  unfold write8
  dsimp only
  rw [classify_mask28]
  cases hc : b.classify addr with
  | iram | flash | none => rfl
  | sram =>
    exact congrArg (fun r : Bus D × CpuRequest => r.1.wpCalls) (if_neg (Nat.not_lt.mpr (hs hc)))
  | io => exact absurd hc hio

theorem write16_wpCalls {addr : U32} (v : U16) (he : addr &&& 1 = 0) (hs : b.OffSram addr)
    (hio : b.classify addr ≠ .io) : (b.write16 io addr v).1.wpCalls = b.wpCalls := by
  unfold write16
  rw [alignTo_one_even b he]
  dsimp only
  rw [classify_mask28]
  cases hc : b.classify addr with
  | iram | flash | none => rfl
  | sram =>
    exact congrArg (fun r : Bus D × CpuRequest => r.1.wpCalls) (if_neg (Nat.not_lt.mpr (hs hc)))
  | io => exact absurd hc hio

theorem write32_wpCalls {addr : U32} (v : U32) (ha : (mask28 addr).toNat % 4 = 0)
    (hs : b.OffSram addr) (hio : b.classify addr ≠ .io) :
    (b.write32 io addr v).1.wpCalls = b.wpCalls := by
  rw [write32_aligned io b ha]
  cases hc : b.classify addr with
  | iram | flash | none => rfl
  | sram =>
    exact congrArg (fun r : Bus D × CpuRequest => r.1.wpCalls) (if_neg (Nat.not_lt.mpr (hs hc)))
  | io => exact absurd hc hio

/-- Other accesses make no calls, unless a register handler does. -/
theorem access_wpCalls_other (hsize : b.sramSize % 4 = 0) (h : ¬(op.isData = true ∧ b.InSram op))
    (hio : ¬(op.isWrite = true ∧ b.classify op.target = .io)) :
    (b.access io op).2.wpCalls = b.wpCalls := by
  have hs (hd : op.isData = true) : b.OffSram op.target := by
    intro hclass
    rw [show mask28 op.target = op.target from mask28_down ..]
    exact le_offset_of_not_inSram hsize hclass fun hin => h ⟨hd, hin⟩
  cases op with
  | read8 a => exact read8_wpCalls (offSram_down_zero.mp (hs rfl))
  | read16 a =>
    rw [access, read16_align]
    exact read16_wpCalls (down_even a) (hs rfl)
  | read32 a =>
    rw [access, read32_align]
    exact read32_wpCalls (down_mod_four a) (hs rfl)
  | fetch16 a =>
    change (b.fetch16 a).2.wpCalls = b.wpCalls
    rw [fetch16_snd]
    rfl
  | write8 a v =>
    refine write8_wpCalls v (offSram_down_zero.mp (hs rfl)) fun hc => hio ⟨rfl, ?_⟩
    change b.classify (down 0 a) = .io
    rwa [down_zero, classify_mask28]
  | write16 a v =>
    rw [access, write16_align]
    exact write16_wpCalls v (down_even a) (hs rfl) fun hc => hio ⟨rfl, hc⟩
  | write32 a v =>
    rw [access, write32_align]
    exact write32_wpCalls v (down_mod_four a) (hs rfl) fun hc => hio ⟨rfl, hc⟩

end Elsewhere

end Bus
