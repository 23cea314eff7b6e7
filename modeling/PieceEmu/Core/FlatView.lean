import PieceEmu.Core.BusFacts
import PieceEmu.Lib.FlatMemory
import PieceEmu.Lib.Run

/-!
# The bus as a flat byte memory

Seven access routines decode an address, each in its own way: with fast paths or
`classify`, through a mirror, past the end of the installed memory, through the
command state of a flash device. Behind them there is one byte memory: `Bus.flat` is
the map, `Bus.flatIndex` the index of an address in it, and every access of the bus is
the access of that memory (`Bus.access_refines`), over any sequence of accesses
(`Bus.run_refines`).

An access that is not aligned is the aligned access on a bus whose fault flag is up
(`Bus.alignTo_eq`), so that each routine is compared at aligned addresses only.
-/

namespace Bus

/-! ### The byte map -/

/-- The index of an address in the byte map: its low 28 bits, with the mirror of the
internal RAM folded onto it. -/
def flatIndex (addr : U32) : ℕ :=
  let a := (mask28 addr).toNat
  if 0x2000 ≤ a ∧ a < 0x3000 then a - 0x2000 else a

variable {D : Type} (io : IoSpace D) (b : Bus D)

/-- The byte at an index of the map: open bus beyond the installed memory, and the view
of the flash device in its command state. -/
def flatByte (i : ℕ) : U8 :=
  if i < 0x2000 then b.iram i
  else if 0x100000 ≤ i ∧ i < 0x200000 then
    if i - 0x100000 < b.sramSize then b.sram (i - 0x100000) else 0xFF
  else if 0xC00000 ≤ i ∧ i < 0xC00000 + b.flash.size then
    b.flash.read8 (BitVec.ofNat 32 (i - 0xC00000))
  else 0xFF

/-- The bytes a write changes: the internal RAM and the installed SRAM. -/
def flatWritable (i : ℕ) : Bool :=
  i < 0x2000 || 0x100000 ≤ i && decide (i < 0x100000 + b.sramSize)

/-- **The byte memory behind the bus.** -/
def flat : FlatMemory := ⟨b.flatByte, b.flatWritable, b.faultPending⟩

/-- A bus with memories of the sizes a board can have. -/
structure WellSized : Prop where
  sramSize_mod : b.sramSize % 4 = 0
  sramSize_le : b.sramSize ≤ 0x100000
  flash_pow : ∃ k, 12 ≤ k ∧ b.flash.size = 2 ^ k

/-- An access of the bus, and the value it reads, zero-extended. -/
def access (op : MemOp) : U32 × Bus D :=
  match op with
  | .read8 a => ((b.read8 io a).1.setWidth 32, (b.read8 io a).2)
  | .read16 a => ((b.read16 io a).1.setWidth 32, (b.read16 io a).2)
  | .read32 a => b.read32 io a
  | .fetch16 a => ((b.fetch16 a).1.setWidth 32, (b.fetch16 a).2)
  | .write8 a v => (0, (b.write8 io a v).1)
  | .write16 a v => (0, (b.write16 io a v).1)
  | .write32 a v => (0, (b.write32 io a v).1)

/-- The accesses to memory: to the internal RAM, its mirror and the SRAM window, and
reads of the flash device; instructions are fetched from a flash in read mode. -/
def ToMemory (op : MemOp) : Prop :=
  match b.classify op.addr with
  | .iram | .sram => True
  | .flash => op.isWrite = false ∧ (op = .fetch16 op.addr → b.flash.inReadMode = true)
  | .io | .none => False

/-! ### Alignment -/

/-- The bus whose fault flag a misaligned access has raised. -/
def flagged (fault : Bool) : Bus D := { b with faultPending := b.faultPending || fault }

/-- An access that is not aligned is the aligned one, on a bus whose flag is up. -/
theorem alignTo_eq (low a : U32) :
    b.alignTo low a = (a &&& ~~~low, b.flagged (a &&& low ≠ 0)) := by
  unfold alignTo flagged
  by_cases h : a &&& low = 0
  · have ha : a &&& ~~~low = a :=
      calc a &&& ~~~low = (a &&& low) ||| (a &&& ~~~low) := by
            rw [h]
            exact BitVec.zero_or.symm
        _ = a &&& (low ||| ~~~low) := BitVec.and_or_distrib_left.symm
        _ = a := by rw [BitVec.or_not_self, BitVec.and_allOnes]
    rw [if_neg (not_not.mpr h), ha, decide_eq_false (not_not.mpr h), Bool.or_false]
  · rw [if_pos h, decide_eq_true h, Bool.or_true]

/-- The start of the halfword (`k = 1`) or word (`k = 2`) an address lies in. -/
def down (k : ℕ) (addr : U32) : U32 := mask28 addr &&& ~~~BitVec.ofNat 32 (2 ^ k - 1)

theorem toNat_down (k : ℕ) (addr : U32) :
    (down k addr).toNat = (mask28 addr).toNat / 2 ^ k * 2 ^ k :=
  Words.toNat_and_not_low _ k

theorem mask28_lt (addr : U32) : (mask28 addr).toNat < 2 ^ 28 := by
  rw [toNat_mask28]
  exact Nat.mod_lt _ (Nat.two_pow_pos 28)

@[simp] theorem mask28_down (k : ℕ) (addr : U32) : mask28 (down k addr) = down k addr := by
  have := mask28_lt addr
  have := Nat.div_mul_le_self (mask28 addr).toNat (2 ^ k)
  apply BitVec.eq_of_toNat_eq
  rw [toNat_mask28, toNat_down]
  exact Nat.mod_eq_of_lt (by omega)

/-- The fault an access of `2 ^ k` bytes raises. -/
def misaligned (k : ℕ) (addr : U32) : Bool := mask28 addr &&& BitVec.ofNat 32 (2 ^ k - 1) ≠ 0

theorem misaligned_eq (k : ℕ) (addr : U32) :
    misaligned k addr = decide ((mask28 addr).toNat % 2 ^ k ≠ 0) := by
  unfold misaligned
  refine decide_eq_decide.mpr (not_congr ?_)
  rw [← BitVec.toNat_inj, Words.toNat_and_low]
  rfl

/-- An access at a start is aligned. -/
theorem alignTo_down (k : ℕ) (addr : U32) :
    b.alignTo (BitVec.ofNat 32 (2 ^ k - 1)) (mask28 (down k addr)) = (down k addr, b) := by
  unfold alignTo
  rw [mask28_down, if_neg]
  rw [not_not, ← BitVec.toNat_inj, Words.toNat_and_low, toNat_down, Nat.mul_mod_left]
  rfl

theorem read16_align (addr : U32) :
    b.read16 io addr = (b.flagged (misaligned 1 addr)).read16 io (down 1 addr) := by
  have h := alignTo_down (b.flagged (misaligned 1 addr)) 1 addr
  unfold read16
  rw [alignTo_eq]
  change _ = _
  rw [show (1 : U32) = BitVec.ofNat 32 (2 ^ 1 - 1) from rfl, h]
  rfl

theorem read32_align (addr : U32) :
    b.read32 io addr = (b.flagged (misaligned 2 addr)).read32 io (down 2 addr) := by
  have h := alignTo_down (b.flagged (misaligned 2 addr)) 2 addr
  unfold read32
  rw [alignTo_eq, show (3 : U32) = BitVec.ofNat 32 (2 ^ 2 - 1) from rfl, h]
  rfl

theorem write16_align (addr : U32) (v : U16) :
    b.write16 io addr v = (b.flagged (misaligned 1 addr)).write16 io (down 1 addr) v := by
  have h := alignTo_down (b.flagged (misaligned 1 addr)) 1 addr
  unfold write16
  rw [alignTo_eq, show (1 : U32) = BitVec.ofNat 32 (2 ^ 1 - 1) from rfl, h]
  rfl

theorem write32_align (addr : U32) (v : U32) :
    b.write32 io addr v = (b.flagged (misaligned 2 addr)).write32 io (down 2 addr) v := by
  have h := alignTo_down (b.flagged (misaligned 2 addr)) 2 addr
  unfold write32
  rw [alignTo_eq, show (3 : U32) = BitVec.ofNat 32 (2 ^ 2 - 1) from rfl, h]
  rfl

theorem fetch16_align (addr : U32) : b.fetch16 addr = b.fetch16 (down 1 addr) := by
  have h : mask28 (down 1 addr) &&& ~~~1#32 = mask28 addr &&& ~~~1#32 := by
    rw [mask28_down]
    exact (BitVec.and_assoc ..).trans (congrArg _ (BitVec.and_self ..))
  unfold fetch16
  rw [h]

/-! ### Regions, by index -/

theorem regionOf_eq (flashSize : ℕ) (addr : U32) :
    regionOf flashSize addr =
      if 0x100000 ≤ (mask28 addr).toNat ∧ (mask28 addr).toNat < 0x200000 then .sram
      else if 0xC00000 ≤ (mask28 addr).toNat ∧ (mask28 addr).toNat < 0xC00000 + flashSize then
        .flash
      else if 0x30000 ≤ (mask28 addr).toNat ∧ (mask28 addr).toNat < 0x80000 then .io
      else if (mask28 addr).toNat < 0x2000 then .iram
      else if 0x2000 ≤ (mask28 addr).toNat ∧ (mask28 addr).toNat < 0x3000 then .iram
      else .none := by
  simp only [regionOf, BitVec.le_def, BitVec.lt_def]
  rfl

/-- Regions start and end at word boundaries. -/
theorem classify_down (hb : b.WellSized) {k : ℕ} (hk : k = 1 ∨ k = 2) (addr : U32) :
    b.classify (down k addr) = b.classify addr := by
  obtain ⟨j, hj, hsize⟩ := hb.flash_pow
  obtain ⟨i, rfl⟩ := Nat.exists_eq_add_of_le hj
  have h4 : 2 ^ (12 + i) = 4 * 2 ^ (10 + i) := by
    rw [show 12 + i = 2 + (10 + i) by omega, Nat.pow_add]
  unfold classify
  rw [regionOf_eq, regionOf_eq, mask28_down, toNat_down, hsize, h4]
  rcases hk with rfl | rfl
  · exact if_congr (by omega) rfl (if_congr (by omega) rfl (if_congr (by omega) rfl
      (if_congr (by omega) rfl (if_congr (by omega) rfl rfl))))
  · exact if_congr (by omega) rfl (if_congr (by omega) rfl (if_congr (by omega) rfl
      (if_congr (by omega) rfl (if_congr (by omega) rfl rfl))))

variable {addr : U32}

theorem toNat_lt_of_iram (h : b.classify addr = .iram) : (mask28 addr).toNat < 0x3000 := by
  unfold classify at h
  rw [regionOf_eq] at h
  by_contra hge
  rw [if_neg (show ¬(mask28 addr).toNat < 0x2000 by omega),
    if_neg (show ¬(0x2000 ≤ (mask28 addr).toNat ∧ (mask28 addr).toNat < 0x3000) by omega)] at h
  split_ifs at h

theorem toNat_of_io (h : b.classify addr = .io) :
    0x30000 ≤ (mask28 addr).toNat ∧ (mask28 addr).toNat < 0x80000 := by
  unfold classify at h
  rw [regionOf_eq] at h
  split_ifs at h with h1 h2 h3
  exact h3

theorem flatIndex_iram (h : b.classify addr = .iram) :
    flatIndex addr = iramIndex (mask28 addr) ∧ iramIndex (mask28 addr) < 0x2000 := by
  have hidx : iramIndex (mask28 addr) = (mask28 addr).toNat % 2 ^ 13 := Words.toNat_and_low _ 13
  have hlt := toNat_lt_of_iram b h
  rw [hidx]
  unfold flatIndex
  dsimp only
  split_ifs <;> omega

/-- The offset of an address in a window that starts at `base`. -/
theorem toNat_sub_base {a base : U32} (h : base ≤ a) : (a - base).toNat = a.toNat - base.toNat :=
  BitVec.toNat_sub_of_le h

theorem flatIndex_sram (h : b.classify addr = .sram) :
    flatIndex addr = 0x100000 + (mask28 addr - sramBase).toNat ∧
      (mask28 addr - sramBase).toNat < 0x100000 := by
  obtain ⟨hlo, hhi⟩ := regionOf_eq_sram_iff.mp h
  have hlo' : 0x100000 ≤ (mask28 addr).toNat := hlo
  have hhi' : (mask28 addr).toNat < 0x200000 := hhi
  rw [toNat_sub_base hlo]
  change _ = _ + ((mask28 addr).toNat - 0x100000) ∧ (mask28 addr).toNat - 0x100000 < _
  unfold flatIndex
  dsimp only
  split_ifs <;> omega

theorem flatIndex_flash (h : b.classify addr = .flash) :
    flatIndex addr = 0xC00000 + (mask28 addr - flashBase).toNat ∧
      (mask28 addr - flashBase).toNat < b.flash.size := by
  obtain ⟨hlo, hhi⟩ := regionOf_eq_flash_iff.mp h
  have hlo' : 0xC00000 ≤ (mask28 addr).toNat := hlo
  have hhi' : (mask28 addr).toNat < 0xC00000 + b.flash.size := hhi
  rw [toNat_sub_base hlo]
  change _ = _ + ((mask28 addr).toNat - 0xC00000) ∧ (mask28 addr).toNat - 0xC00000 < _
  unfold flatIndex
  dsimp only
  split_ifs <;> omega

theorem flatIndex_down {k : ℕ} (hk : k = 1 ∨ k = 2) (addr : U32) :
    flatIndex (down k addr) = FlatMemory.start (2 ^ k) (flatIndex addr) := by
  unfold flatIndex FlatMemory.start
  dsimp only
  rw [mask28_down, toNat_down]
  rcases hk with rfl | rfl <;> split_ifs <;> omega

theorem flatIndex_mod {k : ℕ} (hk : k = 1 ∨ k = 2) (addr : U32) :
    flatIndex addr % 2 ^ k = (mask28 addr).toNat % 2 ^ k := by
  unfold flatIndex
  dsimp only
  rcases hk with rfl | rfl <;> split_ifs <;> omega

/-! ### What does not move the map -/

/-- The sizes of the memories and the flash device are those of another bus. -/
def Keeps (b' b : Bus D) : Prop := b'.sramSize = b.sramSize ∧ b'.flash = b.flash

/-- A bus that differs from another in its counts and notes only. -/
def SameMemory (b' b : Bus D) : Prop := b'.flat = b.flat ∧ b'.Keeps b

theorem sameMemory_noteSramRead (c : ℤ) (a v : U32) (n : ℕ) :
    ((b.charge c).noteSramRead a v n).SameMemory b := by
  unfold noteSramRead
  split_ifs
  · exact ⟨rfl, rfl, rfl⟩
  · exact ⟨rfl, rfl, rfl⟩

theorem flat_flagged (k : ℕ) (hk : k = 1 ∨ k = 2) (addr : U32) :
    (b.flagged (misaligned k addr)).flat = b.flat.touch (2 ^ k) (flatIndex addr) := by
  rw [misaligned_eq, ← flatIndex_mod hk]
  rfl

/-! ### The bytes of a region -/

theorem flatByte_iram {i : ℕ} (h : i < 0x2000) : b.flatByte i = b.iram i := if_pos h

theorem flatByte_sram {i : ℕ} (h : i < 0x100000) :
    b.flatByte (0x100000 + i) = if i < b.sramSize then b.sram i else 0xFF := by
  unfold flatByte
  rw [if_neg (by omega), if_pos (by omega), Nat.add_sub_cancel_left]

theorem flatByte_flash {i : ℕ} (h : i < b.flash.size) :
    b.flatByte (0xC00000 + i) = b.flash.read8 (BitVec.ofNat 32 i) := by
  unfold flatByte
  rw [if_neg (by omega), if_neg (by omega), if_pos (by omega), Nat.add_sub_cancel_left]

end Bus

/-! ### The flash device, by bytes -/

namespace FlashDevice

variable (f : FlashDevice)

/-- A halfword of the device is its two bytes, in every command state. -/
theorem read16_eq_le16 {i : ℕ} (hi : i % 2 = 0) (hlt : i + 1 < 2 ^ 32) :
    f.read16 (BitVec.ofNat 32 i) = Words.le16 (fun j => f.read8 (BitVec.ofNat 32 j)) i := by
  have hmask (j : ℕ) (hj : j < 2 ^ 32) :
      BitVec.ofNat 32 j &&& ~~~1#32 = BitVec.ofNat 32 (j / 2 * 2) := by
    apply BitVec.eq_of_toNat_eq
    have h := Words.toNat_and_not_low (BitVec.ofNat 32 j) 1
    rw [BitVec.toNat_ofNat, Nat.mod_eq_of_lt hj] at h
    rw [BitVec.toNat_ofNat, Nat.mod_eq_of_lt (by omega)]
    exact h
  have hodd (j : ℕ) (hj : j < 2 ^ 32) : (BitVec.ofNat 32 j &&& 1#32 ≠ 0) ↔ j % 2 ≠ 0 := by
    have h := Words.toNat_and_low (BitVec.ofNat 32 j) 1
    rw [BitVec.toNat_ofNat, Nat.mod_eq_of_lt hj] at h
    rw [Ne, ← BitVec.toNat_inj]
    exact not_congr (by rw [show (1#32 : U32) = BitVec.ofNat 32 (2 ^ 1 - 1) from rfl, h]; rfl)
  refine (Words.le16_of_bytes ?_ ?_).symm
  · unfold read8
    rw [hmask i (by omega), if_neg (by rw [hodd i (by omega)]; omega), show i / 2 * 2 = i by omega]
  · unfold read8
    rw [hmask (i + 1) hlt, if_pos (by rw [hodd (i + 1) hlt]; omega),
      show (i + 1) / 2 * 2 = i by omega]

/-- In the read mode a device whose size is a power of two is its memory. -/
theorem read16_readMode (h : f.inReadMode = true) {k : ℕ} (hsize : f.size = 2 ^ k) {i : ℕ}
    (hi : i % 2 = 0) (hlt : i < f.size) (h32 : i < 2 ^ 32) :
    f.read16 (BitVec.ofNat 32 i) = Words.le16 f.mem i := by
  have hmask : (BitVec.ofNat 32 i &&& BitVec.ofNat 32 (2 ^ k - 1) &&& ~~~1#32).toNat = i := by
    have h := Words.toNat_and_not_low (BitVec.ofNat 32 i &&& BitVec.ofNat 32 (2 ^ k - 1)) 1
    rw [Words.toNat_and_low, BitVec.toNat_ofNat, Nat.mod_eq_of_lt h32,
      Nat.mod_eq_of_lt (hsize ▸ hlt)] at h
    rw [show ~~~1#32 = ~~~BitVec.ofNat 32 (2 ^ 1 - 1) from rfl, h]
    omega
  cases f with
  | flat rom =>
    have hsize : rom.memSize = 2 ^ k := hsize
    have hcast : BitVec.ofInt 32 ((rom.memSize : ℤ) - 1) = BitVec.ofNat 32 (2 ^ k - 1) := by
      rw [hsize, ← BitVec.ofInt_natCast]
      congr 1
      have := Nat.one_le_two_pow (n := k)
      omega
    change rom.read16 _ = _
    unfold FlatFlashRom.read16
    rw [hcast, hmask]
    rfl
  | sst39vf chip =>
    have hsize : chip.memSize = 2 ^ k := hsize
    have hstate : chip.state = .normal := of_decide_eq_true h
    change chip.read16 _ = _
    unfold Sst39vf.read16 Sst39vf.maskOffset
    rw [hstate, hsize, hmask]
    rfl

end FlashDevice

namespace Bus

variable {D : Type} (io : IoSpace D) (b : Bus D) {addr : U32}

/-! ### Reading, at aligned addresses -/

/-- An address of memory. -/
def Mapped (addr : U32) : Prop :=
  b.classify addr = .iram ∨ b.classify addr = .sram ∨ b.classify addr = .flash

theorem mod_two_of_even (he : addr &&& 1 = 0) : (mask28 addr).toNat % 2 = 0 := by
  rw [← mask28_and_one, and_one_eq_zero_iff] at he
  exact he

/-- A halfword of the flash window, in read mode or not. -/
theorem flash_le16 (hb : b.WellSized) {i : ℕ} (hi : i % 2 = 0) (hlt : i < b.flash.size)
    (h32 : i + 1 < 2 ^ 32) :
    (if b.flash.inReadMode then Words.le16 b.flash.mem i
      else b.flash.read16 (BitVec.ofNat 32 i)) = Words.le16 b.flatByte (0xC00000 + i) := by
  obtain ⟨k, hk, hsize⟩ := hb.flash_pow
  have heven : b.flash.size % 2 = 0 := by
    rw [hsize, show k = k - 1 + 1 by omega, Nat.pow_succ]
    exact Nat.mul_mod_left _ _
  have hbytes : Words.le16 b.flatByte (0xC00000 + i) = b.flash.read16 (BitVec.ofNat 32 i) := by
    rw [FlashDevice.read16_eq_le16 _ hi h32]
    refine Words.le16_eq fun j hj => ?_
    rw [Nat.add_assoc]
    exact flatByte_flash b (show i + j < b.flash.size by omega)
  rw [hbytes]
  split_ifs with hmode
  · exact (FlashDevice.read16_readMode _ hmode hsize hi hlt (by omega)).symm
  · rfl

/-- The offset of an address in the flash window. -/
theorem flash_offset (h : b.classify addr = .flash) :
    (mask28 addr).toNat = 0xC00000 + (mask28 addr - flashBase).toNat ∧
      (mask28 addr - flashBase).toNat < b.flash.size := by
  obtain ⟨hlo, hhi⟩ := regionOf_eq_flash_iff.mp h
  have hlo' : 0xC00000 ≤ (mask28 addr).toNat := hlo
  have hhi' : (mask28 addr).toNat < 0xC00000 + b.flash.size := hhi
  rw [toNat_sub_base hlo]
  change _ = _ + ((mask28 addr).toNat - 0xC00000) ∧ (mask28 addr).toNat - 0xC00000 < _
  omega

theorem read8_mapped (hm : b.Mapped addr) :
    (b.read8 io addr).1 = b.flatByte (flatIndex addr) ∧ (b.read8 io addr).2.SameMemory b := by
  have hclass : b.classify (mask28 addr) = b.classify addr := regionOf_mask28 _
  unfold read8
  dsimp only
  rw [hclass]
  rcases hm with h | h | h
  · obtain ⟨hidx, hlt⟩ := flatIndex_iram b h
    rw [h, hidx, flatByte_iram b hlt]
    exact ⟨rfl, rfl, rfl, rfl⟩
  · obtain ⟨hidx, hlt⟩ := flatIndex_sram b h
    rw [h, hidx, flatByte_sram b hlt]
    dsimp only
    split_ifs with h1 h2 h2
    · exact absurd h2 (Nat.not_lt.mpr h1)
    · exact ⟨rfl, rfl, rfl, rfl⟩
    · exact ⟨rfl, sameMemory_noteSramRead ..⟩
    · exact absurd (Nat.not_le.mp h1) h2
  · obtain ⟨hidx, hlt⟩ := flatIndex_flash b h
    rw [h, hidx, flatByte_flash b hlt, BitVec.ofNat_toNat, BitVec.setWidth_eq]
    exact ⟨rfl, rfl, rfl, rfl⟩

theorem read16_mapped (hb : b.WellSized) (he : addr &&& 1 = 0) (hm : b.Mapped addr) :
    (b.read16 io addr).1 = Words.le16 b.flatByte (flatIndex addr) ∧
      (b.read16 io addr).2.SameMemory b := by
  have hmod := mod_two_of_even he
  have hsize := hb.sramSize_mod
  rw [read16_even io b he]
  rcases hm with h | h | h
  · have hmod' := flatIndex_mod (.inl rfl) addr
    obtain ⟨hidx, hlt⟩ := flatIndex_iram b h
    rw [h]
    refine ⟨?_, rfl, rfl, rfl⟩
    rw [hidx] at hmod' ⊢
    exact Words.le16_eq fun j hj => (flatByte_iram b (by omega)).symm
  · have hmod' := flatIndex_mod (.inl rfl) addr
    obtain ⟨hidx, hlt⟩ := flatIndex_sram b h
    rw [h]
    rw [hidx] at hmod' ⊢
    have hbyte (j : ℕ) (hj : j < 2) := flatByte_sram b
      (show (mask28 addr - sramBase).toNat + j < 0x100000 by omega)
    dsimp only
    split_ifs with hout
    · refine ⟨(Words.le16_openBus fun j hj => ?_).symm, rfl, rfl, rfl⟩
      rw [Nat.add_assoc, hbyte j hj, if_neg (by omega)]
    · refine ⟨Words.le16_eq fun j hj => ?_, sameMemory_noteSramRead ..⟩
      rw [Nat.add_assoc, hbyte j hj, if_pos (by omega)]
  · obtain ⟨hidx, hlt⟩ := flatIndex_flash b h
    have hoff := flash_offset b h
    have h28 := mask28_lt addr
    rw [h]
    refine ⟨?_, rfl, rfl, rfl⟩
    rw [hidx, ← flash_le16 b hb (by omega) hlt (by omega), BitVec.ofNat_toNat, BitVec.setWidth_eq]

theorem alignTo_three (ha : (mask28 addr).toNat % 4 = 0) :
    b.alignTo 3 (mask28 addr) = (mask28 addr, b) := by
  unfold alignTo
  rw [if_neg]
  rw [not_not, ← BitVec.toNat_inj, show (3 : U32) = BitVec.ofNat 32 (2 ^ 2 - 1) from rfl,
    Words.toNat_and_low]
  exact ha

/-- An aligned word read, by its region. -/
theorem read32_aligned (ha : (mask28 addr).toNat % 4 = 0) :
    b.read32 io addr =
      match b.classify addr with
      | .iram => (Words.le32 b.iram (iramIndex (mask28 addr)), b)
      | .sram =>
        if b.sramSize ≤ (mask28 addr - sramBase).toNat then
          (0xFFFFFFFF, b.charge (b.extReadCycles b.sramWait * 2))
        else
          (Words.le32 b.sram (mask28 addr - sramBase).toNat,
            (b.charge (b.extReadCycles b.sramWait * 2)).noteSramRead (mask28 addr)
              (Words.le32 b.sram (mask28 addr - sramBase).toNat) 4)
      | .flash =>
        (if b.flash.inReadMode then Words.le32 b.flash.mem (mask28 addr - flashBase).toNat
          else (b.flash.read16 (mask28 addr - flashBase)).setWidth 32 |||
            (b.flash.read16 (mask28 addr + 2 - flashBase)).setWidth 32 <<< 16,
          b.charge (b.extReadCycles b.flashWait * 2))
      | .io =>
        let (lo, b) := b.read16 io (mask28 addr)
        let (hi, b) := b.read16 io (mask28 addr + 2)
        (lo.setWidth 32 ||| hi.setWidth 32 <<< 16, b)
      | .none => (0xFFFFFFFF, b) := by
  have hclass : b.classify (mask28 addr) = b.classify addr := regionOf_mask28 _
  unfold read32
  rw [alignTo_three b ha]
  dsimp only
  rw [hclass]
  cases b.classify addr with
  | flash => exact (apply_ite (·, b.charge (b.extReadCycles b.flashWait * 2)) ..).symm
  | iram | sram | io | none => rfl

theorem read32_mapped (hb : b.WellSized) (ha : (mask28 addr).toNat % 4 = 0) (hm : b.Mapped addr) :
    (b.read32 io addr).1 = Words.le32 b.flatByte (flatIndex addr) ∧
      (b.read32 io addr).2.SameMemory b := by
  have hsize := hb.sramSize_mod
  have hmod' := flatIndex_mod (.inr rfl) addr
  rw [read32_aligned io b ha]
  rcases hm with h | h | h
  · obtain ⟨hidx, hlt⟩ := flatIndex_iram b h
    rw [h]
    refine ⟨?_, rfl, rfl, rfl⟩
    rw [hidx] at hmod' ⊢
    exact Words.le32_eq fun j hj => (flatByte_iram b (by omega)).symm
  · obtain ⟨hidx, hlt⟩ := flatIndex_sram b h
    rw [h]
    rw [hidx] at hmod' ⊢
    have hbyte (j : ℕ) (hj : j < 4) := flatByte_sram b
      (show (mask28 addr - sramBase).toNat + j < 0x100000 by omega)
    dsimp only
    split_ifs with hout
    · refine ⟨(Words.le32_openBus fun j hj => ?_).symm, rfl, rfl, rfl⟩
      rw [Nat.add_assoc, hbyte j hj, if_neg (by omega)]
    · refine ⟨Words.le32_eq fun j hj => ?_, sameMemory_noteSramRead ..⟩
      rw [Nat.add_assoc, hbyte j hj, if_pos (by omega)]
  · -- a word of flash is read as two halfwords
    obtain ⟨hidx, hlt⟩ := flatIndex_flash b h
    obtain ⟨k, hk, hpow⟩ := hb.flash_pow
    have hoff := flash_offset b h
    have h28 := mask28_lt addr
    have hfour : b.flash.size % 4 = 0 := by
      rw [hpow, show k = k - 2 + 2 by omega, Nat.pow_add]
      exact Nat.mul_mod_left _ _
    have hhi : mask28 addr + 2 - flashBase =
        BitVec.ofNat 32 ((mask28 addr - flashBase).toNat + 2) := by
      rw [BitVec.ofNat_add, BitVec.ofNat_toNat, BitVec.setWidth_eq]
      bv_omega
    have h0 := flash_le16 b hb (i := (mask28 addr - flashBase).toNat) (by omega) hlt (by omega)
    have h2 := flash_le16 b hb (i := (mask28 addr - flashBase).toNat + 2) (by omega) (by omega)
      (by omega)
    rw [BitVec.ofNat_toNat, BitVec.setWidth_eq] at h0
    rw [h]
    refine ⟨?_, rfl, rfl, rfl⟩
    rw [hidx, Words.le32_eq_le16 b.flatByte, Nat.add_assoc, ← h0, ← h2, hhi]
    dsimp only
    split_ifs with hmode
    · exact Words.le32_eq_le16 ..
    · rfl

/-- An instruction fetch, by its region. -/
theorem fetch16_even (he : addr &&& 1 = 0) :
    b.fetch16 addr =
      match b.classify addr with
      | .flash =>
        (Words.le16 b.flash.mem (mask28 addr - flashBase).toNat,
          b.charge (b.extReadCycles b.flashWait))
      | .iram => (Words.le16 b.iram (iramIndex (mask28 addr)), b.charge 1)
      | .sram =>
        (if (mask28 addr - sramBase).toNat < b.sramSize then
            Words.le16 b.sram (mask28 addr - sramBase).toNat else 0xFFFF,
          b.charge (b.extReadCycles b.sramWait))
      | .io | .none => (0xFFFF, b.charge 1) := by
  have hmask : mask28 addr &&& ~~~1#32 = mask28 addr := by
    have h := congrArg Prod.fst (alignTo_eq b 1 (mask28 addr))
    rw [alignTo_one_even b he] at h
    exact h.symm
  have hregion : b.classify addr = regionOf b.flash.size addr := rfl
  have hlow (h : (mask28 addr).toNat < 0x2000) :
      iramIndex (mask28 addr) = (mask28 addr).toNat := by
    rw [show iramIndex (mask28 addr) = (mask28 addr).toNat % 2 ^ 13 from Words.toNat_and_low _ 13]
    omega
  unfold fetch16
  rw [hmask, hregion, regionOf_eq]
  dsimp only
  simp only [BitVec.le_def, BitVec.lt_def]
  change (if 0xC00000 ≤ (mask28 addr).toNat ∧ (mask28 addr).toNat < 0xC00000 + b.flash.size then _
    else if (mask28 addr).toNat < 0x2000 then _
    else if 0x2000 ≤ (mask28 addr).toNat ∧ (mask28 addr).toNat < 0x3000 then _
    else if 0x100000 ≤ (mask28 addr).toNat ∧ (mask28 addr).toNat < 0x200000 then _ else _) = _
  split_ifs <;> first
    | rfl
    | omega
    | exact congrArg (fun i => (Words.le16 b.iram i, b.charge 1)) (hlow ‹_›).symm

/-- An instruction fetch is a halfword read that skips the command state of the flash. -/
theorem fetch16_mapped (hb : b.WellSized) (he : addr &&& 1 = 0) (hm : b.Mapped addr)
    (hmode : b.classify addr = .flash → b.flash.inReadMode = true) :
    (b.fetch16 addr).1 = Words.le16 b.flatByte (flatIndex addr) ∧
      (b.fetch16 addr).2.SameMemory b := by
  obtain ⟨hread, -⟩ := read16_mapped (IoSpace.empty D) b hb he hm
  rw [← hread, read16_even _ b he, fetch16_even b he]
  rcases hm with h | h | h
  · rw [h]
    exact ⟨rfl, rfl, rfl, rfl⟩
  · rw [h]
    dsimp only
    split_ifs with h1 h2
    · exact absurd h1 (Nat.not_lt.mpr h2)
    · exact ⟨rfl, rfl, rfl, rfl⟩
    · exact ⟨rfl, rfl, rfl, rfl⟩
    · exact absurd (Nat.not_le.mp ‹_›) h1
  · rw [h, hmode h]
    exact ⟨rfl, rfl, rfl, rfl⟩

/-! ### Writing, at aligned addresses -/

/-- What a write to the internal RAM makes of the byte memory. -/
theorem flat_iram {m bytes : ℕ → U8} (hin : ∀ i < 0x2000, bytes i = m i)
    (hout : ∀ i, 0x2000 ≤ i → bytes i = b.flatByte i) :
    ({ b with iram := m } : Bus D).flat = b.flat.store bytes := by
  refine FlatMemory.ext (funext fun i => ?_) rfl rfl
  change ({ b with iram := m } : Bus D).flatByte i =
    if b.flatWritable i then bytes i else b.flatByte i
  by_cases hi : i < 0x2000
  · have hw : b.flatWritable i = true := by simp [flatWritable, hi]
    rw [if_pos hw, hin i hi, flatByte_iram _ hi]
  · have hkeep : ({ b with iram := m } : Bus D).flatByte i = b.flatByte i := by
      unfold flatByte
      rw [if_neg hi, if_neg hi]
    rw [hkeep, hout i (Nat.not_lt.mp hi), ite_self]

/-- What a write to the SRAM makes of it. -/
theorem flat_sram (hb : b.WellSized) {m bytes : ℕ → U8}
    (hin : ∀ i < b.sramSize, bytes (0x100000 + i) = m i)
    (hout : ∀ i < 0x2000, bytes i = b.flatByte i) :
    ({ b with sram := m } : Bus D).flat = b.flat.store bytes := by
  have hle := hb.sramSize_le
  refine FlatMemory.ext (funext fun i => ?_) rfl rfl
  change ({ b with sram := m } : Bus D).flatByte i =
    if b.flatWritable i then bytes i else b.flatByte i
  unfold flatWritable
  split_ifs with hw
  · simp only [Bool.or_eq_true, Bool.and_eq_true, decide_eq_true_eq] at hw
    rcases hw with hi | ⟨hlo, hhi⟩
    · rw [hout i hi, flatByte_iram _ hi, flatByte_iram _ hi]
    · obtain ⟨j, rfl⟩ := Nat.exists_eq_add_of_le hlo
      rw [hin j (by omega), flatByte_sram _ (show j < 0x100000 by omega)]
      exact if_pos (show j < b.sramSize by omega)
  · simp only [Bool.or_eq_true, Bool.and_eq_true, decide_eq_true_eq, not_or, not_and] at hw
    unfold flatByte
    dsimp only
    split_ifs <;> first | rfl | omega

/-- Bytes that are nowhere writable are not stored. -/
theorem flat_dropped {bytes : ℕ → U8} (h : ∀ i, b.flatWritable i = true → bytes i = b.flatByte i) :
    b.flat = b.flat.store bytes := by
  refine FlatMemory.ext (funext fun i => ?_) rfl rfl
  change b.flatByte i = if b.flatWritable i then bytes i else b.flatByte i
  split_ifs with hw
  · exact (h i hw).symm
  · rfl

/-- The calls a write to SRAM makes move no memory. -/
theorem noteSramWrite_eq (a v : U32) (n : ℕ) : ∃ calls shadow,
    b.noteSramWrite a v n = { b with wpCalls := calls, shadowSram := shadow } := by
  unfold noteSramWrite
  split_ifs
  · exact ⟨_, _, rfl⟩
  · exact ⟨_, _, rfl⟩

section Put

variable {b} {n : ℕ} {put : (ℕ → U8) → ℕ → ℕ → U8} (hput : Words.Stores n put)
include hput

/-- A store to the internal RAM. -/
theorem flat_iram_put {i : ℕ} (hi : i + n ≤ 0x2000) :
    ({ b with iram := put b.iram i } : Bus D).flat = b.flat.store (put b.flatByte i) := by
  refine flat_iram b (fun j hj => ?_) fun j hj => hput.kept _ _ _ (by omega)
  by_cases hin : i ≤ j ∧ j < i + n
  · obtain ⟨k, rfl⟩ := Nat.exists_eq_add_of_le hin.1
    exact hput.stored _ _ _ _ k (by omega)
  · rw [hput.kept _ _ _ (by omega), hput.kept _ _ _ (by omega), flatByte_iram b hj]

/-- A store to the installed SRAM. -/
theorem flat_sram_put (hb : b.WellSized) {i : ℕ} :
    ({ b with sram := put b.sram i } : Bus D).flat =
      b.flat.store (put b.flatByte (0x100000 + i)) := by
  have hle := hb.sramSize_le
  refine flat_sram b hb (fun j hj => ?_) fun j hj => hput.kept _ _ _ (by omega)
  by_cases hin : i ≤ j ∧ j < i + n
  · obtain ⟨k, rfl⟩ := Nat.exists_eq_add_of_le hin.1
    rw [← Nat.add_assoc]
    exact hput.stored _ _ _ _ k (by omega)
  · rw [hput.kept _ _ _ (by omega), hput.kept _ _ _ (by omega),
      flatByte_sram b (by omega), if_pos hj]

/-- A store to the SRAM, after the calls it makes. -/
theorem flat_noted_put (hb : b.WellSized) {i : ℕ} (c : ℤ) (a v : U32) (width : ℕ) :
    ({ (b.charge c).noteSramWrite a v width with
        sram := put ((b.charge c).noteSramWrite a v width).sram i } : Bus D).flat =
        b.flat.store (put b.flatByte (0x100000 + i)) ∧
      ({ (b.charge c).noteSramWrite a v width with
        sram := put ((b.charge c).noteSramWrite a v width).sram i } : Bus D).Keeps b := by
  obtain ⟨calls, shadow, heq⟩ := (b.charge c).noteSramWrite_eq a v width
  rw [heq]
  exact ⟨flat_sram_put hput hb, rfl, rfl⟩

/-- A store beyond the installed SRAM. -/
theorem flat_dropped_put {i : ℕ} (hi : b.sramSize ≤ i) :
    b.flat = b.flat.store (put b.flatByte (0x100000 + i)) := by
  refine flat_dropped b fun j hj => hput.kept _ _ _ ?_
  simp only [flatWritable, Bool.or_eq_true, Bool.and_eq_true, decide_eq_true_eq] at hj
  rcases hj with hj | ⟨-, hj⟩
  · omega
  · exact .inl (Nat.lt_of_lt_of_le hj (Nat.add_le_add_left hi _))

end Put

/-- An address of RAM. -/
def InRam (addr : U32) : Prop := b.classify addr = .iram ∨ b.classify addr = .sram

theorem write8_inRam (hb : b.WellSized) (v : U8) (hm : b.InRam addr) :
    (b.write8 io addr v).1.flat =
        b.flat.store (Function.update b.flatByte (flatIndex addr) v) ∧
      (b.write8 io addr v).1.Keeps b := by
  have hclass : b.classify (mask28 addr) = b.classify addr := regionOf_mask28 _
  unfold write8
  dsimp only
  rw [hclass]
  rcases hm with h | h
  · obtain ⟨hidx, hlt⟩ := flatIndex_iram b h
    rw [h, hidx]
    exact ⟨flat_iram_put (Words.stores_update v) hlt, rfl, rfl⟩
  · obtain ⟨hidx, hlt⟩ := flatIndex_sram b h
    rw [h, hidx]
    dsimp only
    split_ifs with hin
    · exact flat_noted_put (Words.stores_update v) hb ..
    · exact ⟨flat_dropped_put (Words.stores_update v) (Nat.not_lt.mp hin), rfl, rfl⟩

theorem write16_inRam (hb : b.WellSized) (v : U16) (he : addr &&& 1 = 0) (hm : b.InRam addr) :
    (b.write16 io addr v).1.flat =
        b.flat.store (Words.putLe16 b.flatByte (flatIndex addr) v) ∧
      (b.write16 io addr v).1.Keeps b := by
  have hclass : b.classify (mask28 addr) = b.classify addr := regionOf_mask28 _
  have hmod := mod_two_of_even he
  have hmod' := flatIndex_mod (.inl rfl) addr
  have hsize := hb.sramSize_mod
  unfold write16
  rw [alignTo_one_even b he]
  dsimp only
  rw [hclass]
  rcases hm with h | h
  · obtain ⟨hidx, hlt⟩ := flatIndex_iram b h
    rw [hidx] at hmod' ⊢
    rw [h]
    exact ⟨flat_iram_put (Words.stores_putLe16 v) (by omega), rfl, rfl⟩
  · obtain ⟨hidx, hlt⟩ := flatIndex_sram b h
    rw [hidx] at hmod' ⊢
    rw [h]
    dsimp only
    split_ifs with hin
    · exact flat_noted_put (Words.stores_putLe16 v) hb ..
    · exact ⟨flat_dropped_put (Words.stores_putLe16 v) (Nat.not_lt.mp hin), rfl, rfl⟩

/-- An aligned word written, by its region. -/
theorem write32_aligned (ha : (mask28 addr).toNat % 4 = 0) (v : U32) :
    b.write32 io addr v =
      match b.classify addr with
      | .iram => ({ b with iram := Words.putLe32 b.iram (iramIndex (mask28 addr)) v }, {})
      | .sram =>
        let b := b.charge (b.extWriteCycles b.sramWait * 2)
        if (mask28 addr - sramBase).toNat < b.sramSize then
          let b := b.noteSramWrite (mask28 addr) v 4
          ({ b with sram := Words.putLe32 b.sram (mask28 addr - sramBase).toNat v }, {})
        else (b, {})
      | .flash =>
        let b := b.charge (b.extWriteCycles b.flashWait * 2)
        let b := b.flashWrite16 (mask28 addr - flashBase) (v.setWidth 16)
        (b.flashWrite16 (mask28 addr + 2 - flashBase) ((v >>> 16).setWidth 16), {})
      | .io =>
        let (b, q) := b.write16 io (mask28 addr) (v.setWidth 16)
        let (b, q') := b.write16 io (mask28 addr + 2) ((v >>> 16).setWidth 16)
        (b, q.andThen q')
      | .none => (b, {}) := by
  have hclass : b.classify (mask28 addr) = b.classify addr := regionOf_mask28 _
  unfold write32
  rw [alignTo_three b ha]
  dsimp only
  rewrite [hclass]
  cases b.classify addr with
  | iram | sram | flash | io | none => rfl

theorem write32_inRam (hb : b.WellSized) (v : U32) (ha : (mask28 addr).toNat % 4 = 0)
    (hm : b.InRam addr) :
    (b.write32 io addr v).1.flat =
        b.flat.store (Words.putLe32 b.flatByte (flatIndex addr) v) ∧
      (b.write32 io addr v).1.Keeps b := by
  have hmod' := flatIndex_mod (.inr rfl) addr
  rw [write32_aligned io b ha]
  rcases hm with h | h
  · obtain ⟨hidx, hlt⟩ := flatIndex_iram b h
    rw [hidx] at hmod' ⊢
    rw [h]
    exact ⟨flat_iram_put (Words.stores_putLe32 v) (by omega), rfl, rfl⟩
  · obtain ⟨hidx, hlt⟩ := flatIndex_sram b h
    rw [hidx] at hmod' ⊢
    rw [h]
    dsimp only
    split_ifs with hin
    · exact flat_noted_put (Words.stores_putLe32 v) hb ..
    · exact ⟨flat_dropped_put (Words.stores_putLe32 v) (Nat.not_lt.mp hin), rfl, rfl⟩

/-! ### The refinement -/

variable {io b}

theorem WellSized.flagged (hb : b.WellSized) (fault : Bool) : (b.flagged fault).WellSized :=
  ⟨hb.sramSize_mod, hb.sramSize_le, hb.flash_pow⟩

theorem toMemory_mapped {op : MemOp} (hop : b.ToMemory op) : b.Mapped op.addr := by
  unfold ToMemory at hop
  unfold Mapped
  cases h : b.classify op.addr with
  | iram => exact .inl rfl
  | sram => exact .inr (.inl rfl)
  | flash => exact .inr (.inr rfl)
  | io | none => exact (by rw [h] at hop; exact hop.elim)

theorem toMemory_inRam {op : MemOp} (hop : b.ToMemory op) (hw : op.isWrite = true) :
    b.InRam op.addr := by
  rcases toMemory_mapped hop with h | h | h
  · exact .inl h
  · exact .inr h
  · unfold ToMemory at hop
    rw [h] at hop
    exact absurd hw (Bool.eq_false_iff.mp hop.1)

theorem InRam.toMemory {op : MemOp} (h : b.InRam op.addr) : b.ToMemory op := by
  unfold ToMemory
  rcases h with h | h
  · rw [h]
    trivial
  · rw [h]
    trivial

theorem toMemory_fetch16 {a : U32} (hop : b.ToMemory (.fetch16 a))
    (h : b.classify a = .flash) : b.flash.inReadMode = true := by
  unfold ToMemory at hop
  rw [show b.classify (MemOp.fetch16 a).addr = .flash from h] at hop
  exact hop.2 rfl

theorem down_even (addr : U32) : down 1 addr &&& 1 = 0 := by
  rw [and_one_eq_zero_iff, toNat_down]
  exact Nat.mul_mod_left _ _

theorem down_mod_four (addr : U32) : (mask28 (down 2 addr)).toNat % 4 = 0 := by
  rw [mask28_down, toNat_down]
  exact Nat.mul_mod_left _ _

/-- Aligning an address leaves it in its region. -/
theorem Mapped.down (h : b.Mapped addr) (hb : b.WellSized) {k : ℕ} (hk : k = 1 ∨ k = 2)
    (fault : Bool) : (b.flagged fault).Mapped (Bus.down k addr) := by
  unfold Mapped at h
  rw [← classify_down b hb hk] at h
  exact h

theorem InRam.down (h : b.InRam addr) (hb : b.WellSized) {k : ℕ} (hk : k = 1 ∨ k = 2)
    (fault : Bool) : (b.flagged fault).InRam (Bus.down k addr) := by
  unfold InRam at h
  rw [← classify_down b hb hk] at h
  exact h

/-- **Every access of the bus is the access of the byte memory.** -/
theorem access_refines (hb : b.WellSized) {op : MemOp} (hop : b.ToMemory op) :
    (b.access io op).1 = (b.flat.access flatIndex op).1 ∧
      (b.access io op).2.flat = (b.flat.access flatIndex op).2 ∧ (b.access io op).2.Keeps b := by
  have hmapped := toMemory_mapped hop
  -- a misaligned access is flagged, and is done at the address rounded down
  cases op with
  | read8 a =>
    obtain ⟨hval, hsame⟩ := read8_mapped io b hmapped
    exact ⟨congrArg (BitVec.setWidth 32) hval, hsame⟩
  | read16 a =>
    obtain ⟨hval, hflat, hkeeps⟩ := read16_mapped io _ (hb.flagged _) (down_even a)
      (hmapped.down hb (.inl rfl) (misaligned 1 a))
    rw [flatIndex_down (.inl rfl)] at hval
    rw [flat_flagged b 1 (.inl rfl)] at hflat
    rw [← read16_align] at hval hflat hkeeps
    exact ⟨congrArg (BitVec.setWidth 32) hval, hflat, hkeeps⟩
  | read32 a =>
    obtain ⟨hval, hflat, hkeeps⟩ := read32_mapped io _ (hb.flagged _) (down_mod_four a)
      (hmapped.down hb (.inr rfl) (misaligned 2 a))
    rw [flatIndex_down (.inr rfl)] at hval
    rw [flat_flagged b 2 (.inr rfl)] at hflat
    rw [← read32_align] at hval hflat hkeeps
    exact ⟨hval, hflat, hkeeps⟩
  | fetch16 a =>
    have hclass := classify_down b hb (.inl rfl) a
    obtain ⟨hval, hsame⟩ := fetch16_mapped b hb (down_even a)
      (hmapped.down hb (.inl rfl) false) fun h => toMemory_fetch16 hop (hclass.symm.trans h)
    rw [flatIndex_down (.inl rfl)] at hval
    rw [← fetch16_align] at hval hsame
    exact ⟨congrArg (BitVec.setWidth 32) hval, hsame⟩
  | write8 a v =>
    exact ⟨rfl, write8_inRam io b hb v (toMemory_inRam hop rfl)⟩
  | write16 a v =>
    obtain ⟨hflat, hkeeps⟩ := write16_inRam io _ (hb.flagged _) v (down_even a)
      ((toMemory_inRam hop rfl).down hb (.inl rfl) (misaligned 1 a))
    rw [flatIndex_down (.inl rfl), flat_flagged b 1 (.inl rfl)] at hflat
    rw [← write16_align] at hflat hkeeps
    exact ⟨rfl, hflat, hkeeps⟩
  | write32 a v =>
    obtain ⟨hflat, hkeeps⟩ := write32_inRam io _ (hb.flagged _) v (down_mod_four a)
      ((toMemory_inRam hop rfl).down hb (.inr rfl) (misaligned 2 a))
    rw [flatIndex_down (.inr rfl), flat_flagged b 2 (.inr rfl)] at hflat
    rw [← write32_align] at hflat hkeeps
    exact ⟨rfl, hflat, hkeeps⟩

/-- The accesses of a sequence stay accesses to memory. -/
theorem ToMemory.of_keeps {b' : Bus D} {op : MemOp} (hop : b.ToMemory op) (h : b'.Keeps b) :
    b'.ToMemory op := by
  unfold ToMemory classify at hop ⊢
  rw [h.2]
  exact hop

theorem WellSized.of_keeps {b' : Bus D} (hb : b.WellSized) (h : b'.Keeps b) : b'.WellSized := by
  obtain ⟨hmod, hle, hpow⟩ := hb
  rw [← h.1] at hmod hle
  rw [← h.2] at hpow
  exact ⟨hmod, hle, hpow⟩

/-- **The bus is one flat little-endian byte memory**: over any sequence of accesses to
memory it answers as the byte memory does, and leaves it as the byte memory is left. -/
theorem run_refines (io : IoSpace D) (b : Bus D) (ops : List MemOp) (hb : b.WellSized)
    (hops : ∀ op ∈ ops, b.ToMemory op) :
    ActionRun.answers (access io) b ops =
        ActionRun.answers (FlatMemory.access · flatIndex) b.flat ops ∧
      (ActionRun.exec (fun b op => (access io b op).2) b ops).flat =
        ActionRun.exec (fun m op => (FlatMemory.access m flatIndex op).2) b.flat ops := by
  have halong : ActionRun.Along (fun b op => (access io b op).2)
      (fun b op => b.WellSized ∧ b.ToMemory op) b ops := by
    induction ops generalizing b with
    | nil => exact trivial
    | cons op ops ih =>
      have hop := hops op (List.mem_cons_self ..)
      obtain ⟨-, -, hkeeps⟩ := @access_refines D io b hb op hop
      exact ⟨⟨hb, hop⟩, ih _ (hb.of_keeps hkeeps) fun op' h' =>
        (hops op' (List.mem_cons_of_mem _ h')).of_keeps hkeeps⟩
  refine ActionRun.answers_simulation (fun b op h => ?_) halong
  obtain ⟨hval, hflat, -⟩ := @access_refines D io b h.1 op h.2
  exact ⟨hval, hflat⟩

/-- The bus of a board with 256 KB of SRAM and a 512 KB chip that shows its ID. -/
def board : Bus Unit where
  iram := fun _ => 0
  sram := fun _ => 0
  sramSize := 0x40000
  flash := .sst39vf
    { memSize := 0x80000
      memSize_pow := ⟨19, rfl⟩
      sector_le_memSize := by decide
      mem := fun _ => 0xFF
      dirty := fun _ => false
      state := .softwareId }
  dev := ()

/-- A word that is not aligned, bytes through the mirror, a read beyond the installed memory,
and the ID of the flash. -/
def boardOps : List MemOp :=
  [.write32 0x100002 0x12345678, .read16 0x100001, .write8 0x2005 0xAB, .read32 0x4,
    .read8 0x140000, .read32 0xC00001]

theorem run_refines_board :
    ActionRun.answers (access (IoSpace.empty Unit)) board boardOps =
        ActionRun.answers (FlatMemory.access · flatIndex) board.flat boardOps ∧
      (ActionRun.exec (fun b op => (access (IoSpace.empty Unit) b op).2) board boardOps).flat =
        ActionRun.exec (fun m op => (FlatMemory.access m flatIndex op).2) board.flat boardOps :=
  run_refines (IoSpace.empty Unit) board boardOps
    { sramSize_mod := by decide
      sramSize_le := by decide
      flash_pow := ⟨19, by decide, by decide⟩ }
    (List.forall_mem_cons.mpr ⟨InRam.toMemory (.inr (by decide)),
      List.forall_mem_cons.mpr ⟨InRam.toMemory (.inr (by decide)),
      List.forall_mem_cons.mpr ⟨InRam.toMemory (.inl (by decide)),
      List.forall_mem_cons.mpr ⟨InRam.toMemory (.inl (by decide)),
      List.forall_mem_cons.mpr ⟨InRam.toMemory (.inr (by decide)),
      List.forall_mem_cons.mpr ⟨⟨rfl, nofun⟩, nofun⟩⟩⟩⟩⟩⟩)

end Bus
