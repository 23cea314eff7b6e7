import PieceEmu.Core.Bus

/-!
# Reading the bus

What an aligned access to the bus amounts to once its region is known: the fast
paths of `Bus.read16` agree with the memory map (`Bus.read16_even`), and an access
that is not aligned leaves the fault flag up (`Bus.read16_odd`).
-/

namespace Bus

variable {D : Type} (io : IoSpace D) (b : Bus D) {addr : U32}

/-! ### Charging cycles -/

@[simp] theorem charge_zero : b.charge 0 = b := by
  simp [charge]

@[simp] theorem charge_charge (i j : ℤ) : (b.charge i).charge j = b.charge (i + j) := by
  simp only [charge, BitVec.ofInt_add, BitVec.add_assoc]

/-! ### Addresses -/

@[simp] theorem mask28_mask28 : mask28 (mask28 addr) = mask28 addr := by
  rw [mask28, mask28, BitVec.and_assoc, BitVec.and_self]

theorem toNat_mask28 (addr : U32) : (mask28 addr).toNat = addr.toNat % 2 ^ 28 :=
  Words.toNat_and_low addr 28

theorem mask28_and_one (addr : U32) : mask28 addr &&& 1 = addr &&& 1 := by
  rw [mask28, BitVec.and_assoc]
  rfl

/-- The lowest bit of an address says whether it is odd. -/
theorem and_one_eq_zero_iff (addr : U32) : addr &&& 1 = 0 ↔ addr.toNat % 2 = 0 := by
  rw [← BitVec.toNat_inj, show (1 : U32) = BitVec.ofNat 32 (2 ^ 1 - 1) from rfl,
    Words.toNat_and_low]
  rfl

@[simp] theorem regionOf_mask28 (flashSize : ℕ) :
    regionOf flashSize (mask28 addr) = regionOf flashSize addr := by
  unfold regionOf
  rw [mask28_mask28]

/-- The SRAM window comes first in the memory map. -/
theorem regionOf_eq_sram_iff {flashSize : ℕ} :
    regionOf flashSize addr = .sram ↔
      sramBase ≤ mask28 addr ∧ mask28 addr < sramBase + sramWindow := by
  unfold regionOf
  dsimp only
  split_ifs <;> simp_all

theorem regionOf_eq_flash_iff {flashSize : ℕ} :
    regionOf flashSize addr = .flash ↔
      flashBase ≤ mask28 addr ∧ (mask28 addr).toNat < flashBase.toNat + flashSize := by
  have hdisj (h : flashBase ≤ mask28 addr) : ¬mask28 addr < sramBase + sramWindow := by
    have : sramBase + sramWindow ≤ flashBase := by decide
    exact fun h' => absurd (BitVec.le_trans this h) (BitVec.not_le.mpr h')
  unfold regionOf
  dsimp only
  split_ifs with h1 h2
  · exact ⟨nofun, fun h => absurd h1.2 (hdisj h.1)⟩
  all_goals simp_all

/-- Nothing is mapped above the flash device. -/
theorem regionOf_eq_none {flashSize : ℕ} (h : flashBase ≤ mask28 addr)
    (hf : regionOf flashSize addr ≠ .flash) : regionOf flashSize addr = .none := by
  rw [Ne, regionOf_eq_flash_iff] at hf
  have hf' : 0xC00000 ≤ (mask28 addr).toNat := h
  unfold regionOf
  dsimp only
  rw [if_neg, if_neg hf, if_neg, if_neg, if_neg]
  · rintro ⟨-, h'⟩
    have : (mask28 addr).toNat < 0x003000 := h'
    omega
  · change ¬(mask28 addr).toNat < 0x2000
    omega
  · rintro ⟨-, h'⟩
    have : (mask28 addr).toNat < 0x080000 := h'
    omega
  · rintro ⟨-, h'⟩
    have : (mask28 addr).toNat < 0x200000 := h'
    omega

/-! ### Halfword reads -/

theorem alignTo_one_even (he : addr &&& 1 = 0) : b.alignTo 1 (mask28 addr) = (mask28 addr, b) := by
  unfold alignTo
  rw [mask28_and_one, he, if_neg (not_not.mpr rfl)]

/-- The offset test of the fast path is the test of the SRAM window. -/
theorem sub_sramBase_lt_iff (a : U32) :
    a - sramBase < sramWindow ↔ sramBase ≤ a ∧ a < sramBase + sramWindow := by
  simp only [sramBase, sramWindow]
  bv_omega

/-- **An aligned halfword read, by its region.** -/
theorem read16_even (he : addr &&& 1 = 0) :
    b.read16 io addr =
      match b.classify addr with
      | .sram =>
        let v := Words.le16 b.sram (mask28 addr - sramBase).toNat
        if b.sramSize ≤ (mask28 addr - sramBase).toNat then
          (0xFFFF, b.charge (b.extReadCycles b.sramWait))
        else
          (v, (b.charge (b.extReadCycles b.sramWait)).noteSramRead (mask28 addr) (v.setWidth 32) 2)
      | .flash =>
        (if b.flash.inReadMode then Words.le16 b.flash.mem (mask28 addr - flashBase).toNat
          else b.flash.read16 (mask28 addr - flashBase), b.charge (b.extReadCycles b.flashWait))
      | .iram => (Words.le16 b.iram (iramIndex (mask28 addr)), b)
      | .io => (b.ioRead io (mask28 addr)).getD (0xFFFF, b)
      | .none => (0xFFFF, b) := by
  unfold read16
  rw [alignTo_one_even b he]
  dsimp only
  have hc : b.classify addr = regionOf b.flash.size addr := rfl
  by_cases hs : regionOf b.flash.size addr = .sram
  · rw [if_pos ((sub_sramBase_lt_iff _).mpr (regionOf_eq_sram_iff.mp hs)), hc, hs]
    rfl
  rw [if_neg (mt (fun h => regionOf_eq_sram_iff.mpr ((sub_sramBase_lt_iff _).mp h)) hs)]
  by_cases hf : regionOf b.flash.size addr = .flash
  · obtain ⟨hf1, hf2⟩ := regionOf_eq_flash_iff.mp hf
    rw [if_pos hf1, if_pos hf2, hc, hf]
    exact (apply_ite (·, b.charge (b.extReadCycles b.flashWait)) ..).symm
  by_cases hb : flashBase ≤ mask28 addr
  · have hn : regionOf b.flash.size addr = .none := regionOf_eq_none hb hf
    rw [if_pos hb, if_neg (fun h => hf (regionOf_eq_flash_iff.mpr ⟨hb, h⟩)), hc, hn]
  · rw [if_neg hb]
    simp only [classify, regionOf_mask28]
    cases hr : regionOf b.flash.size addr with
    | sram => exact absurd hr hs
    | flash => exact absurd hr hf
    | iram | io | none => rfl

/-- Without watchpoints, a read of SRAM leaves no note. -/
theorem noteSramRead_unwatched (hw : b.watchpoints = []) (a v : U32) (n : ℕ) :
    b.noteSramRead a v n = b := by
  unfold noteSramRead hasWatchpoints
  rw [hw]
  rfl

/-- An aligned halfword read on a bus without watchpoints, by its region. -/
theorem read16_even_unwatched (hw : b.watchpoints = []) (he : addr &&& 1 = 0) :
    b.read16 io addr =
      match b.classify addr with
      | .sram =>
        (if b.sramSize ≤ (mask28 addr - sramBase).toNat then 0xFFFF
          else Words.le16 b.sram (mask28 addr - sramBase).toNat,
          b.charge (b.extReadCycles b.sramWait))
      | .flash =>
        (if b.flash.inReadMode then Words.le16 b.flash.mem (mask28 addr - flashBase).toNat
          else b.flash.read16 (mask28 addr - flashBase), b.charge (b.extReadCycles b.flashWait))
      | .iram => (Words.le16 b.iram (iramIndex (mask28 addr)), b)
      | .io => (b.ioRead io (mask28 addr)).getD (0xFFFF, b)
      | .none => (0xFFFF, b) := by
  rw [read16_even io b he]
  cases b.classify addr with
  | sram =>
    dsimp only
    rw [noteSramRead_unwatched (b.charge _) hw]
    exact (apply_ite (·, b.charge (b.extReadCycles b.sramWait)) ..).symm
  | flash | iram | io | none => rfl

/-! ### The fault flag -/

@[simp] theorem noteSramRead_faultPending (a v : U32) (n : ℕ) :
    (b.noteSramRead a v n).faultPending = b.faultPending := by
  unfold noteSramRead
  split_ifs <;> rfl

/-- The alignment check is all that touches the fault flag in a halfword read. -/
theorem read16_faultPending (addr : U32) :
    (b.read16 io addr).2.faultPending = (b.alignTo 1 (mask28 addr)).2.faultPending := by
  unfold read16
  rcases b.alignTo 1 (mask28 addr) with ⟨a, b'⟩
  dsimp only
  split_ifs
  · rfl
  · exact noteSramRead_faultPending ..
  · rfl
  · rfl
  · rfl
  · cases b'.classify a with
    | iram | sram | flash | none => rfl
    | io =>
      unfold ioRead
      dsimp only
      split_ifs
      · cases io.read ((normalizeIo a - ioregBase) / 2).toNat <;> rfl
      · rfl

/-- A read never lowers the fault flag. -/
theorem read16_faultPending_of (h : b.faultPending = true) (addr : U32) :
    (b.read16 io addr).2.faultPending = true := by
  rw [read16_faultPending, alignTo]
  split_ifs
  · rfl
  · exact h

/-- A misaligned halfword read raises it. -/
theorem read16_odd (he : addr &&& 1 ≠ 0) : (b.read16 io addr).2.faultPending = true := by
  rw [read16_faultPending, alignTo, mask28_and_one, if_pos he]

/-! ### Fetching -/

/-- The cycles an instruction fetch charges. -/
def fetchCycles (addr : U32) : ℤ :=
  let addr := mask28 addr &&& ~~~1#32
  if flashBase ≤ addr ∧ addr.toNat < flashBase.toNat + b.flash.size then
    b.extReadCycles b.flashWait
  else if sramBase ≤ addr ∧ addr < sramBase + sramWindow then b.extReadCycles b.sramWait
  else 1

/-- **A fetch charges cycles, and does nothing else.** -/
theorem fetch16_snd (addr : U32) : (b.fetch16 addr).2 = b.charge (b.fetchCycles addr) := by
  unfold fetch16 fetchCycles
  generalize mask28 addr &&& ~~~1#32 = a
  dsimp only
  have hlow (h : sramBase ≤ a) : 0x100000 ≤ a.toNat := h
  split_ifs with h1 h2 h3 h4 h5 h6
  · rfl
  · have : a.toNat < 0x2000 := h2
    have := hlow h3.1
    omega
  · rfl
  · have : a.toNat < 0x3000 := h4.2
    have := hlow h5.1
    omega
  all_goals rfl

end Bus
