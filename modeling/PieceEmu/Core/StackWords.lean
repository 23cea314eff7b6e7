import PieceEmu.Core.FlatView
import PieceEmu.Core.Step

/-!
# Words on the stack

The stack of the CPU lies in RAM, and is moved a word at a time. On the byte map of the
bus (`Bus.flatByte`), a word of RAM is read as its four bytes
(`Bus.StackWord.read32_eq`) and stored over its four bytes
(`Bus.StackWord.flatByte_write32`); neither raises a fault. No read of the bus moves a
byte, whatever its address (`Bus.SameCells`).
-/

namespace Bus

variable {D : Type} (io : IoSpace D) (b : Bus D) {addr : U32}

/-- A bus at another cycle count. -/
def withCycles (cycles : U32) : Bus D := { b with cycles }

/-- An instruction fetch charges cycles. -/
theorem fetch16_withCycles (addr : U32) : ∃ cycles, (b.fetch16 addr).2 = b.withCycles cycles := by
  unfold fetch16
  dsimp only
  split_ifs <;> exact ⟨_, rfl⟩

/-- A word of the installed RAM. -/
def StackWord (addr : U32) : Prop :=
  addr.toNat % 4 = 0 ∧
    (b.classify addr = .iram ∨
      b.classify addr = .sram ∧ (mask28 addr - sramBase).toNat + 3 < b.sramSize)

variable {b}

theorem mask28_mod_four (h : addr.toNat % 4 = 0) : (mask28 addr).toNat % 4 = 0 := by
  rw [toNat_mask28, Nat.mod_mod_of_dvd _ (by decide : 4 ∣ 2 ^ 28)]
  exact h

/-- Reading a word of RAM raises no fault. -/
theorem StackWord.read32_faultPending (h : b.StackWord addr) :
    (b.read32 io addr).2.faultPending = b.faultPending := by
  rw [read32_aligned io b (mask28_mod_four h.1)]
  rcases h.2 with hr | ⟨hr, -⟩
  · rw [hr]
  · rw [hr]
    dsimp only
    split_ifs
    · rfl
    · exact noteSramRead_faultPending ..

/-- An aligned write outside the register windows raises no fault and asks nothing of
the CPU. -/
theorem write32_quiet (ha : addr.toNat % 4 = 0) (hio : b.classify addr ≠ .io) (v : U32) :
    (b.write32 io addr v).2 = {} ∧ (b.write32 io addr v).1.faultPending = b.faultPending := by
  rw [write32_aligned io b (mask28_mod_four ha)]
  cases hr : b.classify addr with
  | io => exact absurd hr hio
  | iram | none | flash => exact ⟨rfl, rfl⟩
  | sram =>
    dsimp only
    split_ifs
    · obtain ⟨calls, shadow, heq⟩ :=
        (b.charge (b.extWriteCycles b.sramWait * 2)).noteSramWrite_eq (mask28 addr) v 4
      rw [heq]
      exact ⟨rfl, rfl⟩
    · exact ⟨rfl, rfl⟩

/-- Neither does a write to a word of RAM. -/
theorem StackWord.write32_quiet (h : b.StackWord addr) (v : U32) :
    (b.write32 io addr v).2 = {} ∧ (b.write32 io addr v).1.faultPending = b.faultPending := by
  refine Bus.write32_quiet io h.1 (fun hio => ?_) v
  rcases h.2 with hr | ⟨hr, -⟩
  · rw [hr] at hio
    exact Region.noConfusion hio
  · rw [hr] at hio
    exact Region.noConfusion hio

/-- The word below a word of RAM lies in no register window. -/
theorem StackWord.below (h : b.StackWord addr) :
    (addr - 4).toNat % 4 = 0 ∧ b.classify (addr - 4) ≠ .io := by
  obtain ⟨hmod, hr⟩ := h
  have hsub : (addr - 4).toNat = (2 ^ 32 - 4 + addr.toNat) % 2 ^ 32 := BitVec.toNat_sub ..
  refine ⟨by omega, fun hio => ?_⟩
  have hbounds := toNat_of_io b hio
  rw [toNat_mask28, hsub] at hbounds
  rcases hr with hr | ⟨hr, -⟩
  · have hlt := toNat_lt_of_iram b hr
    rw [toNat_mask28] at hlt
    omega
  · have hlo : 0x100000 ≤ (mask28 addr).toNat := (regionOf_eq_sram_iff.mp hr).1
    rw [toNat_mask28] at hlo
    omega

/-! ### The bytes of a stack word -/

theorem StackWord.flatIndex_mod (h : b.StackWord addr) : flatIndex addr % 4 = 0 := by
  have hmod : flatIndex addr % 2 ^ 2 = (mask28 addr).toNat % 2 ^ 2 :=
    Bus.flatIndex_mod (.inr rfl) addr
  rw [show (2 : ℕ) ^ 2 = 4 from rfl, mask28_mod_four h.1] at hmod
  exact hmod

/-- **A word of RAM is read as its four bytes.** -/
theorem StackWord.read32_eq (h : b.StackWord addr) :
    (b.read32 io addr).1 = Words.le32 b.flatByte (flatIndex addr) := by
  have hmod := h.flatIndex_mod
  rw [read32_aligned io b (mask28_mod_four h.1)]
  rcases h.2 with hr | ⟨hr, hlt⟩
  · obtain ⟨hidx, hlt⟩ := flatIndex_iram b hr
    rw [hidx] at hmod ⊢
    rw [hr]
    exact Words.le32_eq fun j hj => (flatByte_iram b (by omega)).symm
  · obtain ⟨hidx, hwin⟩ := flatIndex_sram b hr
    rw [hidx] at hmod ⊢
    rw [hr]
    dsimp only
    rw [if_neg (by omega)]
    refine Words.le32_eq fun j hj => ?_
    rw [Nat.add_assoc, flatByte_sram b (by omega), if_pos (by omega)]

/-- **A word of RAM is stored over its four bytes.** -/
theorem StackWord.flatByte_write32 (h : b.StackWord addr) (v : U32) :
    (b.write32 io addr v).1.flatByte = Words.putLe32 b.flatByte (flatIndex addr) v := by
  have hmod := h.flatIndex_mod
  have hput := Words.stores_putLe32 v
  rcases h.2 with hr | ⟨hr, hlt⟩
  · obtain ⟨hidx, hin⟩ := flatIndex_iram b hr
    have hwrite : (b.write32 io addr v).1 =
        { b with iram := Words.putLe32 b.iram (iramIndex (mask28 addr)) v } := by
      rw [write32_aligned io b (mask28_mod_four h.1), hr]
    rw [hidx] at hmod ⊢
    rw [hwrite]
    -- byte by byte: inside the RAM the word is laid, outside nothing changes
    ext1 j
    by_cases hj : j < 0x2000
    · rw [flatByte_iram _ hj]
      exact hput.congr (flatByte_iram b hj).symm
    · rw [hput.kept _ _ _ (by omega)]
      unfold flatByte
      rw [if_neg hj, if_neg hj]
  · obtain ⟨hidx, hwin⟩ := flatIndex_sram b hr
    obtain ⟨calls, shadow, heq⟩ :=
      (b.charge (b.extWriteCycles b.sramWait * 2)).noteSramWrite_eq (mask28 addr) v 4
    have hwrite : ((b.write32 io addr v).1).flatByte =
        ({ b with
          sram := Words.putLe32 b.sram (mask28 addr - sramBase).toNat v } : Bus D).flatByte := by
      rw [write32_aligned io b (mask28_mod_four h.1), hr]
      dsimp only
      rw [if_pos (show (mask28 addr - sramBase).toNat < (b.charge _).sramSize from by
        exact Nat.lt_of_le_of_lt (Nat.le_add_right _ 3) hlt), heq]
      rfl
    rw [hwrite, hidx]
    ext1 j
    by_cases hj : 0x100000 ≤ j ∧ j < 0x200000
    · obtain ⟨k, rfl⟩ := Nat.exists_eq_add_of_le hj.1
      rw [flatByte_sram _ (by omega), hput.shift]
      by_cases hk : k < b.sramSize
      · have hbyte : b.flatByte (0x100000 + k) = b.sram k := by
          rw [flatByte_sram b (by omega), if_pos hk]
        exact (if_pos hk).trans (hput.congr hbyte.symm)
      · rw [hput.kept _ _ _ (by omega), flatByte_sram b (by omega), if_neg hk]
        exact (if_neg hk).symm
    · rw [hput.kept _ _ _ (by omega)]
      unfold flatByte
      rw [if_neg hj, if_neg hj]

/-- A store leaves the words of RAM where they are. -/
theorem StackWord.write32 (h : b.StackWord addr) (v : U32) {a : U32} :
    (b.write32 io addr v).1.StackWord a ↔ b.StackWord a := by
  rw [write32_aligned io b (mask28_mod_four h.1)]
  rcases h.2 with hr | ⟨hr, hlt⟩
  · rw [hr]
    exact Iff.rfl
  · rw [hr]
    dsimp only
    obtain ⟨calls, shadow, heq⟩ :=
      (b.charge (b.extWriteCycles b.sramWait * 2)).noteSramWrite_eq (mask28 addr) v 4
    rw [heq]
    split_ifs <;> exact Iff.rfl

theorem StackWord.toNat_lt (h : b.StackWord addr) :
    (mask28 addr).toNat < 0x3000 ∨
      0x100000 ≤ (mask28 addr).toNat ∧ (mask28 addr).toNat < 0x200000 := by
  rcases h.2 with hr | ⟨hr, -⟩
  · exact .inl (toNat_lt_of_iram b hr)
  · exact .inr (regionOf_eq_sram_iff.mp hr)

/-- **Neighbouring words of RAM lie apart.** -/
theorem StackWord.apart (h : b.StackWord addr) (h' : b.StackWord (addr - 4)) :
    flatIndex addr + 4 ≤ flatIndex (addr - 4) ∨ flatIndex (addr - 4) + 4 ≤ flatIndex addr := by
  have hsub : (addr - 4).toNat = (2 ^ 32 - 4 + addr.toNat) % 2 ^ 32 := BitVec.toNat_sub ..
  have hlt := h.toNat_lt
  have hlt' := h'.toNat_lt
  have hmod := h.1
  unfold flatIndex
  dsimp only
  rw [toNat_mask28] at hlt hlt'
  rw [hsub] at hlt'
  rw [toNat_mask28, toNat_mask28, hsub]
  split_ifs <;> omega

/-! ### Reading moves no byte -/

/-- Two buses hold the same bytes. -/
def SameCells (b' b : Bus D) : Prop :=
  b'.iram = b.iram ∧ b'.sram = b.sram ∧ b'.sramSize = b.sramSize ∧ b'.flash = b.flash

theorem SameCells.trans {b b' b'' : Bus D} (h' : b''.SameCells b') (h : b'.SameCells b) :
    b''.SameCells b :=
  ⟨h'.1.trans h.1, h'.2.1.trans h.2.1, h'.2.2.1.trans h.2.2.1, h'.2.2.2.trans h.2.2.2⟩

theorem SameCells.flatByte {b' : Bus D} (h : b'.SameCells b) : b'.flatByte = b.flatByte := by
  unfold Bus.flatByte
  rw [h.1, h.2.1, h.2.2.1, h.2.2.2]

theorem SameCells.stackWord {b' : Bus D} (h : b'.SameCells b) (hw : b.StackWord addr) :
    b'.StackWord addr := by
  unfold StackWord classify
  rw [h.2.2.1, h.2.2.2]
  exact hw

variable (b)

theorem sameCells_noteSramRead (c : ℤ) (a v : U32) (n : ℕ) :
    ((b.charge c).noteSramRead a v n).SameCells b := by
  unfold noteSramRead
  split_ifs
  · exact ⟨rfl, rfl, rfl, rfl⟩
  · exact ⟨rfl, rfl, rfl, rfl⟩

theorem sameCells_ioRead (a : U32) : ((b.ioRead io a).getD (0xFFFF, b)).2.SameCells b := by
  unfold ioRead
  dsimp only
  split_ifs
  · cases io.read ((normalizeIo a - ioregBase) / 2).toNat with
    | none => exact ⟨rfl, rfl, rfl, rfl⟩
    | some h => exact ⟨rfl, rfl, rfl, rfl⟩
  · exact ⟨rfl, rfl, rfl, rfl⟩

theorem read16_sameCells (addr : U32) : (b.read16 io addr).2.SameCells b := by
  rw [read16_align, read16_even _ _ (down_even addr)]
  set b' := b.flagged (misaligned 1 addr)
  have hb' : b'.SameCells b := ⟨rfl, rfl, rfl, rfl⟩
  cases b'.classify (down 1 addr) with
  | sram =>
    dsimp only
    split_ifs
    · exact hb'
    · exact (b'.sameCells_noteSramRead ..).trans hb'
  | flash | iram | none => exact hb'
  | io => exact (sameCells_ioRead io b' _).trans hb'

theorem read32_sameCells (addr : U32) : (b.read32 io addr).2.SameCells b := by
  rw [read32_align, read32_aligned _ _ (down_mod_four addr)]
  set b' := b.flagged (misaligned 2 addr)
  have hb' : b'.SameCells b := ⟨rfl, rfl, rfl, rfl⟩
  cases b'.classify (down 2 addr) with
  | sram =>
    dsimp only
    split_ifs
    · exact hb'
    · exact (b'.sameCells_noteSramRead ..).trans hb'
  | flash | iram | none => exact hb'
  | io =>
    exact (read16_sameCells io _ _).trans ((read16_sameCells io b' _).trans hb')

end Bus

/-! ### Fetching and pushing -/

namespace Machine

variable {D : Type} (io : IoSpace D) {m : Machine D}

/-- A fetch moves no byte. -/
theorem fetched_sameCells (m : Machine D) : m.fetched.bus.SameCells m.bus := by
  obtain ⟨cycles, hfetch⟩ := m.bus.fetch16_withCycles m.cpu.pc
  change (m.bus.fetch16 m.cpu.pc).2.SameCells m.bus
  rw [hfetch]
  exact ⟨rfl, rfl, rfl, rfl⟩

theorem request_default : m.request {} = m := by
  have h : (m.cpu.inHalt || ({} : CpuRequest).halt) = m.cpu.inHalt := Bool.or_false _
  unfold request
  rw [h]
  rfl

/-- A push outside the register windows, in full. -/
theorem push_eq {v : U32} (h : (m.bus.write32 io (m.cpu.sp - 4) v).2 = {}) :
    m.push io v =
      { m.setSp (m.cpu.sp - 4) with bus := (m.bus.write32 io (m.cpu.sp - 4) v).1 } := by
  have hreq : m.push io v = ({ m.setSp (m.cpu.sp - 4) with
      bus := (m.bus.write32 io (m.cpu.sp - 4) v).1 } : Machine D).request
        (m.bus.write32 io (m.cpu.sp - 4) v).2 := rfl
  rw [hreq, h, request_default]

end Machine
