import PieceEmu.Debug.ElfPlacement
import PieceEmu.System.RegisterAccess

/-!
# The registers of the board and its memories

No register of the board writes to a memory: its handlers change the peripherals, the
wait states and the divisor of the bus clock, and nothing else on the bus
(`OtherDevices.attach_keepsMemory`). So the zeroes `elf_load` writes behind a segment may
run over the register windows, and `ElfLoader.loadedRight_iff` is about the board.
-/

/-- Handlers of a halfword that leave the memories alone. -/
structure IoHandler.KeepsMemory {D : Type} (h : IoHandler D) : Prop where
  write : ∀ addr v (b : Bus D), b.MemoryKept (h.write addr v b).1
  writeByte : ∀ f, h.writeByte = some f → ∀ addr v (b : Bus D), b.MemoryKept (f addr v b).1

theorem Bus.MemoryKept.trans {D : Type} {b b' b'' : Bus D} (h : b.MemoryKept b')
    (h' : b'.MemoryKept b'') : b.MemoryKept b'' where
  iram := h'.iram.trans h.iram
  sram := h'.sram.trans h.sram
  sramSize := h'.sramSize.trans h.sramSize
  flash := h'.flash.trans h.flash

/-! ### The handlers -/

section Handlers

variable (fe : Frontend) (b : Bus PiecePeripherals)

/-- A handler that changes the peripherals alone. -/
theorem memoryKept_dev (p : PiecePeripherals) : b.MemoryKept { b with dev := p } :=
  ⟨rfl, rfl, rfl, rfl⟩

theorem memoryKept_clkWrite (f : ClockControl → ClockControl × Option U32) :
    b.MemoryKept (fe.clkWrite f b) := by
  rw [Frontend.clkWrite]
  dsimp only
  split
  · exact memoryKept_dev b _
  · cases fe <;> exact ⟨rfl, rfl, rfl, rfl⟩

theorem memoryKept_clkWriteLow (reg addr : U32) (v : U16) :
    b.MemoryKept (ClkReg.writeLow fe reg addr v b) := by
  rw [ClkReg.writeLow]
  split_ifs
  · exact .refl b
  · exact memoryKept_clkWrite fe b _

theorem memoryKept_clkReg (r : ClkReg) (addr : U32) (v : U16) :
    b.MemoryKept (r.write fe addr v b) := by
  have hpair (reg : U32) : b.MemoryKept (ClkReg.write.writePair fe v b reg) :=
    (memoryKept_clkWrite fe b (·.writeSingle reg (v.setWidth 8))).trans
      (memoryKept_clkWrite fe _ (·.writeSingle (reg + 1) ((v >>> 8).setWidth 8)))
  cases r with
  | clkselT8_45 => exact memoryKept_clkWriteLow fe b 0x040140 addr v
  | clkctlT8_45 => exact memoryKept_clkWrite fe b (·.writeSingle 0x040145 ((v >>> 8).setWidth 8))
  | clkselT8 => exact hpair 0x040146
  | clkctlT16_1 => exact hpair 0x040148
  | clkctlT16_3 => exact hpair 0x04014A
  | clkctlT16_5 => exact hpair 0x04014C
  | clkctlT8_23 => exact memoryKept_clkWriteLow fe b 0x04014E addr v
  | pwrctl => exact memoryKept_clkWriteLow fe b 0x040180 addr v

theorem memoryKept_clkRegByte (r : ClkReg)
    {f : U32 → U8 → Bus PiecePeripherals → Bus PiecePeripherals} (hf : r.writeByte fe = some f)
    (addr : U32) (v : U8) : b.MemoryKept (f addr v b) := by
  cases r with
  | clkselT8_45 | clkctlT8_23 | pwrctl => cases hf
  | clkctlT8_45 =>
    cases hf
    dsimp only
    split_ifs
    · exact memoryKept_clkWrite fe b (·.writeSingle 0x040145 v)
    · exact .refl b
  | clkselT8 | clkctlT16_1 | clkctlT16_3 | clkctlT16_5 =>
    cases hf
    exact memoryKept_clkWrite fe b (·.writeSingle addr v)

theorem memoryKept_notifying (f : PortCtrl → PortCtrl) (r : PortReg) :
    b.MemoryKept (PortReg.notifying fe f b r) := by
  have hport := memoryKept_dev b { b.dev with portctrl := f b.dev.portctrl }
  rw [PortReg.notifying]
  dsimp only
  split_ifs
  · rw [PortReg.p07Notify]
    dsimp only
    split_ifs
    · exact hport.trans (memoryKept_clkWrite fe _ _)
    · exact hport
  · exact hport

theorem memoryKept_bcu (v : U16) (r : BcuReg) : b.MemoryKept (r.write v b).1 := by
  cases r <;> exact ⟨rfl, rfl, rfl, rfl⟩

variable {fe} in
/-- **The handlers of every slot leave the memories alone.** -/
theorem RegSlot.handler_keepsMemory (s : RegSlot) : (s.handler fe).KeepsMemory := by
  cases s with
  | intc i =>
    refine ⟨fun _ _ b => memoryKept_dev b _, ?_⟩
    rintro f ⟨⟩
    exact fun _ _ b => memoryKept_dev b _
  | clk r =>
    refine ⟨fun addr v b => memoryKept_clkReg fe b r addr v, ?_⟩
    intro f hf addr v b
    obtain ⟨g, hg, rfl⟩ := Option.map_eq_some_iff.mp hf
    exact memoryKept_clkRegByte fe b r hg addr v
  | t8 ch r =>
    cases r with
    | ctl =>
      refine ⟨fun _ _ b => memoryKept_dev b _, ?_⟩
      rintro f ⟨⟩
      exact fun _ _ b => memoryKept_dev b _
    | ptd => exact ⟨fun _ _ b => memoryKept_dev b _, fun _ hf => by cases hf⟩
  | t16 ch r => exact ⟨fun _ _ b => memoryKept_dev b _, fun _ hf => by cases hf⟩
  | port r =>
    refine ⟨fun addr v b => memoryKept_notifying fe b (PortReg.write addr v · r) r, ?_⟩
    intro f hf addr v b
    obtain ⟨g, -, rfl⟩ := Option.map_eq_some_iff.mp hf
    exact memoryKept_notifying fe b (g addr v) r
  | bcu r => exact ⟨fun _ v b => memoryKept_bcu b v r, fun _ hf => by cases hf⟩
  | wdt =>
    refine ⟨fun _ _ b => memoryKept_dev b _, ?_⟩
    rintro f ⟨⟩
    exact fun _ _ b => memoryKept_dev b _
  | hsdma ch r => exact ⟨fun _ _ b => memoryKept_dev b _, fun _ hf => by cases hf⟩

end Handlers

/-- **The registers of the board leave the memories alone**, if those of the other devices
do. -/
theorem OtherDevices.attach_keepsMemory (o : OtherDevices) (ho : o.io.KeepsMemory)
    (fe : Frontend) : (o.attach fe).KeepsMemory where
  write {i h} hf := by
    rcases o.attach_cases fe i with ⟨s, -, hw, -⟩ | ⟨-, hw, -⟩
    · obtain rfl := Option.some.inj (hw.symm.trans hf)
      exact s.handler_keepsMemory.write
    · exact ho.write (hw ▸ hf)
  writeByte {i h} hf := by
    rcases o.attach_cases fe i with ⟨s, -, -, hw⟩ | ⟨-, -, hw⟩
    · exact s.handler_keepsMemory.writeByte h (hw.symm.trans hf)
    · exact ho.writeByte (hw ▸ hf)

theorem OtherDevices.absent_keepsMemory : OtherDevices.absent.io.KeepsMemory where
  write h := by cases h
  writeByte h := by cases h

/-! ### A file with one segment -/

namespace ElfLoader

/-- A word, little-endian. -/
def word (v : U32) : List U8 :=
  [v.setWidth 8, (v >>> 8).setWidth 8, (v >>> 16).setWidth 8, (v >>> 24).setWidth 8]

/-- A file whose one segment has `filesz` bytes at `offset`, and goes to the start of the
flash. -/
def tinyElf (offset filesz : U32) (bytes : List U8) : List U8 :=
  [0x7F, 0x45, 0x4C, 0x46, 1, 1, 1, 0, 0, 0, 0, 0, 0, 0, 0, 0, 2, 0, 0x01, 0xA0] ++
    word 1 ++ word 0xC00000 ++ word 52 ++ word 0 ++ word 0 ++
    [52, 0, 32, 0, 1, 0, 0, 0, 0, 0, 0, 0] ++
    word 1 ++ word offset ++ word 0xC00000 ++ word 0xC00000 ++ word filesz ++ word filesz ++
    word 5 ++ word 4 ++ bytes

/-- The bus of the tool that loads ELF files, with the default sizes. -/
def toolBus : Bus PiecePeripherals where
  iram _ := 0
  sram _ := 0
  sramSize := 0x40000
  flash := .flat ⟨0x80000, fun _ => 0xFF⟩
  dev := ({} : PiecePeripherals).attach

/-- **A segment whose end wraps**: 32 bytes from `0xFFFFFFF0` on end at index 16 of the file,
as the check has it, and are copied from far behind it. -/
theorem wrapped_not_loadedRight :
    (elfLoad (OtherDevices.absent.attach .cpuRunner) (tinyElf 0xFFFFFFF0 0x20 []) toolBus).1 =
        .error (.readsOutside 0xFFFFFFF0 0x20) ∧
      ¬LoadedRight (OtherDevices.absent.attach .cpuRunner) (tinyElf 0xFFFFFFF0 0x20 [])
        toolBus := by
  have hrun : (elfLoad (OtherDevices.absent.attach .cpuRunner) (tinyElf 0xFFFFFFF0 0x20 [])
      toolBus).1 = .error (.readsOutside 0xFFFFFFF0 0x20) := rfl
  refine ⟨hrun, fun h => ?_⟩
  obtain ⟨e, he⟩ := h.inBounds _ hrun
  cases he

/-- Four bytes for the flash of the board. -/
theorem loadedRight_iff_tinyElf :
    (OtherDevices.absent.attach .cpuRunner).KeepsMemory ∧ toolBus.flash.Quiet ∧
      (LoadedRight (OtherDevices.absent.attach .cpuRunner) (tinyElf 84 4 [1, 2, 3, 4]) toolBus ↔
        ∀ h, Elf32Ehdr.read (tinyElf 84 4 [1, 2, 3, 4]) = .ok h →
          Sound toolBus.sizes (tinyElf 84 4 [1, 2, 3, 4]) h) :=
  have hio := OtherDevices.absent.attach_keepsMemory OtherDevices.absent_keepsMemory .cpuRunner
  have hquiet : toolBus.flash.Quiet := trivial
  ⟨hio, hquiet, loadedRight_iff hio hquiet _⟩

end ElfLoader
