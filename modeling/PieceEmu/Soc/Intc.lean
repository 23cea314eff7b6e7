import PieceEmu.Lib.Words
import Mathlib.Data.Fin.VecNotation

/-!
# The interrupt controller

`InterruptController`: 64 bytes of registers with the priorities, the enable bits and
the status bits of 39 sources. A source is raised by setting its status bit; what is
pending is handed to the CPU at once if it can be, and again by `poll`, which scans
all sources and picks the one with the highest level above the interrupt level of
the CPU.

Handing an interrupt to the CPU is a call of `assert_trap`; here the trap number and
the level of that call are returned.
-/

/-- `IrqSource`, by its index in the source table. -/
abbrev IrqSource := Fin 39

namespace IrqSource

/-- `KEY0`. -/
def key0 : IrqSource := 4
/-- `KEY1`. -/
def key1 : IrqSource := 5
/-- `HSDMA1`. -/
def hsdma1 : IrqSource := 7
/-- `T16_CRB0`, …, `T16_CRB5`. -/
def t16Crb (ch : Fin 6) : IrqSource := ⟨11 + ch * 2, by omega⟩
/-- `T16_CRA0`, …, `T16_CRA5`. -/
def t16Cra (ch : Fin 6) : IrqSource := ⟨12 + ch * 2, by omega⟩
/-- `T8_UF0`, …, `T8_UF3`. -/
def t8Uf (ch : Fin 4) : IrqSource := ⟨23 + ch, by omega⟩

end IrqSource

/-- `SrcInfo`: where the registers keep the bits of a source. -/
structure SrcInfo where
  trapNo : ℤ
  priByte : ℕ
  priShift : ℕ
  ienByte : ℕ
  ienBit : ℕ
  isrByte : ℕ
  isrBit : ℕ

/-- `src_table_`. -/
def srcTable : IrqSource → SrcInfo := ![
  ⟨16, 0, 0, 16, 0, 32, 0⟩, ⟨17, 0, 4, 16, 1, 32, 1⟩,
  ⟨18, 1, 0, 16, 2, 32, 2⟩, ⟨19, 1, 4, 16, 3, 32, 3⟩,
  ⟨20, 2, 0, 16, 4, 32, 4⟩, ⟨21, 2, 4, 16, 5, 32, 5⟩,
  ⟨22, 3, 0, 17, 0, 33, 0⟩, ⟨23, 3, 4, 17, 1, 33, 1⟩,
  ⟨24, 4, 0, 17, 2, 33, 2⟩, ⟨25, 4, 4, 17, 3, 33, 3⟩,
  ⟨26, 5, 0, 17, 4, 33, 4⟩,
  ⟨30, 6, 0, 18, 2, 34, 2⟩, ⟨31, 6, 0, 18, 3, 34, 3⟩,
  ⟨34, 6, 4, 18, 6, 34, 6⟩, ⟨35, 6, 4, 18, 7, 34, 7⟩,
  ⟨38, 7, 0, 19, 2, 35, 2⟩, ⟨39, 7, 0, 19, 3, 35, 3⟩,
  ⟨42, 7, 4, 19, 6, 35, 6⟩, ⟨43, 7, 4, 19, 7, 35, 7⟩,
  ⟨46, 8, 0, 20, 2, 36, 2⟩, ⟨47, 8, 0, 20, 3, 36, 3⟩,
  ⟨50, 8, 4, 20, 6, 36, 6⟩, ⟨51, 8, 4, 20, 7, 36, 7⟩,
  ⟨52, 9, 0, 21, 0, 37, 0⟩, ⟨53, 9, 0, 21, 1, 37, 1⟩,
  ⟨54, 9, 0, 21, 2, 37, 2⟩, ⟨55, 9, 0, 21, 3, 37, 3⟩,
  ⟨56, 9, 4, 22, 0, 38, 0⟩, ⟨57, 9, 4, 22, 1, 38, 1⟩, ⟨58, 9, 4, 22, 2, 38, 2⟩,
  ⟨60, 10, 0, 22, 3, 38, 3⟩, ⟨61, 10, 0, 22, 4, 38, 4⟩, ⟨62, 10, 0, 22, 5, 38, 5⟩,
  ⟨64, 10, 4, 23, 0, 39, 0⟩, ⟨65, 11, 0, 23, 1, 39, 1⟩,
  ⟨68, 12, 0, 23, 2, 39, 2⟩, ⟨69, 12, 4, 23, 3, 39, 3⟩,
  ⟨70, 13, 0, 23, 4, 39, 4⟩, ⟨71, 13, 4, 23, 5, 39, 5⟩]

/-- `InterruptController`. -/
structure InterruptController where
  /-- `regs_`. -/
  regs : ℕ → U8 := fun _ => 0
  /-- `level_override_`: -1 where the priority register decides. -/
  levelOverride : IrqSource → ℤ := fun _ => -1
  /-- `current_il_`. -/
  currentIl : U32 := 0
  /-- `poll_dirty_`. -/
  pollDirty : Bool := true

namespace InterruptController

variable (c : InterruptController) (src : IrqSource)

/-! ### The registers -/

/-- `RSTONLY`: a write to a status register clears the bits that are set in it. -/
def rstonly : Bool := (c.regs 63).getLsbD 0

/-- The lambda `write_byte`: one register byte, written. A source that is acknowledged
loses its level override. -/
def writeReg (rstonly : Bool) (byteOff : ℕ) (val : U8) : InterruptController :=
  if 32 ≤ byteOff ∧ byteOff ≤ 39 then
    let before := c.regs byteOff
    let after := if rstonly then before &&& ~~~val else val
    let cleared := before &&& ~~~after
    { c with
      regs := Function.update c.regs byteOff after
      levelOverride := fun i =>
        if (srcTable i).isrByte = byteOff ∧ cleared.getLsbD (srcTable i).isrBit then -1
        else c.levelOverride i }
  else { c with regs := Function.update c.regs byteOff val }

/-- What a write makes of a register byte: a status byte may only have bits cleared. -/
theorem writeReg_regs (rstonly : Bool) (off : ℕ) (val : U8) :
    (c.writeReg rstonly off val).regs =
      Function.update c.regs off
        (if 32 ≤ off ∧ off ≤ 39 ∧ rstonly = true then c.regs off &&& ~~~val else val) := by
  unfold InterruptController.writeReg
  by_cases hisr : 32 ≤ off ∧ off ≤ 39
  · rw [if_pos hisr]
    dsimp only
    congr 1
    exact if_congr (by rw [← and_assoc, and_iff_right hisr]) rfl rfl
  · rw [if_neg hisr]
    dsimp only
    congr 1
    exact (if_neg fun h => hisr ⟨h.1, h.2.1⟩).symm

/-- The levels of the sources with another status byte are kept. -/
theorem writeReg_levelOverride (rstonly : Bool) {off : ℕ} (val : U8) {src : IrqSource}
    (h : (srcTable src).isrByte ≠ off) :
    (c.writeReg rstonly off val).levelOverride src = c.levelOverride src := by
  unfold InterruptController.writeReg
  by_cases hisr : 32 ≤ off ∧ off ≤ 39
  · rw [if_pos hisr]
    exact if_neg fun h' => h h'.1
  · rw [if_neg hisr]

/-- `io_read`. -/
def ioRead (off : ℕ) : U16 :=
  (c.regs off).setWidth 16 ||| (c.regs (off + 1)).setWidth 16 <<< 8

/-- `io_write`. -/
def ioWrite (off : ℕ) (addr : U32) (val : U16) : InterruptController :=
  let rstonly := c.rstonly
  let c' :=
    if addr.getLsbD 0 then c.writeReg rstonly (off + 1) (val.setWidth 8)
    else
      (c.writeReg rstonly off (val.setWidth 8)).writeReg rstonly (off + 1)
        ((val >>> 8).setWidth 8)
  if off < 14 ∨ 16 ≤ off ∧ off < 24 ∨ 32 < off + 2 ∧ off < 40 then { c' with pollDirty := true }
  else c'

/-- `io_write_byte`. -/
def ioWriteByte (off : ℕ) (addr : U32) (val : U8) : InterruptController :=
  let byteOff := off + if addr.getLsbD 0 then 1 else 0
  let c' := c.writeReg c.rstonly byteOff val
  if byteOff < 14 ∨ 16 ≤ byteOff ∧ byteOff < 24 ∨ 32 ≤ byteOff ∧ byteOff < 40 then
    { c' with pollDirty := true }
  else c'

/-- `reset`. -/
def reset : InterruptController where
  regs := Function.update (fun _ => 0) 63 0x07

/-! ### Delivery -/

/-- The status bit of a source. -/
def pending : Bool := (c.regs (srcTable src).isrByte).getLsbD (srcTable src).isrBit

/-- The enable bit of a source. -/
def enabled : Bool := (c.regs (srcTable src).ienByte).getLsbD (srcTable src).ienBit

/-- The level the priority register gives a source. -/
def priority : ℤ :=
  (((c.regs (srcTable src).priByte) >>> (srcTable src).priShift) &&& 0x07).toNat

/-- The level of a pending source: its override, if it has one. -/
def level : ℤ := if 0 ≤ c.levelOverride src then c.levelOverride src else c.priority src

/-- The status bit of a source, set: the first half of `try_deliver`. -/
def setPending : InterruptController :=
  { c with
    regs := Function.update c.regs (srcTable src).isrByte
      (c.regs (srcTable src).isrByte ||| (1 <<< (srcTable src).isrBit))
    pollDirty := true }

/-- `try_deliver`, with the trap it asserts. -/
def tryDeliver (levelOverride : ℤ) : InterruptController × Option (ℤ × ℤ) :=
  let c := c.setPending src
  if !c.enabled src then (c, none)
  else
    let level := if 0 ≤ levelOverride then levelOverride % 8 else c.priority src
    if level = 0 then (c, none) else (c, some ((srcTable src).trapNo, level))

/-- `raise`, with the trap it asserts. -/
def raise (levelOverride : ℤ) : InterruptController × Option (ℤ × ℤ) :=
  let c :=
    if 0 ≤ levelOverride then
      { c with levelOverride := Function.update c.levelOverride src (levelOverride % 8) }
    else c
  c.tryDeliver src levelOverride

/-- A source `poll` may deliver at the interrupt level it knows of. -/
def deliverable : Bool :=
  c.pending src && c.enabled src && c.level src ≠ 0 &&
    !(BitVec.ofInt 32 (c.level src) ≤ c.currentIl)

/-- The level of the best source so far. -/
def bestLevel : Option IrqSource → ℤ
  | none => 0
  | some best => c.level best

/-- One round of the scan of `poll`. -/
def scan (best : Option IrqSource) (src : IrqSource) : Option IrqSource :=
  if c.deliverable src ∧ c.bestLevel best < c.level src then some src else best

/-- What the scan of `poll` ends with. -/
def best : Option IrqSource := (List.finRange 39).foldl c.scan none

/-- `poll`, with the trap it asserts. -/
def poll : InterruptController × Option (ℤ × ℤ) :=
  if !c.pollDirty then (c, none)
  else
    ({ c with pollDirty := false },
      c.best.map fun best => ((srcTable best).trapNo, c.level best))

/-- `set_current_il`. -/
def setCurrentIl (il : U32) : InterruptController :=
  { c with currentIl := il, pollDirty := c.pollDirty || il < c.currentIl }

end InterruptController
