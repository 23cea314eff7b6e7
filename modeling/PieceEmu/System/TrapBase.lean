import PieceEmu.Lib.Run
import PieceEmu.System.RegisterAccess

/-!
# The trap table base

The base of the trap table is kept twice: traps use `cpu.state.ttbr`, and programs read
back the register of the area controller. A write to the register sets both, and no
other register write, no instruction and no trap touches either. But the two start out
different, and a reset of the CPU, which comes last in every reset, puts its copy back
to `0x400`: after a cold start the register holds `0xC0000`, after a hot one what it
held before.

So the two agree exactly when the register has been written since the board was put
together or last reset, or the last reset was a hot start that found `0x400` in the
register (`TrapBase.coherent_iff`).
-/

open ActionRun

/-- What happens to a board: register writes, by bytes, halfwords or words, steps of the
CPU, traps asserted between them, and the resets of the two frontends. -/
inductive BoardAction
  | write8 (addr : U32) (v : U8)
  | write16 (addr : U32) (v : U16)
  | write32 (addr v : U32)
  | step
  | assertTrap (no level : ℤ)
  /-- The reset of the CPU thread: the peripherals, then the CPU. -/
  | reset (cold : Bool)
  /-- `retro_reset`: a cold start that loads the reset vector once more. -/
  | retroReset
  deriving DecidableEq

namespace BoardAction

variable (o : OtherDevices) (fe : Frontend)

/-- `retro_reset`, as far as it reaches the board. -/
def retroResetBoard (io : IoSpace PiecePeripherals) (m : Machine PiecePeripherals) :
    Machine PiecePeripherals :=
  let (pc, m) := ((m.resetPeripherals true).reset io).read32 io Bus.flashBase
  m.setPc pc

/-- One action. -/
def act (m : Machine PiecePeripherals) : BoardAction → Machine PiecePeripherals
  | write8 addr v => m.write8 (o.attach fe) addr v
  | write16 addr v => m.write16 (o.attach fe) addr v
  | write32 addr v => m.write32 (o.attach fe) addr v
  | step => m.step (o.attach fe)
  | assertTrap no level => m.assertTrap (o.attach fe) no level
  | reset cold => (m.resetPeripherals cold).reset (o.attach fe)
  | retroReset => retroResetBoard (o.attach fe) m

end BoardAction

/-! ### The statement -/

namespace TrapBase

/-- The base traps use is the one the register reads back. -/
def Coherent (m : Machine PiecePeripherals) : Prop := m.cpu.ttbr = m.periph.bcuArea.ttbr

instance (m : Machine PiecePeripherals) : Decidable (Coherent m) :=
  inferInstanceAs (Decidable (_ = _))

/-- How often the register has been written. -/
def writes (m : Machine PiecePeripherals) : ℕ := m.periph.bcuArea.ttbrWrites

variable (o : OtherDevices) (fe : Frontend)

/-- Whether an action leaves the register written since the last reset, or that reset a
hot start that found the reset value of the CPU in it: what it was before the action, and
the machine the action is taken in. -/
def settle (m : Machine PiecePeripherals) (settled : Bool) : BoardAction → Bool
  | .reset cold => !cold && m.periph.bcuArea.ttbr = 0x400
  | .retroReset => false
  | a => settled || writes m < writes (a.act o fe m)

/-- The register has been written since the board was put together or last reset, or that
reset was a hot start that found `0x400` in it. -/
def settled (m : Machine PiecePeripherals) (as : List BoardAction) : Bool :=
  (exec (fun ms a => (BoardAction.act o fe ms.1 a, settle o fe ms.1 ms.2 a)) (m, false) as).2

/-! ### The invariant of a stretch without resets -/

/-- Nothing has been written and both copies are what they were, or the register has been
written and both copies agree. -/
def Since (n : ℕ) (reg base : U32) (b : Bus PiecePeripherals) (t : U32) : Prop :=
  b.dev.bcuArea.ttbrWrites = n ∧ b.dev.bcuArea.ttbr = reg ∧ t = base ∨
    n < b.dev.bcuArea.ttbrWrites ∧ t = b.dev.bcuArea.ttbr

variable {n : ℕ} {reg base : U32}

/-- Only a write to the register of the trap table base touches the two. -/
theorem since_write (v : U16) {b : Bus PiecePeripherals} {t : U32} (r : BcuReg)
    (h : Since n reg base b t) :
    Since n reg base (r.write v b).1 ((r.write v b).2.ttbr.getD t) := by
  have hcount : n < b.dev.bcuArea.ttbrWrites + 1 := by
    rcases h with h | h
    · omega
    · omega
  cases r with
  | ttbrLo | ttbrHi => exact Or.inr ⟨hcount, rfl⟩
  | _ => exact h

theorem since_invariant (n : ℕ) (reg base : U32) : ControlInvariant fe (Since n reg base) where
  congr := by
    intro b b' t hsame h
    unfold Since
    rw [hsame.bcuArea]
    exact h
  clk := by
    intro a v b t h
    unfold Since
    rw [Frontend.clkWrite_bcuArea]
    exact h
  port := by
    intro addr v b t r h
    unfold Since
    rw [PortReg.notifying_bcuArea]
    exact h
  portByte := by
    intro addr v b t r f hf h
    unfold Since
    rw [PortReg.notifying_bcuArea]
    exact h
  bcu := by
    intro v b t r h
    exact since_write v r h

/-! ### Runs -/

variable {m : Machine PiecePeripherals}

/-- After an action that keeps the invariant, the two agree if and only if they did before,
or the action has written the register. -/
theorem coherent_iff_of_since {m' : Machine PiecePeripherals}
    (h : m'.Satisfies (Since (writes m) m.periph.bcuArea.ttbr m.cpu.ttbr)) :
    Coherent m' ↔ Coherent m ∨ writes m < writes m' := by
  unfold Coherent
  rcases h with ⟨hcount, hreg, hbase⟩ | ⟨hcount, hsame⟩
  · have hnone : ¬writes m < writes m' := by
      change ¬writes m < m'.bus.dev.bcuArea.ttbrWrites
      omega
    rw [or_iff_left hnone]
    change m'.cpu.ttbr = m'.bus.dev.bcuArea.ttbr ↔ _
    rw [hbase, hreg]
  · exact iff_of_true hsame (Or.inr hcount)

/-- The reset vector is read from the flash, if there is any: no register is read. -/
theorem read32_flashBase_dev (io : IoSpace PiecePeripherals) (b : Bus PiecePeripherals) :
    (b.read32 io Bus.flashBase).2.dev = b.dev := by
  have halign : b.alignTo 3 (Bus.mask28 Bus.flashBase) = (Bus.flashBase, b) := by
    unfold Bus.alignTo
    exact if_neg (by decide)
  have hmask : (Bus.mask28 Bus.flashBase).toNat = 0xC00000 := by decide
  have hclass : b.classify Bus.flashBase = .flash ∨ b.classify Bus.flashBase = .none := by
    unfold Bus.classify
    rw [Bus.regionOf_eq, hmask]
    split_ifs <;> first | exact Or.inl rfl | exact Or.inr rfl | omega
  unfold Bus.read32
  rw [halign]
  dsimp only
  rcases hclass with hflash | hnone
  · rw [hflash]
    dsimp only
    split_ifs <;> rfl
  · rw [hnone]

/-- The two copies after a reset. -/
theorem reset_copies (io : IoSpace PiecePeripherals) (cold : Bool) :
    ((m.resetPeripherals cold).reset io).cpu.ttbr = 0x400 ∧
      ((m.resetPeripherals cold).reset io).periph.bcuArea.ttbr =
        if cold then 0x0C0000 else m.periph.bcuArea.ttbr := by
  refine ⟨rfl, ?_⟩
  change (Bus.read32 io (m.resetPeripherals cold).bus Bus.flashBase).2.dev.bcuArea.ttbr = _
  rw [read32_flashBase_dev]
  cases cold <;> rfl

/-- **The step**: an action leaves the two in agreement if and only if it leaves them
settled. -/
theorem coherent_act (a : BoardAction) {s : Bool} (h : Coherent m ↔ s = true) :
    Coherent (a.act o fe m) ↔ settle o fe m s a = true := by
  -- either there was no write to the register since, or the two agree
  have hP := (since_invariant fe (writes m) m.periph.bcuArea.ttbr m.cpu.ttbr).attach o
  have h0 : m.Satisfies (Since (writes m) m.periph.bcuArea.ttbr m.cpu.ttbr) :=
    Or.inl ⟨rfl, rfl, rfl⟩
  have hsettle : Coherent m ∨ writes m < writes (a.act o fe m) ↔
      (s || writes m < writes (a.act o fe m)) = true := by
    rw [Bool.or_eq_true, decide_eq_true_iff, h]
  cases a with
  | write8 addr v =>
    have hafter : (m.write8 (o.attach fe) addr v).Satisfies
        (Since (writes m) m.periph.bcuArea.ttbr m.cpu.ttbr) := hP.write8 h0 addr v
    exact (coherent_iff_of_since hafter).trans hsettle
  | write16 addr v =>
    have hafter : (m.write16 (o.attach fe) addr v).Satisfies
        (Since (writes m) m.periph.bcuArea.ttbr m.cpu.ttbr) := hP.write16 h0 addr v
    exact (coherent_iff_of_since hafter).trans hsettle
  | write32 addr v =>
    have hafter : (m.write32 (o.attach fe) addr v).Satisfies
        (Since (writes m) m.periph.bcuArea.ttbr m.cpu.ttbr) := hP.write32 h0 addr v
    exact (coherent_iff_of_since hafter).trans hsettle
  | step => exact (coherent_iff_of_since (hP.step h0)).trans hsettle
  | assertTrap no level => exact (coherent_iff_of_since (hP.doTrap h0 no level)).trans hsettle
  | reset cold =>
    -- a reset sets the copy of the CPU, and the register only if it is a cold one
    obtain ⟨hcpu, hreg⟩ := reset_copies (m := m) (o.attach fe) cold
    change ((m.resetPeripherals cold).reset (o.attach fe)).cpu.ttbr =
      ((m.resetPeripherals cold).reset (o.attach fe)).periph.bcuArea.ttbr ↔ _
    rw [hcpu, hreg]
    cases cold with
    | true =>
      rw [if_pos rfl]
      exact iff_of_false (by decide) Bool.false_ne_true
    | false =>
      change (0x400 : U32) = m.periph.bcuArea.ttbr ↔ decide (m.periph.bcuArea.ttbr = 0x400) = true
      rw [decide_eq_true_iff]
      exact eq_comm
  | retroReset =>
    obtain ⟨hcpu, hreg⟩ := reset_copies (m := m) (o.attach fe) true
    refine iff_of_false ?_ Bool.false_ne_true
    change ¬((m.resetPeripherals true).reset (o.attach fe)).cpu.ttbr =
      (Bus.read32 (o.attach fe) ((m.resetPeripherals true).reset (o.attach fe)).bus
        Bus.flashBase).2.dev.bcuArea.ttbr
    rw [read32_flashBase_dev]
    change ¬((m.resetPeripherals true).reset (o.attach fe)).cpu.ttbr =
      ((m.resetPeripherals true).reset (o.attach fe)).periph.bcuArea.ttbr
    rw [hcpu, hreg, if_pos rfl]
    decide

/-- **The two copies agree** after a run from the board as it is put together if and only
if the register has been written since then or since the last reset, or the last reset
was a hot start that found `0x400` in the register. -/
theorem coherent_iff (hcpu : m.cpu.ttbr = 0x400)
    (hperiph : m.periph = ({} : PiecePeripherals).attach) (as : List BoardAction) :
    Coherent (exec (BoardAction.act o fe) m as) ↔ settled o fe m as = true := by
  have h0 : Coherent m ↔ false = true := by
    unfold Coherent
    rw [hcpu, hperiph]
    decide
  unfold settled
  clear hcpu hperiph
  generalize false = s at h0 ⊢
  induction as generalizing m s with
  | nil => exact h0
  | cons a as ih => exact ih _ (coherent_act o fe a h0)

/-- The kernel writes `0x400` into the register, and a hot start finds it there. -/
theorem coherent_iff_hot :
    Coherent (exec (BoardAction.act .absent .cpuRunner) (Machine.boardOfRom [])
        [.write32 0x048134 0x400, .reset false]) ↔
      settled .absent .cpuRunner (Machine.boardOfRom []) [.write32 0x048134 0x400, .reset false] =
        true :=
  coherent_iff .absent .cpuRunner rfl rfl _

set_option maxRecDepth 100000 in
/-- **After a cold start the two differ**, in either frontend: the kernel had made them
agree. -/
theorem not_coherent_cold :
    Coherent (exec (BoardAction.act .absent .cpuRunner) (Machine.boardOfRom [])
        [.write32 0x048134 0x400]) ∧
      ¬Coherent (exec (BoardAction.act .absent .cpuRunner) (Machine.boardOfRom [])
        [.write32 0x048134 0x400, .reset true]) ∧
      ¬Coherent (exec (BoardAction.act .absent .libretro) (Machine.boardOfRom [])
        [.write32 0x048134 0x400, .retroReset]) := by
  decide +kernel

end TrapBase
