import PieceEmu.Core.Dispatch
import PieceEmu.Lib.Run

/-!
# One step of the CPU

`Machine.step` executes one instruction: it fetches, makes the checks that precede
dispatch, dispatches, looks for a bus fault, completes an open delay slot, and last
takes a trap that was deferred while a prefix or a slot was open.

The stages are functions of their own. A check that ends the step returns the
machine as an `Except.error`.
-/

namespace Machine

variable {D : Type} (io : IoSpace D) (m : Machine D)

/-! ### The checks before dispatch -/

/-- An instruction that writes the stack pointer, as the check of a slot sees it. -/
def writesSp (insn : Insn) : Bool :=
  insn.cls = 4 ∧ insn.op1 ≤ 1 ∨ insn.cls = 5 ∧ insn.op2 = 0 ∧ insn.op1 = 0 ∧ insn.rd = 1

/-- The warning about a slot that writes the stack pointer its branch has moved. -/
def warnSpClobber (insnPc : U32) (insn : Insn) : Machine D :=
  if m.cpu.delayCaller ≠ .other ∧ writesSp insn then m.disasm insnPc else m

/-- The check of the instruction in a delay slot. -/
def checkSlot (insnPc : U32) (insn : Insn) : Except (Machine D) (Machine D) :=
  if 0 < m.cpu.pendingExtCount then .error m.diagFault
  else
    match delaySlotClass insn with
    | .ok => .ok (m.warnSpClobber insnPc insn)
    | .hard => .error (m.disasm insnPc).diagFault
    | .soft =>
      let m := (m.disasm insnPc).diagWarnOrFault
      if m.cpu.inHalt then .error m else .ok (m.warnSpClobber insnPc insn)

/-- The check of an instruction under a prefix. -/
def checkExt (insnPc : U32) (insn : Insn) : Except (Machine D) (Machine D) :=
  if 0 < m.cpu.pendingExtCount ∧ !extCapable insn then
    let m := (m.disasm insnPc).diagWarnOrFault
    if m.cpu.inHalt then .error m else .ok m
  else .ok m

/-- The checks that precede dispatch. -/
def check (insnPc : U32) (insn : Insn) (inSlot : Bool) : Except (Machine D) (Machine D) :=
  (if inSlot then m.checkSlot insnPc insn else .ok m).bind fun m => m.checkExt insnPc insn

/-! ### The stages after dispatch -/

/-- The check for a fault the bus raised. -/
def checkBusFault : Machine D :=
  let m' : Machine D := { m with bus := m.bus.takeFault.2 }
  if m.bus.takeFault.1 && !m.cpu.fault then m'.diagFault else m'

/-- The completion of a delay slot: the branch is taken. -/
def completeSlot (inSlot : Bool) (slotTarget : U32) : Machine D :=
  if inSlot && !m.cpu.inHalt then
    m.mapCpu fun s => { s with inDelaySlot := false, delayCaller := .other, pc := slotTarget }
  else m

/-- The deferred trap is taken out of its slot. -/
def takeDeferred : Machine D := m.mapCpu ({ · with deferredTrapValid := false })

/-- The deferred trap fires, unless a prefix or a slot is still open or the CPU has
faulted. -/
def fireDeferred : Machine D :=
  if !m.inWindow && m.cpu.deferredTrapValid && !m.cpu.fault then
    m.takeDeferred.doTrap io m.cpu.deferredTrapNo m.cpu.deferredTrapLevel
  else m

/-! ### The step -/

/-- The instruction at the program counter. -/
def insnAtPc : Insn := ⟨(m.fetch16 m.cpu.pc).1⟩

/-- The machine that has fetched its instruction and moved on to the next. -/
def fetched : Machine D := (m.fetch16 m.cpu.pc).2.setPc (m.cpu.pc + 2)

/-- A dispatched instruction, up to where a deferred trap may fire. -/
def retire (insn : Insn) (inSlot : Bool) (slotTarget : U32) : Machine D :=
  ((Handler.ofInsn insn).run io insn m).checkBusFault.completeSlot inSlot slotTarget

/-- The instruction at the program counter, executed. -/
def execute : Machine D :=
  match m.fetched.check m.cpu.pc m.insnAtPc m.cpu.inDelaySlot with
  | .error m' => m'
  | .ok m' => (m'.retire io m.insnAtPc m.cpu.inDelaySlot m.cpu.delayTarget).fireDeferred io

/-- `step`. -/
def step : Machine D :=
  if m.cpu.inHalt then m
  else if m.breakpoints m.cpu.pc then m.mapCpu ({ · with inHalt := true })
  else m.execute io

/-- What `step` returns: the cycles it charged, at least 1. -/
def stepCycles : ℤ :=
  let d := (m.step io).bus.cycles - m.bus.cycles
  if 0 < d then d.toInt else 1

end Machine

/-! ### Runs -/

/-- What drives a CPU: its own steps, and the traps asserted between them. -/
inductive CpuAction
  | step
  | assertTrap (no level : ℤ)
  deriving DecidableEq, Repr

/-- One action. -/
def CpuAction.act {D : Type} (io : IoSpace D) (m : Machine D) : CpuAction → Machine D
  | step => m.step io
  | assertTrap no level => m.assertTrap io no level

namespace Machine

variable {D : Type} (io : IoSpace D)

/-- `reset`, over the bus as it stands: the state a CPU starts from. -/
def reset (m : Machine D) : Machine D :=
  let (pc, m) := { m with cpu := {} }.read32 io Bus.flashBase
  m.setPc pc

/-- A board without peripherals, booting from the halfwords of a ROM. -/
def ofRom (rom : List U16) : Machine Unit where
  cpu := {}
  bus :=
    { iram := fun _ => 0, sram := fun _ => 0, sramSize := 0x40000, dev := ()
      flash := .flat ⟨0x80000, fun i =>
        (rom.getD (i / 2) 0xFFFF >>> (8 * (i % 2))).setWidth 8⟩ }

end Machine
