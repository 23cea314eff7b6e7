import PieceEmu.Core.Bus

/-!
# The CPU and its machine

The architectural state of the S1C33209 core (`CpuState`), the fields of an
instruction word (`Insn`), and what every instruction handler is written with:
the value of a pending EXT prefix, the accesses of the CPU to its bus, the entry
of a trap and the fault that stops the emulator.

A `Machine` is a CPU with its bus, its breakpoints and its strictness. Operations
take a machine and return one; an operation that also returns a value returns a
pair. What the CPU reports to the diagnostic sink has no influence on it and is
left out, except that a faulting report stops the CPU.
-/

/-! ### Instruction words -/

/-- An instruction word, with the accessors of its fields. -/
structure Insn where
  raw : U16
  deriving DecidableEq

namespace Insn

variable (i : Insn)

/-- The bits of the word from `lo` on, `n` of them, as a number. -/
def field (lo n : ℕ) : ℕ := (i.raw.extractLsb' lo n).toNat

/-- `cls`: bits 15–13. -/
def cls : ℕ := i.field 13 3
/-- `op1`: bits 12–10. -/
def op1 : ℕ := i.field 10 3
/-- `op2`: bits 9–8. -/
def op2 : ℕ := i.field 8 2
/-- `c0_op1`: bits 12–9. -/
def c0Op1 : ℕ := i.field 9 4
/-- `c0_op2`: bits 7–6. -/
def c0Op2 : ℕ := i.field 6 2
/-- `rd`: bits 3–0. -/
def rd : BitVec 4 := i.raw.extractLsb' 0 4
/-- `rs`: bits 7–4. -/
def rs : BitVec 4 := i.raw.extractLsb' 4 4
/-- `rb`: bits 7–4. -/
def rb : BitVec 4 := i.raw.extractLsb' 4 4
/-- `d`: bit 8, a delayed branch. -/
def d : Bool := i.raw.getLsbD 8
/-- `imm2`. -/
def imm2 : ℕ := i.field 0 2
/-- `imm3`. -/
def imm3 : ℕ := i.field 0 3
/-- `imm6`: bits 9–4. -/
def imm6 : U32 := (i.raw.extractLsb' 4 6).setWidth 32
/-- `imm10`. -/
def imm10 : U32 := (i.raw.extractLsb' 0 10).setWidth 32
/-- `imm13`. -/
def imm13 : U32 := (i.raw.extractLsb' 0 13).setWidth 32
/-- `sign8`: the displacement of a branch, raw. -/
def sign8 : U32 := (i.raw.extractLsb' 0 8).setWidth 32

/-- `shift_amt`: 0 to 7, or 8 when bit 7 is set. -/
def shiftAmt : ℕ := if i.field 4 4 &&& 8 ≠ 0 then 8 else i.field 4 4

end Insn

/-! ### The status register -/

/-- `Psr`. -/
structure Psr where
  raw : U32 := 0
  deriving DecidableEq

namespace Psr

variable (p : Psr)

/-- One of the flags, by its bit. -/
def flag (k : ℕ) : Bool := p.raw.getLsbD k
/-- Setting one of the flags, by its bit. -/
def setFlag (k : ℕ) (v : Bool) : Psr :=
  ⟨(p.raw &&& ~~~(1#32 <<< k)) ||| ((BitVec.ofBool v).setWidth 32 <<< k)⟩

/-- `N`: the result is negative. -/
def n : Bool := p.flag 0
/-- `Z`: the result is zero. -/
def z : Bool := p.flag 1
/-- `V`: the signed operation overflowed. -/
def v : Bool := p.flag 2
/-- `C`: a carry out of the top bit, or a borrow. -/
def c : Bool := p.flag 3
/-- `IE`: interrupts are accepted. -/
def ie : Bool := p.flag 4
/-- `DS`: the dividend of the division steps is negative. -/
def ds : Bool := p.flag 6
/-- `MO`: a sum of `mac` overflowed; it stays set. -/
def mo : Bool := p.flag 7
/-- `il`: bits 11–8. -/
def il : U32 := (p.raw >>> 8) &&& 0xF

/-- `N`, assigned. -/
def setN (v : Bool) : Psr := p.setFlag 0 v
/-- `Z`, assigned. -/
def setZ (v : Bool) : Psr := p.setFlag 1 v
/-- `V`, assigned. -/
def setV (v : Bool) : Psr := p.setFlag 2 v
/-- `C`, assigned. -/
def setC (v : Bool) : Psr := p.setFlag 3 v
/-- `IE`, assigned. -/
def setIe (v : Bool) : Psr := p.setFlag 4 v
/-- `DS`, assigned. -/
def setDs (v : Bool) : Psr := p.setFlag 6 v
/-- `MO`, assigned. -/
def setMo (v : Bool) : Psr := p.setFlag 7 v
/-- `set_il`. -/
def setIl (lv : U32) : Psr := ⟨(p.raw &&& ~~~(0xF#32 <<< 8)) ||| ((lv &&& 0xF) <<< 8)⟩

/-- `set_nz`. -/
def setNz (result : U32) : Psr := (p.setN result.msb).setZ (result = 0)

/-- `set_nzvc_add`. -/
def setNzvcAdd (a b : U32) (r64 : U64) : Psr :=
  let r := r64.setWidth 32
  (((p.setN r.msb).setZ (r = 0)).setC (r64 >>> 32 ≠ 0)).setV (~~~(a ^^^ b) &&& (a ^^^ r)).msb

/-- `set_nzvc_sub`. -/
def setNzvcSub (a b : U32) (r64 : U64) : Psr :=
  let r := r64.setWidth 32
  (((p.setN r.msb).setZ (r = 0)).setC (r64 >>> 32 ≠ 0)).setV ((a ^^^ b) &&& (a ^^^ r)).msb

end Psr

/-! ### The state of the CPU -/

/-- `HaltMode`: what put the CPU to sleep. -/
inductive HaltMode
  | none
  | hlt
  | slp
  deriving DecidableEq, Repr

/-- `delay_caller`: the instruction that opened the delay slot. -/
inductive DelayCaller
  | other
  | retD
  | callD
  deriving DecidableEq, Repr

/-- `CpuState`. -/
structure CpuState where
  /-- The general registers. -/
  r : BitVec 4 → U32 := fun _ => 0
  pc : U32 := 0
  sp : U32 := 0
  alr : U32 := 0
  ahr : U32 := 0
  psr : Psr := {}
  /-- `pending_ext[0]`, the oldest prefix. -/
  pendingExt0 : U32 := 0
  /-- `pending_ext[1]`. -/
  pendingExt1 : U32 := 0
  pendingExtCount : ℕ := 0
  deferredTrapValid : Bool := false
  deferredTrapNo : ℤ := 0
  deferredTrapLevel : ℤ := 0
  inHalt : Bool := false
  haltMode : HaltMode := .none
  fault : Bool := false
  inDelaySlot : Bool := false
  delayTarget : U32 := 0
  delayCaller : DelayCaller := .other
  ttbr : U32 := 0x400

/-- `sign_ext`. -/
def signExt (v : U32) (bits : ℕ) : U32 :=
  if 32 ≤ bits then v
  else
    let sign := 1#32 <<< (bits - 1)
    (v ^^^ sign) - sign

namespace CpuState

variable (s : CpuState)

/-- `ext_imm`: an immediate of `width` bits under the pending prefixes. -/
def extImm (imm : U32) (width : ℕ) : U32 :=
  let raw := imm &&& (1#32 <<< width - 1)
  match s.pendingExtCount with
  | 0 => raw
  | 1 => s.pendingExt0 <<< width ||| raw
  | _ => s.pendingExt0 <<< (13 + width) ||| s.pendingExt1 <<< width ||| raw

/-- `ext_simm`: a signed immediate of `width` bits under the pending prefixes. -/
def extSimm (imm : U32) (width : ℕ) : U32 :=
  let raw := imm &&& (1#32 <<< width - 1)
  match s.pendingExtCount with
  | 0 => signExt raw width
  | 1 => signExt (s.pendingExt0 <<< width ||| raw) (13 + width)
  | _ =>
    let combined : U64 := s.pendingExt0.setWidth 64 <<< (13 + width) |||
      s.pendingExt1.setWidth 64 <<< width ||| raw.setWidth 64
    if 32 ≤ 26 + width then combined.setWidth 32
    else
      let sign : U64 := 1#64 <<< (26 + width - 1)
      ((combined ^^^ sign) - sign).setWidth 32

/-- `ext_rb`: the displacement, or third operand, the pending prefixes stand for. -/
def extRb : U32 :=
  match s.pendingExtCount with
  | 0 => 0
  | 1 => s.pendingExt0
  | _ => s.pendingExt0 <<< 13 ||| s.pendingExt1

/-- `ext_pcrel`: the displacement of a branch under the pending prefixes, of which
the first keeps only its upper ten bits when there are two. -/
def extPcrel (imm8 : U32) : U32 :=
  let raw := imm8 &&& 0xFF
  match s.pendingExtCount with
  | 0 => signExt raw 8
  | 1 => signExt (s.pendingExt0 <<< 8 ||| raw) 21
  | _ =>
    let combined := (raw &&& 0xFF) ||| s.pendingExt1 <<< 8 ||| (s.pendingExt0 >>> 3) <<< 21
    if combined.getLsbD 30 then combined ||| 0x80000000 else combined

/-- `flush_ext`. -/
def flushExt : CpuState := { s with pendingExtCount := 0 }

/-- Writing a general register. -/
def setR (n : BitVec 4) (v : U32) : CpuState := { s with r := Function.update s.r n v }

end CpuState

/-! ### The machine -/

/-- A CPU with its bus. -/
structure Machine (D : Type) where
  /-- `state`. -/
  cpu : CpuState
  /-- `bus_`. -/
  bus : Bus D
  breakpoints : U32 → Bool := fun _ => false
  /-- `strict_`. -/
  strict : Bool := false

namespace Machine

variable {D : Type} (io : IoSpace D) (m : Machine D)

/-- A change of the CPU state alone. -/
def mapCpu (f : CpuState → CpuState) : Machine D := { m with cpu := f m.cpu }

/-- `flush_ext`. -/
def flushExt : Machine D := m.mapCpu CpuState.flushExt

/-- Writing a general register. -/
def setR (n : BitVec 4) (v : U32) : Machine D := m.mapCpu (·.setR n v)

/-- Writing the status register. -/
def setPsr (p : Psr) : Machine D := m.mapCpu ({ · with psr := p })

/-- Writing the stack pointer. -/
def setSp (v : U32) : Machine D := m.mapCpu ({ · with sp := v })

/-- Writing the program counter. -/
def setPc (v : U32) : Machine D := m.mapCpu ({ · with pc := v })

/-- What a register write asked of the CPU, done. -/
def request (q : CpuRequest) : Machine D :=
  { m with
    cpu := { m.cpu with
      ttbr := q.ttbr.getD m.cpu.ttbr
      inHalt := m.cpu.inHalt || q.halt }
    breakpoints := q.breakpoints m.breakpoints }

/-! ### Accesses of the CPU -/

/-- A byte read on the bus. -/
def read8 (addr : U32) : U8 × Machine D :=
  ((m.bus.read8 io addr).1, { m with bus := (m.bus.read8 io addr).2 })

/-- A halfword read on the bus. -/
def read16 (addr : U32) : U16 × Machine D :=
  ((m.bus.read16 io addr).1, { m with bus := (m.bus.read16 io addr).2 })

/-- A word read on the bus. -/
def read32 (addr : U32) : U32 × Machine D :=
  ((m.bus.read32 io addr).1, { m with bus := (m.bus.read32 io addr).2 })

/-- A byte written on the bus, and what its handler asks of the CPU done. -/
def write8 (addr : U32) (val : U8) : Machine D :=
  { m with bus := (m.bus.write8 io addr val).1 }.request (m.bus.write8 io addr val).2

/-- A halfword written, likewise. -/
def write16 (addr : U32) (val : U16) : Machine D :=
  { m with bus := (m.bus.write16 io addr val).1 }.request (m.bus.write16 io addr val).2

/-- A word written, likewise. -/
def write32 (addr : U32) (val : U32) : Machine D :=
  { m with bus := (m.bus.write32 io addr val).1 }.request (m.bus.write32 io addr val).2

/-- An instruction word fetched on the bus. -/
def fetch16 (addr : U32) : U16 × Machine D :=
  ((m.bus.fetch16 addr).1, { m with bus := (m.bus.fetch16 addr).2 })

/-- `sp -= 4`, then a word stored there. -/
def push (val : U32) : Machine D :=
  let m := m.setSp (m.cpu.sp - 4)
  m.write32 io m.cpu.sp val

/-- A word loaded from the stack pointer, then `sp += 4`. -/
def pop : U32 × Machine D :=
  let (val, m) := m.read32 io m.cpu.sp
  (val, m.setSp (m.cpu.sp + 4))

/-- What `disasm` does to the machine: it fetches the word it prints. -/
def disasm (addr : U32) : Machine D := (m.fetch16 addr).2

/-! ### Faults -/

/-- `diag_fault`: the report of a fault stops the CPU. -/
def diagFault : Machine D := m.mapCpu fun s => { s with fault := true, inHalt := true }

/-- `diag_warn_or_fault`. -/
def diagWarnOrFault : Machine D := if m.strict then m.diagFault else m

/-! ### Traps -/

/-- The gate of `do_trap`: a trap below 16 always passes, a maskable one needs
`IE` and a level above `IL`. -/
def trapGate (no level : ℤ) : Bool :=
  no < 16 || (m.cpu.psr.ie && m.cpu.psr.il < BitVec.ofInt 32 level)

/-- An EXT prefix or a delay slot is open: a trap may not be taken here. -/
def inWindow : Bool := 0 < m.cpu.pendingExtCount || m.cpu.inDelaySlot

/-- The address of the vector of a trap. -/
def vectorAddr (no : ℤ) : U32 := m.cpu.ttbr + BitVec.ofInt 32 (no * 4)

/-- The entry `do_trap` makes into the handler of a trap: `PC` and `PSR` are pushed,
in this order, and the CPU wakes. -/
def enterTrap (no level : ℤ) : Machine D :=
  let (vec, m) := m.read32 io (m.vectorAddr no)
  let m := m.push io m.cpu.pc
  let m := m.push io m.cpu.psr.raw
  m.mapCpu fun s => { s with
    pc := vec
    psr := if 16 ≤ no then (s.psr.setIe false).setIl (BitVec.ofInt 32 level) else s.psr.setIe false
    inHalt := false
    haltMode := .none }

/-- The single slot in which `do_trap` keeps a trap it may not take yet. -/
def deferTrap (no level : ℤ) : Machine D :=
  m.mapCpu fun s => { s with
    deferredTrapValid := true
    deferredTrapNo := no
    deferredTrapLevel := level }

/-- `do_trap`. -/
def doTrap (no level : ℤ) : Machine D :=
  if !m.trapGate no level then m
  else if m.inWindow then m.deferTrap no level
  else m.enterTrap io no level

/-- `assert_trap`. -/
def assertTrap (no level : ℤ) : Machine D := m.doTrap io no level

end Machine
