import PieceEmu.Core.Machine

/-!
# Classes 0 and 6: control flow and the EXT prefix

The handlers of the instructions that move the program counter, put the CPU to
sleep or extend the next immediate. When a handler runs, `pc` already points past
its instruction.
-/

namespace Machine

variable {D : Type} (io : IoSpace D) (m : Machine D) (insn : Insn)

/-- `do_c0_jump`: a branch is taken at once, or opens a delay slot. -/
def doC0Jump (target : U32) (delayed : Bool) : Machine D :=
  if !delayed then m.setPc target
  else m.mapCpu fun s => { s with inDelaySlot := true, delayTarget := target }

/-- The note a delayed call or return leaves for the check of its slot. -/
def setDelayCaller (caller : DelayCaller) : Machine D :=
  m.mapCpu ({ · with delayCaller := caller })

/-! ### Class 0a -/

/-- `nop`. It ends a run of prefixes. -/
def hNop : Machine D := m.flushExt

/-- The common body of `h_slp` and `h_halt`. -/
def sleep (mode : HaltMode) : Machine D :=
  m.flushExt.mapCpu fun s => { s with inHalt := true, haltMode := mode }

/-- `slp`. -/
def hSlp : Machine D := m.sleep .slp

/-- `halt`. -/
def hHalt : Machine D := m.sleep .hlt

/-- The loop of `h_pushn`, from register `i` down to 0. -/
def pushFrom : ℕ → Machine D → Machine D
  | 0, m => m.push io (m.cpu.r 0)
  | i + 1, m => pushFrom i (m.push io (m.cpu.r (BitVec.ofNat 4 (i + 1))))

/-- `pushn %rs`: the registers from `%rs` down to `%r0`, pushed in this order. -/
def hPushn : Machine D := pushFrom io insn.rd.toNat m.flushExt

/-- `n` turns of the loop of `h_popn`, from register `i` on. -/
def popFrom : ℕ → ℕ → Machine D → Machine D
  | 0, _, m => m
  | n + 1, i, m =>
    let (v, m') := m.read32 io m.cpu.sp
    let m' := m'.setR (BitVec.ofNat 4 i) v
    popFrom n (i + 1) (m'.setSp (m'.cpu.sp + 4))

/-- `popn %rd`: the registers from `%r0` up to `%rd`, popped in this order. -/
def hPopn : Machine D := popFrom io (insn.rd.toNat + 1) 0 m.flushExt

/-- `brk`: the trap 0. -/
def hBrk : Machine D := m.flushExt.doTrap io 0 0

/-- `retd`. It pops the return address before the status register, and returns through a slot. -/
def hRetd : Machine D :=
  let m := m.flushExt
  let (retAddr, m) := m.pop io
  let (psr, m) := m.read32 io m.cpu.sp
  let m := m.setPsr ⟨psr⟩
  let m := m.setSp (m.cpu.sp + 4)
  m.mapCpu fun s => { s with inDelaySlot := true, delayTarget := retAddr }

/-- `int imm2`: one of the software traps. -/
def hInt : Machine D := m.flushExt.doTrap io (12 + insn.imm2) 0

/-- `reti`: the status register, then the return address. -/
def hReti : Machine D :=
  let m := m.flushExt
  let (psr, m) := m.read32 io m.cpu.sp
  let m := m.setPsr ⟨psr⟩
  let m := m.setSp (m.cpu.sp + 4)
  let (retAddr, m) := m.pop io
  m.setPc retAddr

/-- `call %rb`. A delayed call returns behind its slot. -/
def hCallRb : Machine D :=
  let m := m.flushExt
  let target := m.cpu.r insn.rd
  let m := m.push io (m.cpu.pc + if insn.d then 2 else 0)
  let m := if insn.d then m.setDelayCaller .callD else m
  m.doC0Jump target insn.d

/-- `ret`. -/
def hRet : Machine D :=
  let m := m.flushExt
  let (target, m) := m.pop io
  let m := if insn.d then m.setDelayCaller .retD else m
  m.doC0Jump target insn.d

/-- `jp %rb`. -/
def hJpRb : Machine D :=
  let m := m.flushExt
  -- the delayed form is refused
  if insn.d then m.diagFault
  else m.doC0Jump (m.cpu.r insn.rd) false

/-! ### Class 0b -/

/-- The target of a branch relative to its own address, which is `pc - 2`. -/
def pcrelTarget (disp : U32) : U32 := (m.cpu.pc - 2) + 2 * disp

/-- `h_jr`: a branch that is not taken opens no slot, its slot instruction simply
comes next. -/
def hJr (taken : Bool) : Machine D :=
  let disp := m.cpu.extPcrel insn.sign8
  let m := m.flushExt
  if taken then m.doC0Jump (m.pcrelTarget disp) insn.d else m

/-- `jrgt`: greater, signed. -/
def hJrgt : Machine D :=
  m.hJr insn (!(m.cpu.psr.n ^^ m.cpu.psr.v) && !m.cpu.psr.z)
/-- `jrge`: greater or equal, signed. -/
def hJrge : Machine D := m.hJr insn !(m.cpu.psr.n ^^ m.cpu.psr.v)
/-- `jrlt`: less, signed. -/
def hJrlt : Machine D := m.hJr insn (m.cpu.psr.n ^^ m.cpu.psr.v)
/-- `jrle`: less or equal, signed. -/
def hJrle : Machine D := m.hJr insn ((m.cpu.psr.n ^^ m.cpu.psr.v) || m.cpu.psr.z)
/-- `jrugt`: greater, unsigned. -/
def hJrugt : Machine D := m.hJr insn (!m.cpu.psr.c && !m.cpu.psr.z)
/-- `jruge`: greater or equal, unsigned. -/
def hJruge : Machine D := m.hJr insn !m.cpu.psr.c
/-- `jrult`: less, unsigned. -/
def hJrult : Machine D := m.hJr insn m.cpu.psr.c
/-- `jrule`: less or equal, unsigned. -/
def hJrule : Machine D := m.hJr insn (m.cpu.psr.c || m.cpu.psr.z)
/-- `jreq`: equal. -/
def hJreq : Machine D := m.hJr insn m.cpu.psr.z
/-- `jrne`: not equal. -/
def hJrne : Machine D := m.hJr insn !m.cpu.psr.z

/-- `call sign8`. -/
def hCallSimm8 : Machine D :=
  let disp := m.cpu.extPcrel insn.sign8
  let m := m.flushExt
  let target := m.pcrelTarget disp
  let m := m.push io (m.cpu.pc + if insn.d then 2 else 0)
  let m := if insn.d then m.setDelayCaller .callD else m
  m.doC0Jump target insn.d

/-- `jp sign8`. -/
def hJpSimm8 : Machine D :=
  let disp := m.cpu.extPcrel insn.sign8
  let m := m.flushExt
  m.doC0Jump (m.pcrelTarget disp) insn.d

/-! ### Class 6 and the undefined words -/

/-- `h_ext`: a third prefix in a row takes the place of the second. -/
def hExt : Machine D :=
  if 2 ≤ m.cpu.pendingExtCount then
    m.diagWarnOrFault.mapCpu ({ · with pendingExt1 := insn.imm13 })
  else if m.cpu.pendingExtCount = 0 then
    m.mapCpu ({ · with pendingExt0 := insn.imm13, pendingExtCount := 1 })
  else m.mapCpu ({ · with pendingExt1 := insn.imm13, pendingExtCount := 2 })

/-- `h_undef`: the pending prefixes are printed with the word, then it faults. -/
def hUndef : Machine D :=
  let faultPc := m.cpu.pc - 2
  let m := if 2 ≤ m.cpu.pendingExtCount then m.disasm (faultPc - 4) else m
  let m := if 1 ≤ m.cpu.pendingExtCount then m.disasm (faultPc - 2) else m
  m.diagFault

end Machine
