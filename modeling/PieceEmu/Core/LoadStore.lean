import PieceEmu.Core.Machine

/-!
# Classes 1A, 1B and 2: loads and stores

A load or store is determined by its width, by whether a loaded value is sign
extended, and by its addressing: through a register, through a register that is
advanced, or relative to the stack pointer.
-/

/-- The width of an access. -/
inductive Width
  | byte
  | half
  | word
  deriving DecidableEq, Repr

/-- The width in bytes. -/
def Width.bytes : Width → U32
  | byte => 1
  | half => 2
  | word => 4

namespace Machine

variable {D : Type} (io : IoSpace D) (m : Machine D) (insn : Insn)

/-- A load of a width, extended to a register. -/
def loadWidth (w : Width) (signed : Bool) (ea : U32) : U32 × Machine D :=
  match w with
  | .byte =>
    let (v, m) := m.read8 io ea
    (if signed then v.signExtend 32 else v.setWidth 32, m)
  | .half =>
    let (v, m) := m.read16 io ea
    (if signed then v.signExtend 32 else v.setWidth 32, m)
  | .word => m.read32 io ea

/-- A store of the low bytes of a register. -/
def storeWidth (w : Width) (ea val : U32) : Machine D :=
  match w with
  | .byte => m.write8 io ea (val.setWidth 8)
  | .half => m.write16 io ea (val.setWidth 16)
  | .word => m.write32 io ea val

/-- `do_load_rb`. -/
def doLoadRb (w : Width) (signed postInc : Bool) : Machine D :=
  let disp := m.cpu.extRb
  let m := m.flushExt
  let (val, m) := m.loadWidth io w signed (m.cpu.r insn.rb + disp)
  let m := m.setR insn.rd val
  if postInc then m.setR insn.rb (m.cpu.r insn.rb + w.bytes) else m

/-- `do_store_rb`. -/
def doStoreRb (w : Width) (postInc : Bool) : Machine D :=
  let disp := m.cpu.extRb
  let m := m.flushExt
  let m := m.storeWidth io w (m.cpu.r insn.rb + disp) (m.cpu.r insn.rd)
  if postInc then m.setR insn.rb (m.cpu.r insn.rb + w.bytes) else m

/-! ### Class 1A: `[%rb]` -/

/-- `ld.b %rd, [%rb]`. -/
def hLdBRdRb : Machine D := m.doLoadRb io insn .byte true false
/-- `ld.ub %rd, [%rb]`. -/
def hLdUbRdRb : Machine D := m.doLoadRb io insn .byte false false
/-- `ld.h %rd, [%rb]`. -/
def hLdHRdRb : Machine D := m.doLoadRb io insn .half true false
/-- `ld.uh %rd, [%rb]`. -/
def hLdUhRdRb : Machine D := m.doLoadRb io insn .half false false
/-- `ld.w %rd, [%rb]`. -/
def hLdWRdRb : Machine D := m.doLoadRb io insn .word false false
/-- `ld.b [%rb], %rs`. -/
def hStBRbRs : Machine D := m.doStoreRb io insn .byte false
/-- `ld.h [%rb], %rs`. -/
def hStHRbRs : Machine D := m.doStoreRb io insn .half false
/-- `ld.w [%rb], %rs`. -/
def hStWRbRs : Machine D := m.doStoreRb io insn .word false

/-! ### Class 1B: `[%rb]+` -/

/-- `ld.b %rd, [%rb]+`. -/
def hLdBRdRbx : Machine D := m.doLoadRb io insn .byte true true
/-- `ld.ub %rd, [%rb]+`. -/
def hLdUbRdRbx : Machine D := m.doLoadRb io insn .byte false true
/-- `ld.h %rd, [%rb]+`. -/
def hLdHRdRbx : Machine D := m.doLoadRb io insn .half true true
/-- `ld.uh %rd, [%rb]+`. -/
def hLdUhRdRbx : Machine D := m.doLoadRb io insn .half false true
/-- `ld.w %rd, [%rb]+`. -/
def hLdWRdRbx : Machine D := m.doLoadRb io insn .word false true
/-- `ld.b [%rb]+, %rs`. -/
def hStBRbxRs : Machine D := m.doStoreRb io insn .byte true
/-- `ld.h [%rb]+, %rs`. -/
def hStHRbxRs : Machine D := m.doStoreRb io insn .half true
/-- `ld.w [%rb]+, %rs`. -/
def hStWRbxRs : Machine D := m.doStoreRb io insn .word true

/-! ### Class 2: `[%sp+imm6]` -/

/-- `sp_ea`: the immediate counts elements, unless a prefix makes it bytes. -/
def spEa (elemSize : U32) : U32 :=
  if m.cpu.pendingExtCount = 0 then m.cpu.sp + insn.imm6 * elemSize
  else m.cpu.sp + m.cpu.extImm insn.imm6 6

/-- `do_load_sp`. -/
def doLoadSp (w : Width) (signed : Bool) : Machine D :=
  let ea := m.spEa insn w.bytes
  let (val, m) := m.flushExt.loadWidth io w signed ea
  m.setR insn.rd val

/-- `do_store_sp`. -/
def doStoreSp (w : Width) : Machine D :=
  let ea := m.spEa insn w.bytes
  let m := m.flushExt
  m.storeWidth io w ea (m.cpu.r insn.rd)

/-- `ld.b %rd, [%sp+imm6]`. -/
def hLdBRdSp : Machine D := m.doLoadSp io insn .byte true
/-- `ld.ub %rd, [%sp+imm6]`. -/
def hLdUbRdSp : Machine D := m.doLoadSp io insn .byte false
/-- `ld.h %rd, [%sp+imm6]`. -/
def hLdHRdSp : Machine D := m.doLoadSp io insn .half true
/-- `ld.uh %rd, [%sp+imm6]`. -/
def hLdUhRdSp : Machine D := m.doLoadSp io insn .half false
/-- `ld.w %rd, [%sp+imm6]`. -/
def hLdWRdSp : Machine D := m.doLoadSp io insn .word false
/-- `ld.b [%sp+imm6], %rs`. -/
def hStBSpRs : Machine D := m.doStoreSp io insn .byte
/-- `ld.h [%sp+imm6], %rs`. -/
def hStHSpRs : Machine D := m.doStoreSp io insn .half
/-- `ld.w [%sp+imm6], %rs`. -/
def hStWSpRs : Machine D := m.doStoreSp io insn .word

end Machine
