import PieceEmu.Core.Machine

/-!
# Classes 1C, 3 and 4: arithmetic

Register and immediate arithmetic, shifts and rotates, scans, and the steps of a
division.
-/

/-- `AluOp`. -/
inductive AluOp
  | add
  | sub
  | cmp
  | mov
  | and
  | or
  | xor
  | not
  deriving DecidableEq, Repr

namespace Machine

variable {D : Type} (io : IoSpace D) (m : Machine D) (insn : Insn)

/-- `do_alu`. -/
def doAlu (op : AluOp) (a b : U32) (rd : BitVec 4) : Machine D :=
  let p := m.cpu.psr
  match op with
  | .add =>
    let r : U64 := a.setWidth 64 + b.setWidth 64
    (m.setR rd (r.setWidth 32)).setPsr (p.setNzvcAdd a b r)
  | .sub =>
    let r : U64 := a.setWidth 64 - b.setWidth 64
    (m.setR rd (r.setWidth 32)).setPsr (p.setNzvcSub a b r)
  | .cmp =>
    let r : U64 := a.setWidth 64 - b.setWidth 64
    m.setPsr (p.setNzvcSub a b r)
  | .mov => m.setR rd b
  | .and => (m.setR rd (a &&& b)).setPsr (p.setNz (a &&& b))
  | .or => (m.setR rd (a ||| b)).setPsr (p.setNz (a ||| b))
  | .xor => (m.setR rd (a ^^^ b)).setPsr (p.setNz (a ^^^ b))
  | .not => (m.setR rd (~~~b)).setPsr (p.setNz (~~~b))

/-! ### Class 1C: registers -/

/-- `do_alu_rr`: under a prefix, `rs` and the prefix are the operands, where the
operation has that form. -/
def doAluRr (op : AluOp) (hasExt3Op : Bool) : Machine D :=
  if hasExt3Op && m.cpu.pendingExtCount != 0 then
    let b := m.cpu.extRb
    let m := m.flushExt
    m.doAlu op (m.cpu.r insn.rs) b insn.rd
  else
    let m := m.flushExt
    m.doAlu op (m.cpu.r insn.rd) (m.cpu.r insn.rs) insn.rd

/-- `add %rd, %rs`. -/
def hAddRdRs : Machine D := m.doAluRr insn .add true
/-- `sub %rd, %rs`. -/
def hSubRdRs : Machine D := m.doAluRr insn .sub true
/-- `cmp %rd, %rs`: the flags of the difference alone. -/
def hCmpRdRs : Machine D := m.doAluRr insn .cmp true
/-- `ld.w %rd, %rs`. It has no form with three operands, so a prefix is dropped. -/
def hLdWRdRs : Machine D := m.doAluRr insn .mov false
/-- `and %rd, %rs`. -/
def hAndRdRs : Machine D := m.doAluRr insn .and true
/-- `or %rd, %rs`. -/
def hOrRdRs : Machine D := m.doAluRr insn .or true
/-- `xor %rd, %rs`. -/
def hXorRdRs : Machine D := m.doAluRr insn .xor true
/-- `not %rd, %rs`. Like the load, it drops a prefix. -/
def hNotRdRs : Machine D := m.doAluRr insn .not false

/-! ### Class 3: immediates -/

/-- `do_alu_imm`. -/
def doAluImm (op : AluOp) (signed : Bool) : Machine D :=
  let b := if signed then m.cpu.extSimm insn.imm6 6 else m.cpu.extImm insn.imm6 6
  let m := m.flushExt
  m.doAlu op (m.cpu.r insn.rd) b insn.rd

/-- `add %rd, imm6`. -/
def hAddRdImm6 : Machine D := m.doAluImm insn .add false
/-- `sub %rd, imm6`. -/
def hSubRdImm6 : Machine D := m.doAluImm insn .sub false
/-- `cmp %rd, sign6`. -/
def hCmpRdSimm6 : Machine D := m.doAluImm insn .cmp true
/-- `ld.w %rd, sign6`. -/
def hLdWRdSimm6 : Machine D := m.doAluImm insn .mov true
/-- `and %rd, sign6`. -/
def hAndRdSimm6 : Machine D := m.doAluImm insn .and true
/-- `or %rd, sign6`. -/
def hOrRdSimm6 : Machine D := m.doAluImm insn .or true
/-- `xor %rd, sign6`. -/
def hXorRdSimm6 : Machine D := m.doAluImm insn .xor true
/-- `not %rd, sign6`. -/
def hNotRdSimm6 : Machine D := m.doAluImm insn .not true

/-! ### Class 4A: the stack pointer -/

/-- `add %sp, imm10`, which counts words. A prefix is dropped. -/
def hAddSpImm10 : Machine D :=
  let m := m.flushExt
  m.setSp (m.cpu.sp + insn.imm10 * 4)

/-- `sub %sp, imm10`, which counts words. A prefix is dropped. -/
def hSubSpImm10 : Machine D :=
  let m := m.flushExt
  m.setSp (m.cpu.sp - insn.imm10 * 4)

/-! ### Classes 4B and 4C: shifts and rotates -/

/-- The common body of the shifts: `rd` shifted, `N` and `Z` set, the other flags
kept. -/
def doShift (f : U32 → ℕ → U32) (n : ℕ) : Machine D :=
  let m := m.flushExt
  let r := f (m.cpu.r insn.rd) n
  (m.setR insn.rd r).setPsr (m.cpu.psr.setNz r)

/-- The shift count of the register forms. -/
def shiftCount : ℕ := (m.cpu.r insn.rs &&& 0x1F).toNat

/-- `srl %rd, imm4`: to the right, zeros coming in. -/
def hSrlRdImm4 : Machine D := m.doShift insn (· >>> ·) insn.shiftAmt
/-- `sll %rd, imm4`: to the left. -/
def hSllRdImm4 : Machine D := m.doShift insn (· <<< ·) insn.shiftAmt
/-- `sra %rd, imm4`: to the right, the sign coming in. -/
def hSraRdImm4 : Machine D := m.doShift insn BitVec.sshiftRight insn.shiftAmt
/-- `sla %rd, imm4`, which is `sll`. -/
def hSlaRdImm4 : Machine D := m.doShift insn (· <<< ·) insn.shiftAmt
/-- `rr %rd, imm4`: rotated to the right. -/
def hRrRdImm4 : Machine D := m.doShift insn BitVec.rotateRight insn.shiftAmt
/-- `rl %rd, imm4`: rotated to the left. -/
def hRlRdImm4 : Machine D := m.doShift insn BitVec.rotateLeft insn.shiftAmt

/-- `srl %rd, %rs`. -/
def hSrlRdRs : Machine D := m.doShift insn (· >>> ·) (m.shiftCount insn)
/-- `sll %rd, %rs`. -/
def hSllRdRs : Machine D := m.doShift insn (· <<< ·) (m.shiftCount insn)
/-- `sra %rd, %rs`. -/
def hSraRdRs : Machine D := m.doShift insn BitVec.sshiftRight (m.shiftCount insn)
/-- `sla %rd, %rs`. -/
def hSlaRdRs : Machine D := m.doShift insn (· <<< ·) (m.shiftCount insn)
/-- `rr %rd, %rs`. -/
def hRrRdRs : Machine D := m.doShift insn BitVec.rotateRight (m.shiftCount insn)
/-- `rl %rd, %rs`. -/
def hRlRdRs : Machine D := m.doShift insn BitVec.rotateLeft (m.shiftCount insn)

/-! ### Class 4D: scans and swaps -/

/-- The loop of the scans: the first position from `pos` on, of at most `fuel`,
whose bit counted from the top of the byte `top` is `bit`. -/
def scanFrom (top : U32) (bit : Bool) : ℕ → ℕ → ℕ
  | 0, pos => pos
  | fuel + 1, pos =>
    if pos < 8 ∧ top.getLsbD (7 - pos) ≠ bit then scanFrom top bit fuel (pos + 1) else pos

/-- The common body of the scans for a bit in the top byte of `rs`. -/
def doScan (bit : Bool) : Machine D :=
  let m := m.flushExt
  let pos := scanFrom (m.cpu.r insn.rs >>> 24) bit 8 0
  (m.setR insn.rd (BitVec.ofNat 32 pos)).setPsr
    ((((m.cpu.psr.setZ (pos = 0)).setC (pos = 8)).setV false).setN false)

/-- `scan0 %rd, %rs`: the first bit that is clear. -/
def hScan0 : Machine D := m.doScan insn false
/-- `scan1 %rd, %rs`: the first bit that is set. -/
def hScan1 : Machine D := m.doScan insn true

/-- `swap %rd, %rs`: the bytes of the word in the opposite order. -/
def hSwap : Machine D :=
  let m := m.flushExt
  let v := m.cpu.r insn.rs
  m.setR insn.rd
    ((v &&& 0x000000FF) <<< 24 ||| (v &&& 0x0000FF00) <<< 8 |||
      (v &&& 0x00FF0000) >>> 8 ||| (v &&& 0xFF000000) >>> 24)

/-- `mirror %rd, %rs`: the bits of each byte in the opposite order. -/
def hMirror : Machine D :=
  let m := m.flushExt
  let v := m.cpu.r insn.rs
  let v := (v >>> 1 &&& 0x55555555) ||| (v &&& 0x55555555) <<< 1
  let v := (v >>> 2 &&& 0x33333333) ||| (v &&& 0x33333333) <<< 2
  let v := (v >>> 4 &&& 0x0F0F0F0F) ||| (v &&& 0x0F0F0F0F) <<< 4
  m.setR insn.rd v

/-! ### Class 4D: division steps -/

/-- `kTrapZeroDiv`. -/
def trapZeroDiv : ℤ := 4

/-- `div0s %rs`: the sign of the dividend goes to `DS` and fills `%ahr`, that of the divisor
goes to `N`. A zero divisor traps. -/
def hDiv0s : Machine D :=
  let m := m.flushExt
  let divisor := m.cpu.r insn.rs
  if divisor = 0 then m.assertTrap io trapZeroDiv 0
  else
    let negDividend := m.cpu.alr.msb
    m.mapCpu fun s => { s with
      ahr := if negDividend then 0xFFFFFFFF else 0
      psr := (s.psr.setDs negDividend).setN divisor.msb }

/-- `div0u %rs`: `%ahr` and the two signs are cleared. A zero divisor traps. -/
def hDiv0u : Machine D :=
  let m := m.flushExt
  let divisor := m.cpu.r insn.rs
  if divisor = 0 then m.assertTrap io trapZeroDiv 0
  else m.mapCpu fun s => { s with ahr := 0, psr := (s.psr.setDs false).setN false }

/-- `div1 %rs`: one bit of the quotient. The dividend moves up by a bit into `%ahr`, from which
the divisor is subtracted, or to which it is added where the signs differ; a difference that
keeps the sign of the dividend is kept, and sets the bit. -/
def hDiv1 : Machine D :=
  let m := m.flushExt
  let divisor := m.cpu.r insn.rs
  let ahr := m.cpu.ahr <<< 1 ||| m.cpu.alr >>> 31
  let alr := m.cpu.alr <<< 1
  let (tmp, qBit) : U32 × Bool :=
    match m.cpu.psr.ds, m.cpu.psr.n with
    | false, false => (ahr - divisor, ahr - divisor ≤ ahr)
    | false, true => (ahr + divisor, ahr + divisor < ahr)
    | true, false => (ahr + divisor, ahr ≤ ahr + divisor)
    | true, true => (ahr - divisor, ahr < ahr - divisor)
  if qBit then m.mapCpu ({ · with ahr := tmp, alr := alr ||| 1 })
  else m.mapCpu ({ · with ahr, alr })

/-- `div2s %rs`: where a negative dividend leaves a remainder as large as the divisor, the
remainder is cleared and the quotient goes up by one. -/
def hDiv2s : Machine D :=
  let m := m.flushExt
  if !m.cpu.psr.ds then m
  else
    let divisor := m.cpu.r insn.rs
    let tmp := if m.cpu.psr.n then m.cpu.ahr - divisor else m.cpu.ahr + divisor
    if tmp = 0 then m.mapCpu fun s => { s with ahr := 0, alr := s.alr + 1 } else m

/-- `div3s`: the quotient is negated where the signs differ. -/
def hDiv3s : Machine D :=
  let m := m.flushExt
  if m.cpu.psr.ds != m.cpu.psr.n then m.mapCpu fun s => { s with alr := 0 - s.alr } else m

end Machine
