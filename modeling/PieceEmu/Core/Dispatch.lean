import PieceEmu.Core.Alu
import PieceEmu.Core.Class0
import PieceEmu.Core.Class5
import PieceEmu.Core.LoadStore

/-!
# Dispatch

The dispatch table sends every instruction word to a handler (`Handler.ofInsn`),
and a handler acts on the machine (`Handler.run`). The two classifications that
`step` consults before it dispatches are here as well: which instructions may
follow a prefix, and which may stand in a delay slot.
-/

/-- The handlers, one for each function of the dispatch table. -/
inductive Handler
  | nop | slp | halt | pushn | popn | brk | retd | int | reti | callRb | ret | jpRb
  | jrgt | jrge | jrlt | jrle | jrugt | jruge | jrult | jrule | jreq | jrne
  | callSimm8 | jpSimm8
  | ldBRdRb | ldUbRdRb | ldHRdRb | ldUhRdRb | ldWRdRb | stBRbRs | stHRbRs | stWRbRs
  | ldBRdRbx | ldUbRdRbx | ldHRdRbx | ldUhRdRbx | ldWRdRbx | stBRbxRs | stHRbxRs | stWRbxRs
  | addRdRs | subRdRs | cmpRdRs | ldWRdRs | andRdRs | orRdRs | xorRdRs | notRdRs
  | ldBRdSp | ldUbRdSp | ldHRdSp | ldUhRdSp | ldWRdSp | stBSpRs | stHSpRs | stWSpRs
  | addRdImm6 | subRdImm6 | cmpRdSimm6 | ldWRdSimm6 | andRdSimm6 | orRdSimm6 | xorRdSimm6
  | notRdSimm6
  | addSpImm10 | subSpImm10
  | srlRdImm4 | sllRdImm4 | sraRdImm4 | slaRdImm4 | rrRdImm4 | rlRdImm4
  | srlRdRs | sllRdRs | sraRdRs | slaRdRs | rrRdRs | rlRdRs
  | scan0 | scan1 | swap | mirror | div0s | div0u | div1 | div2s | div3s
  | ldWSdRs | ldWRdSs | btst | bclr | bset | bnot | adc | sbc
  | ldBRdRs2 | ldUbRdRs2 | ldHRdRs2 | ldUhRdRs2
  | mltH | mltuH | mltW | mltuW | mac
  | ext | undef
  deriving DecidableEq, Repr

namespace Handler

/-! ### The table -/

/-- The entries of class 0. -/
def ofClass0 (i : Insn) : Handler :=
  match i.c0Op1 with
  | 0 => match i.c0Op2 with | 0 => nop | 1 => slp | 2 => halt | _ => undef
  | 1 => match i.c0Op2 with | 0 => pushn | 1 => popn | _ => undef
  | 2 => match i.c0Op2 with | 0 => brk | 1 => retd | 2 => int | _ => reti
  | 3 => match i.c0Op2 with | 0 => callRb | 1 => ret | 2 => jpRb | _ => undef
  | 4 => jrgt
  | 5 => jrge
  | 6 => jrlt
  | 7 => jrle
  | 8 => jrugt
  | 9 => jruge
  | 10 => jrult
  | 11 => jrule
  | 12 => jreq
  | 13 => jrne
  | 14 => callSimm8
  | _ => jpSimm8

/-- The entries of class 1. -/
def ofClass1 (i : Insn) : Handler :=
  match i.op2 with
  | 0 => match i.op1 with
    | 0 => ldBRdRb | 1 => ldUbRdRb | 2 => ldHRdRb | 3 => ldUhRdRb | 4 => ldWRdRb
    | 5 => stBRbRs | 6 => stHRbRs | _ => stWRbRs
  | 1 => match i.op1 with
    | 0 => ldBRdRbx | 1 => ldUbRdRbx | 2 => ldHRdRbx | 3 => ldUhRdRbx | 4 => ldWRdRbx
    | 5 => stBRbxRs | 6 => stHRbxRs | _ => stWRbxRs
  | 2 => match i.op1 with
    | 0 => addRdRs | 1 => subRdRs | 2 => cmpRdRs | 3 => ldWRdRs | 4 => andRdRs
    | 5 => orRdRs | 6 => xorRdRs | _ => notRdRs
  | _ => undef

/-- The entries of class 2. -/
def ofClass2 (i : Insn) : Handler :=
  match i.op1 with
  | 0 => ldBRdSp | 1 => ldUbRdSp | 2 => ldHRdSp | 3 => ldUhRdSp | 4 => ldWRdSp
  | 5 => stBSpRs | 6 => stHSpRs | _ => stWSpRs

/-- The entries of class 3. -/
def ofClass3 (i : Insn) : Handler :=
  match i.op1 with
  | 0 => addRdImm6 | 1 => subRdImm6 | 2 => cmpRdSimm6 | 3 => ldWRdSimm6 | 4 => andRdSimm6
  | 5 => orRdSimm6 | 6 => xorRdSimm6 | _ => notRdSimm6

/-- The entries of class 4. -/
def ofClass4 (i : Insn) : Handler :=
  match i.op1, i.op2 with
  | 0, _ => addSpImm10
  | 1, _ => subSpImm10
  | 2, 0 => srlRdImm4 | 3, 0 => sllRdImm4 | 4, 0 => sraRdImm4 | 5, 0 => slaRdImm4
  | 6, 0 => rrRdImm4 | 7, 0 => rlRdImm4
  | 2, 1 => srlRdRs | 3, 1 => sllRdRs | 4, 1 => sraRdRs | 5, 1 => slaRdRs
  | 6, 1 => rrRdRs | 7, 1 => rlRdRs
  | 2, 2 => scan0 | 3, 2 => scan1 | 4, 2 => swap | 5, 2 => mirror
  | 2, 3 => div0s | 3, 3 => div0u | 4, 3 => div1 | 5, 3 => div2s | 6, 3 => div3s
  | _, _ => undef

/-- The entries of class 5. -/
def ofClass5 (i : Insn) : Handler :=
  match i.op2 with
  | 0 => match i.op1 with
    | 0 => ldWSdRs | 1 => ldWRdSs | 2 => btst | 3 => bclr | 4 => bset | 5 => bnot
    | 6 => adc | _ => sbc
  | 1 => match i.op1 with
    | 0 => ldBRdRs2 | 1 => ldUbRdRs2 | 2 => ldHRdRs2 | 3 => ldUhRdRs2 | _ => undef
  | 2 => match i.op1 with
    | 0 => mltH | 1 => mltuH | 2 => mltW | 3 => mltuW | 4 => mac | _ => undef
  | _ => undef

/-- `build_table`. -/
def ofInsn (i : Insn) : Handler :=
  match i.cls with
  | 0 => ofClass0 i
  | 1 => ofClass1 i
  | 2 => ofClass2 i
  | 3 => ofClass3 i
  | 4 => ofClass4 i
  | 5 => ofClass5 i
  | 6 => ext
  | _ => undef

/-! ### The handlers at work -/

variable {D : Type} (io : IoSpace D)

/-- What a handler does to the machine for an instruction word. -/
def run (h : Handler) (i : Insn) (m : Machine D) : Machine D :=
  match h with
  | nop => m.hNop
  | slp => m.hSlp
  | halt => m.hHalt
  | pushn => m.hPushn io i
  | popn => m.hPopn io i
  | brk => m.hBrk io
  | retd => m.hRetd io
  | int => m.hInt io i
  | reti => m.hReti io
  | callRb => m.hCallRb io i
  | ret => m.hRet io i
  | jpRb => m.hJpRb i
  | jrgt => m.hJrgt i
  | jrge => m.hJrge i
  | jrlt => m.hJrlt i
  | jrle => m.hJrle i
  | jrugt => m.hJrugt i
  | jruge => m.hJruge i
  | jrult => m.hJrult i
  | jrule => m.hJrule i
  | jreq => m.hJreq i
  | jrne => m.hJrne i
  | callSimm8 => m.hCallSimm8 io i
  | jpSimm8 => m.hJpSimm8 i
  | ldBRdRb => m.hLdBRdRb io i
  | ldUbRdRb => m.hLdUbRdRb io i
  | ldHRdRb => m.hLdHRdRb io i
  | ldUhRdRb => m.hLdUhRdRb io i
  | ldWRdRb => m.hLdWRdRb io i
  | stBRbRs => m.hStBRbRs io i
  | stHRbRs => m.hStHRbRs io i
  | stWRbRs => m.hStWRbRs io i
  | ldBRdRbx => m.hLdBRdRbx io i
  | ldUbRdRbx => m.hLdUbRdRbx io i
  | ldHRdRbx => m.hLdHRdRbx io i
  | ldUhRdRbx => m.hLdUhRdRbx io i
  | ldWRdRbx => m.hLdWRdRbx io i
  | stBRbxRs => m.hStBRbxRs io i
  | stHRbxRs => m.hStHRbxRs io i
  | stWRbxRs => m.hStWRbxRs io i
  | addRdRs => m.hAddRdRs i
  | subRdRs => m.hSubRdRs i
  | cmpRdRs => m.hCmpRdRs i
  | ldWRdRs => m.hLdWRdRs i
  | andRdRs => m.hAndRdRs i
  | orRdRs => m.hOrRdRs i
  | xorRdRs => m.hXorRdRs i
  | notRdRs => m.hNotRdRs i
  | ldBRdSp => m.hLdBRdSp io i
  | ldUbRdSp => m.hLdUbRdSp io i
  | ldHRdSp => m.hLdHRdSp io i
  | ldUhRdSp => m.hLdUhRdSp io i
  | ldWRdSp => m.hLdWRdSp io i
  | stBSpRs => m.hStBSpRs io i
  | stHSpRs => m.hStHSpRs io i
  | stWSpRs => m.hStWSpRs io i
  | addRdImm6 => m.hAddRdImm6 i
  | subRdImm6 => m.hSubRdImm6 i
  | cmpRdSimm6 => m.hCmpRdSimm6 i
  | ldWRdSimm6 => m.hLdWRdSimm6 i
  | andRdSimm6 => m.hAndRdSimm6 i
  | orRdSimm6 => m.hOrRdSimm6 i
  | xorRdSimm6 => m.hXorRdSimm6 i
  | notRdSimm6 => m.hNotRdSimm6 i
  | addSpImm10 => m.hAddSpImm10 i
  | subSpImm10 => m.hSubSpImm10 i
  | srlRdImm4 => m.hSrlRdImm4 i
  | sllRdImm4 => m.hSllRdImm4 i
  | sraRdImm4 => m.hSraRdImm4 i
  | slaRdImm4 => m.hSlaRdImm4 i
  | rrRdImm4 => m.hRrRdImm4 i
  | rlRdImm4 => m.hRlRdImm4 i
  | srlRdRs => m.hSrlRdRs i
  | sllRdRs => m.hSllRdRs i
  | sraRdRs => m.hSraRdRs i
  | slaRdRs => m.hSlaRdRs i
  | rrRdRs => m.hRrRdRs i
  | rlRdRs => m.hRlRdRs i
  | scan0 => m.hScan0 i
  | scan1 => m.hScan1 i
  | swap => m.hSwap i
  | mirror => m.hMirror i
  | div0s => m.hDiv0s io i
  | div0u => m.hDiv0u io i
  | div1 => m.hDiv1 i
  | div2s => m.hDiv2s i
  | div3s => m.hDiv3s
  | ldWSdRs => m.hLdWSdRs i
  | ldWRdSs => m.hLdWRdSs i
  | btst => m.hBtst io i
  | bclr => m.hBclr io i
  | bset => m.hBset io i
  | bnot => m.hBnot io i
  | adc => m.hAdc i
  | sbc => m.hSbc i
  | ldBRdRs2 => m.hLdBRdRs2 i
  | ldUbRdRs2 => m.hLdUbRdRs2 i
  | ldHRdRs2 => m.hLdHRdRs2 i
  | ldUhRdRs2 => m.hLdUhRdRs2 i
  | mltH => m.hMltH i
  | mltuH => m.hMltuH i
  | mltW => m.hMltW i
  | mltuW => m.hMltuW i
  | mac => m.hMac io i
  | ext => m.hExt i
  | undef => m.hUndef

end Handler

/-! ### Classification -/

/-- `ext_capable`: the instructions that may follow a prefix. -/
def extCapable (i : Insn) : Bool :=
  match i.cls with
  | 6 => true
  | 7 => false
  | 0 => 4 ≤ i.c0Op1
  | 1 =>
    match i.op2 with
    | 0 => true
    | 2 => i.op1 ≠ 3 ∧ i.op1 ≠ 7
    | _ => false
  | 2 | 3 => true
  | 5 => i.op2 = 0 ∧ 2 ≤ i.op1 ∧ i.op1 ≤ 5
  | _ => false

/-- `DelayClass`. -/
inductive DelayClass
  | ok
  | hard
  | soft
  deriving DecidableEq, Repr

/-- `delay_slot_class`: how an instruction stands in a delay slot. -/
def delaySlotClass (i : Insn) : DelayClass :=
  match i.cls with
  | 0 =>
    if i.c0Op1 = 0 ∧ i.c0Op2 = 0 then .ok
    else if i.c0Op1 = 0 ∧ i.c0Op2 ≤ 2 then .soft
    else .hard
  | 1 => if i.op2 = 2 then .ok else .hard
  | 3 => .ok
  | 4 =>
    if i.op1 ≤ 1 then .ok
    else if i.op2 ≤ 2 then .ok
    else .soft
  | 5 =>
    match i.op2 with
    | 0 => if 2 ≤ i.op1 ∧ i.op1 ≤ 5 then .hard else .ok
    | 1 => .soft
    | 2 => if i.op1 ≤ 1 then .ok else .hard
    | _ => .hard
  | _ => .hard
