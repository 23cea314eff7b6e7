import PieceEmu.Core.Assembly
import PieceEmu.Core.Dispatch
import Mathlib.Data.List.Nodup
import Mathlib.Tactic.IntervalCases

/-!
# The disassembler

`Disasm.mnemonic` is the text that `Cpu::disasm` makes of an instruction word at an address:
a listing, the warnings about delay slots and prefixes, and the traces of the front ends show
it. The text is made from the fields of the word, beside the table of handlers and without
looking at it. So there are two things to be settled, which a reader of a listing relies on.

| question | answer | theorem |
|---|---|---|
| is the text that of what the CPU executes? | the text determines the effect | `same_effect` |
| does a `?` mark what the CPU does not know? | two groups have none | `marked_iff` |

Between the two functions stands the assembly language `Asm`: each handler has a line of it
(`Handler.asm`), the text of a word is that of the line of its handler (`mnemonic_eq`), a line
says which handler it is of (`Handler.asm_text_inj`), and a handler does the same for two
words with the same line (`Handler.run_congr`).

The text says more than the CPU in one place: an immediate of 6 bits is shown with its sign,
also where the CPU takes it without one. It is determined all the same.
-/

open CText

/-! ### The text of a word -/

namespace Disasm

variable (addr : U32) (i : Insn)

/-- A register, `%r{}`. -/
def reg (r : BitVec 4) : List U8 := str "%r" ++ dec r.toNat

/-- The mark of a delayed branch. -/
def dotD : List U8 := if i.d then str ".d" else []

/-- `sx(i.imm6(), 6)`. -/
def simm6 : ℤ := (signExt i.imm6 6).toInt

/-- `target`, of a branch. -/
def target : U32 := addr + 2 * signExt i.sign8 8

/-- `br_names`. -/
def brNames : List String :=
  ["jrgt", "jrge", "jrlt", "jrle", "jrugt", "jruge", "jrult", "jrule", "jreq", "jrne", "call",
    "jp"]

/-- `spreg`. -/
def spreg (n : BitVec 4) : List U8 :=
  str (["%psr", "%sp", "%alr", "%ahr"].getD (n &&& 3).toNat "")

/-- Class 0. -/
def class0 : List U8 :=
  match i.c0Op1 with
  | 0 =>
    match i.c0Op2 with
    | 0 => str "nop"
    | 1 => str "slp"
    | 2 => str "halt"
    | _ => str "?0a_0_3"
  | 1 =>
    match i.c0Op2 with
    | 0 => str "pushn\t" ++ reg i.rd
    | 1 => str "popn\t" ++ reg i.rd
    | 3 => str "jpr" ++ dotD i ++ str "\t" ++ reg i.rd
    | _ => str "?0a_1"
  | 2 =>
    match i.c0Op2 with
    | 0 => str "brk"
    | 1 => str "retd"
    | 2 => str "int\t" ++ dec i.imm2
    | _ => str "reti"
  | 3 =>
    match i.c0Op2 with
    | 0 => str "call" ++ dotD i ++ str "\t" ++ reg i.rd
    | 1 => str "ret" ++ dotD i
    | 2 => str "jp" ++ dotD i ++ str "\t" ++ reg i.rd
    | _ => str "?0a_3_3"
  | op1 =>
    let bidx := op1 - 4
    if bidx < 12 then
      str (brNames.getD bidx "") ++ dotD i ++ str "\t0x" ++ hexPadded 6 (target addr i).toNat
    else str "?0b_" ++ dec op1

/-- Class 1. -/
def class1 : List U8 :=
  if i.op2 = 2 then
    let alunames := ["add", "sub", "cmp", "ld.w", "and", "or", "xor", "not"]
    str (alunames.getD i.op1 "") ++ str "\t" ++ reg i.rd ++ str ", " ++ reg i.rb
  else
    let pi := if i.op2 = 1 then str "+" else []
    if i.op1 ≤ 3 then
      let ldnames := ["ld.b", "ld.ub", "ld.h", "ld.uh"]
      str (ldnames.getD i.op1 "") ++ str "\t" ++ reg i.rd ++ str ", [" ++ reg i.rb ++ str "]" ++ pi
    else if i.op1 = 4 then str "ld.w\t" ++ reg i.rd ++ str ", [" ++ reg i.rb ++ str "]" ++ pi
    else if i.op1 = 5 then str "ld.b\t[" ++ reg i.rb ++ str "]" ++ pi ++ str ", " ++ reg i.rd
    else if i.op1 = 6 then str "ld.h\t[" ++ reg i.rb ++ str "]" ++ pi ++ str ", " ++ reg i.rd
    else str "ld.w\t[" ++ reg i.rb ++ str "]" ++ pi ++ str ", " ++ reg i.rd

/-- Class 2. -/
def class2 : List U8 :=
  let ldst2 := ["ld.b", "ld.ub", "ld.h", "ld.uh", "ld.w", "st.b", "st.h", "st.w"]
  let off := decInt (simm6 i * [1, 1, 2, 2, 4, 1, 2, 4].getD i.op1 0)
  if i.op1 ≤ 4 then
    str (ldst2.getD i.op1 "") ++ str "\t" ++ reg i.rd ++ str ", [%sp+" ++ off ++ str "]"
  else str (ldst2.getD i.op1 "") ++ str "\t[%sp+" ++ off ++ str "], " ++ reg i.rd

/-- Class 3. -/
def class3 : List U8 :=
  let names3 := ["add", "sub", "cmp", "ld.w", "and", "or", "xor", "not"]
  str (names3.getD i.op1 "") ++ str "\t" ++ reg i.rd ++ str ", " ++ decInt (simm6 i)

/-- Class 4. -/
def class4 : List U8 :=
  if i.op1 = 0 then str "add\t%sp, " ++ dec (i.imm10.toNat * 4)
  else if i.op1 = 1 then str "sub\t%sp, " ++ dec (i.imm10.toNat * 4)
  else if i.op2 = 0 then
    let shnames := ["?", "?", "srl", "sll", "sra", "sla", "rr", "rl"]
    str (shnames.getD i.op1 "") ++ str "\t" ++ reg i.rd ++ str ", " ++ dec i.rs.toNat
  else if i.op2 = 1 then
    let shnames := ["?", "?", "srl", "sll", "sra", "sla", "rr", "rl"]
    str (shnames.getD i.op1 "") ++ str "\t" ++ reg i.rd ++ str ", " ++ reg i.rs
  else if i.op2 = 2 then
    let misc2 := ["?", "?", "scan0", "scan1", "swap", "mirror", "?", "?"]
    str (misc2.getD i.op1 "") ++ str "\t" ++ reg i.rd ++ str ", " ++ reg i.rs
  else
    let divnames := ["?", "?", "div0s", "div0u", "div1", "div2s", "div3s", "?"]
    str (divnames.getD i.op1 "") ++ str "\t" ++ reg i.rs

/-- The text of an undefined word of class 5. -/
def unknown5 : List U8 := str "?5_" ++ dec i.op1 ++ dec i.op2

/-- Class 5. -/
def class5 : List U8 :=
  if i.op2 = 0 then
    match i.op1 with
    | 0 => str "ld.w\t" ++ spreg i.rd ++ str ", " ++ reg i.rs
    | 1 => str "ld.w\t" ++ reg i.rd ++ str ", " ++ spreg i.rs
    | 6 => str "adc\t" ++ reg i.rd ++ str ", " ++ reg i.rs
    | 7 => str "sbc\t" ++ reg i.rd ++ str ", " ++ reg i.rs
    | op1 =>
      str (["btst", "bclr", "bset", "bnot"].getD (op1 - 2) "") ++ str "\t[" ++ reg i.rs ++
        str "], " ++ dec i.imm3
  else if i.op2 = 1 then
    if i.op1 ≤ 3 then
      str (["ld.b", "ld.ub", "ld.h", "ld.uh"].getD i.op1 "") ++ str "\t" ++ reg i.rd ++ str ", " ++
        reg i.rs
    else unknown5 i
  else if i.op2 = 2 then
    if i.op1 ≤ 3 then
      str (["mlt.h", "mltu.h", "mlt.w", "mltu.w"].getD i.op1 "") ++ str "\t" ++ reg i.rd ++
        str ", " ++ reg i.rs
    else if i.op1 = 4 then str "mac\t" ++ reg i.rs
    else unknown5 i
  else unknown5 i

/-- `mnem`. -/
def mnemonic : List U8 :=
  match i.cls with
  | 6 => str "ext\t" ++ dec i.imm13.toNat
  | 0 => class0 addr i
  | 1 => class1 i
  | 2 => class2 i
  | 3 => class3 i
  | 4 => class4 i
  | 5 => class5 i
  | cls => str "?cls" ++ dec cls

/-- The line that `disasm` returns. -/
def line : List U8 :=
  str "0x" ++ hexPadded 6 addr.toNat ++ str ": " ++ hexPadded 4 i.raw.toNat ++ str "  " ++
    mnemonic addr i

end Disasm

/-! ### The assembly of a handler -/

namespace Handler

variable (addr : U32) (i : Insn)

/-- The name of the instructions of a handler. -/
def name : Handler → String
  | nop => "nop" | slp => "slp" | halt => "halt" | pushn => "pushn" | popn => "popn"
  | brk => "brk" | retd => "retd" | int => "int" | reti => "reti" | ret => "ret"
  | callRb | callSimm8 => "call" | jpRb | jpSimm8 => "jp"
  | jrgt => "jrgt" | jrge => "jrge" | jrlt => "jrlt" | jrle => "jrle"
  | jrugt => "jrugt" | jruge => "jruge" | jrult => "jrult" | jrule => "jrule"
  | jreq => "jreq" | jrne => "jrne"
  | ldBRdRb | ldBRdRbx | ldBRdSp | ldBRdRs2 | stBRbRs | stBRbxRs => "ld.b"
  | ldUbRdRb | ldUbRdRbx | ldUbRdSp | ldUbRdRs2 => "ld.ub"
  | ldHRdRb | ldHRdRbx | ldHRdSp | ldHRdRs2 | stHRbRs | stHRbxRs => "ld.h"
  | ldUhRdRb | ldUhRdRbx | ldUhRdSp | ldUhRdRs2 => "ld.uh"
  | ldWRdRb | ldWRdRbx | ldWRdSp | ldWRdRs | ldWRdSimm6 | ldWSdRs | ldWRdSs | stWRbRs
  | stWRbxRs => "ld.w"
  | stBSpRs => "st.b" | stHSpRs => "st.h" | stWSpRs => "st.w"
  | addRdRs | addRdImm6 | addSpImm10 => "add" | subRdRs | subRdImm6 | subSpImm10 => "sub"
  | cmpRdRs | cmpRdSimm6 => "cmp" | andRdRs | andRdSimm6 => "and" | orRdRs | orRdSimm6 => "or"
  | xorRdRs | xorRdSimm6 => "xor" | notRdRs | notRdSimm6 => "not"
  | srlRdImm4 | srlRdRs => "srl" | sllRdImm4 | sllRdRs => "sll" | sraRdImm4 | sraRdRs => "sra"
  | slaRdImm4 | slaRdRs => "sla" | rrRdImm4 | rrRdRs => "rr" | rlRdImm4 | rlRdRs => "rl"
  | scan0 => "scan0" | scan1 => "scan1" | swap => "swap" | mirror => "mirror"
  | div0s => "div0s" | div0u => "div0u" | div1 => "div1" | div2s => "div2s" | div3s => "div3s"
  | btst => "btst" | bclr => "bclr" | bset => "bset" | bnot => "bnot" | adc => "adc"
  | sbc => "sbc" | mltH => "mlt.h" | mltuH => "mltu.h" | mltW => "mlt.w" | mltuW => "mltu.w"
  | mac => "mac" | ext => "ext" | undef => "?"

/-- The instructions that are delayed branches when bit 8 is set. -/
def delayable : Handler → Bool
  | callRb | ret | jpRb | jrgt | jrge | jrlt | jrle | jrugt | jruge | jrult | jrule | jreq
  | jrne | callSimm8 | jpSimm8 => true
  | _ => false

/-- The operands of an instruction. -/
def operands : Handler → List Operand
  | nop | slp | halt | brk | retd | reti | ret | undef => []
  | pushn | popn | callRb | jpRb => [.reg i.rd]
  | int => [.imm i.imm2]
  | jrgt | jrge | jrlt | jrle | jrugt | jruge | jrult | jrule | jreq | jrne | callSimm8
  | jpSimm8 => [.target (Disasm.target addr i)]
  | ldBRdRb | ldUbRdRb | ldHRdRb | ldUhRdRb | ldWRdRb => [.reg i.rd, .mem i.rb false]
  | ldBRdRbx | ldUbRdRbx | ldHRdRbx | ldUhRdRbx | ldWRdRbx => [.reg i.rd, .mem i.rb true]
  | stBRbRs | stHRbRs | stWRbRs => [.mem i.rb false, .reg i.rd]
  | stBRbxRs | stHRbxRs | stWRbxRs => [.mem i.rb true, .reg i.rd]
  | addRdRs | subRdRs | cmpRdRs | ldWRdRs | andRdRs | orRdRs | xorRdRs | notRdRs
  | srlRdRs | sllRdRs | sraRdRs | slaRdRs | rrRdRs | rlRdRs | scan0 | scan1 | swap | mirror
  | adc | sbc | ldBRdRs2 | ldUbRdRs2 | ldHRdRs2 | ldUhRdRs2 | mltH | mltuH | mltW | mltuW =>
    [.reg i.rd, .reg i.rs]
  | ldBRdSp | ldUbRdSp => [.reg i.rd, .sp (Disasm.simm6 i)]
  | ldHRdSp | ldUhRdSp => [.reg i.rd, .sp (Disasm.simm6 i * 2)]
  | ldWRdSp => [.reg i.rd, .sp (Disasm.simm6 i * 4)]
  | stBSpRs => [.sp (Disasm.simm6 i), .reg i.rd]
  | stHSpRs => [.sp (Disasm.simm6 i * 2), .reg i.rd]
  | stWSpRs => [.sp (Disasm.simm6 i * 4), .reg i.rd]
  | addRdImm6 | subRdImm6 | cmpRdSimm6 | ldWRdSimm6 | andRdSimm6 | orRdSimm6 | xorRdSimm6
  | notRdSimm6 => [.reg i.rd, .imm (Disasm.simm6 i)]
  | addSpImm10 | subSpImm10 => [.special 1, .imm (i.imm10.toNat * 4)]
  | srlRdImm4 | sllRdImm4 | sraRdImm4 | slaRdImm4 | rrRdImm4 | rlRdImm4 =>
    [.reg i.rd, .imm i.rs.toNat]
  | div0s | div0u | div1 | div2s | div3s | mac => [.reg i.rs]
  | ldWSdRs => [.special (i.rd.setWidth 2), .reg i.rs]
  | ldWRdSs => [.reg i.rd, .special (i.rs.setWidth 2)]
  | btst | bclr | bset | bnot => [.mem i.rs false, .imm i.imm3]
  | ext => [.imm i.imm13.toNat]

/-- The line of a word that a handler executes. -/
def asm (h : Handler) : Asm := ⟨h.name, h.delayable && i.d, h.operands addr i⟩

end Handler

namespace Handler

variable {D : Type} (io : IoSpace D) {addr : U32} {i j : Insn}

/-! ### What a line says of its handler -/

/-- The handlers of the words that are defined. -/
def defined : List Handler :=
  [nop, slp, halt, pushn, popn, brk, retd, int, reti, callRb, ret, jpRb, jrgt, jrge, jrlt, jrle,
    jrugt, jruge, jrult, jrule, jreq, jrne, callSimm8, jpSimm8, ldBRdRb, ldUbRdRb, ldHRdRb,
    ldUhRdRb, ldWRdRb, stBRbRs, stHRbRs, stWRbRs, ldBRdRbx, ldUbRdRbx, ldHRdRbx, ldUhRdRbx,
    ldWRdRbx, stBRbxRs, stHRbxRs, stWRbxRs, addRdRs, subRdRs, cmpRdRs, ldWRdRs, andRdRs, orRdRs,
    xorRdRs, notRdRs, ldBRdSp, ldUbRdSp, ldHRdSp, ldUhRdSp, ldWRdSp, stBSpRs, stHSpRs, stWSpRs,
    addRdImm6, subRdImm6, cmpRdSimm6, ldWRdSimm6, andRdSimm6, orRdSimm6, xorRdSimm6, notRdSimm6,
    addSpImm10, subSpImm10, srlRdImm4, sllRdImm4, sraRdImm4, slaRdImm4, rrRdImm4, rlRdImm4,
    srlRdRs, sllRdRs, sraRdRs, slaRdRs, rrRdRs, rlRdRs, scan0, scan1, swap, mirror, div0s, div0u,
    div1, div2s, div3s, ldWSdRs, ldWRdSs, btst, bclr, bset, bnot, adc, sbc, ldBRdRs2, ldUbRdRs2,
    ldHRdRs2, ldUhRdRs2, mltH, mltuH, mltW, mltuW, mac, ext]

theorem mem_defined {h : Handler} (hdef : h ≠ undef) : h ∈ defined := by
  refine List.elem_iff.mp ?_
  cases h with
  | undef => exact absurd rfl hdef
  | _ => rfl

/-- The kinds of the operands. -/
def kinds (h : Handler) : List Operand.Kind := (h.operands 0 ⟨0⟩).map Operand.kind

theorem map_kind_operands (h : Handler) (addr : U32) (i : Insn) :
    (h.operands addr i).map Operand.kind = h.kinds := by
  cases h <;>
    simp only [kinds, operands, List.map_cons, List.map_nil, Operand.kind]

/-- The handlers, each as it is with bit 8 clear, and where it matters with bit 8 set. -/
def forms : List (Handler × Bool) :=
  defined.flatMap fun h => if h.delayable then [(h, false), (h, true)] else [(h, false)]

theorem mem_forms {h : Handler} (hdef : h ≠ undef) (d : Bool) : (h, h.delayable && d) ∈ forms := by
  refine List.mem_flatMap.mpr ⟨h, mem_defined hdef, ?_⟩
  cases h.delayable <;> cases d <;> simp

/-- What is seen of a form in a line: the kinds of the operands, and the name. -/
def Seen (p : Handler × Bool) : List Operand.Kind × List U8 :=
  (p.1.kinds, Asm.head ⟨p.1.name, p.2, []⟩)

/-- **No two forms look the same.** -/
theorem nodup_forms : (forms.map Seen).Nodup := by
  decide +kernel

theorem seen_inj {p q : Handler × Bool} (hp : p ∈ forms) (hq : q ∈ forms) (h : Seen p = Seen q) :
    p = q :=
  List.inj_on_of_nodup_map nodup_forms hp hq h

theorem head_asm (h : Handler) (addr : U32) (i : Insn) :
    (h.asm addr i).head = (Seen (h, h.delayable && i.d)).2 := rfl

/-- The names have no separators in them. -/
theorem plain_of_mem_head {h : Handler} (hdef : h ≠ undef) {c : U8}
    (hc : c ∈ (h.asm addr i).head) : Operand.plain c = true := by
  have hall : (forms.all fun p => (Seen p).2.all Operand.plain) = true := by decide +kernel
  rw [head_asm] at hc
  exact List.all_eq_true.mp (List.all_eq_true.mp hall _ (mem_forms hdef i.d)) c hc

theorem tab_not_mem_head {h : Handler} (hdef : h ≠ undef) : ch '\t' ∉ (h.asm addr i).head :=
  fun hc => absurd (plain_of_mem_head hdef hc) (by decide)

/-- **A line says which handler it is of**, and what is in the fields. -/
theorem asm_text_inj {h h' : Handler} (hdef : h ≠ undef) (hdef' : h' ≠ undef)
    (heq : (h.asm addr i).text = (h'.asm addr j).text) :
    h = h' ∧ (h.delayable && i.d) = (h.delayable && j.d) ∧
      h.operands addr i = h.operands addr j := by
  have hmem := mem_forms hdef i.d
  have hmem' := mem_forms hdef' j.d
  obtain ⟨hhead, hops⟩ := Asm.text_inj (tab_not_mem_head hdef) (tab_not_mem_head hdef') heq
  have hseen : Seen (h, h.delayable && i.d) = Seen (h', h'.delayable && j.d) :=
    Prod.ext (((map_kind_operands h addr i).symm.trans (congrArg _ hops)).trans
      (map_kind_operands h' addr j)) hhead
  obtain ⟨rfl, hd⟩ := Prod.mk.inj (seen_inj hmem hmem' hseen)
  exact ⟨rfl, hd, hops⟩

/-! ### What the line leaves open does not matter -/

theorem simm6_inj (h : Disasm.simm6 i = Disasm.simm6 j) : i.imm6 = j.imm6 := by
  have hall : ∀ v : BitVec 6, BitVec.ofInt 6 (signExt (v.setWidth 32) 6).toInt = v := by
    decide +kernel
  have hv := congrArg (BitVec.ofInt 6) h
  exact congrArg (BitVec.setWidth 32) (((hall _).symm.trans hv).trans (hall _))

theorem target_inj (h : Disasm.target addr i = Disasm.target addr j) : i.sign8 = j.sign8 := by
  have hall : ∀ v : BitVec 8,
      (((2 * signExt (v.setWidth 32) 8) >>> (1 : ℕ)).setWidth 8 : BitVec 8) = v := by
    decide +kernel
  have hv := congrArg (fun w : U32 => (w >>> (1 : ℕ)).setWidth 8)
    ((BitVec.add_right_inj addr).mp h)
  exact congrArg (BitVec.setWidth 32) (((hall _).symm.trans hv).trans (hall _))

/-- The special registers are numbered by two bits. -/
theorem and_three_of_setWidth {n k : BitVec 4} (h : n.setWidth 2 = k.setWidth 2) :
    n &&& 3 = k &&& 3 := by
  revert n k
  decide +kernel

/-- **A handler does the same for two words with the same line**: what it reads of a word is
in the line. -/
theorem run_congr {h : Handler} (hd : (h.delayable && i.d) = (h.delayable && j.d))
    (hops : h.operands addr i = h.operands addr j) (m : Machine D) :
    h.run io i m = h.run io j m := by
  cases h with
  | nop | slp | halt | brk | retd | reti | undef | div3s => rfl
  | ret =>
    have hd : i.d = j.d := hd
    simp only [run, Machine.hRet, hd]
  | pushn | popn | callRb | jpRb =>
    simp only [delayable, Bool.true_and] at hd
    simp only [operands, List.cons.injEq, Operand.reg.injEq, and_true] at hops
    simp only [run, Machine.hPushn, Machine.hPopn, Machine.hCallRb, Machine.hJpRb, hops, hd]
  | int =>
    simp only [operands, List.cons.injEq, Operand.imm.injEq, Int.natCast_inj, and_true] at hops
    simp only [run, Machine.hInt, hops]
  | jrgt | jrge | jrlt | jrle | jrugt | jruge | jrult | jrule | jreq | jrne | callSimm8
  | jpSimm8 =>
    simp only [operands, List.cons.injEq, Operand.target.injEq, and_true] at hops
    simp only [delayable, Bool.true_and] at hd
    simp only [run, Machine.hJrgt, Machine.hJrge, Machine.hJrlt, Machine.hJrle, Machine.hJrugt,
      Machine.hJruge, Machine.hJrult, Machine.hJrule, Machine.hJreq, Machine.hJrne, Machine.hJr,
      Machine.hCallSimm8, Machine.hJpSimm8, target_inj hops, hd]
  | ldBRdRb | ldUbRdRb | ldHRdRb | ldUhRdRb | ldWRdRb | ldBRdRbx | ldUbRdRbx | ldHRdRbx
  | ldUhRdRbx | ldWRdRbx =>
    simp only [operands, List.cons.injEq, Operand.reg.injEq, Operand.mem.injEq, and_true] at hops
    simp only [run, Machine.hLdBRdRb, Machine.hLdUbRdRb, Machine.hLdHRdRb, Machine.hLdUhRdRb,
      Machine.hLdWRdRb, Machine.hLdBRdRbx, Machine.hLdUbRdRbx, Machine.hLdHRdRbx,
      Machine.hLdUhRdRbx, Machine.hLdWRdRbx, Machine.doLoadRb, hops.1, hops.2]
  | stBRbRs | stHRbRs | stWRbRs | stBRbxRs | stHRbxRs | stWRbxRs =>
    simp only [operands, List.cons.injEq, Operand.reg.injEq, Operand.mem.injEq, and_true] at hops
    simp only [run, Machine.hStBRbRs, Machine.hStHRbRs, Machine.hStWRbRs, Machine.hStBRbxRs,
      Machine.hStHRbxRs, Machine.hStWRbxRs, Machine.doStoreRb, hops.1, hops.2]
  | addRdRs | subRdRs | cmpRdRs | ldWRdRs | andRdRs | orRdRs | xorRdRs | notRdRs =>
    simp only [operands, List.cons.injEq, Operand.reg.injEq, and_true] at hops
    simp only [run, Machine.hAddRdRs, Machine.hSubRdRs, Machine.hCmpRdRs, Machine.hLdWRdRs,
      Machine.hAndRdRs, Machine.hOrRdRs, Machine.hXorRdRs, Machine.hNotRdRs, Machine.doAluRr,
      hops.1, hops.2]
  | srlRdRs | sllRdRs | sraRdRs | slaRdRs | rrRdRs | rlRdRs =>
    simp only [operands, List.cons.injEq, Operand.reg.injEq, and_true] at hops
    simp only [run, Machine.hSrlRdRs, Machine.hSllRdRs, Machine.hSraRdRs, Machine.hSlaRdRs,
      Machine.hRrRdRs, Machine.hRlRdRs, Machine.doShift, Machine.shiftCount, hops.1, hops.2]
  | scan0 | scan1 | swap | mirror | adc | sbc =>
    simp only [operands, List.cons.injEq, Operand.reg.injEq, and_true] at hops
    simp only [run, Machine.hScan0, Machine.hScan1, Machine.doScan, Machine.hSwap,
      Machine.hMirror, Machine.hAdc, Machine.hSbc, hops.1, hops.2]
  | ldBRdRs2 | ldUbRdRs2 | ldHRdRs2 | ldUhRdRs2 | mltH | mltuH | mltW | mltuW =>
    simp only [operands, List.cons.injEq, Operand.reg.injEq, and_true] at hops
    simp only [run, Machine.hLdBRdRs2, Machine.hLdUbRdRs2, Machine.hLdHRdRs2, Machine.hLdUhRdRs2,
      Machine.doExtend, Machine.hMltH, Machine.hMltuH, Machine.hMltW, Machine.hMltuW,
      Machine.doMlt, hops.1, hops.2]
  | ldBRdSp | ldUbRdSp | ldHRdSp | ldUhRdSp | ldWRdSp =>
    simp only [operands, List.cons.injEq, Operand.reg.injEq, Operand.sp.injEq, and_true] at hops
    have himm : i.imm6 = j.imm6 := simm6_inj (by have := hops.2; omega)
    simp only [run, Machine.hLdBRdSp, Machine.hLdUbRdSp, Machine.hLdHRdSp, Machine.hLdUhRdSp,
      Machine.hLdWRdSp, Machine.doLoadSp, Machine.spEa, hops.1, himm]
  | stBSpRs | stHSpRs | stWSpRs =>
    simp only [operands, List.cons.injEq, Operand.reg.injEq, Operand.sp.injEq, and_true] at hops
    have himm : i.imm6 = j.imm6 := simm6_inj (by have := hops.1; omega)
    simp only [run, Machine.hStBSpRs, Machine.hStHSpRs, Machine.hStWSpRs, Machine.doStoreSp,
      Machine.spEa, hops.2, himm]
  | addRdImm6 | subRdImm6 | cmpRdSimm6 | ldWRdSimm6 | andRdSimm6 | orRdSimm6 | xorRdSimm6
  | notRdSimm6 =>
    simp only [operands, List.cons.injEq, Operand.reg.injEq, Operand.imm.injEq, and_true] at hops
    simp only [run, Machine.hAddRdImm6, Machine.hSubRdImm6, Machine.hCmpRdSimm6,
      Machine.hLdWRdSimm6, Machine.hAndRdSimm6, Machine.hOrRdSimm6, Machine.hXorRdSimm6,
      Machine.hNotRdSimm6, Machine.doAluImm, hops.1, simm6_inj hops.2]
  | addSpImm10 | subSpImm10 =>
    simp only [operands, List.cons.injEq, Operand.imm.injEq, and_true, true_and] at hops
    have himm : i.imm10 = j.imm10 := BitVec.eq_of_toNat_eq (by omega)
    simp only [run, Machine.hAddSpImm10, Machine.hSubSpImm10, himm]
  | srlRdImm4 | sllRdImm4 | sraRdImm4 | slaRdImm4 | rrRdImm4 | rlRdImm4 =>
    simp only [operands, List.cons.injEq, Operand.reg.injEq, Operand.imm.injEq, Int.natCast_inj,
      and_true] at hops
    have hamt : i.shiftAmt = j.shiftAmt := by
      rw [Insn.shiftAmt, Insn.shiftAmt, show i.field 4 4 = j.field 4 4 from hops.2]
    simp only [run, Machine.hSrlRdImm4, Machine.hSllRdImm4, Machine.hSraRdImm4,
      Machine.hSlaRdImm4, Machine.hRrRdImm4, Machine.hRlRdImm4, Machine.doShift, hops.1, hamt]
  | div0s | div0u | div1 | div2s | mac =>
    simp only [operands, List.cons.injEq, Operand.reg.injEq, and_true] at hops
    simp only [run, Machine.hDiv0s, Machine.hDiv0u, Machine.hDiv1, Machine.hDiv2s, Machine.hMac,
      hops]
  | ldWSdRs =>
    simp only [operands, List.cons.injEq, Operand.reg.injEq, Operand.special.injEq,
      and_true] at hops
    simp only [run, Machine.hLdWSdRs, Machine.setSpecialReg, and_three_of_setWidth hops.1, hops.2]
  | ldWRdSs =>
    simp only [operands, List.cons.injEq, Operand.reg.injEq, Operand.special.injEq,
      and_true] at hops
    simp only [run, Machine.hLdWRdSs, Machine.specialReg, and_three_of_setWidth hops.2, hops.1]
  | btst | bclr | bset | bnot =>
    simp only [operands, List.cons.injEq, Operand.mem.injEq, Operand.imm.injEq, Int.natCast_inj,
      and_true] at hops
    have hrb : i.rb = j.rb := hops.1
    simp only [run, Machine.hBtst, Machine.hBclr, Machine.hBset, Machine.hBnot, Machine.doBit, hrb,
      hops.2]
  | ext =>
    simp only [operands, List.cons.injEq, Operand.imm.injEq, Int.natCast_inj, and_true] at hops
    simp only [run, Machine.hExt, BitVec.eq_of_toNat_eq hops]

end Handler

/-! ### The text of a word is the text of a line -/

namespace Disasm

section Lines

attribute [local simp] Handler.asm Handler.name Handler.delayable Handler.operands Asm.text
  Asm.head Asm.operandsText Operand.text reg dotD str ch decInt_natCast

variable (addr : U32) {i : Insn}

theorem field_lt (i : Insn) (lo n : ℕ) : i.field lo n < 2 ^ n := BitVec.isLt _

theorem class0_eq (h : Handler.ofClass0 i ≠ .undef) :
    class0 addr i = ((Handler.ofClass0 i).asm addr i).text := by
  have h1 : i.c0Op1 < 16 := field_lt i 9 4
  have h2 : i.c0Op2 < 4 := field_lt i 6 2
  unfold Handler.ofClass0 at h ⊢
  unfold class0
  generalize i.c0Op1 = op1 at *
  generalize i.c0Op2 = op2 at *
  rcases lt_or_ge op1 4 with hlow | hhigh
  · interval_cases op1 <;> interval_cases op2 <;> first | exact absurd rfl h | simp
  · interval_cases op1 <;> simp [brNames]

theorem class1_eq (h : Handler.ofClass1 i ≠ .undef) :
    class1 i = ((Handler.ofClass1 i).asm addr i).text := by
  have h1 : i.op1 < 8 := field_lt i 10 3
  have h2 : i.op2 < 4 := field_lt i 8 2
  have hrb : i.rb = i.rs := rfl
  unfold Handler.ofClass1 at h ⊢
  unfold class1
  generalize i.op1 = op1 at *
  generalize i.op2 = op2 at *
  interval_cases op2 <;> first | exact absurd rfl h | (interval_cases op1 <;> simp [hrb])

theorem class2_eq : class2 i = ((Handler.ofClass2 i).asm addr i).text := by
  have h1 : i.op1 < 8 := field_lt i 10 3
  unfold Handler.ofClass2 class2
  generalize i.op1 = op1 at *
  interval_cases op1 <;> simp

theorem class3_eq : class3 i = ((Handler.ofClass3 i).asm addr i).text := by
  have h1 : i.op1 < 8 := field_lt i 10 3
  unfold Handler.ofClass3 class3
  generalize i.op1 = op1 at *
  interval_cases op1 <;> simp

theorem specialName_setWidth (n : BitVec 4) : Operand.specialName (n.setWidth 2) = spreg n := by
  revert n
  decide +kernel

theorem class4_eq (h : Handler.ofClass4 i ≠ .undef) :
    class4 i = ((Handler.ofClass4 i).asm addr i).text := by
  have h1 : i.op1 < 8 := field_lt i 10 3
  have h2 : i.op2 < 4 := field_lt i 8 2
  have hsp : Operand.specialName 1#2 = str "%sp" := rfl
  have himm : decInt (i.imm10.toNat * 4) = dec (i.imm10.toNat * 4) := decInt_natCast _
  unfold Handler.ofClass4 at h ⊢
  unfold class4
  generalize i.op1 = op1 at *
  generalize i.op2 = op2 at *
  interval_cases op1 <;> interval_cases op2 <;> first | exact absurd rfl h | simp [hsp, himm]

theorem class5_eq (h : Handler.ofClass5 i ≠ .undef) :
    class5 i = ((Handler.ofClass5 i).asm addr i).text := by
  have h1 : i.op1 < 8 := field_lt i 10 3
  have h2 : i.op2 < 4 := field_lt i 8 2
  unfold Handler.ofClass5 at h ⊢
  unfold class5
  generalize i.op1 = op1 at *
  generalize i.op2 = op2 at *
  interval_cases op2 <;> interval_cases op1 <;>
    first | exact absurd rfl h | simp [specialName_setWidth]

/-- **The text of a word that the CPU knows** is that of the line of its handler. -/
theorem mnemonic_eq (h : Handler.ofInsn i ≠ .undef) :
    mnemonic addr i = ((Handler.ofInsn i).asm addr i).text := by
  have h1 : i.cls < 8 := field_lt i 13 3
  unfold Handler.ofInsn at h ⊢
  unfold mnemonic
  generalize i.cls = cls at *
  interval_cases cls
  · exact class0_eq addr h
  · exact class1_eq addr h
  · exact class2_eq addr
  · exact class3_eq addr
  · exact class4_eq addr h
  · exact class5_eq addr h
  · simp
  · exact absurd rfl h

end Lines

end Disasm

/-! ### What a reader of a listing can rely on -/

namespace Disasm

variable (addr : U32) {i j : Insn}

/-- The words that the CPU does not know and that are shown without a mark: `jpr`, and the
words of class 1 in the place between the accesses and the operations on registers, which are
shown as accesses. -/
def Disguised (i : Insn) : Prop :=
  i.cls = 0 ∧ i.c0Op1 = 1 ∧ i.c0Op2 = 3 ∨ i.cls = 1 ∧ i.op2 = 3

instance (i : Insn) : Decidable (Disguised i) := inferInstanceAs (Decidable (_ ∨ _))

theorem not_marked_of_ne_undef (h : Handler.ofInsn i ≠ .undef) : ch '?' ∉ mnemonic addr i := by
  rw [mnemonic_eq addr h]
  exact Asm.mark_not_mem fun c hc => Handler.plain_of_mem_head h hc

theorem field_and {mask : U16} (lo n : ℕ) (h : mask.extractLsb' lo n = BitVec.allOnes n) :
    (⟨i.raw &&& mask⟩ : Insn).field lo n = i.field lo n := by
  rw [Insn.field, Insn.field, BitVec.extractLsb'_and, h, BitVec.and_allOnes]

theorem op2_of_class1 (h : Handler.ofClass1 i = .undef) : i.op2 = 3 := by
  have h1 : i.op1 < 8 := field_lt i 10 3
  have h2 : i.op2 < 4 := field_lt i 8 2
  unfold Handler.ofClass1 at h
  generalize i.op1 = op1 at *
  generalize i.op2 = op2 at *
  interval_cases op2 <;> first | rfl | (interval_cases op1 <;> cases h)

/-- **A word shown as an access** has the text of a word that is one. -/
theorem mnemonic_access (hcls : i.cls = 1) (hop2 : i.op2 = 3) :
    ∃ k : Insn, Handler.ofInsn k ≠ .undef ∧ mnemonic addr i = mnemonic addr k := by
  refine ⟨⟨i.raw &&& 0xFCFF⟩, ?_⟩
  generalize hk : (⟨i.raw &&& 0xFCFF⟩ : Insn) = k
  have hcls' : k.cls = 1 := hk ▸ (field_and 13 3 rfl).trans hcls
  have hop1' : k.op1 = i.op1 := hk ▸ field_and 10 3 rfl
  have hrd : k.rd = i.rd := BitVec.eq_of_toNat_eq (hk ▸ field_and 0 4 rfl)
  have hrb : k.rb = i.rb := BitVec.eq_of_toNat_eq (hk ▸ field_and 4 4 rfl)
  have hop2' : k.op2 = 0 := by
    have hmask : (0xFCFF : U16).extractLsb' 8 2 = 0 := rfl
    rw [← hk, Insn.op2, Insn.field, BitVec.extractLsb'_and, hmask]
    exact congrArg BitVec.toNat BitVec.and_zero
  constructor
  · simp only [Handler.ofInsn, hcls']
    exact fun h => absurd (op2_of_class1 h) (by omega)
  · simp only [mnemonic, hcls, hcls', class1, hop2, hop2', hop1', hrd, hrb]
    simp

theorem marked_class0 (h : Handler.ofClass0 i = .undef) (hjpr : ¬(i.c0Op1 = 1 ∧ i.c0Op2 = 3)) :
    ch '?' ∈ class0 addr i := by
  have h1 : i.c0Op1 < 16 := field_lt i 9 4
  have h2 : i.c0Op2 < 4 := field_lt i 6 2
  unfold Handler.ofClass0 at h
  unfold class0
  generalize i.c0Op1 = op1 at *
  generalize i.c0Op2 = op2 at *
  rcases lt_or_ge op1 4 with hlow | hhigh
  · interval_cases op1 <;> interval_cases op2 <;> simp_all [str]
  · interval_cases op1 <;> cases h

theorem marked_class4 (h : Handler.ofClass4 i = .undef) : ch '?' ∈ class4 i := by
  have h1 : i.op1 < 8 := field_lt i 10 3
  have h2 : i.op2 < 4 := field_lt i 8 2
  unfold Handler.ofClass4 at h
  unfold class4
  generalize i.op1 = op1 at *
  generalize i.op2 = op2 at *
  interval_cases op1 <;> interval_cases op2 <;> first | (cases h; done) | simp [str]

theorem marked_class5 (h : Handler.ofClass5 i = .undef) : ch '?' ∈ class5 i := by
  have h1 : i.op1 < 8 := field_lt i 10 3
  have h2 : i.op2 < 4 := field_lt i 8 2
  have hmark : ch '?' ∈ unknown5 i := by simp [unknown5, str]
  unfold Handler.ofClass5 at h
  unfold class5
  generalize i.op1 = op1 at *
  generalize i.op2 = op2 at *
  interval_cases op2 <;> interval_cases op1 <;> first | (cases h; done) | exact hmark

theorem ofClass2_ne : Handler.ofClass2 i ≠ .undef := by
  rw [Handler.ofClass2]
  split <;> decide

theorem ofClass3_ne : Handler.ofClass3 i ≠ .undef := by
  rw [Handler.ofClass3]
  split <;> decide

/-- **The mark `?`** is on the words that the CPU does not know, but for two groups of them. -/
theorem marked_iff : ch '?' ∈ mnemonic addr i ↔ Handler.ofInsn i = .undef ∧ ¬Disguised i := by
  constructor
  · intro hmark
    refine ⟨by_contra fun h => not_marked_of_ne_undef addr h hmark, ?_⟩
    rintro (⟨hcls, hop1, hop2⟩ | ⟨hcls, hop2⟩)
    · have hjpr : mnemonic addr i = (⟨"jpr", i.d, [.reg i.rd]⟩ : Asm).text := by
        rw [mnemonic, hcls]
        simp [class0, hop1, hop2, Asm.text, Asm.head, Asm.operandsText, Operand.text, reg, dotD,
          str]
      rw [hjpr] at hmark
      refine Asm.mark_not_mem (fun c hc => ?_) hmark
      have hall : ∀ d, ∀ c ∈ Asm.head ⟨"jpr", d, []⟩, Operand.plain c = true := by decide +kernel
      exact hall i.d c hc
    · obtain ⟨k, hk, hsame⟩ := mnemonic_access addr hcls hop2
      exact not_marked_of_ne_undef addr hk (hsame ▸ hmark)
  · rintro ⟨hundef, hshown⟩
    have hcls : i.cls < 8 := field_lt i 13 3
    rw [Disguised, not_or] at hshown
    unfold Handler.ofInsn at hundef
    unfold mnemonic
    generalize i.cls = cls at *
    interval_cases cls
    · exact marked_class0 addr hundef fun h => hshown.1 ⟨rfl, h⟩
    · exact absurd ⟨rfl, op2_of_class1 hundef⟩ hshown.2
    · exact absurd hundef ofClass2_ne
    · exact absurd hundef ofClass3_ne
    · exact marked_class4 hundef
    · exact marked_class5 hundef
    · cases hundef
    · simp [str]

/-- **The text determines the effect.** Two words with the same text at an address have the
same handler, and this does the same for both of them, to every machine. -/
theorem same_effect {D : Type} (io : IoSpace D) (i j : Insn) (hi : ¬Disguised i)
    (hj : ¬Disguised j) (h : mnemonic addr i = mnemonic addr j) :
    Handler.ofInsn i = Handler.ofInsn j ∧
      ∀ m : Machine D, (Handler.ofInsn i).run io i m = (Handler.ofInsn j).run io j m := by
  have hundef : Handler.ofInsn i = .undef ↔ Handler.ofInsn j = .undef := by
    have hmarki := marked_iff addr (i := i)
    have hmarkj := marked_iff addr (i := j)
    rw [h] at hmarki
    tauto
  by_cases hdef : Handler.ofInsn i = .undef
  · rw [hdef, hundef.mp hdef]
    exact ⟨rfl, fun _ => rfl⟩
  · rw [mnemonic_eq addr hdef, mnemonic_eq addr (mt hundef.mpr hdef)] at h
    obtain ⟨hsame, hd, hops⟩ := Handler.asm_text_inj hdef (mt hundef.mpr hdef) h
    rw [← hsame]
    exact ⟨rfl, Handler.run_congr io hd hops⟩

/-- Two words for `mac %r1`, which differ in a field that it does not read. -/
theorem same_effect_mac :
    mnemonic 0 ⟨0xB210⟩ = mnemonic 0 ⟨0xB215⟩ ∧ Handler.ofInsn ⟨0xB210⟩ = Handler.ofInsn ⟨0xB215⟩ ∧
      ∀ m : Machine Unit, (Handler.ofInsn ⟨0xB210⟩).run (IoSpace.empty Unit) ⟨0xB210⟩ m =
        (Handler.ofInsn ⟨0xB215⟩).run (IoSpace.empty Unit) ⟨0xB215⟩ m := by
  have h : mnemonic 0 ⟨0xB210⟩ = mnemonic 0 ⟨0xB215⟩ := by decide +kernel
  exact ⟨h, same_effect 0 (IoSpace.empty Unit) ⟨0xB210⟩ ⟨0xB215⟩ (by decide) (by decide) h⟩

end Disasm

/-! ### A line of a listing -/

theorem Disasm.line_inj {addr addr' : U32} {i j : Insn} (h : line addr i = line addr' j) :
    addr = addr' ∧ i = j := by
  have hno {c : U8} (hc : isHex c = false) (w n : ℕ) : c ∉ hexPadded w n := fun hmem =>
    absurd (isHex_of_mem_hexPadded hmem) (by rw [hc]; decide)
  rw [line, line] at h
  simp only [List.append_assoc] at h
  obtain ⟨haddr, hrest⟩ := append_cons_inj (hno (c := ch ':') (by decide) _ _)
    (hno (by decide) _ _) (List.append_cancel_left h)
  obtain ⟨hraw, -⟩ := append_cons_inj (hno (c := ch ' ') (by decide) _ _)
    (hno (by decide) _ _) (List.cons.inj hrest).2
  exact ⟨BitVec.eq_of_toNat_eq (hexPadded_inj haddr),
    congrArg Insn.mk (BitVec.eq_of_toNat_eq (hexPadded_inj hraw))⟩

/-- What `disasm` returns: the line of the word at an address. -/
def Machine.listing {D : Type} (m : Machine D) (addr : U32) : List U8 :=
  Disasm.line addr ⟨(m.fetch16 addr).1⟩

/-- **A listing shows the memory**: two machines have the same line at an address only when
they would fetch the same word there. -/
theorem Machine.listing_eq_iff {D : Type} (m m' : Machine D) (addr : U32) :
    m.listing addr = m'.listing addr ↔ (m.fetch16 addr).1 = (m'.fetch16 addr).1 := by
  constructor
  · intro h
    exact congrArg Insn.raw (Disasm.line_inj h).2
  · intro h
    rw [listing, listing, h]
