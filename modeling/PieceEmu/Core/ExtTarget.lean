import PieceEmu.Core.ExtPrefix

/-!
# Instructions under a prefix

Which instructions take prefixes, and what each does with the operand its prefixes and
its own bits make up (`Extended`), read off the table of the instruction set: `imm19`
and `imm32` for the immediates and the accesses to the stack, `imm13` and `imm26` for
the accesses through a register, `sign22` and `sign32` for the branches.

A run of prefixes followed by such an instruction executes exactly that
(`Machine.extended_exact`), whatever the machine it starts on, and leaves no prefix
pending.
-/

/-! ### The instructions -/

namespace Insn

/-- `ext e`. -/
def ext (e : BitVec 13) : Insn := ⟨6#3 ++ e⟩

variable (i : Insn)

/-- The bits of `imm6`. -/
def low6 : BitVec 6 := i.raw.extractLsb' 4 6

/-- The bits of `sign8`. -/
def low8 : BitVec 8 := i.raw.extractLsb' 0 8

theorem imm13_ext (e : BitVec 13) : (ext e).imm13 = e.setWidth 32 := by
  refine congrArg (BitVec.setWidth 32) ?_
  ext j hj
  rw [BitVec.getElem_extractLsb']
  change (6#3 ++ e).getLsbD (0 + j) = _
  rw [Nat.zero_add, BitVec.getLsbD_append, if_pos hj,
    BitVec.getLsbD_eq_getElem hj]

theorem ofInsn_ext (e : BitVec 13) : Handler.ofInsn (ext e) = .ext := by
  have hcls : (ext e).cls = 6 := by
    refine congrArg BitVec.toNat (?_ : (6#3 ++ e).extractLsb' 13 3 = 6#3)
    ext j hj
    rw [BitVec.getElem_extractLsb', BitVec.getLsbD_append]
    simp [hj]
  unfold Handler.ofInsn
  rw [hcls]
  rfl

end Insn

/-- **What an instruction that takes prefixes does** with its operand. -/
inductive Extended
  /-- Arithmetic with an immediate. -/
  | arith (op : AluOp) (signed : Bool)
  /-- Arithmetic with registers, of three operands under a prefix. -/
  | arithReg (op : AluOp)
  /-- A load relative to the stack pointer. -/
  | loadSp (w : Width) (signed : Bool)
  /-- A store relative to the stack pointer. -/
  | storeSp (w : Width)
  /-- A load through a register. -/
  | loadRb (w : Width) (signed : Bool)
  /-- A store through a register. -/
  | storeRb (w : Width)
  /-- The test of a bit of memory. -/
  | testBit
  /-- A change of a bit of memory. -/
  | changeBit (f : U8 → U8 → U8)
  /-- A conditional branch. -/
  | branch (taken : Psr → Bool)
  /-- A call. -/
  | call
  /-- A jump. -/
  | jump

/-- The instructions that take prefixes. -/
def Handler.extended : Handler → Option Extended
  | addRdImm6 => some (.arith .add false)
  | subRdImm6 => some (.arith .sub false)
  | cmpRdSimm6 => some (.arith .cmp true)
  | ldWRdSimm6 => some (.arith .mov true)
  | andRdSimm6 => some (.arith .and true)
  | orRdSimm6 => some (.arith .or true)
  | xorRdSimm6 => some (.arith .xor true)
  | notRdSimm6 => some (.arith .not true)
  | addRdRs => some (.arithReg .add)
  | subRdRs => some (.arithReg .sub)
  | cmpRdRs => some (.arithReg .cmp)
  | andRdRs => some (.arithReg .and)
  | orRdRs => some (.arithReg .or)
  | xorRdRs => some (.arithReg .xor)
  | ldBRdSp => some (.loadSp .byte true)
  | ldUbRdSp => some (.loadSp .byte false)
  | ldHRdSp => some (.loadSp .half true)
  | ldUhRdSp => some (.loadSp .half false)
  | ldWRdSp => some (.loadSp .word false)
  | stBSpRs => some (.storeSp .byte)
  | stHSpRs => some (.storeSp .half)
  | stWSpRs => some (.storeSp .word)
  | ldBRdRb => some (.loadRb .byte true)
  | ldUbRdRb => some (.loadRb .byte false)
  | ldHRdRb => some (.loadRb .half true)
  | ldUhRdRb => some (.loadRb .half false)
  | ldWRdRb => some (.loadRb .word false)
  | stBRbRs => some (.storeRb .byte)
  | stHRbRs => some (.storeRb .half)
  | stWRbRs => some (.storeRb .word)
  | btst => some .testBit
  | bclr => some (.changeBit fun v bit => v &&& ~~~bit)
  | bset => some (.changeBit (· ||| ·))
  | bnot => some (.changeBit (· ^^^ ·))
  | jrgt => some (.branch fun p => !(p.n ^^ p.v) && !p.z)
  | jrge => some (.branch fun p => !(p.n ^^ p.v))
  | jrlt => some (.branch fun p => p.n ^^ p.v)
  | jrle => some (.branch fun p => (p.n ^^ p.v) || p.z)
  | jrugt => some (.branch fun p => !p.c && !p.z)
  | jruge => some (.branch fun p => !p.c)
  | jrult => some (.branch fun p => p.c)
  | jrule => some (.branch fun p => p.c || p.z)
  | jreq => some (.branch fun p => p.z)
  | jrne => some (.branch fun p => !p.z)
  | callSimm8 => some .call
  | jpSimm8 => some .jump
  | _ => none

/-- The displacement from the stack pointer: elements, unless a prefix makes it bytes. -/
def ExtPrefix.spOperand (imm6 : BitVec 6) (w : Width) : ExtPrefix → U32
  | none => imm6.setWidth 32 * w.bytes
  | px => px.immOperand imm6

namespace Extended

variable {D : Type} (io : IoSpace D)

/-- The instruction at the address `pc`, with its operand made up: `m` has moved on to
the next instruction, and its prefixes are dropped. -/
def run (pc : U32) (i : Insn) (px : ExtPrefix) (m : Machine D) : Extended → Machine D
  | arith op signed =>
    m.doAlu op (m.cpu.r i.rd) (if signed then px.simmOperand i.low6 else px.immOperand i.low6) i.rd
  | arithReg op =>
    if px = .none then m.doAlu op (m.cpu.r i.rd) (m.cpu.r i.rs) i.rd
    else m.doAlu op (m.cpu.r i.rs) px.rbOperand i.rd
  | loadSp w signed =>
    let (val, m) := m.loadWidth io w signed (m.cpu.sp + px.spOperand i.low6 w)
    m.setR i.rd val
  | storeSp w => m.storeWidth io w (m.cpu.sp + px.spOperand i.low6 w) (m.cpu.r i.rd)
  | loadRb w signed =>
    let (val, m) := m.loadWidth io w signed (m.cpu.r i.rb + px.rbOperand)
    m.setR i.rd val
  | storeRb w => m.storeWidth io w (m.cpu.r i.rb + px.rbOperand) (m.cpu.r i.rd)
  | testBit =>
    let (v, m) := m.read8 io (m.cpu.r i.rb + px.rbOperand)
    m.setPsr (m.cpu.psr.setZ !v.getLsbD i.imm3)
  | changeBit f =>
    let ea := m.cpu.r i.rb + px.rbOperand
    let (v, m) := m.read8 io ea
    m.write8 io ea (f v (1#8 <<< i.imm3))
  | branch taken =>
    if taken m.cpu.psr then m.doC0Jump (pc + px.pcrelOperand i.low8) i.d else m
  | call =>
    let m := m.push io (m.cpu.pc + if i.d then 2 else 0)
    let m := if i.d then m.setDelayCaller .callD else m
    m.doC0Jump (pc + px.pcrelOperand i.low8) i.d
  | jump => m.doC0Jump (pc + px.pcrelOperand i.low8) i.d

/-- The instruction jumps to the target its prefixes make up. -/
def jumps (psr : Psr) : Extended → Bool
  | branch taken => taken psr
  | call | jump => true
  | _ => false

/-- What such an instruction comes to. -/
theorem run_jumps {x : Extended} {m : Machine D} (hx : x.jumps m.cpu.psr = true) (pc : U32)
    (i : Insn) (px : ExtPrefix) :
    ∃ m' : Machine D, m'.cpu.deferredTrapValid = m.cpu.deferredTrapValid ∧
      x.run io pc i px m = m'.doC0Jump (pc + px.pcrelOperand i.low8) i.d := by
  cases x with
  | branch taken => exact ⟨m, rfl, if_pos hx⟩
  | jump => exact ⟨m, rfl, rfl⟩
  | call =>
    refine ⟨_, ?_, rfl⟩
    cases i.d <;> rfl
  | _ => exact Bool.noConfusion hx

end Extended

/-! ### The handlers -/

namespace Machine

variable {D : Type} (io : IoSpace D) {m : Machine D} {px : ExtPrefix} (i : Insn)

open ExtPrefix

theorem doAluImm_extended (hp : PendingIn m.cpu px) (op : AluOp) (signed : Bool) :
    (Extended.arith op signed).run io (m.cpu.pc - 2) i px m.flushExt = m.doAluImm i op signed := by
  have hsimm := extSimm_eq hp i.low6
  have himm := extImm_eq hp i.low6
  cases signed with
  | false => exact congrArg (fun b => m.flushExt.doAlu op (m.cpu.r i.rd) b i.rd) himm.symm
  | true => exact congrArg (fun b => m.flushExt.doAlu op (m.cpu.r i.rd) b i.rd) hsimm.symm

theorem pendingExtCount_eq_zero_iff (hp : PendingIn m.cpu px) :
    m.cpu.pendingExtCount = 0 ↔ px = .none := by
  cases px with
  | none => exact iff_of_true hp rfl
  | one e => exact iff_of_false (by rw [hp.1]; decide) (by simp)
  | two e e' => exact iff_of_false (by rw [hp.1]; decide) (by simp)

theorem doAluRr_extended (hp : PendingIn m.cpu px) (op : AluOp) :
    (Extended.arithReg op).run io (m.cpu.pc - 2) i px m.flushExt = m.doAluRr i op true := by
  unfold doAluRr
  rw [extRb_eq hp]
  by_cases h : px = .none
  · rw [(pendingExtCount_eq_zero_iff hp).mpr h]
    exact if_pos h
  · have hne : (true && m.cpu.pendingExtCount != 0) = true := by
      simpa using (pendingExtCount_eq_zero_iff hp).not.mpr h
    rw [if_pos hne]
    exact if_neg h

theorem spEa_extended (hp : PendingIn m.cpu px) (w : Width) :
    m.spEa i w.bytes = m.cpu.sp + px.spOperand i.low6 w := by
  have himm := extImm_eq hp i.low6
  unfold spEa
  by_cases h : px = .none
  · subst h
    exact if_pos hp
  · rw [if_neg ((pendingExtCount_eq_zero_iff hp).not.mpr h)]
    refine (congrArg (m.cpu.sp + ·) himm).trans ?_
    cases px with
    | none => exact absurd rfl h
    | one e => rfl
    | two e e' => rfl

theorem doLoadSp_extended (hp : PendingIn m.cpu px) (w : Width) (signed : Bool) :
    (Extended.loadSp w signed).run io (m.cpu.pc - 2) i px m.flushExt =
      m.doLoadSp io i w signed := by
  unfold doLoadSp
  rw [spEa_extended i hp]
  rfl

theorem doStoreSp_extended (hp : PendingIn m.cpu px) (w : Width) :
    (Extended.storeSp w).run io (m.cpu.pc - 2) i px m.flushExt = m.doStoreSp io i w := by
  unfold doStoreSp
  rw [spEa_extended i hp]
  rfl

theorem doLoadRb_extended (hp : PendingIn m.cpu px) (w : Width) (signed : Bool) :
    (Extended.loadRb w signed).run io (m.cpu.pc - 2) i px m.flushExt =
      m.doLoadRb io i w signed false := by
  unfold doLoadRb
  rw [extRb_eq hp]
  rfl

theorem doStoreRb_extended (hp : PendingIn m.cpu px) (w : Width) :
    (Extended.storeRb w).run io (m.cpu.pc - 2) i px m.flushExt = m.doStoreRb io i w false := by
  unfold doStoreRb
  rw [extRb_eq hp]
  rfl

theorem hBtst_extended (hp : PendingIn m.cpu px) :
    Extended.testBit.run io (m.cpu.pc - 2) i px m.flushExt = m.hBtst io i := by
  unfold hBtst
  rw [extRb_eq hp]
  rfl

theorem doBit_extended (hp : PendingIn m.cpu px) (f : U8 → U8 → U8) :
    (Extended.changeBit f).run io (m.cpu.pc - 2) i px m.flushExt = m.doBit io i f := by
  unfold doBit
  rw [extRb_eq hp]
  rfl

/-- The target of a branch is its own address and its displacement. -/
theorem pcrelTarget_extended (hp : PendingIn m.cpu px) :
    m.flushExt.pcrelTarget (m.cpu.extPcrel i.sign8) =
      m.cpu.pc - 2 + px.pcrelOperand i.low8 :=
  congrArg (m.cpu.pc - 2 + ·) (two_mul_extPcrel hp i.low8)

theorem hJr_extended (hp : PendingIn m.cpu px) (taken : Psr → Bool) :
    (Extended.branch taken).run io (m.cpu.pc - 2) i px m.flushExt = m.hJr i (taken m.cpu.psr) := by
  unfold hJr
  dsimp only
  rw [pcrelTarget_extended i hp]
  rfl

theorem hCallSimm8_extended (hp : PendingIn m.cpu px) :
    Extended.call.run io (m.cpu.pc - 2) i px m.flushExt = m.hCallSimm8 io i := by
  unfold hCallSimm8
  dsimp only
  rw [pcrelTarget_extended i hp]
  rfl

theorem hJpSimm8_extended (hp : PendingIn m.cpu px) :
    Extended.jump.run io (m.cpu.pc - 2) i px m.flushExt = m.hJpSimm8 i := by
  unfold hJpSimm8
  dsimp only
  rw [pcrelTarget_extended i hp]
  rfl

end Machine

/-! ### Dispatch -/

namespace Handler

variable {D : Type} (io : IoSpace D)

open Machine

/-- **A handler computes what its row of the table says.** -/
theorem run_extended {h : Handler} {x : Extended} (hx : h.extended = some x) (i : Insn)
    {m : Machine D} {px : ExtPrefix} (hp : px.PendingIn m.cpu) :
    x.run io (m.cpu.pc - 2) i px m.flushExt = h.run io i m := by
  cases h <;>
    first
      | cases hx; done
      | cases hx
        first
          | exact doAluImm_extended io i hp _ _
          | exact doAluRr_extended io i hp _
          | exact doLoadSp_extended io i hp _ _
          | exact doStoreSp_extended io i hp _
          | exact doLoadRb_extended io i hp _ _
          | exact doStoreRb_extended io i hp _
          | exact hBtst_extended io i hp
          | exact doBit_extended io i hp _
          | exact hCallSimm8_extended io i hp
          | exact hJpSimm8_extended io i hp
          | exact hJr_extended io i hp _

/-- The instructions of the table may follow a prefix. -/
theorem extCapable_of_extended {i : Insn} {x : Extended} (hx : (ofInsn i).extended = some x) :
    extCapable i = true := by
  unfold ofInsn at hx
  unfold extCapable
  split at hx
  case h_1 hc =>
    rw [hc]
    refine decide_eq_true (Nat.le_of_not_lt fun hlt => ?_)
    unfold ofClass0 at hx
    rcases (by omega : i.c0Op1 = 0 ∨ i.c0Op1 = 1 ∨ i.c0Op1 = 2 ∨ i.c0Op1 = 3) with h | h | h | h <;>
      simp only [h] at hx <;> split at hx <;> cases hx
  case h_2 hc =>
    rw [hc]
    unfold ofClass1 at hx
    split at hx
    case h_1 h =>
      rw [h]
      rfl
    case h_2 => split at hx <;> cases hx
    case h_3 h =>
      rw [h]
      split at hx <;> first | cases hx; done | (rename_i h'; rw [h']; rfl)
    case h_4 => cases hx
  case h_3 hc | h_4 hc =>
    rw [hc]
    rfl
  case h_5 =>
    unfold ofClass4 at hx
    split at hx <;> cases hx
  case h_6 hc =>
    rw [hc]
    unfold ofClass5 at hx
    split at hx
    case h_1 h =>
      split at hx <;> first | cases hx; done | (rename_i h'; simp [h, h'])
    case h_2 | h_3 => split at hx <;> cases hx
    case h_4 => cases hx
  case h_7 => cases hx
  case h_8 => cases hx

end Handler

theorem Machine.doC0Jump_pendingExtCount {D : Type} (m : Machine D) (target : U32)
    (delayed : Bool) :
    (m.doC0Jump target delayed).cpu.pendingExtCount = m.cpu.pendingExtCount := by
  cases delayed <;> rfl

/-- No instruction of the table leaves a prefix pending. -/
theorem Extended.run_pendingExtCount {D : Type} (io : IoSpace D) (pc : U32) (i : Insn)
    (px : ExtPrefix) (m : Machine D) (x : Extended) :
    (x.run io pc i px m).cpu.pendingExtCount = m.cpu.pendingExtCount := by
  cases x with
  | arith op signed => exact Machine.doAlu_pendingExtCount m op _ _ _
  | arithReg op =>
    unfold Extended.run
    split_ifs <;> exact Machine.doAlu_pendingExtCount m op _ _ _
  | loadSp w signed | loadRb w signed => cases w <;> rfl
  | storeSp w | storeRb w => cases w <;> rfl
  | testBit | changeBit f => rfl
  | branch taken =>
    change (if taken m.cpu.psr then m.doC0Jump _ _ else m).cpu.pendingExtCount = _
    split_ifs
    · exact m.doC0Jump_pendingExtCount _ _
    · rfl
  | call =>
    refine (Machine.doC0Jump_pendingExtCount _ _ _).trans ?_
    cases i.d <;> rfl
  | jump => exact m.doC0Jump_pendingExtCount _ _

/-! ### Runs -/

namespace Machine

variable {D : Type} (io : IoSpace D)

/-- The machine goes on to execute these instructions, one in each step. -/
def Executes : List Insn → Machine D → Prop
  | [], _ => True
  | i :: is, m => m.running = true ∧ m.insnAtPc = i ∧ Executes is (m.step io)

instance decidableExecutes : (is : List Insn) → (m : Machine D) → Decidable (Executes io is m)
  | [], _ => .isTrue trivial
  | _ :: is, m =>
    haveI := decidableExecutes is (m.step io)
    inferInstanceAs (Decidable (_ ∧ _ ∧ _))

theorem executes_append (is js : List Insn) (m : Machine D) :
    m.Executes io (is ++ js) ↔
      m.Executes io is ∧ ((step io)^[is.length] m).Executes io js := by
  induction is generalizing m with
  | nil => exact ⟨fun h => ⟨trivial, h⟩, And.right⟩
  | cons i is ih =>
    rw [List.length_cons, Function.iterate_succ_apply]
    change (_ ∧ _ ∧ Executes io (is ++ js) (m.step io)) ↔ (_ ∧ _ ∧ _) ∧ _
    rw [ih (m.step io), and_assoc, and_assoc]

/-- Nothing of the CPU has changed but its program counter, by `n` instructions, and its
prefixes. -/
def OnlyPrefixes (m m' : Machine D) (n : ℕ) : Prop :=
  m'.cpu = { m.cpu with
    pc := m.cpu.pc + 2 * n
    pendingExt0 := m'.cpu.pendingExt0
    pendingExt1 := m'.cpu.pendingExt1
    pendingExtCount := m'.cpu.pendingExtCount }

/-- One more prefix is pending, unless the CPU has faulted. -/
theorem hExt_pendingIn {m : Machine D} {px : ExtPrefix} (hp : px.PendingIn m.cpu)
    (e : BitVec 13) :
    (m.hExt (.ext e)).cpu.inHalt = true ∨
      ((px.push e).PendingIn (m.hExt (.ext e)).cpu ∧
        (m.hExt (.ext e)).cpu = { m.cpu with
          pendingExt0 := (m.hExt (.ext e)).cpu.pendingExt0
          pendingExt1 := (m.hExt (.ext e)).cpu.pendingExt1
          pendingExtCount := (m.hExt (.ext e)).cpu.pendingExtCount }) := by
  unfold hExt
  rw [Insn.imm13_ext]
  cases px with
  | none =>
    rw [show m.cpu.pendingExtCount = 0 from hp]
    exact .inr ⟨⟨rfl, rfl⟩, rfl⟩
  | one e₀ =>
    rw [hp.1]
    exact .inr ⟨⟨rfl, hp.2, rfl⟩, rfl⟩
  | two e₀ e₁ =>
    obtain ⟨hn, h0, -⟩ := hp
    rw [hn, if_pos le_rfl]
    unfold diagWarnOrFault
    split_ifs
    · exact .inl rfl
    · exact .inr ⟨⟨hn, h0, rfl⟩, rfl⟩

theorem hExt_pendingExtCount_pos (m : Machine D) (i : Insn) :
    0 < (m.hExt i).cpu.pendingExtCount := by
  unfold hExt
  split_ifs with h2
  · unfold diagWarnOrFault
    split_ifs <;> exact Nat.lt_of_lt_of_le Nat.two_pos h2
  · exact Nat.one_pos
  · exact Nat.two_pos

/-- **One prefix**: the CPU has kept it, and nothing else has happened to it. -/
theorem step_prefix {m : Machine D} {px : ExtPrefix} {e : BitVec 13} (hrun : m.running = true)
    (hslot : m.cpu.inDelaySlot = false) (hi : m.insnAtPc = .ext e) (hp : px.PendingIn m.cpu)
    (hgo : (m.step io).running = true) :
    (px.push e).PendingIn (m.step io).cpu ∧ m.OnlyPrefixes (m.step io) 1 := by
  have hext : m.handlerAtPc = .ext := (congrArg Handler.ofInsn hi).trans (Insn.ofInsn_ext e)
  have hstep := step_outside_slot io hrun hslot (.inr (Handler.extCapable_of_ext hext))
  have hrunExt : m.handlerAtPc.run io m.insnAtPc m.fetched = m.fetched.hExt (.ext e) := by
    rw [hext, hi]
    rfl
  have hp' : px.PendingIn m.fetched.cpu := by
    cases px <;> exact hp
  -- neither the bus nor the prefix itself has faulted: the CPU goes on
  have hwin : (m.fetched.hExt (.ext e)).checkBusFault.inWindow = true := by
    refine inWindow_eq_true_iff _ |>.mpr (.inl ?_)
    have hpos := hExt_pendingExtCount_pos m.fetched (.ext e)
    rcases (m.fetched.hExt (.ext e)).checkBusFault_cpu with hcpu | hcpu <;> rw [hcpu] <;>
      exact hpos.ne'
  rw [hrunExt, fireDeferred_of_inWindow io hwin] at hstep
  have hhalt : (m.step io).cpu.inHalt = false := ((m.step io).running_iff.mp hgo).1
  rw [hstep] at hhalt ⊢
  rcases (m.fetched.hExt (.ext e)).checkBusFault_cpu with hcpu | hcpu
  · rw [hcpu] at hhalt ⊢
    rcases hExt_pendingIn hp' e with hh | ⟨hpend, honly⟩
    · exact absurd (hh.symm.trans hhalt) (by decide)
    · refine ⟨hpend, ?_⟩
      unfold OnlyPrefixes
      rw [hcpu]
      exact honly
  · rw [hcpu] at hhalt
    exact nomatch hhalt

theorem OnlyPrefixes.trans {m m' m'' : Machine D} {n n' : ℕ} (h : m.OnlyPrefixes m' n)
    (h' : m'.OnlyPrefixes m'' n') : m.OnlyPrefixes m'' (n + n') := by
  unfold OnlyPrefixes at *
  have hpc : m'.cpu.pc = m.cpu.pc + 2 * n := by rw [h]
  rw [h', hpc, h]
  simp only [Nat.cast_add, mul_add, add_assoc]

/-- **A row of prefixes** before more instructions. -/
theorem steps_prefix {is : List Insn} (his : is ≠ []) (es : List (BitVec 13))
    {m : Machine D} {px : ExtPrefix} (hslot : m.cpu.inDelaySlot = false)
    (hp : px.PendingIn m.cpu) (hx : m.Executes io (es.map Insn.ext ++ is)) :
    (es.foldl (fun p e => p.push e) px).PendingIn ((step io)^[es.length] m).cpu ∧
      m.OnlyPrefixes ((step io)^[es.length] m) es.length ∧
      ((step io)^[es.length] m).Executes io is := by
  induction es generalizing m px with
  | nil =>
    refine ⟨hp, ?_, hx⟩
    unfold OnlyPrefixes
    simp
  | cons e es ih =>
    obtain ⟨hrun, hi, hrest⟩ := hx
    have hgo : (m.step io).running = true := by
      cases es with
      | nil =>
        cases is with
        | nil => exact absurd rfl his
        | cons i is => exact hrest.1
      | cons e' es => exact hrest.1
    obtain ⟨hp', honly⟩ := step_prefix io hrun hslot hi hp hgo
    have hslot' : (m.step io).cpu.inDelaySlot = false := by
      rw [honly]
      exact hslot
    obtain ⟨hpend, honly', hexec⟩ := ih hslot' hp' hrest
    rw [List.length_cons, Function.iterate_succ_apply]
    refine ⟨hpend, ?_, hexec⟩
    rw [Nat.add_comm]
    exact honly.trans honly'

/-- What a prefixed instruction comes to, once dispatched: no prefix is pending. -/
theorem settle_pendingExtCount {m : Machine D} (h : m.cpu.pendingExtCount = 0) :
    (m.checkBusFault.fireDeferred io).cpu.pendingExtCount = 0 := by
  have hbus : m.checkBusFault.cpu.pendingExtCount = 0 := by
    rcases m.checkBusFault_cpu with hcpu | hcpu <;> rw [hcpu] <;> exact h
  generalize m.checkBusFault = m' at hbus ⊢
  unfold fireDeferred
  split_ifs
  · rcases m'.takeDeferred.doTrap_cases io m'.cpu.deferredTrapNo m'.cpu.deferredTrapLevel with
      ⟨-, h⟩ | ⟨-, -, h⟩ | ⟨-, -, h⟩ <;> rw [h] <;> exact hbus
  · exact hbus

/-- **A row of prefixes and the instruction that takes them.** -/
theorem steps_extended {m : Machine D} {es : List (BitVec 13)} {i : Insn} {x : Extended}
    (hslot : m.cpu.inDelaySlot = false) (hnone : m.cpu.pendingExtCount = 0)
    (hexec : m.Executes io (es.map Insn.ext ++ [i])) (hx : (Handler.ofInsn i).extended = some x) :
    m.OnlyPrefixes ((step io)^[es.length] m) es.length ∧
      (step io)^[es.length + 1] m =
        ((x.run io (m.cpu.pc + 2 * es.length) i (.ofList es)
          ((step io)^[es.length] m).fetched.flushExt).checkBusFault.fireDeferred io) ∧
      ((step io)^[es.length + 1] m).cpu.pendingExtCount = 0 := by
  obtain ⟨hp, honly, hrun, hi, -⟩ :=
    steps_prefix io (List.cons_ne_nil i []) es hslot
      (show ExtPrefix.none.PendingIn m.cpu from hnone) hexec
  refine ⟨honly, ?_⟩
  rw [Function.iterate_succ_apply']
  generalize hm' : (step io)^[es.length] m = m' at *
  have hslot' : m'.cpu.inDelaySlot = false := by
    rw [honly]
    exact hslot
  have hx' : m'.handlerAtPc.extended = some x := by
    rw [handlerAtPc, hi]
    exact hx
  have hp' : (ExtPrefix.ofList es).PendingIn m'.fetched.cpu := by
    have h := hp
    revert h
    unfold ExtPrefix.ofList
    cases es.foldl (fun p e => p.push e) ExtPrefix.none <;> exact id
  have hpc : m'.fetched.cpu.pc - 2 = m.cpu.pc + 2 * es.length := by
    have h : m'.cpu.pc = m.cpu.pc + 2 * es.length := by rw [honly]
    rw [← h]
    exact BitVec.add_sub_cancel _ _
  have hrow := Handler.run_extended io hx' i hp'
  rw [hpc] at hrow
  have hstep := step_outside_slot io hrun hslot'
    (.inr (Handler.extCapable_of_extended (i := m'.insnAtPc) hx'))
  rw [hi, ← hrow] at hstep
  refine ⟨hstep, ?_⟩
  rw [hstep]
  exact settle_pendingExtCount io (Extended.run_pendingExtCount io _ i _ _ x)

/-- **Where a jump leaves the CPU** once it is settled: at the target, unless a waiting trap
is entered there, or in the slot with the target noted. -/
theorem settle_doC0Jump (m : Machine D) (target : U32) (delayed : Bool)
    (hd : m.cpu.deferredTrapValid = false) :
    let m' := (m.doC0Jump target delayed).checkBusFault.fireDeferred io
    (delayed = false → m'.cpu.pc = target) ∧
      (delayed = true → m'.cpu.inDelaySlot = true ∧ m'.cpu.delayTarget = target) := by
  have hd' : (m.doC0Jump target delayed).checkBusFault.cpu.deferredTrapValid = false := by
    have hjump : (m.doC0Jump target delayed).cpu.deferredTrapValid = false := by
      cases delayed <;> exact hd
    rcases (m.doC0Jump target delayed).checkBusFault_cpu with hcpu | hcpu <;> rw [hcpu] <;>
      exact hjump
  dsimp only
  rw [fireDeferred_eq io hd']
  rcases (m.doC0Jump target delayed).checkBusFault_cpu with hcpu | hcpu
  all_goals
    rw [hcpu]
    constructor
    · rintro rfl
      rfl
    · rintro rfl
      exact ⟨rfl, rfl⟩

/-- **A row of prefixes and a jump** to the target they make up. -/
theorem steps_jump {m : Machine D} {es : List (BitVec 13)} {i : Insn} {x : Extended}
    (hslot : m.cpu.inDelaySlot = false) (hnone : m.cpu.pendingExtCount = 0)
    (hexec : m.Executes io (es.map Insn.ext ++ [i])) (hx : (Handler.ofInsn i).extended = some x)
    (hjumps : x.jumps m.cpu.psr = true) (hd : m.cpu.deferredTrapValid = false) :
    let target := m.cpu.pc + 2 * es.length + (ExtPrefix.ofList es).pcrelOperand i.low8
    let m' := (step io)^[es.length + 1] m
    (i.d = false → m'.cpu.pc = target) ∧
      (i.d = true → m'.cpu.inDelaySlot = true ∧ m'.cpu.delayTarget = target) := by
  obtain ⟨honly, hstep, -⟩ := steps_extended io hslot hnone hexec hx
  generalize (step io)^[es.length] m = m₁ at honly hstep
  have hpsr : m₁.fetched.flushExt.cpu.psr = m.cpu.psr := by
    change m₁.cpu.psr = _
    rw [honly]
  have hwaits : m₁.fetched.flushExt.cpu.deferredTrapValid = false := by
    change m₁.cpu.deferredTrapValid = false
    rw [honly]
    exact hd
  obtain ⟨m', hd', hrun⟩ := Extended.run_jumps io (x := x) (m := m₁.fetched.flushExt)
    (by rw [hpsr]; exact hjumps) (m.cpu.pc + 2 * es.length) i (.ofList es)
  dsimp only
  rw [hstep, hrun]
  exact settle_doC0Jump io m' _ i.d (hd'.trans hwaits)

/-- **The splitting of immediates is exact.** A row of prefixes and an instruction that
takes them, executed outside a delay slot with no prefix pending, touch nothing but the
program counter up to that instruction, and then do what the instruction does with the
operand of `ExtPrefix.ofList`; no prefix is pending afterwards. That operand is

* for one prefix the 19 bits `e:imm6`, extended with zeros or with the sign;
* for the two prefixes that split a word, the word;
* for a branch under the two prefixes that split an even displacement, the displacement;
* for more prefixes, the one of the first and the last.

A branch that is taken, a call or a jump leaves the CPU at its target, or in the slot with the
target noted, where no trap waits. A strict CPU faults on the third prefix, so that it executes
no longer row. -/
theorem extended_exact :
    (∀ (m : Machine D) (es : List (BitVec 13)) (i : Insn) (x : Extended),
      m.cpu.inDelaySlot = false → m.cpu.pendingExtCount = 0 →
      m.Executes io (es.map Insn.ext ++ [i]) → (Handler.ofInsn i).extended = some x →
      m.OnlyPrefixes ((step io)^[es.length] m) es.length ∧
        (step io)^[es.length + 1] m =
          ((x.run io (m.cpu.pc + 2 * es.length) i (.ofList es)
            ((step io)^[es.length] m).fetched.flushExt).checkBusFault.fireDeferred io) ∧
        ((step io)^[es.length + 1] m).cpu.pendingExtCount = 0) ∧
    (∀ (m : Machine D) (es : List (BitVec 13)) (i : Insn) (x : Extended),
      m.cpu.inDelaySlot = false → m.cpu.pendingExtCount = 0 →
      m.Executes io (es.map Insn.ext ++ [i]) → (Handler.ofInsn i).extended = some x →
      x.jumps m.cpu.psr = true → m.cpu.deferredTrapValid = false →
      let target := m.cpu.pc + 2 * es.length + (ExtPrefix.ofList es).pcrelOperand i.low8
      let m' := (step io)^[es.length + 1] m
      (i.d = false → m'.cpu.pc = target) ∧
        (i.d = true → m'.cpu.inDelaySlot = true ∧ m'.cpu.delayTarget = target)) ∧
    (∀ (e : BitVec 13) (imm6 : BitVec 6),
      (ExtPrefix.ofList [e]).immOperand imm6 = (e ++ imm6).setWidth 32 ∧
        (ExtPrefix.ofList [e]).simmOperand imm6 = (e ++ imm6).signExtend 32 ∧
        ∀ w, (ExtPrefix.ofList [e]).spOperand imm6 w = (e ++ imm6).setWidth 32) ∧
    (∀ v : U32,
      (ExtPrefix.ofList [v.extractLsb' 19 13, v.extractLsb' 6 13]).immOperand
          (v.extractLsb' 0 6) = v ∧
        (ExtPrefix.ofList [v.extractLsb' 19 13, v.extractLsb' 6 13]).simmOperand
          (v.extractLsb' 0 6) = v ∧
        ∀ w, (ExtPrefix.ofList [v.extractLsb' 19 13, v.extractLsb' 6 13]).spOperand
          (v.extractLsb' 0 6) w = v) ∧
    (∀ d : U32, d.getLsbD 0 = false →
      (ExtPrefix.ofList [d.extractLsb' 22 10 ++ 0#3, d.extractLsb' 9 13]).pcrelOperand
        (d.extractLsb' 1 8) = d) ∧
    (∀ (e e' : BitVec 13) (es : List (BitVec 13)),
      ExtPrefix.ofList (e :: es ++ [e']) = ExtPrefix.ofList [e, e']) := by
  refine ⟨fun m es i x hslot hnone hexec hx => ?_,
    fun m es i x hslot hnone hexec hx hjumps hd => ?_, fun e imm6 => ⟨rfl, rfl, fun _ => rfl⟩,
    fun v => ⟨ExtPrefix.immOperand_ofWord v, ExtPrefix.simmOperand_ofWord v,
      fun _ => ExtPrefix.immOperand_ofWord v⟩,
    fun d hd => ExtPrefix.pcrelOperand_two d hd, ExtPrefix.ofList_first_last⟩
  · exact steps_extended io hslot hnone hexec hx
  · exact steps_jump io hslot hnone hexec hx hjumps hd

/-- A boot ROM with the two prefixes that split 0x12345678 and `ld.w %r0`, about to run. -/
def extRom : Machine Unit :=
  { ofRom [0xC246, 0xD159, 0x6F80] with cpu := { pc := 0xC00000 } }

/-- A boot ROM with a prefix and `jp.d`, about to run: the displacement is 0x3FC. -/
def extJumpRom : Machine Unit :=
  { ofRom [0xC001, 0x1FFE] with cpu := { pc := 0xC00000 } }

theorem extended_exact_extRom :
    extRom.OnlyPrefixes ((step (IoSpace.empty Unit))^[2] extRom) 2 ∧
      ((step (IoSpace.empty Unit))^[3] extRom).cpu.r 0 = 0x12345678 ∧
      ((step (IoSpace.empty Unit))^[3] extRom).cpu.pendingExtCount = 0 ∧
      ((step (IoSpace.empty Unit))^[2] extJumpRom).cpu.delayTarget = 0xC003FE := by
  obtain ⟨hrow, hjump, -⟩ := extended_exact (IoSpace.empty Unit)
  obtain ⟨honly, -, hnone⟩ := hrow extRom [0x246, 0x1159] ⟨0x6F80⟩ (.arith .mov true) rfl rfl
    ⟨rfl, rfl, rfl, rfl, rfl, rfl, trivial⟩ rfl
  obtain ⟨-, htarget⟩ := (hjump extJumpRom [1] ⟨0x1FFE⟩ .jump rfl rfl
    ⟨rfl, rfl, rfl, rfl, trivial⟩ rfl rfl rfl).2 rfl
  exact ⟨honly, by decide, hnone, htarget.trans (by decide)⟩

end Machine
