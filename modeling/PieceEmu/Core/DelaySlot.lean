import PieceEmu.Core.StackWords
import PieceEmu.Core.StepCases

/-!
# Delayed transfers

A delayed branch, call or return opens a slot: the next instruction still executes,
and only then the program continues at the target. The two steps together do what the
transfer's own stack effect and the slot instruction alone would do
(`Machine.delayed_transfer`), except for the program counter, which the completion of
the slot overwrites.

Two facts carry the argument. An instruction that may stand in a slot is *internal*:
it works on the registers and sees nothing of the bus, of the program counter or of
the control state (`Handler.run_withOutside`, `Handler.run_withCtl`). And a transfer
leaves the machine with its stack effect behind it and the slot open, whatever its
form (`Machine.run_transfer`).
-/

/-! ### Internal instructions -/

/-- The part of a machine an internal instruction does not see. -/
structure Outside (D : Type) where
  bus : Bus D
  pc : U32
  inHalt : Bool
  breakpoints : U32 → Bool
  strict : Bool

namespace Machine

variable {D : Type} (io : IoSpace D) (m : Machine D) (insn : Insn) (o : Outside D)

/-- What lies outside the registers. -/
def outside : Outside D := ⟨m.bus, m.cpu.pc, m.cpu.inHalt, m.breakpoints, m.strict⟩

/-- A machine with what lies outside the registers replaced. -/
def withOutside : Machine D where
  cpu := { m.cpu with pc := o.pc, inHalt := o.inHalt }
  bus := o.bus
  breakpoints := o.breakpoints
  strict := o.strict

@[simp] theorem outside_withOutside : (m.withOutside o).outside = o := rfl

@[simp] theorem withOutside_outside : m.withOutside m.outside = m := rfl

theorem doAlu_withOutside (op : AluOp) (a b : U32) (rd : BitVec 4) :
    (m.withOutside o).doAlu op a b rd = (m.doAlu op a b rd).withOutside o := by
  cases op <;> rfl

theorem doAluRr_withOutside (op : AluOp) (hasExt3Op : Bool) :
    (m.withOutside o).doAluRr insn op hasExt3Op =
      (m.doAluRr insn op hasExt3Op).withOutside o := by
  simp only [doAluRr, apply_ite (withOutside · o), ← doAlu_withOutside]
  rfl

theorem doAluImm_withOutside (op : AluOp) (signed : Bool) :
    (m.withOutside o).doAluImm insn op signed = (m.doAluImm insn op signed).withOutside o := by
  simp only [doAluImm, ← doAlu_withOutside]
  rfl

theorem setSpecialReg_withOutside (n : BitVec 4) (v : U32) :
    (m.withOutside o).setSpecialReg n v = (m.setSpecialReg n v).withOutside o := by
  unfold setSpecialReg
  split <;> rfl

end Machine

namespace Handler

variable {D : Type} (io : IoSpace D)

/-- The handlers that work on the registers alone, in one cycle: those an instruction
of class `DC_OK` can have. -/
def isInternal : Handler → Bool
  | nop
  | addRdRs | subRdRs | cmpRdRs | ldWRdRs | andRdRs | orRdRs | xorRdRs | notRdRs
  | addRdImm6 | subRdImm6 | cmpRdSimm6 | ldWRdSimm6 | andRdSimm6 | orRdSimm6 | xorRdSimm6
  | notRdSimm6
  | addSpImm10 | subSpImm10
  | srlRdImm4 | sllRdImm4 | sraRdImm4 | slaRdImm4 | rrRdImm4 | rlRdImm4
  | srlRdRs | sllRdRs | sraRdRs | slaRdRs | rrRdRs | rlRdRs
  | scan0 | scan1 | swap | mirror
  | ldWSdRs | ldWRdSs | adc | sbc
  | mltH | mltuH => true
  | _ => false

theorem isPlain_of_isInternal {h : Handler} (hi : h.isInternal = true) : h.isPlain = true := by
  cases h <;> first | rfl | exact absurd hi (by decide)

open Machine in
/-- **An internal instruction is blind to what lies outside the registers.** -/
theorem run_withOutside {h : Handler} (hi : h.isInternal = true) (i : Insn) (m : Machine D)
    (o : Outside D) : h.run io i (m.withOutside o) = (h.run io i m).withOutside o := by
  cases h <;>
    first
      | exact absurd hi (by decide)
      | rfl
      | exact doAluRr_withOutside m i o _ _
      | exact doAluImm_withOutside m i o _ _
      | exact setSpecialReg_withOutside m.flushExt o i.rd (m.cpu.r i.rs)

theorem run_outside {h : Handler} (hi : h.isInternal = true) (i : Insn) (m : Machine D) :
    (h.run io i m).outside = m.outside := by
  have := congrArg Machine.outside (run_withOutside io hi i m m.outside)
  simpa using this

/-- **What may stand in a slot is internal.** -/
theorem isInternal_of_ok {i : Insn} (hok : delaySlotClass i = .ok) (hdef : ofInsn i ≠ undef) :
    (ofInsn i).isInternal = true := by
  unfold delaySlotClass at hok
  unfold ofInsn at hdef ⊢
  split at hok
  case h_1 hc =>
    rw [hc]
    split_ifs at hok with h0
    change (ofClass0 i).isInternal = true
    rw [ofClass0, h0.1, h0.2]
    rfl
  case h_2 hc =>
    rw [hc]
    split_ifs at hok with h2
    change (ofClass1 i).isInternal = true
    simp only [ofClass1, h2]
    split <;> rfl
  case h_3 hc =>
    rw [hc]
    change (ofClass3 i).isInternal = true
    unfold ofClass3
    split <;> rfl
  case h_4 hc =>
    rw [hc] at hdef ⊢
    change (ofClass4 i).isInternal = true
    change ofClass4 i ≠ undef at hdef
    unfold ofClass4 at hdef ⊢
    -- the division steps are the entries with `op2 = 3`
    split <;> first
      | rfl
      | exact absurd rfl hdef
      | simp_all
  case h_5 hc =>
    rw [hc]
    change (ofClass5 i).isInternal = true
    unfold ofClass5
    split at hok
    case h_1 h0 =>
      split_ifs at hok with h1
      split <;> first
        | rfl
        | omega
    case h_2 => exact absurd hok (by decide)
    case h_3 h2 =>
      split_ifs at hok with h1
      obtain h | h : i.op1 = 0 ∨ i.op1 = 1 := by omega
      · rw [h]
        rfl
      · rw [h]
        rfl
    case h_4 => exact absurd hok (by decide)
  case h_6 => exact absurd hok (by decide)

/-- The branches, the calls and the return that have a delayed form which opens a slot. -/
def isTransfer : Handler → Bool
  | jrgt | jrge | jrlt | jrle | jrugt | jruge | jrult | jrule | jreq | jrne
  | callSimm8 | jpSimm8 | callRb | ret => true
  | _ => false

/-- The calls. -/
def isCall : Handler → Bool
  | callSimm8 | callRb => true
  | _ => false

/-- The condition of a transfer. -/
def taken (h : Handler) (p : Psr) : Bool :=
  match h with
  | jrgt => !(p.n ^^ p.v) && !p.z
  | jrge => !(p.n ^^ p.v)
  | jrlt => p.n ^^ p.v
  | jrle => (p.n ^^ p.v) || p.z
  | jrugt => !p.c && !p.z
  | jruge => !p.c
  | jrult => p.c
  | jrule => p.c || p.z
  | jreq => p.z
  | jrne => !p.z
  | _ => true

/-- The note a transfer leaves for the check of its slot. -/
def caller : Handler → DelayCaller
  | callSimm8 | callRb => .callD
  | ret => .retD
  | _ => .other

end Handler

/-! ### The transfer -/

namespace Machine

variable {D : Type} (io : IoSpace D) (m : Machine D)

/-- Where a transfer goes: a register, the return address on the stack, or a
displacement from its own address. -/
def transferTarget : U32 :=
  match m.handlerAtPc with
  | .callRb => m.cpu.r m.insnAtPc.rd
  | .ret => (m.fetched.read32 io m.cpu.sp).1
  | _ => m.cpu.pc + 2 * m.cpu.extPcrel m.insnAtPc.sign8

/-- What a transfer does to the stack: a call pushes the address after its slot, a
return pops. -/
def stackEffect (h : Handler) : Machine D :=
  match h with
  | .callRb | .callSimm8 => m.push io (m.cpu.pc + 2)
  | .ret => (m.pop io).2
  | _ => m

/-- The machine with the stack effect of its transfer, at the slot instruction. -/
def afterTransfer : Machine D := m.fetched.flushExt.stackEffect io m.handlerAtPc

/-- Nothing interrupts the program here: the CPU runs, no slot is open, no trap waits, no
fault is pending, and no breakpoint is set. -/
structure Quiet : Prop where
  inHalt : m.cpu.inHalt = false
  breakpoints : ∀ a, m.breakpoints a = false
  slot : m.cpu.inDelaySlot = false
  deferred : m.cpu.deferredTrapValid = false
  busFault : m.bus.faultPending = false

/-! ### Steps at which nothing else happens -/

variable {m}

theorem checkBusFault_eq (hb : m.bus.faultPending = false) : m.checkBusFault = m := by
  have htake : m.bus.takeFault.2 = m.bus := by
    unfold Bus.takeFault
    rw [← hb]
  unfold checkBusFault
  rw [htake, show m.bus.takeFault.1 = false from hb]
  rfl

/-- Without a fault and a waiting trap, a step ends with its instruction. -/
theorem settled (hb : m.bus.faultPending = false) (hd : m.cpu.deferredTrapValid = false) :
    m.checkBusFault.fireDeferred io = m := by
  rw [checkBusFault_eq hb, fireDeferred_eq io hd]

/-- A quiet machine runs. -/
theorem Quiet.running (hq : m.Quiet) : m.running = true :=
  m.running_iff.mpr ⟨hq.inHalt, hq.breakpoints _⟩

/-- A quiet machine has fetched its instruction quietly. -/
theorem Quiet.fetched (hq : m.Quiet) : m.fetched.Quiet := by
  obtain ⟨cycles, hbus⟩ := m.bus.fetch16_withCycles m.cpu.pc
  refine ⟨hq.inHalt, hq.breakpoints, hq.slot, hq.deferred, ?_⟩
  change (m.bus.fetch16 m.cpu.pc).2.faultPending = false
  rw [hbus]
  exact hq.busFault

/-! ### The effect of a transfer -/

variable (m)

/-- The control state with the slot of a transfer open. -/
def slotCtl (target : U32) (caller : DelayCaller) : Ctl :=
  { m.ctl with inDelaySlot := true, delayTarget := target, delayCaller := caller }

theorem pcrelTarget_fetched (disp : U32) :
    m.fetched.flushExt.pcrelTarget disp = m.cpu.pc + 2 * disp :=
  congrArg (· + 2 * disp) (BitVec.add_sub_cancel m.cpu.pc 2)

/-- A branch relative to its own address, delayed. -/
theorem hJr_transfer (hd : m.insnAtPc.d = true) (hcaller : m.cpu.delayCaller = .other)
    (taken : Bool) :
    m.fetched.hJr m.insnAtPc taken =
      if taken then
        m.fetched.flushExt.withCtl
          (m.slotCtl (m.cpu.pc + 2 * m.cpu.extPcrel m.insnAtPc.sign8) .other)
      else m.fetched.flushExt := by
  cases taken with
  | false => rfl
  | true =>
    unfold hJr slotCtl
    rw [← pcrelTarget_fetched, hd, ← hcaller]
    rfl

/-- **What a delayed transfer makes of the machine**: its stack effect, and the slot
open if it is taken. -/
theorem run_transfer (ht : m.handlerAtPc.isTransfer = true) (hd : m.insnAtPc.d = true)
    (hcaller : m.cpu.delayCaller = .other) :
    m.handlerAtPc.run io m.insnAtPc m.fetched =
      if m.handlerAtPc.taken m.cpu.psr then
        (m.afterTransfer io).withCtl (m.slotCtl (m.transferTarget io) m.handlerAtPc.caller)
      else m.afterTransfer io := by
  have hjump : m.fetched.hJpSimm8 m.insnAtPc = m.fetched.hJr m.insnAtPc true := rfl
  unfold afterTransfer transferTarget
  cases h : m.handlerAtPc with
  | jrgt | jrge | jrlt | jrle | jrugt | jruge | jrult | jrule | jreq | jrne =>
    exact m.hJr_transfer hd hcaller _
  | jpSimm8 => exact hjump.trans (m.hJr_transfer hd hcaller true)
  | callRb =>
    change m.fetched.hCallRb io m.insnAtPc = _
    unfold hCallRb
    rw [hd]
    rfl
  | callSimm8 =>
    change m.fetched.hCallSimm8 io m.insnAtPc = _
    unfold hCallSimm8
    rw [hd]
    dsimp only
    rw [← pcrelTarget_fetched]
    rfl
  | ret =>
    change m.fetched.hRet io m.insnAtPc = _
    unfold hRet
    rw [hd]
    rfl
  | _ => exact absurd (h ▸ ht) (by decide)

/-- What the stack effect of a transfer leaves alone. -/
theorem Quiet.stackEffect {m : Machine D} (hq : m.Quiet) (hs : m.bus.StackWord m.cpu.sp)
    (h : Handler) :
    (m.stackEffect io h).Quiet ∧ (m.stackEffect io h).ctl = m.ctl ∧
      (m.stackEffect io h).cpu.pendingExtCount = m.cpu.pendingExtCount ∧
      (m.stackEffect io h).cpu.pc = m.cpu.pc := by
  have hpush (v : U32) : (m.push io v).Quiet ∧ (m.push io v).ctl = m.ctl ∧
      (m.push io v).cpu.pendingExtCount = m.cpu.pendingExtCount ∧
      (m.push io v).cpu.pc = m.cpu.pc := by
    obtain ⟨hmod, hio⟩ := hs.below
    obtain ⟨hreq, hfault⟩ := Bus.write32_quiet io hmod hio v
    rw [push_eq io hreq]
    exact ⟨⟨hq.inHalt, hq.breakpoints, hq.slot, hq.deferred, hfault.trans hq.busFault⟩,
      rfl, rfl, rfl⟩
  unfold Machine.stackEffect
  split
  · exact hpush _
  · exact hpush _
  · exact ⟨⟨hq.inHalt, hq.breakpoints, hq.slot, hq.deferred,
      (hs.read32_faultPending io).trans hq.busFault⟩, rfl, rfl, rfl⟩
  · exact ⟨hq, rfl, rfl, rfl⟩

/-- A call pushes the address after its slot. -/
theorem afterTransfer_call (hcall : m.handlerAtPc.isCall = true)
    (hs : m.fetched.bus.StackWord m.cpu.sp) :
    (m.afterTransfer io).cpu.sp = m.cpu.sp - 4 ∧
      (m.afterTransfer io).bus = (m.fetched.bus.write32 io (m.cpu.sp - 4) (m.cpu.pc + 4)).1 := by
  have hpc : m.cpu.pc + 2 + 2 = m.cpu.pc + 4 := BitVec.add_assoc ..
  have heffect : m.afterTransfer io = m.fetched.flushExt.push io (m.cpu.pc + 2 + 2) := by
    unfold afterTransfer stackEffect
    cases h : m.handlerAtPc with
    | callRb | callSimm8 => rfl
    | _ => exact absurd (h ▸ hcall) (by decide)
  obtain ⟨hmod, hio⟩ := hs.below
  obtain ⟨hreq, -⟩ := Bus.write32_quiet io hmod hio (m.cpu.pc + 2 + 2)
  have hpush := push_eq (m := m.fetched.flushExt) io hreq
  rw [heffect, hpush, ← hpc]
  exact ⟨rfl, rfl⟩

/-! ### The slot instruction -/

variable {m}

/-- The slot instruction, executed alone. -/
theorem Quiet.step_internal (hq : m.Quiet) (hp : m.cpu.pendingExtCount = 0)
    (hi : m.handlerAtPc.isInternal = true) :
    m.step io = m.handlerAtPc.run io m.insnAtPc m.fetched := by
  have hout := m.handlerAtPc.run_outside io hi m.insnAtPc m.fetched
  have hctl := m.handlerAtPc.run_ctl io (Handler.isPlain_of_isInternal hi) m.insnAtPc m.fetched
  rw [step_outside_slot io hq.running hq.slot (.inl hp)]
  exact settled io ((congrArg (fun o => o.bus.faultPending) hout).trans hq.fetched.busFault)
    ((congrArg Ctl.deferredTrapValid hctl).trans hq.deferred)

/-- What the slot instruction alone leaves alone. -/
theorem Quiet.step_internal_keeps (hq : m.Quiet) (hp : m.cpu.pendingExtCount = 0)
    (hi : m.handlerAtPc.isInternal = true) :
    (m.step io).ctl = m.ctl ∧ (m.step io).outside = m.fetched.outside := by
  rw [hq.step_internal io hp hi]
  exact ⟨m.handlerAtPc.run_ctl io (Handler.isPlain_of_isInternal hi) m.insnAtPc m.fetched,
    m.handlerAtPc.run_outside io hi m.insnAtPc m.fetched⟩

/-- The check of a slot instruction of class `DC_OK` can only print a warning. -/
theorem check_slot_ok (pc : U32) {insn : Insn} (hp : m.cpu.pendingExtCount = 0)
    (hok : delaySlotClass insn = .ok) : ∃ cycles, m.check pc insn true =
      .ok (m.withOutside { m.outside with bus := m.bus.withCycles cycles }) := by
  have hext (m' : Machine D) (hm' : m'.cpu.pendingExtCount = 0) : m'.checkExt pc insn = .ok m' :=
    if_neg fun h => absurd h.1 (Nat.not_lt.mpr (Nat.le_of_eq hm'))
  have hslot : m.checkSlot pc insn = .ok (m.warnSpClobber pc insn) := by
    unfold checkSlot
    rw [hok, if_neg (Nat.not_lt.mpr (Nat.le_of_eq hp))]
  unfold check
  rw [if_pos rfl, hslot]
  change ∃ cycles, (m.warnSpClobber pc insn).checkExt pc insn = _
  rw [hext _ ((congrArg CpuState.pendingExtCount (warnSpClobber_cpu m pc insn)).trans hp)]
  unfold warnSpClobber
  split_ifs
  · obtain ⟨cycles, hbus⟩ := m.bus.fetch16_withCycles pc
    refine ⟨cycles, congrArg Except.ok ?_⟩
    rw [← hbus]
    rfl
  · exact ⟨m.bus.cycles, rfl⟩

/-- **The step in a slot is the step of the instruction alone**, but for the program
counter and the cycles of a warning. -/
theorem Quiet.step_in_slot (hq : m.Quiet) (hp : m.cpu.pendingExtCount = 0)
    (hok : delaySlotClass m.insnAtPc = .ok) (hdef : m.handlerAtPc ≠ .undef) (target : U32)
    (caller : DelayCaller) : ∃ cycles,
      (m.withCtl (m.slotCtl target caller)).step io =
        ((m.step io).withOutside { (m.step io).outside with
          pc := target
          bus := (m.step io).bus.withCycles cycles }).withCtl
            { m.ctl with delayTarget := target, delayCaller := .other } := by
  have hi : m.handlerAtPc.isInternal = true := Handler.isInternal_of_ok hok hdef
  have hrun := hq.step_internal io hp hi
  have hout := m.handlerAtPc.run_outside io hi m.insnAtPc m.fetched
  have hctl := m.handlerAtPc.run_ctl io (Handler.isPlain_of_isInternal hi) m.insnAtPc m.fetched
  set c := m.slotCtl target caller
  obtain ⟨cycles, hcheck⟩ : ∃ cycles, (m.fetched.withCtl c).check m.cpu.pc m.insnAtPc true =
      .ok ((m.fetched.withCtl c).withOutside
        { (m.fetched.withCtl c).outside with
          bus := (m.fetched.withCtl c).bus.withCycles cycles }) :=
    check_slot_ok _ hp hok
  set o : Outside D := { m.fetched.outside with bus := m.fetched.bus.withCycles cycles }
  refine ⟨cycles, ?_⟩
  -- the instruction does what it does alone
  have hdone : m.handlerAtPc.run io m.insnAtPc ((m.fetched.withCtl c).withOutside o) =
      ((m.step io).withCtl c).withOutside o := by
    rw [Handler.run_withOutside io hi, Handler.run_withCtl io (Handler.isPlain_of_isInternal hi),
      hrun]
  have hstep : (m.withCtl c).step io =
      ((((m.step io).withCtl c).withOutside o).checkBusFault.completeSlot true target).fireDeferred
        io := by
    rw [← hdone]
    have hh : (m.withCtl c).cpu.inHalt = false := hq.inHalt
    have hb : (m.withCtl c).breakpoints (m.withCtl c).cpu.pc = false := hq.breakpoints _
    have hcheck' : (m.withCtl c).fetched.check (m.withCtl c).cpu.pc (m.withCtl c).insnAtPc
        (m.withCtl c).cpu.inDelaySlot = .ok ((m.fetched.withCtl c).withOutside o) := hcheck
    unfold Machine.step
    rw [hh, if_neg Bool.false_ne_true, hb, if_neg Bool.false_ne_true]
    unfold execute
    rw [hcheck']
    rfl
  have hout' : (m.step io).outside = m.fetched.outside := (congrArg _ hrun).trans hout
  have hbus : (m.step io).bus = m.fetched.bus := congrArg Outside.bus hout'
  have hslot : m.ctl.inDelaySlot = false := hq.slot
  have hdone' : (((m.step io).withCtl c).withOutside o).completeSlot true target =
      ((m.step io).withOutside { m.fetched.outside with
        pc := target
        bus := m.fetched.bus.withCycles cycles }).withCtl
          { m.ctl with inDelaySlot := false, delayTarget := target, delayCaller := .other } := by
    have hh : (((m.step io).withCtl c).withOutside o).cpu.inHalt = false := hq.inHalt
    unfold completeSlot
    rw [hh, Bool.not_false, Bool.and_true, if_pos rfl]
    rfl
  have hquiet : (((m.step io).withCtl c).withOutside o).bus.faultPending = false :=
    hq.fetched.busFault
  rw [hstep, checkBusFault_eq hquiet, hdone', hout', hbus, ← hslot]
  refine fireDeferred_eq io ?_
  exact hq.deferred

/-! ### The two steps together -/

/-- The machine `m'` is what a delayed transfer at `m` and its slot instruction should
make of it. -/
structure Transferred (m m' : Machine D) : Prop where
  r : m'.cpu.r = ((m.afterTransfer io).step io).cpu.r
  sp : m'.cpu.sp = ((m.afterTransfer io).step io).cpu.sp
  psr : m'.cpu.psr = ((m.afterTransfer io).step io).cpu.psr
  alr : m'.cpu.alr = ((m.afterTransfer io).step io).cpu.alr
  ahr : m'.cpu.ahr = ((m.afterTransfer io).step io).cpu.ahr
  /-- The bus is left as by the instruction alone, at some cycle count. -/
  memory : ∃ cycles, m'.bus = ((m.afterTransfer io).step io).bus.withCycles cycles
  pc : m'.cpu.pc = if m.handlerAtPc.taken m.cpu.psr then m.transferTarget io else m.cpu.pc + 4
  /-- A call has pushed the address after the slot. -/
  pushed : m.handlerAtPc.isCall = true →
    (m.afterTransfer io).cpu.sp = m.cpu.sp - 4 ∧
      (m.afterTransfer io).bus = (m.fetched.bus.write32 io (m.cpu.sp - 4) (m.cpu.pc + 4)).1 ∧
        (m.bus.StackWord (m.cpu.sp - 4) →
          (m'.bus.read32 io (m.cpu.sp - 4)).1 = m.cpu.pc + 4)
  inDelaySlot : m'.cpu.inDelaySlot = false
  delayCaller : m'.cpu.delayCaller = .other

theorem stackWord_fetched {addr : U32} (h : m.bus.StackWord addr) :
    m.fetched.bus.StackWord addr := by
  obtain ⟨cycles, hbus⟩ := m.bus.fetch16_withCycles m.cpu.pc
  change (m.bus.fetch16 m.cpu.pc).2.StackWord addr
  rw [hbus]
  exact h

/-- What a transfer leaves alone, before it jumps. -/
theorem Quiet.afterTransfer (hq : m.Quiet) (hs : m.bus.StackWord m.cpu.sp) :
    (m.afterTransfer io).Quiet ∧ (m.afterTransfer io).ctl = m.fetched.flushExt.ctl ∧
      (m.afterTransfer io).cpu.pendingExtCount = 0 ∧
      (m.afterTransfer io).cpu.pc = m.cpu.pc + 2 := by
  have hflush : m.fetched.flushExt.Quiet :=
    ⟨hq.fetched.inHalt, hq.fetched.breakpoints, hq.fetched.slot, hq.fetched.deferred,
      hq.fetched.busFault⟩
  exact hflush.stackEffect io (stackWord_fetched hs) m.handlerAtPc

/-- **The step of a delayed transfer** leaves its stack effect, and the slot open if the
transfer is taken. -/
theorem Quiet.step_transfer (hq : m.Quiet) (hcaller : m.cpu.delayCaller = .other)
    (hs : m.bus.StackWord m.cpu.sp)
    (hext : m.cpu.pendingExtCount = 0 ∨ extCapable m.insnAtPc = true)
    (ht : m.handlerAtPc.isTransfer = true) (hd : m.insnAtPc.d = true) :
    m.step io =
      if m.handlerAtPc.taken m.cpu.psr then
        (m.afterTransfer io).withCtl
          ((m.afterTransfer io).slotCtl (m.transferTarget io) m.handlerAtPc.caller)
      else m.afterTransfer io := by
  obtain ⟨hqa, hctl, -, -⟩ := hq.afterTransfer io hs
  have hslot (target : U32) (caller : DelayCaller) :
      (m.afterTransfer io).slotCtl target caller = m.slotCtl target caller := by
    unfold slotCtl
    rw [hctl]
    rfl
  rw [step_outside_slot io hq.running hq.slot hext, m.run_transfer io ht hd hcaller, hslot]
  split_ifs
  · exact settled io hqa.busFault hq.deferred
  · exact settled io hqa.busFault hqa.deferred

/-- **The step of the slot instruction**, after a transfer, is its step alone, but for `pc`
and the cycles. -/
theorem Quiet.steps_transfer (hq : m.Quiet) (hcaller : m.cpu.delayCaller = .other)
    (hs : m.bus.StackWord m.cpu.sp)
    (hext : m.cpu.pendingExtCount = 0 ∨ extCapable m.insnAtPc = true)
    (ht : m.handlerAtPc.isTransfer = true) (hd : m.insnAtPc.d = true)
    (hok : delaySlotClass (m.step io).insnAtPc = .ok) (hdef : (m.step io).handlerAtPc ≠ .undef) :
    ∃ cycles target, (m.step io).step io =
      (((m.afterTransfer io).step io).withOutside { ((m.afterTransfer io).step io).outside with
        pc := if m.handlerAtPc.taken m.cpu.psr then m.transferTarget io else m.cpu.pc + 4
        bus := ((m.afterTransfer io).step io).bus.withCycles cycles }).withCtl
          { m.ctl with delayTarget := target, delayCaller := .other } := by
  obtain ⟨hqa, hctl, hp, hpc⟩ := hq.afterTransfer io hs
  rw [hq.step_transfer io hcaller hs hext ht hd] at hok hdef ⊢
  split_ifs at hok hdef ⊢ with htaken
  · obtain ⟨cycles, h⟩ := hqa.step_in_slot io hp hok hdef (m.transferTarget io)
      m.handlerAtPc.caller
    exact ⟨cycles, m.transferTarget io, h.trans (by rw [hctl]; rfl)⟩
  · obtain ⟨hctl', hout⟩ := hqa.step_internal_keeps io hp (Handler.isInternal_of_ok hok hdef)
    have hpc4 : ((m.afterTransfer io).step io).cpu.pc = m.cpu.pc + 4 :=
      calc ((m.afterTransfer io).step io).cpu.pc
          = (m.afterTransfer io).cpu.pc + 2 := congrArg Outside.pc hout
        _ = m.cpu.pc + 4 := by rw [hpc, BitVec.add_assoc]; rfl
    have hctl'' : ((m.afterTransfer io).step io).ctl =
        { m.ctl with delayTarget := m.cpu.delayTarget, delayCaller := .other } := by
      rw [hctl', hctl, ← hcaller]
      rfl
    refine ⟨((m.afterTransfer io).step io).bus.cycles, m.cpu.delayTarget, ?_⟩
    rw [← hctl'', ← hpc4]
    rfl

/-- **The return address** that a call has pushed is there after an internal instruction. -/
theorem Quiet.pushed_word (hq : m.Quiet) (hs : m.bus.StackWord m.cpu.sp)
    (hcall : m.handlerAtPc.isCall = true) (hw : m.bus.StackWord (m.cpu.sp - 4))
    (hi : (m.afterTransfer io).handlerAtPc.isInternal = true) (cycles : U32) :
    ((((m.afterTransfer io).step io).bus.withCycles cycles).read32 io (m.cpu.sp - 4)).1 =
      m.cpu.pc + 4 := by
  obtain ⟨hqa, -, hp, -⟩ := hq.afterTransfer io hs
  obtain ⟨-, hcallBus⟩ := m.afterTransfer_call io hcall (stackWord_fetched hs)
  obtain ⟨-, hout⟩ := hqa.step_internal_keeps io hp hi
  obtain ⟨cycles', hfetch⟩ :=
    (m.afterTransfer io).bus.fetch16_withCycles (m.afterTransfer io).cpu.pc
  have hbus : ((m.afterTransfer io).step io).bus = (m.afterTransfer io).bus.withCycles cycles' :=
    (congrArg Outside.bus hout).trans hfetch
  have hw' : m.fetched.bus.StackWord (m.cpu.sp - 4) := stackWord_fetched hw
  have hwx : (((m.afterTransfer io).step io).bus.withCycles cycles).StackWord (m.cpu.sp - 4) := by
    rw [hbus, hcallBus]
    exact (hw'.write32 io _).mpr hw'
  rw [hwx.read32_eq io, hbus, hcallBus]
  change Words.le32 (m.fetched.bus.write32 io (m.cpu.sp - 4) (m.cpu.pc + 4)).1.flatByte _ = _
  rw [hw'.flatByte_write32 io]
  exact Words.le32_putLe32 ..

/-- **A delayed transfer and its slot instruction**, from the transfer on. -/
theorem Quiet.transferred (hq : m.Quiet) (hcaller : m.cpu.delayCaller = .other)
    (hs : m.bus.StackWord m.cpu.sp)
    (hext : m.cpu.pendingExtCount = 0 ∨ extCapable m.insnAtPc = true)
    (ht : m.handlerAtPc.isTransfer = true) (hd : m.insnAtPc.d = true)
    (hok : delaySlotClass (m.step io).insnAtPc = .ok) (hdef : (m.step io).handlerAtPc ≠ .undef) :
    m.Transferred io ((m.step io).step io) := by
  obtain ⟨cycles, target, hx⟩ := hq.steps_transfer io hcaller hs hext ht hd hok hdef
  have hi : (m.afterTransfer io).handlerAtPc.isInternal = true := by
    rw [hq.step_transfer io hcaller hs hext ht hd] at hok hdef
    split_ifs at hok hdef <;> exact Handler.isInternal_of_ok hok hdef
  rw [hx]
  exact
    { r := rfl
      sp := rfl
      psr := rfl
      alr := rfl
      ahr := rfl
      memory := ⟨cycles, rfl⟩
      pc := rfl
      pushed := fun hcall =>
        have h := m.afterTransfer_call io hcall (stackWord_fetched hs)
        ⟨h.1, h.2, fun hw => hq.pushed_word io hs hcall hw hi cycles⟩
      inDelaySlot := hq.slot
      delayCaller := rfl }

/-! ### The note of the caller -/

/-- The note a call or return leaves stands as long as its slot is open. -/
def CallerNoted (m : Machine D) : Prop := m.cpu.delayCaller ≠ .other → m.cpu.inDelaySlot = true

theorem CallerNoted.of_eq {m' : Machine D} (h : m.CallerNoted)
    (hcaller : m'.cpu.delayCaller = m.cpu.delayCaller)
    (hslot : m'.cpu.inDelaySlot = m.cpu.inDelaySlot) : m'.CallerNoted := by
  intro hne
  rw [hcaller] at hne
  exact hslot.trans (h hne)

theorem CallerNoted.doTrap (h : m.CallerNoted) (no level : ℤ) :
    (m.doTrap io no level).CallerNoted := by
  rcases m.doTrap_cases io no level with ⟨-, heq⟩ | ⟨-, -, heq⟩ | ⟨-, -, heq⟩
  · rwa [heq]
  · rw [heq]
    exact h.of_eq rfl rfl
  · rw [heq]
    exact h.of_eq rfl rfl

theorem CallerNoted.run (h : m.CallerNoted) (hd : Handler) (i : Insn) :
    (hd.run io i m).CallerNoted := by
  rcases hd.ctlStep io i m with
    ⟨-, hc⟩ | ⟨-, _, _, hc⟩ | ⟨-, mode, heq⟩ | ⟨-, -, hc, -, -⟩ | ⟨-, hc⟩ | ⟨-, no, -, heq⟩
  · exact h.of_eq (congrArg Ctl.delayCaller hc :) (congrArg Ctl.inDelaySlot hc :)
  · exact fun _ => congrArg Ctl.inDelaySlot hc
  · rw [heq]
    exact h.of_eq rfl rfl
  · exact h.of_eq (congrArg Ctl.delayCaller hc :) (congrArg Ctl.inDelaySlot hc :)
  · exact h.of_eq (congrArg Ctl.delayCaller hc :) (congrArg Ctl.inDelaySlot hc :)
  · rw [heq]
    exact CallerNoted.doTrap io (m := m.flushExt) h no 0

theorem CallerNoted.step (h : m.CallerNoted) : (m.step io).CallerNoted := by
  rcases m.stepCase io with ⟨-, heq⟩ | ⟨-, -, heq⟩ | ⟨-, hcpu⟩ | ⟨-, m₁, hcpu, -, heq⟩
  · rwa [heq]
  · rw [heq]
    exact h
  · exact h.of_eq (congrArg CpuState.delayCaller hcpu :) (congrArg CpuState.inDelaySlot hcpu :)
  · rw [heq]
    have h₁ : m₁.CallerNoted :=
      h.of_eq (congrArg CpuState.delayCaller hcpu :) (congrArg CpuState.inDelaySlot hcpu :)
    have hrun := h₁.run io (Handler.ofInsn m.insnAtPc) m.insnAtPc
    set m₂ := (Handler.ofInsn m.insnAtPc).run io m.insnAtPc m₁
    have hbus : m₂.checkBusFault.CallerNoted := by
      rcases m₂.checkBusFault_cpu with hc | hc
      · exact hrun.of_eq (congrArg CpuState.delayCaller hc :) (congrArg CpuState.inDelaySlot hc :)
      · exact hrun.of_eq (congrArg CpuState.delayCaller hc :) (congrArg CpuState.inDelaySlot hc :)
    have hretire : (m₁.retire io m.insnAtPc m.cpu.inDelaySlot m.cpu.delayTarget).CallerNoted := by
      unfold retire completeSlot
      split_ifs
      · exact fun hne => absurd rfl hne
      · exact hbus
    unfold fireDeferred
    split_ifs
    · exact CallerNoted.doTrap io (m := Machine.takeDeferred _) hretire _ _
    · exact hretire

/-- **Outside a slot the note is clear**, in every run from reset. -/
theorem callerNoted_of_reset (m : Machine D) (as : List CpuAction) :
    (ActionRun.exec (CpuAction.act io) (m.reset io) as).CallerNoted := by
  refine ActionRun.exec_preserves (fun s a hs => ?_) (fun hne => absurd rfl hne) as
  cases a with
  | step => exact hs.step io
  | assertTrap no level => exact hs.doTrap io no level

/-! ### The prefixes of the transfer -/

/-- The machine stands at a place where a delayed transfer, or its prefixes, may begin. -/
structure BeforeTransfer (m : Machine D) : Prop extends m.Quiet where
  noted : m.CallerNoted
  stack : m.bus.StackWord m.cpu.sp

theorem BeforeTransfer.caller {m : Machine D} (h : m.BeforeTransfer) :
    m.cpu.delayCaller = .other := by
  by_contra hne
  exact absurd (h.noted hne) (h.slot ▸ Bool.false_ne_true)

/-- A prefix leaves the machine where the transfer may begin. -/
theorem BeforeTransfer.step_ext (h : m.BeforeTransfer) (hext : m.handlerAtPc = .ext)
    (hcount : m.cpu.pendingExtCount < 2) :
    (m.step io).BeforeTransfer ∧
      (m.step io).cpu.pendingExtCount = m.cpu.pendingExtCount + 1 := by
  have hstack : m.fetched.bus.StackWord m.cpu.sp := stackWord_fetched h.stack
  have hcount' : m.fetched.cpu.pendingExtCount < 2 := hcount
  have hquiet := h.toQuiet.fetched
  have hstep : m.step io = m.fetched.hExt m.insnAtPc := by
    rw [step_outside_slot io h.running h.slot (.inr (Handler.extCapable_of_ext hext)), hext]
    change (m.fetched.hExt m.insnAtPc).checkBusFault.fireDeferred io = _
    refine settled io ?_ ?_
    · unfold hExt
      rw [if_neg (Nat.not_le.mpr hcount')]
      split_ifs <;> exact hquiet.busFault
    · unfold hExt
      rw [if_neg (Nat.not_le.mpr hcount')]
      split_ifs <;> exact hquiet.deferred
  rw [hstep]
  unfold hExt
  rw [if_neg (Nat.not_le.mpr hcount')]
  split_ifs with h0
  · have h0' : m.cpu.pendingExtCount = 0 := h0
    refine ⟨⟨⟨hquiet.inHalt, hquiet.breakpoints, hquiet.slot, hquiet.deferred, hquiet.busFault⟩,
      h.noted, hstack⟩, ?_⟩
    rw [h0']
    rfl
  · have h1 : m.cpu.pendingExtCount = 1 := by
      have h0' : ¬m.cpu.pendingExtCount = 0 := h0
      omega
    refine ⟨⟨⟨hquiet.inHalt, hquiet.breakpoints, hquiet.slot, hquiet.deferred, hquiet.busFault⟩,
      h.noted, hstack⟩, ?_⟩
    rw [h1]
    rfl

/-- So do up to two of them. -/
theorem BeforeTransfer.steps_ext (h : m.BeforeTransfer) (hp : m.cpu.pendingExtCount = 0) {k : ℕ}
    (hk : k ≤ 2) (hext : ∀ j < k, ((Machine.step io)^[j] m).handlerAtPc = .ext) :
    ((Machine.step io)^[k] m).BeforeTransfer ∧
      ((Machine.step io)^[k] m).cpu.pendingExtCount = k := by
  induction k with
  | zero => exact ⟨h, hp⟩
  | succ k ih =>
    obtain ⟨hb, hcount⟩ := ih (by omega) fun j hj => hext j (by omega)
    rw [Function.iterate_succ_apply']
    obtain ⟨hb', hcount'⟩ := hb.step_ext io (hext k (by omega)) (by omega)
    exact ⟨hb', hcount'.trans (by rw [hcount])⟩

/-- **Delayed branches execute exactly one slot**: a delayed transfer under up to two
prefixes, followed by any instruction of class `DC_OK`. -/
theorem delayed_transfer (m : Machine D) (h : m.BeforeTransfer) (hp : m.cpu.pendingExtCount = 0)
    (k : ℕ) (hk : k ≤ 2) (hext : ∀ j < k, ((step io)^[j] m).handlerAtPc = .ext)
    (ht : ((step io)^[k] m).handlerAtPc.isTransfer = true)
    (hd : ((step io)^[k] m).insnAtPc.d = true)
    (hlegal : k = 0 ∨ extCapable ((step io)^[k] m).insnAtPc = true)
    (hok : delaySlotClass ((step io)^[k + 1] m).insnAtPc = .ok)
    (hdef : ((step io)^[k + 1] m).handlerAtPc ≠ .undef) :
    ((step io)^[k] m).Transferred io ((step io)^[k + 2] m) := by
  obtain ⟨hb, hcount⟩ := h.steps_ext io hp hk hext
  rw [Function.iterate_succ_apply'] at hok hdef
  rw [Function.iterate_succ_apply', Function.iterate_succ_apply']
  exact hb.toQuiet.transferred io hb.caller hb.stack (hlegal.imp_left hcount.trans) ht hd hok hdef

/-- A boot ROM that sets the stack pointer to an address in SRAM and goes on with
`ext 1; call.d 4` and `ld.w %r0, 5` in its slot. -/
def callRom : Machine Unit :=
  ofRom [0x0004, 0x00C0, 0xC002, 0xC080, 0x6C00, 0xA001, 0xC001, 0x1D04, 0x6C50]

/-- The machine of `callRom` with the stack pointer set. -/
def callRomReady : Machine Unit :=
  ActionRun.exec (CpuAction.act (.empty Unit)) (callRom.reset (.empty Unit)) (.replicate 4 .step)

theorem delayed_transfer_callRom :
    ((step (IoSpace.empty Unit))^[1] callRomReady).Transferred (IoSpace.empty Unit)
      ((step (IoSpace.empty Unit))^[3] callRomReady) :=
  delayed_transfer (IoSpace.empty Unit) callRomReady
    ⟨⟨rfl, fun _ => rfl, rfl, rfl, rfl⟩, callerNoted_of_reset (.empty Unit) callRom _,
      by decide +kernel, .inr ⟨by decide +kernel, by decide +kernel⟩⟩ rfl 1 (by decide)
    (fun j hj => by rw [Nat.lt_one_iff.mp hj]; rfl) rfl rfl (.inr rfl) rfl (by decide +kernel)

end Machine
