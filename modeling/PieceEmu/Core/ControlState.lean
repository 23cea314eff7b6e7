import PieceEmu.Core.Step

/-!
# What the handlers do to the control state

The *control state* of the CPU is what decides where the program goes next apart
from `pc`: the pending prefixes, the delay slot, the deferred trap, the sleep mode
and the fault flag. Nearly every handler is blind to it: `Machine.withCtl` replaces
all of it but the prefix count, and a *plain* handler neither reads nor writes what
it replaces (`Handler.run_withCtl`) and drops the prefixes
(`Handler.run_pendingExtCount`).

The others move the control state in one of five ways. `CtlStep` lists all six, and
`Handler.ctlStep` is the inversion lemma of dispatch: later proofs about the
control state use it and unfold no handler.
-/

/-- The control state, but for the count of pending prefixes and the halt flag. -/
@[ext] structure Ctl where
  deferredTrapValid : Bool
  deferredTrapNo : ℤ
  deferredTrapLevel : ℤ
  haltMode : HaltMode
  fault : Bool
  inDelaySlot : Bool
  delayTarget : U32
  delayCaller : DelayCaller

namespace Machine

variable {D : Type} (io : IoSpace D) (m : Machine D) (insn : Insn) (c : Ctl)

/-- The control state of a machine. -/
def ctl : Ctl where
  deferredTrapValid := m.cpu.deferredTrapValid
  deferredTrapNo := m.cpu.deferredTrapNo
  deferredTrapLevel := m.cpu.deferredTrapLevel
  haltMode := m.cpu.haltMode
  fault := m.cpu.fault
  inDelaySlot := m.cpu.inDelaySlot
  delayTarget := m.cpu.delayTarget
  delayCaller := m.cpu.delayCaller

/-- A machine with its control state replaced. -/
def withCtl : Machine D :=
  m.mapCpu fun s => { s with
    deferredTrapValid := c.deferredTrapValid
    deferredTrapNo := c.deferredTrapNo
    deferredTrapLevel := c.deferredTrapLevel
    haltMode := c.haltMode
    fault := c.fault
    inDelaySlot := c.inDelaySlot
    delayTarget := c.delayTarget
    delayCaller := c.delayCaller }

@[simp] theorem ctl_withCtl : (m.withCtl c).ctl = c := rfl

@[simp] theorem withCtl_ctl : m.withCtl m.ctl = m := rfl

@[simp] theorem withCtl_withCtl (c' : Ctl) : (m.withCtl c).withCtl c' = m.withCtl c' := rfl

/-! ### The parts of the handlers -/

theorem pushFrom_withCtl (n : ℕ) (m : Machine D) :
    pushFrom io n (m.withCtl c) = (pushFrom io n m).withCtl c := by
  induction n generalizing m with
  | zero => rfl
  | succ n ih => exact ih (m.push io (m.cpu.r (BitVec.ofNat 4 (n + 1))))

theorem popFrom_withCtl (n i : ℕ) (m : Machine D) :
    popFrom io n i (m.withCtl c) = (popFrom io n i m).withCtl c := by
  induction n generalizing m i with
  | zero => rfl
  | succ n ih =>
    let m' := (m.read32 io m.cpu.sp).2.setR (BitVec.ofNat 4 i) (m.read32 io m.cpu.sp).1
    exact ih (i + 1) (m'.setSp (m'.cpu.sp + 4))

theorem doAlu_withCtl (op : AluOp) (a b : U32) (rd : BitVec 4) :
    (m.withCtl c).doAlu op a b rd = (m.doAlu op a b rd).withCtl c := by
  cases op <;> rfl

theorem doAluRr_withCtl (op : AluOp) (hasExt3Op : Bool) :
    (m.withCtl c).doAluRr insn op hasExt3Op = (m.doAluRr insn op hasExt3Op).withCtl c := by
  simp only [doAluRr, apply_ite (withCtl · c), ← doAlu_withCtl]
  rfl

theorem doAluImm_withCtl (op : AluOp) (signed : Bool) :
    (m.withCtl c).doAluImm insn op signed = (m.doAluImm insn op signed).withCtl c := by
  simp only [doAluImm, ← doAlu_withCtl]
  rfl

theorem hDiv1_withCtl : (m.withCtl c).hDiv1 insn = (m.hDiv1 insn).withCtl c := by
  simp only [hDiv1, apply_ite (withCtl · c)]
  rfl

theorem hDiv2s_withCtl : (m.withCtl c).hDiv2s insn = (m.hDiv2s insn).withCtl c := by
  simp only [hDiv2s, apply_ite (withCtl · c)]
  rfl

theorem hDiv3s_withCtl : (m.withCtl c).hDiv3s = m.hDiv3s.withCtl c := by
  simp only [hDiv3s, apply_ite (withCtl · c)]
  rfl

theorem setSpecialReg_withCtl (n : BitVec 4) (v : U32) :
    (m.withCtl c).setSpecialReg n v = (m.setSpecialReg n v).withCtl c := by
  unfold setSpecialReg
  split <;> rfl

theorem macLoop_withCtl (rsN : BitVec 4) (k : ℕ) (uacc : U64) (m : Machine D) :
    macLoop io rsN k uacc (m.withCtl c) =
      ((macLoop io rsN k uacc m).1, (macLoop io rsN k uacc m).2.withCtl c) := by
  induction k generalizing uacc m with
  | zero => rfl
  | succ k ih => exact ih (m.macStep io rsN uacc).1 (m.macStep io rsN uacc).2

theorem macSlow_withCtl (rsN : BitVec 4) :
    (m.withCtl c).macSlow io rsN = (m.macSlow io rsN).withCtl c := by
  have h := macLoop_withCtl io c rsN (m.cpu.r rsN).toNat m.acc m
  exact congrArg (fun p : U64 × Machine D => p.2.setAcc p.1) h

theorem hMac_withCtl : (m.withCtl c).hMac io insn = (m.hMac io insn).withCtl c := by
  simp only [hMac, apply_ite (withCtl · c), ← macSlow_withCtl]
  rfl

/-! ### The prefix count under the parts of the handlers -/

theorem pushFrom_pendingExtCount (n : ℕ) (m : Machine D) :
    (pushFrom io n m).cpu.pendingExtCount = m.cpu.pendingExtCount := by
  induction n generalizing m with
  | zero => rfl
  | succ n ih => exact ih (m.push io (m.cpu.r (BitVec.ofNat 4 (n + 1))))

theorem popFrom_pendingExtCount (n i : ℕ) (m : Machine D) :
    (popFrom io n i m).cpu.pendingExtCount = m.cpu.pendingExtCount := by
  induction n generalizing m i with
  | zero => rfl
  | succ n ih =>
    let m' := (m.read32 io m.cpu.sp).2.setR (BitVec.ofNat 4 i) (m.read32 io m.cpu.sp).1
    exact ih (i + 1) (m'.setSp (m'.cpu.sp + 4))

theorem doAlu_pendingExtCount (op : AluOp) (a b : U32) (rd : BitVec 4) :
    (m.doAlu op a b rd).cpu.pendingExtCount = m.cpu.pendingExtCount := by
  cases op <;> rfl

theorem doAluRr_pendingExtCount (op : AluOp) (hasExt3Op : Bool) :
    (m.doAluRr insn op hasExt3Op).cpu.pendingExtCount = 0 := by
  unfold doAluRr
  split <;> exact doAlu_pendingExtCount ..

theorem hDiv1_pendingExtCount : (m.hDiv1 insn).cpu.pendingExtCount = 0 := by
  simp only [hDiv1, apply_ite Machine.cpu, apply_ite CpuState.pendingExtCount]
  exact ite_self _

theorem hDiv2s_pendingExtCount : (m.hDiv2s insn).cpu.pendingExtCount = 0 := by
  unfold hDiv2s
  dsimp only
  split_ifs <;> rfl

theorem hDiv3s_pendingExtCount : m.hDiv3s.cpu.pendingExtCount = 0 := by
  unfold hDiv3s
  dsimp only
  split_ifs <;> rfl

theorem setSpecialReg_pendingExtCount (n : BitVec 4) (v : U32) :
    (m.setSpecialReg n v).cpu.pendingExtCount = m.cpu.pendingExtCount := by
  unfold setSpecialReg
  split <;> rfl

theorem macLoop_pendingExtCount (rsN : BitVec 4) (k : ℕ) (uacc : U64) (m : Machine D) :
    (macLoop io rsN k uacc m).2.cpu.pendingExtCount = m.cpu.pendingExtCount := by
  induction k generalizing uacc m with
  | zero => rfl
  | succ k ih => exact ih (m.macStep io rsN uacc).1 (m.macStep io rsN uacc).2

theorem hMac_pendingExtCount : (m.hMac io insn).cpu.pendingExtCount = 0 := by
  unfold hMac
  dsimp only
  split_ifs
  · rfl
  · rfl
  · rfl
  · exact macLoop_pendingExtCount ..

end Machine

/-! ### Plain handlers -/

namespace Handler

variable {D : Type} (io : IoSpace D)

/-- The handlers that do nothing to the control state but drop the prefixes. -/
def isPlain : Handler → Bool
  | slp | halt | brk | retd | int | callRb | ret | jpRb | jrgt | jrge | jrlt | jrle | jrugt
  | jruge | jrult | jrule | jreq | jrne | callSimm8 | jpSimm8 | div0s | div0u | ext
  | undef => false
  | _ => true

open Machine in
/-- **A plain handler is blind to the control state.** -/
theorem run_withCtl {h : Handler} (hp : h.isPlain = true) (i : Insn) (m : Machine D) (c : Ctl) :
    h.run io i (m.withCtl c) = (h.run io i m).withCtl c := by
  cases h <;>
    first
      | exact absurd hp (by decide)
      | rfl
      | exact doAluRr_withCtl m i c _ _
      | exact doAluImm_withCtl m i c _ _
      | exact pushFrom_withCtl io c i.rd.toNat m.flushExt
      | exact popFrom_withCtl io c (i.rd.toNat + 1) 0 m.flushExt
      | exact hDiv1_withCtl m i c
      | exact hDiv2s_withCtl m i c
      | exact hDiv3s_withCtl m c
      | exact setSpecialReg_withCtl m.flushExt c i.rd (m.cpu.r i.rs)
      | exact hMac_withCtl io m i c

theorem run_ctl {h : Handler} (hp : h.isPlain = true) (i : Insn) (m : Machine D) :
    (h.run io i m).ctl = m.ctl := by
  have := congrArg Machine.ctl (run_withCtl io hp i m m.ctl)
  simpa using this

open Machine in
/-- A plain handler drops the prefixes. -/
theorem run_pendingExtCount {h : Handler} (hp : h.isPlain = true) (i : Insn) (m : Machine D) :
    (h.run io i m).cpu.pendingExtCount = 0 := by
  cases h <;>
    first
      | exact absurd hp (by decide)
      | rfl
      | exact doAluRr_pendingExtCount m i _ _
      | exact doAlu_pendingExtCount m.flushExt _ _ _ _
      | exact pushFrom_pendingExtCount io i.rd.toNat m.flushExt
      | exact popFrom_pendingExtCount io (i.rd.toNat + 1) 0 m.flushExt
      | exact hDiv1_pendingExtCount m i
      | exact hDiv2s_pendingExtCount m i
      | exact hDiv3s_pendingExtCount m
      | exact setSpecialReg_pendingExtCount m.flushExt i.rd (m.cpu.r i.rs)
      | exact hMac_pendingExtCount io m i

end Handler

/-! ### Prefixes -/

namespace Handler

/-- A prefix is an instruction of class 6. -/
theorem cls_of_ext {i : Insn} (h : ofInsn i = ext) : i.cls = 6 := by
  unfold ofInsn at h
  split at h
  case h_7 hc => exact hc
  case h_1 =>
    unfold ofClass0 at h
    split at h <;> first | (split at h <;> cases h) | cases h
  case h_2 =>
    unfold ofClass1 at h
    split at h <;> first | (split at h <;> cases h) | cases h
  case h_3 =>
    unfold ofClass2 at h
    split at h <;> cases h
  case h_4 =>
    unfold ofClass3 at h
    split at h <;> cases h
  case h_5 =>
    unfold ofClass4 at h
    split at h <;> cases h
  case h_6 =>
    unfold ofClass5 at h
    split at h <;> first | (split at h <;> cases h) | cases h
  case h_8 => exact nomatch h

/-- A prefix may follow a prefix. -/
theorem extCapable_of_ext {i : Insn} (h : ofInsn i = ext) : extCapable i = true := by
  unfold extCapable
  rw [cls_of_ext h]
  rfl

/-- A prefix may not stand in a slot. -/
theorem delaySlotClass_of_ext {i : Insn} (h : ofInsn i = ext) : delaySlotClass i = .hard := by
  unfold delaySlotClass
  rw [cls_of_ext h]
  rfl

end Handler

/-! ### What dispatch does to the control state -/

/-- The two instructions that put the CPU to sleep. -/
def Handler.sleeps : Handler → Bool
  | .slp | .halt => true
  | _ => false

/-- The handler asserts a trap of its own: a software trap, or the division of a
zero divisor. -/
def Handler.raisesTrap {D : Type} (h : Handler) (i : Insn) (m : Machine D) : Bool :=
  match h with
  | .brk | .int => true
  | .div0s | .div0u => m.cpu.r i.rs = 0
  | _ => false

/-- **The ways an instruction moves the control state.** -/
inductive CtlStep {D : Type} (io : IoSpace D) (h : Handler) (i : Insn) (m m' : Machine D) : Prop
  /-- The prefixes are dropped, nothing else happens. -/
  | plain (pending : m'.cpu.pendingExtCount = 0) (ctl : m'.ctl = m.ctl)
  /-- A delay slot is opened. -/
  | branch (pending : m'.cpu.pendingExtCount = 0) (target : U32) (caller : DelayCaller)
      (ctl : m'.ctl = { m.ctl with
        inDelaySlot := true, delayTarget := target, delayCaller := caller })
  /-- The CPU falls asleep. -/
  | sleep (sleeps : h.sleeps = true) (mode : HaltMode) (eq : m' = m.sleep mode)
  /-- A prefix is added. -/
  | extend (ext : h = .ext) (pending : m'.cpu.pendingExtCount ≠ 0) (ctl : m'.ctl = m.ctl)
      (pc : m'.cpu.pc = m.cpu.pc) (inHalt : m'.cpu.inHalt = m.cpu.inHalt)
  /-- The CPU faults. -/
  | fault (inHalt : m'.cpu.inHalt = true) (ctl : m'.ctl = { m.ctl with fault := true })
  /-- A trap is asserted, with the prefixes dropped. -/
  | trap (raises : h.raisesTrap i m = true) (no : ℤ) (lt : no < 16)
      (eq : m' = m.flushExt.doTrap io no 0)

namespace Machine

variable {D : Type} (io : IoSpace D) (m : Machine D) (insn : Insn)

theorem doC0Jump_ctlStep {h : Handler} {i : Insn} {m m' : Machine D} (caller : DelayCaller)
    (target : U32) (delayed : Bool) (pending : m'.cpu.pendingExtCount = 0)
    (ctl : m'.ctl = if delayed then { m.ctl with delayCaller := caller } else m.ctl) :
    CtlStep io h i m (m'.doC0Jump target delayed) := by
  cases delayed with
  | false => exact .plain pending ctl
  | true =>
    refine .branch pending target caller ?_
    have hctl : m'.ctl = { m.ctl with delayCaller := caller } := ctl
    change { m'.ctl with inDelaySlot := true, delayTarget := target } = _
    rw [hctl]

theorem hJr_ctlStep {h : Handler} (taken : Bool) : CtlStep io h insn m (m.hJr insn taken) := by
  cases taken with
  | false => exact .plain rfl rfl
  | true =>
    refine doC0Jump_ctlStep io m.ctl.delayCaller _ insn.d rfl ?_
    exact (ite_self _).symm

theorem hJpRb_ctlStep {h : Handler} : CtlStep io h insn m (m.hJpRb insn) := by
  unfold hJpRb
  dsimp only
  split_ifs
  · exact .fault rfl rfl
  · exact .plain rfl rfl

theorem hExt_ctlStep : CtlStep io .ext insn m (m.hExt insn) := by
  unfold hExt
  split_ifs with h2 h0
  · cases hs : m.strict with
    | false =>
      rw [diagWarnOrFault, hs]
      exact .extend rfl (Nat.ne_of_gt (Nat.lt_of_lt_of_le Nat.two_pos h2)) rfl rfl rfl
    | true =>
      rw [diagWarnOrFault, hs]
      exact .fault rfl rfl
  · exact .extend rfl Nat.one_ne_zero rfl rfl rfl
  · exact .extend rfl (Nat.succ_ne_zero 1) rfl rfl rfl

theorem hUndef_ctlStep {h : Handler} : CtlStep io h insn m m.hUndef := by
  unfold hUndef
  dsimp only
  split_ifs <;> exact .fault rfl rfl

theorem hDiv0s_ctlStep : CtlStep io .div0s insn m (m.hDiv0s io insn) := by
  by_cases h0 : m.cpu.r insn.rs = 0
  · refine .trap (decide_eq_true h0) 4 (by decide) ?_
    exact if_pos h0
  · have h : m.hDiv0s io insn = _ := if_neg h0
    rw [h]
    exact .plain rfl rfl

theorem hDiv0u_ctlStep : CtlStep io .div0u insn m (m.hDiv0u io insn) := by
  by_cases h0 : m.cpu.r insn.rs = 0
  · refine .trap (decide_eq_true h0) 4 (by decide) ?_
    exact if_pos h0
  · have h : m.hDiv0u io insn = _ := if_neg h0
    rw [h]
    exact .plain rfl rfl

end Machine

open Machine in
/-- **The inversion lemma of dispatch**: an instruction moves the control state in
one of the six ways of `CtlStep`. -/
theorem Handler.ctlStep {D : Type} (io : IoSpace D) (h : Handler) (i : Insn) (m : Machine D) :
    CtlStep io h i m (h.run io i m) := by
  by_cases hp : h.isPlain = true
  · exact .plain (run_pendingExtCount io hp i m) (run_ctl io hp i m)
  cases h with
  | slp => exact .sleep rfl .slp rfl
  | halt => exact .sleep rfl .hlt rfl
  | brk => exact .trap rfl 0 (by decide) rfl
  | int =>
    refine .trap rfl (12 + i.imm2) ?_ rfl
    have := (i.raw.extractLsb' 0 2).isLt
    simp only [Insn.imm2, Insn.field]
    omega
  | retd => exact .branch rfl _ m.ctl.delayCaller rfl
  | reti => exact .plain rfl rfl
  | callRb | callSimm8 =>
    refine doC0Jump_ctlStep io .callD _ i.d ?_ ?_ <;> cases i.d <;> rfl
  | ret => refine doC0Jump_ctlStep io .retD _ i.d ?_ ?_ <;> cases i.d <;> rfl
  | jpRb => exact hJpRb_ctlStep io m i
  | jpSimm8 =>
    refine doC0Jump_ctlStep io m.ctl.delayCaller _ i.d rfl ?_
    exact (ite_self _).symm
  | jrgt | jrge | jrlt | jrle | jrugt | jruge | jrult | jrule | jreq | jrne =>
    exact hJr_ctlStep io m i _
  | div0s => exact hDiv0s_ctlStep io m i
  | div0u => exact hDiv0u_ctlStep io m i
  | ext => exact hExt_ctlStep io m i
  | undef => exact hUndef_ctlStep io m i
  | _ => exact absurd rfl hp
