import PieceEmu.Core.BusFacts
import PieceEmu.Core.ControlState

/-!
# The stages of a step

What each stage of `Machine.step` can do to the CPU, said once:

* a check before dispatch either stops the step with a fault or leaves the CPU as
  it was (`Machine.check_error`, `Machine.check_ok`);
* `Machine.StepCase` lists the four ways a step can go, and `Machine.stepCase` is
  the inversion lemma;
* a trap is dropped, deferred or entered (`Machine.doTrap_cases`).
-/

namespace Machine

variable {D : Type} (io : IoSpace D) (m : Machine D)

/-! ### The checks -/

/-- What listing an instruction does: it charges the cycles of its fetch. -/
theorem disasm_eq (addr : U32) :
    m.disasm addr = { m with bus := m.bus.charge (m.bus.fetchCycles addr) } :=
  congrArg (fun b : Bus D => { m with bus := b }) (m.bus.fetch16_snd addr)

@[simp] theorem disasm_cpu (addr : U32) : (m.disasm addr).cpu = m.cpu := rfl

@[simp] theorem diagFault_cpu :
    m.diagFault.cpu = { m.cpu with fault := true, inHalt := true } := rfl

@[simp] theorem diagWarnOrFault_cpu :
    m.diagWarnOrFault.cpu =
      if m.strict then { m.cpu with fault := true, inHalt := true } else m.cpu := by
  unfold diagWarnOrFault
  split_ifs <;> rfl

@[simp] theorem warnSpClobber_cpu (pc : U32) (insn : Insn) :
    (m.warnSpClobber pc insn).cpu = m.cpu := by
  unfold warnSpClobber
  split_ifs <;> rfl

variable {m} {m' : Machine D} {pc : U32} {insn : Insn} {inSlot : Bool}

theorem checkSlot_error (hm : m.cpu.inHalt = false) (h : m.checkSlot pc insn = .error m') :
    m'.cpu = { m.cpu with fault := true, inHalt := true } := by
  unfold checkSlot at h
  dsimp only at h
  split at h
  · exact Except.error.inj h ▸ rfl
  · split at h
    · exact nomatch h
    · exact Except.error.inj h ▸ rfl
    · split at h
      case isTrue hh =>
        rw [← Except.error.inj h]
        rw [diagWarnOrFault_cpu, disasm_cpu] at hh ⊢
        split_ifs with hs
        · rfl
        · rw [if_neg hs, hm] at hh
          exact absurd hh Bool.false_ne_true
      · exact nomatch h

theorem checkSlot_ok (h : m.checkSlot pc insn = .ok m') :
    m'.cpu = m.cpu ∧ m.cpu.pendingExtCount = 0 ∧ delaySlotClass insn ≠ .hard := by
  unfold checkSlot at h
  dsimp only at h
  split at h
  · exact nomatch h
  case isFalse hp =>
    have hp0 : m.cpu.pendingExtCount = 0 := by omega
    split at h
    case h_1 hc =>
      rw [← Except.ok.inj h]
      exact ⟨warnSpClobber_cpu m pc insn, hp0, by simp [hc]⟩
    case h_2 => exact nomatch h
    case h_3 hc =>
      split at h
      · exact nomatch h
      case isFalse hh =>
        rw [← Except.ok.inj h]
        refine ⟨?_, hp0, by simp [hc]⟩
        rw [warnSpClobber_cpu]
        rw [diagWarnOrFault_cpu, disasm_cpu] at hh ⊢
        split_ifs with hs
        · exact absurd (by rw [if_pos hs]) hh
        · rfl

theorem checkExt_error (hm : m.cpu.inHalt = false) (h : m.checkExt pc insn = .error m') :
    m'.cpu = { m.cpu with fault := true, inHalt := true } := by
  unfold checkExt at h
  dsimp only at h
  split at h
  · split at h
    case isTrue hh =>
      rw [← Except.error.inj h]
      rw [diagWarnOrFault_cpu, disasm_cpu] at hh ⊢
      split_ifs with hs
      · rfl
      · rw [if_neg hs, hm] at hh
        exact absurd hh Bool.false_ne_true
    · exact nomatch h
  · exact nomatch h

theorem checkExt_ok (h : m.checkExt pc insn = .ok m') : m'.cpu = m.cpu := by
  unfold checkExt at h
  dsimp only at h
  split at h
  · split at h
    · exact nomatch h
    case isFalse hh =>
      rw [← Except.ok.inj h]
      rw [diagWarnOrFault_cpu, disasm_cpu] at hh ⊢
      split_ifs with hs
      · exact absurd (by rw [if_pos hs]) hh
      · rfl
  · exact Except.ok.inj h ▸ rfl

/-- A check that ends the step has faulted the CPU. -/
theorem check_error (hm : m.cpu.inHalt = false) (h : m.check pc insn inSlot = .error m') :
    m'.cpu = { m.cpu with fault := true, inHalt := true } := by
  unfold check at h
  cases inSlot with
  | false => exact checkExt_error hm h
  | true =>
    rw [if_pos rfl] at h
    cases hs : m.checkSlot pc insn with
    | error m1 =>
      rw [hs] at h
      exact Except.error.inj h ▸ checkSlot_error hm hs
    | ok m1 =>
      rw [hs] at h
      have h1 := (checkSlot_ok hs).1
      rw [← h1]
      exact checkExt_error (h1 ▸ hm) h

/-- **A check that lets the instruction through leaves the CPU as it was**; in a delay
slot it has seen that no prefix is pending and that the instruction may stand there. -/
theorem check_ok (h : m.check pc insn inSlot = .ok m') :
    m'.cpu = m.cpu ∧
      (inSlot = true → m.cpu.pendingExtCount = 0 ∧ delaySlotClass insn ≠ .hard) := by
  unfold check at h
  cases inSlot with
  | false => exact ⟨checkExt_ok h, fun h => absurd h Bool.false_ne_true⟩
  | true =>
    rw [if_pos rfl] at h
    cases hs : m.checkSlot pc insn with
    | error m1 =>
      rw [hs] at h
      exact nomatch h
    | ok m1 =>
      rw [hs] at h
      obtain ⟨h1, hslot⟩ := checkSlot_ok hs
      exact ⟨(checkExt_ok h).trans h1, fun _ => hslot⟩

/-! ### What the checks keep -/

/-- **A property no check breaks**: neither the fetch of a warning nor a fault does. -/
structure Unbroken (P : Machine D → Prop) : Prop where
  disasm : ∀ {m}, P m → ∀ addr, P (m.disasm addr)
  diagFault : ∀ {m}, P m → P m.diagFault

/-- A property of what a check returns, stopped or not. -/
def Returns (P : Machine D → Prop) : Except (Machine D) (Machine D) → Prop
  | .error m | .ok m => P m

namespace Unbroken

variable {P : Machine D → Prop} (hP : Unbroken P) {m : Machine D} (h : P m) (pc : U32)
  (insn : Insn)
include hP h

theorem diagWarnOrFault : P m.diagWarnOrFault := by
  unfold Machine.diagWarnOrFault
  split_ifs
  · exact hP.diagFault h
  · exact h

theorem warnSpClobber : P (m.warnSpClobber pc insn) := by
  unfold Machine.warnSpClobber
  split_ifs
  · exact hP.disasm h pc
  · exact h

theorem checkSlot : Returns P (m.checkSlot pc insn) := by
  have hdis := hP.disasm h pc
  have hwarn := hP.diagWarnOrFault hdis
  unfold Machine.checkSlot
  dsimp only
  split
  · exact hP.diagFault h
  · split
    · exact hP.warnSpClobber h pc insn
    · exact hP.diagFault hdis
    · split
      · exact hwarn
      · exact hP.warnSpClobber hwarn pc insn

theorem checkExt : Returns P (m.checkExt pc insn) := by
  have hwarn := hP.diagWarnOrFault (hP.disasm h pc)
  unfold Machine.checkExt
  dsimp only
  split_ifs
  · exact hwarn
  · exact hwarn
  · exact h

theorem check (inSlot : Bool) : Returns P (m.check pc insn inSlot) := by
  unfold Machine.check
  cases inSlot with
  | false => exact hP.checkExt h pc insn
  | true =>
    have hslot := hP.checkSlot h pc insn
    rw [if_pos rfl]
    generalize m.checkSlot pc insn = x at hslot
    cases x with
    | error m' => exact hslot
    | ok m' => exact hP.checkExt hslot pc insn

end Unbroken

/-! ### What the checks do not notice -/

/-- **A change of the machine that no check notices**: it leaves alone what they look at,
and commutes with what they do. -/
structure Unnoticed (f : Machine D → Machine D) : Prop where
  pendingExtCount : ∀ m, (f m).cpu.pendingExtCount = m.cpu.pendingExtCount
  inHalt : ∀ m, (f m).cpu.inHalt = m.cpu.inHalt
  delayCaller : ∀ m, (f m).cpu.delayCaller = m.cpu.delayCaller
  strict : ∀ m, (f m).strict = m.strict
  disasm : ∀ m addr, (f m).disasm addr = f (m.disasm addr)
  diagFault : ∀ m, (f m).diagFault = f m.diagFault

/-- What a check returns, changed. -/
def onChecked (f : Machine D → Machine D) :
    Except (Machine D) (Machine D) → Except (Machine D) (Machine D)
  | .error m => .error (f m)
  | .ok m => .ok (f m)

namespace Unnoticed

variable {f : Machine D → Machine D} (hf : Unnoticed f) (m : Machine D) (pc : U32) (insn : Insn)
include hf

theorem diagWarnOrFault : (f m).diagWarnOrFault = f m.diagWarnOrFault := by
  unfold Machine.diagWarnOrFault
  rw [apply_ite f, hf.strict, hf.diagFault]

theorem warnSpClobber : (f m).warnSpClobber pc insn = f (m.warnSpClobber pc insn) := by
  unfold Machine.warnSpClobber
  rw [apply_ite f, hf.delayCaller, hf.disasm]

theorem checkSlot : (f m).checkSlot pc insn = onChecked f (m.checkSlot pc insn) := by
  have hwarn := hf.diagWarnOrFault (m.disasm pc)
  unfold Machine.checkSlot
  rw [apply_ite (onChecked f), hf.pendingExtCount, hf.diagFault, hf.disasm]
  refine if_congr Iff.rfl rfl ?_
  cases delaySlotClass insn with
  | ok => exact congrArg Except.ok (hf.warnSpClobber m pc insn)
  | hard => exact congrArg Except.error (hf.diagFault (m.disasm pc))
  | soft =>
    dsimp only
    rw [hwarn, hf.inHalt, hf.warnSpClobber, apply_ite (onChecked f)]
    rfl

theorem checkExt : (f m).checkExt pc insn = onChecked f (m.checkExt pc insn) := by
  have hwarn := hf.diagWarnOrFault (m.disasm pc)
  unfold Machine.checkExt
  rw [apply_ite (onChecked f), hf.pendingExtCount, hf.disasm]
  refine if_congr Iff.rfl ?_ rfl
  dsimp only
  rw [hwarn, hf.inHalt, apply_ite (onChecked f)]
  rfl

/-- **The checks before dispatch do not notice it.** -/
theorem check (inSlot : Bool) :
    (f m).check pc insn inSlot = onChecked f (m.check pc insn inSlot) := by
  unfold Machine.check
  cases inSlot with
  | false => exact hf.checkExt m pc insn
  | true =>
    rw [if_pos rfl, if_pos rfl, hf.checkSlot]
    cases m.checkSlot pc insn with
    | error m' => rfl
    | ok m' => exact hf.checkExt m' pc insn

end Unnoticed

/-! ### Traps -/

variable (m)

/-- **What becomes of an asserted trap.** -/
theorem doTrap_cases (no level : ℤ) :
    m.trapGate no level = false ∧ m.doTrap io no level = m ∨
      m.trapGate no level = true ∧ m.inWindow = true ∧
        m.doTrap io no level = m.deferTrap no level ∨
      m.trapGate no level = true ∧ m.inWindow = false ∧
        m.doTrap io no level = m.enterTrap io no level := by
  unfold doTrap
  cases m.trapGate no level <;> cases m.inWindow <;> simp

@[simp] theorem enterTrap_ctl (no level : ℤ) :
    (m.enterTrap io no level).ctl = { m.ctl with haltMode := .none } := rfl

@[simp] theorem enterTrap_pendingExtCount (no level : ℤ) :
    (m.enterTrap io no level).cpu.pendingExtCount = m.cpu.pendingExtCount := rfl

@[simp] theorem enterTrap_inHalt (no level : ℤ) :
    (m.enterTrap io no level).cpu.inHalt = false := rfl

theorem inWindow_eq_false_iff :
    m.inWindow = false ↔ m.cpu.pendingExtCount = 0 ∧ m.cpu.inDelaySlot = false := by
  simp [inWindow]

theorem inWindow_eq_true_iff :
    m.inWindow = true ↔ m.cpu.pendingExtCount ≠ 0 ∨ m.cpu.inDelaySlot = true := by
  simp [inWindow, Nat.pos_iff_ne_zero]

/-! ### The step -/

/-- The handler of the instruction at the program counter. -/
def handlerAtPc : Handler := Handler.ofInsn m.insnAtPc

/-- The step executes an instruction. -/
def running : Bool := !m.cpu.inHalt && !m.breakpoints m.cpu.pc

/-- The four ways a step can go. -/
inductive StepCase (m' : Machine D) : Prop
  /-- A halted CPU stays as it is. -/
  | halted (inHalt : m.cpu.inHalt = true) (eq : m' = m)
  /-- A breakpoint halts the CPU. -/
  | breakpoint (inHalt : m.cpu.inHalt = false) (hit : m.breakpoints m.cpu.pc = true)
      (eq : m' = m.mapCpu ({ · with inHalt := true }))
  /-- A check faults the CPU. -/
  | stopped (running : m.running = true)
      (cpu : m'.cpu = { m.fetched.cpu with fault := true, inHalt := true })
  /-- The instruction is dispatched and retired. -/
  | retired (running : m.running = true) (m₁ : Machine D) (cpu : m₁.cpu = m.fetched.cpu)
      (slot : m.cpu.inDelaySlot = true →
        m.cpu.pendingExtCount = 0 ∧ delaySlotClass m.insnAtPc ≠ .hard)
      (eq : m' = (m₁.retire io m.insnAtPc m.cpu.inDelaySlot m.cpu.delayTarget).fireDeferred io)

theorem running_iff :
    m.running = true ↔ m.cpu.inHalt = false ∧ m.breakpoints m.cpu.pc = false := by
  simp [running]

/-- **The inversion lemma of `step`.** -/
theorem stepCase : m.StepCase io (m.step io) := by
  unfold step
  split_ifs with hh hb
  · exact .halted hh rfl
  · exact .breakpoint (Bool.not_eq_true _ ▸ hh) hb rfl
  · have hh : m.cpu.inHalt = false := by simpa using hh
    have hrun : m.running = true := m.running_iff.mpr ⟨hh, by simpa using hb⟩
    unfold execute
    split
    case h_1 m' h => exact .stopped hrun (check_error (m := m.fetched) hh h)
    case h_2 m' h =>
      obtain ⟨hcpu, hslot⟩ := check_ok (m := m.fetched) h
      exact .retired hrun m' hcpu hslot rfl

/-- A fault of the bus is all that its check adds. -/
theorem checkBusFault_cpu :
    m.checkBusFault.cpu = m.cpu ∨
      m.checkBusFault.cpu = { m.cpu with fault := true, inHalt := true } := by
  unfold checkBusFault
  dsimp only
  split_ifs
  · exact .inr rfl
  · exact .inl rfl

variable {m}

theorem fireDeferred_of_inWindow (hw : m.inWindow = true) : m.fireDeferred io = m := by
  unfold fireDeferred
  rw [hw]
  rfl

theorem fireDeferred_eq (hd : m.cpu.deferredTrapValid = false) : m.fireDeferred io = m := by
  unfold fireDeferred
  rw [hd, Bool.and_false, Bool.false_and, if_neg Bool.false_ne_true]

/-- Outside a slot, a running CPU executes the instruction at its program counter, under
prefixes the instruction may have. -/
theorem step_outside_slot (hrun : m.running = true) (hslot : m.cpu.inDelaySlot = false)
    (hext : m.cpu.pendingExtCount = 0 ∨ extCapable m.insnAtPc = true) :
    m.step io = (m.handlerAtPc.run io m.insnAtPc m.fetched).checkBusFault.fireDeferred io := by
  obtain ⟨hh, hb⟩ := m.running_iff.mp hrun
  have hcheck : m.fetched.check m.cpu.pc m.insnAtPc false = .ok m.fetched := by
    unfold check checkExt
    rw [if_neg Bool.false_ne_true]
    refine if_neg fun h => ?_
    rcases hext with hext | hext
    · exact absurd h.1 (Nat.not_lt.mpr (Nat.le_of_eq hext))
    · rw [hext] at h
      exact Bool.false_ne_true h.2
  unfold step
  rw [hh, if_neg Bool.false_ne_true, hb, if_neg Bool.false_ne_true]
  unfold execute
  rw [hslot, hcheck]
  rfl

end Machine
