import PieceEmu.Core.DataAccess
import PieceEmu.Core.MacLoop
import PieceEmu.Core.StepCases

/-!
# What an instruction does on the bus

The data accesses of an instruction are known before it executes: their addresses come from
the registers it names, and only the byte a bit operation stores depends on what it loads.
`Handler.dataOps` lists them for each handler, `Machine.trapOps` for the entry of a trap.

The bus then sees a list of actions (`CpuAction.busActions`): the fetch of the word, the cycles
of what the checks list, the data accesses, the fault flag taken down, and the accesses of a
deferred trap. Performed one after the other they leave the bus that the CPU leaves
(`Machine.run_bus`), over any run of the CPU. Only `mac` has data accesses that are no
accesses of the bus: on its two shortcuts it looks at no routine, and the bus is told nothing
but the cycles.
-/

/-- What happens on the bus while an instruction executes. -/
inductive BusAction
  /-- An access through one of the routines of the bus. -/
  | access (op : MemOp)
  /-- A data access that goes past them. -/
  | direct (op : MemOp)
  /-- The cycle counter moves, and nothing else. -/
  | tick (cycles : U32)
  /-- The fault flag is taken down. -/
  | takeFault

/-- A data access that goes past the bus. -/
def BusAction.IsDirect : BusAction → Prop
  | direct _ => True
  | _ => False

variable {D : Type}

/-- Two states of the bus that differ in nothing but the cycle counter. -/
def Bus.Ticks (b b' : Bus D) : Prop := b' = { b with cycles := b'.cycles }

/-- One action. -/
def BusAction.act (io : IoSpace D) (b : Bus D) : BusAction → Bus D
  | access op => (b.access io op).2
  | direct _ => b
  | tick cycles => { b with cycles }
  | takeFault => b.takeFault.2

/-- Accesses that go past the bus leave it alone. -/
theorem exec_direct (io : IoSpace D) (b : Bus D) (ops : List MemOp) :
    ActionRun.exec (BusAction.act io) b (ops.map .direct) = b := by
  induction ops with
  | nil => rfl
  | cons op ops ih => exact ih

/-! ### The data accesses of an instruction -/

/-- The load of a width. -/
def Width.load (w : Width) (ea : U32) : MemOp :=
  match w with
  | byte => .read8 ea
  | half => .read16 ea
  | word => .read32 ea

/-- The store of a width, of the low bytes of a register. -/
def Width.store (w : Width) (ea val : U32) : MemOp :=
  match w with
  | byte => .write8 ea (val.setWidth 8)
  | half => .write16 ea (val.setWidth 16)
  | word => .write32 ea val

/-- The pushes of the registers `i`, `i - 1`, …, 0, below a stack pointer. -/
def pushOps (r : BitVec 4 → U32) : ℕ → U32 → List MemOp
  | 0, sp => [.write32 (sp - 4) (r 0)]
  | i + 1, sp => .write32 (sp - 4) (r (BitVec.ofNat 4 (i + 1))) :: pushOps r i (sp - 4)

/-- `n` pops from a stack pointer on. -/
def popOps : ℕ → U32 → List MemOp
  | 0, _ => []
  | n + 1, sp => .read32 sp :: popOps n (sp + 4)

/-- The reads of `k` turns of `mac`, from two pointers on. -/
def macOps : ℕ → U32 → U32 → List MemOp
  | 0, _, _ => []
  | k + 1, p1, p2 => .read16 p1 :: .read16 p2 :: macOps k (p1 + 2) (p2 + 2)

namespace Machine

variable (io : IoSpace D) (m : Machine D)

/-- The accesses of a trap that is entered: its vector, and the two words pushed. A trap that
is dropped or deferred makes none. -/
def trapOps (no level : ℤ) : List MemOp :=
  if !m.trapGate no level then []
  else if m.inWindow then []
  else [.read32 (m.vectorAddr no), .write32 (m.cpu.sp - 4) m.cpu.pc,
    .write32 (m.cpu.sp - 4 - 4) m.cpu.psr.raw]

/-- The byte a bit operation loads, and the one it stores. -/
def bitOps (insn : Insn) (f : U8 → U8 → U8) : List MemOp :=
  let ea := m.cpu.r insn.rb + m.cpu.extRb
  [.read8 ea, .write8 ea (f (m.bus.read8 io ea).1 (1#8 <<< insn.imm3))]

/-- `mac` takes one of its shortcuts. -/
def macDirect (rsN : BitVec 4) : Bool := m.macTakesOpenBus rsN || m.macTakesSram rsN

end Machine

namespace Handler

variable (io : IoSpace D)

/-- **The data accesses of an instruction**, in their order. -/
def dataOps (h : Handler) (i : Insn) (m : Machine D) : List MemOp :=
  let ea := m.cpu.r i.rb + m.cpu.extRb
  match h with
  | ldBRdRb | ldUbRdRb | ldBRdRbx | ldUbRdRbx => [Width.byte.load ea]
  | ldHRdRb | ldUhRdRb | ldHRdRbx | ldUhRdRbx => [Width.half.load ea]
  | ldWRdRb | ldWRdRbx => [Width.word.load ea]
  | stBRbRs | stBRbxRs => [Width.byte.store ea (m.cpu.r i.rd)]
  | stHRbRs | stHRbxRs => [Width.half.store ea (m.cpu.r i.rd)]
  | stWRbRs | stWRbxRs => [Width.word.store ea (m.cpu.r i.rd)]
  | ldBRdSp | ldUbRdSp => [Width.byte.load (m.spEa i 1)]
  | ldHRdSp | ldUhRdSp => [Width.half.load (m.spEa i 2)]
  | ldWRdSp => [Width.word.load (m.spEa i 4)]
  | stBSpRs => [Width.byte.store (m.spEa i 1) (m.cpu.r i.rd)]
  | stHSpRs => [Width.half.store (m.spEa i 2) (m.cpu.r i.rd)]
  | stWSpRs => [Width.word.store (m.spEa i 4) (m.cpu.r i.rd)]
  | btst => [.read8 ea]
  | bclr => m.bitOps io i fun v bit => v &&& ~~~bit
  | bset => m.bitOps io i (· ||| ·)
  | bnot => m.bitOps io i (· ^^^ ·)
  | pushn => pushOps m.cpu.r i.rd.toNat m.cpu.sp
  | popn => popOps (i.rd.toNat + 1) m.cpu.sp
  | callRb | callSimm8 => [.write32 (m.cpu.sp - 4) (m.cpu.pc + if i.d then 2 else 0)]
  | ret => [.read32 m.cpu.sp]
  | retd | reti => [.read32 m.cpu.sp, .read32 (m.cpu.sp + 4)]
  | brk => m.flushExt.trapOps 0 0
  | int => m.flushExt.trapOps (12 + i.imm2) 0
  | div0s | div0u => if m.cpu.r i.rs = 0 then m.flushExt.trapOps Machine.trapZeroDiv 0 else []
  | mac => macOps (m.cpu.r i.rs).toNat (m.cpu.r (i.rs + 1)) (m.cpu.r (i.rs + 2))
  | _ => []

/-- What an instruction does on the bus. -/
def actions (h : Handler) (i : Insn) (m : Machine D) : List BusAction :=
  let ops := h.dataOps io i m
  match h with
  | mac =>
    if m.macDirect i.rs then ops.map .direct ++ [.tick (m.hMac io i).bus.cycles]
    else ops.map .access
  | undef => [.tick m.hUndef.bus.cycles]
  | _ => ops.map .access

end Handler

namespace Machine

variable (io : IoSpace D) (m : Machine D)

theorem pushFrom_bus (i : ℕ) : (pushFrom io i m).bus =
    ActionRun.exec (BusAction.act io) m.bus ((pushOps m.cpu.r i m.cpu.sp).map .access) := by
  induction i generalizing m with
  | zero => rfl
  | succ i ih => exact ih (m.push io (m.cpu.r (BitVec.ofNat 4 (i + 1))))

theorem popFrom_bus (n i : ℕ) : (popFrom io n i m).bus =
    ActionRun.exec (BusAction.act io) m.bus ((popOps n m.cpu.sp).map .access) := by
  induction n generalizing m i with
  | zero => rfl
  | succ n ih =>
    exact ih (((m.read32 io m.cpu.sp).2.setR (BitVec.ofNat 4 i) (m.read32 io m.cpu.sp).1).setSp
      (m.cpu.sp + 4)) (i + 1)

theorem doTrap_bus (no level : ℤ) : (m.doTrap io no level).bus =
    ActionRun.exec (BusAction.act io) m.bus ((m.trapOps no level).map .access) := by
  unfold doTrap trapOps
  split_ifs <;> rfl

/-- A division that traps if the divisor is zero, and stays off the bus otherwise. -/
theorem zeroDiv_bus (i : Insn) {m' : Machine D} (h' : m'.bus = m.bus) :
    (if m.cpu.r i.rs = 0 then m.flushExt.assertTrap io trapZeroDiv 0 else m').bus =
      ActionRun.exec (BusAction.act io) m.bus
        ((if m.cpu.r i.rs = 0 then m.flushExt.trapOps trapZeroDiv 0 else []).map .access) := by
  split_ifs
  · exact doTrap_bus io m.flushExt _ _
  · exact h'

/-- The reads of the slow loop. -/
theorem macWalk_bus (k : ℕ) (p1 p2 : U32) (b : Bus D) : (Bus.macWalk io k p1 p2 b).2 =
    ActionRun.exec (BusAction.act io) b ((macOps k p1 p2).map .access) := by
  induction k generalizing p1 p2 b with
  | zero => rfl
  | succ k ih => exact ih (p1 + 2) (p2 + 2) ((b.read16 io p1).2.read16 io p2).2

theorem macSlow_bus (rsN : BitVec 4) : (m.macSlow io rsN).bus =
    ActionRun.exec (BusAction.act io) m.bus
      ((macOps (m.cpu.r rsN).toNat (m.cpu.r (rsN + 1)) (m.cpu.r (rsN + 2))).map .access) := by
  rw [← macWalk_bus, macSlow, macLoop_eq]
  rfl

/-- Off its shortcuts, `mac` reads both operands of each turn. -/
theorem hMac_slow (i : Insn) (h : ¬m.macDirect i.rs = true) : (m.hMac io i).bus =
    ActionRun.exec (BusAction.act io) m.bus ((macOps (m.cpu.r i.rs).toNat (m.cpu.r (i.rs + 1))
      (m.cpu.r (i.rs + 2))).map .access) := by
  obtain ⟨hA, hB⟩ := not_or.mp (h ∘ (Bool.or_eq_true ..).mpr)
  by_cases h0 : m.cpu.r i.rs = 0
  · have hdone : m.hMac io i = m.flushExt := if_pos h0
    rw [hdone, h0]
    rfl
  · have hslow : m.hMac io i = m.flushExt.macSlow io i.rs :=
      (if_neg h0).trans ((if_neg hA).trans (if_neg hB))
    rw [hslow]
    exact macSlow_bus io m.flushExt i.rs

/-! ### What moves only the cycle counter -/

theorem ticks_disasm {b : Bus D} {m : Machine D} (h : b.Ticks m.bus) (addr : U32) :
    b.Ticks (m.disasm addr).bus := by
  rw [disasm_eq, Bus.Ticks]
  exact congrArg (fun b' : Bus D => b'.charge (m.bus.fetchCycles addr)) h

/-- The shortcuts of `mac`. -/
theorem hMac_ticks (i : Insn) (h : m.macDirect i.rs = true) : m.bus.Ticks (m.hMac io i).bus := by
  unfold hMac
  dsimp only
  split_ifs with h0 hA hB
  · rfl
  · rfl
  · rfl
  · exact absurd h (not_or.mpr ⟨hA, hB⟩ ∘ (Bool.or_eq_true ..).mp)

/-- The words an undefined instruction is printed with. -/
theorem hUndef_ticks : m.bus.Ticks m.hUndef.bus := by
  have hdis {m' : Machine D} (h' : m.bus.Ticks m'.bus) (c : Prop) [Decidable c] (addr : U32) :
      m.bus.Ticks (if c then m'.disasm addr else m').bus := by
    split_ifs
    · exact ticks_disasm h' addr
    · exact h'
  exact hdis (hdis rfl _ _) _ _

theorem unbroken_ticks (b : Bus D) : Unbroken fun m' : Machine D => b.Ticks m'.bus where
  disasm h addr := ticks_disasm h addr
  diagFault h := h

/-! ### Handlers that stay off the bus -/

theorem doC0Jump_bus (target : U32) (delayed : Bool) :
    (m.doC0Jump target delayed).bus = m.bus := by
  cases delayed <;> rfl

theorem hJr_bus (i : Insn) (taken : Bool) : (m.hJr i taken).bus = m.bus := by
  cases taken
  · rfl
  · exact doC0Jump_bus m.flushExt _ _

theorem doAlu_bus (op : AluOp) (a b : U32) (rd : BitVec 4) : (m.doAlu op a b rd).bus = m.bus := by
  cases op <;> rfl

theorem doAluRr_bus (i : Insn) (op : AluOp) (hasExt3Op : Bool) :
    (m.doAluRr i op hasExt3Op).bus = m.bus := by
  unfold doAluRr
  split <;> exact doAlu_bus m.flushExt _ _ _ _

theorem setSpecialReg_bus (n : BitVec 4) (v : U32) : (m.setSpecialReg n v).bus = m.bus := by
  unfold setSpecialReg
  split <;> rfl

theorem diagWarnOrFault_bus : m.diagWarnOrFault.bus = m.bus := by
  unfold diagWarnOrFault
  split_ifs <;> rfl

theorem hExt_bus (i : Insn) : (m.hExt i).bus = m.bus := by
  unfold hExt
  split_ifs
  · exact m.diagWarnOrFault_bus
  · rfl
  · rfl

/-- A call, to a register or relative: the return address is pushed. -/
theorem call_bus (retAddr target : U32) (delayed : Bool) :
    ((if delayed then (m.push io retAddr).setDelayCaller .callD
      else m.push io retAddr).doC0Jump target delayed).bus = (m.push io retAddr).bus := by
  cases delayed <;> rfl

end Machine

namespace Handler

open Machine

variable (io : IoSpace D)

/-- **An instruction does on the bus what is listed.** -/
theorem run_bus (h : Handler) (i : Insn) (m : Machine D) :
    (h.run io i m).bus = ActionRun.exec (BusAction.act io) m.bus (h.actions io i m) := by
  cases h with
  | mac =>
    change (m.hMac io i).bus = ActionRun.exec _ _ (if m.macDirect i.rs then _ else _)
    by_cases h : m.macDirect i.rs = true
    · rw [if_pos h, ActionRun.exec_append, exec_direct]
      exact hMac_ticks io m i h
    · rw [if_neg h]
      exact hMac_slow io m i h
  | pushn => exact pushFrom_bus io m.flushExt _
  | popn => exact popFrom_bus io m.flushExt _ 0
  | brk | int => exact doTrap_bus io m.flushExt _ _
  | callRb | callSimm8 => exact call_bus io m.flushExt _ _ _
  | ret =>
    change (m.hRet io i).bus = (m.flushExt.pop io).2.bus
    unfold hRet
    cases i.d <;> rfl
  | jpRb =>
    change (m.hJpRb i).bus = m.bus
    unfold hJpRb
    dsimp only
    split_ifs <;> rfl
  | jpSimm8 => exact doC0Jump_bus m.flushExt _ _
  | jrgt | jrge | jrlt | jrle | jrugt | jruge | jrult | jrule | jreq | jrne =>
    exact hJr_bus m i _
  | addRdRs | subRdRs | cmpRdRs | ldWRdRs | andRdRs | orRdRs | xorRdRs | notRdRs =>
    exact doAluRr_bus m i _ _
  | div0s | div0u => exact zeroDiv_bus io m i rfl
  | div1 =>
    change (m.hDiv1 i).bus = m.bus
    simp only [hDiv1]
    split_ifs <;> rfl
  | div2s =>
    change (m.hDiv2s i).bus = m.bus
    unfold hDiv2s
    dsimp only
    split_ifs <;> rfl
  | div3s =>
    change m.hDiv3s.bus = m.bus
    unfold hDiv3s
    dsimp only
    split_ifs <;> rfl
  | ldWSdRs => exact setSpecialReg_bus m.flushExt _ _
  | ext => exact m.hExt_bus i
  | undef => exact m.hUndef_ticks
  | _ => rfl

end Handler

/-! ### A step -/

namespace Machine

variable (io : IoSpace D) (m : Machine D)

/-- The accesses of the deferred trap, if it fires. -/
def deferredOps : List MemOp :=
  if !m.inWindow && m.cpu.deferredTrapValid && !m.cpu.fault then
    m.takeDeferred.trapOps m.cpu.deferredTrapNo m.cpu.deferredTrapLevel
  else []

/-- What an executed instruction does on the bus, with what comes before and after it. -/
def executeActions : List BusAction :=
  .access (.fetch16 m.cpu.pc) ::
    match m.fetched.check m.cpu.pc m.insnAtPc m.cpu.inDelaySlot with
    | .error m' => [.tick m'.bus.cycles]
    | .ok m' =>
      .tick m'.bus.cycles :: ((Handler.ofInsn m.insnAtPc).actions io m.insnAtPc m' ++
        .takeFault :: (m'.retire io m.insnAtPc m.cpu.inDelaySlot
          m.cpu.delayTarget).deferredOps.map .access)

/-- What a step does on the bus. -/
def stepActions : List BusAction :=
  if m.cpu.inHalt then []
  else if m.breakpoints m.cpu.pc then []
  else m.executeActions io

theorem fireDeferred_bus : (m.fireDeferred io).bus =
    ActionRun.exec (BusAction.act io) m.bus (m.deferredOps.map .access) := by
  unfold fireDeferred deferredOps
  split_ifs
  · exact doTrap_bus io m.takeDeferred _ _
  · rfl

theorem retire_bus (insn : Insn) (inSlot : Bool) (slotTarget : U32) :
    (m.retire io insn inSlot slotTarget).bus =
      ActionRun.exec (BusAction.act io) m.bus
        ((Handler.ofInsn insn).actions io insn m ++ [.takeFault]) := by
  have hfault (m' : Machine D) : m'.checkBusFault.bus = m'.bus.takeFault.2 := by
    unfold checkBusFault
    dsimp only
    split_ifs <;> rfl
  have hslot (m' : Machine D) : (m'.completeSlot inSlot slotTarget).bus = m'.bus := by
    unfold completeSlot
    split_ifs <;> rfl
  rw [retire, hslot, hfault, Handler.run_bus, ActionRun.exec_append]
  rfl

/-- **An executed instruction does on the bus what is listed.** -/
theorem execute_bus :
    (m.execute io).bus = ActionRun.exec (BusAction.act io) m.bus (m.executeActions io) := by
  have hcheck := (unbroken_ticks m.fetched.bus).check rfl m.cpu.pc m.insnAtPc m.cpu.inDelaySlot
  unfold execute executeActions
  rw [ActionRun.exec_cons]
  cases hc : m.fetched.check m.cpu.pc m.insnAtPc m.cpu.inDelaySlot with
  | error m' =>
    -- a fatal check ends the step, with the words it has printed
    rw [hc] at hcheck
    exact hcheck
  | ok m' =>
    rw [hc] at hcheck
    have hticked : BusAction.act io m.fetched.bus (.tick m'.bus.cycles) = m'.bus := hcheck.symm
    change ((m'.retire io _ _ _).fireDeferred io).bus =
      ActionRun.exec _ m.fetched.bus (BusAction.tick _ :: _)
    rw [ActionRun.exec_cons, hticked, fireDeferred_bus, retire_bus, ActionRun.exec_append,
      ActionRun.exec_append]
    rfl

/-- **So does a step.** -/
theorem step_bus :
    (m.step io).bus = ActionRun.exec (BusAction.act io) m.bus (m.stepActions io) := by
  unfold step stepActions
  split_ifs
  · rfl
  · rfl
  · exact m.execute_bus io

end Machine

/-! ### A run -/

/-- What one action of what drives a CPU does on the bus. -/
def CpuAction.busActions (io : IoSpace D) (m : Machine D) : CpuAction → List BusAction
  | step => m.stepActions io
  | assertTrap no level => (m.trapOps no level).map .access

theorem CpuAction.act_bus (io : IoSpace D) (m : Machine D) (a : CpuAction) :
    (a.act io m).bus = ActionRun.exec (BusAction.act io) m.bus (a.busActions io m) := by
  cases a with
  | step => exact m.step_bus io
  | assertTrap no level => exact m.doTrap_bus io no level

namespace Machine

variable (io : IoSpace D)

/-- What a run of the CPU does on the bus. -/
def runActions : Machine D → List CpuAction → List BusAction
  | _, [] => []
  | m, a :: as => a.busActions io m ++ runActions (a.act io m) as

/-- **A run of the CPU leaves the bus that its actions leave.** -/
theorem run_bus (m : Machine D) (as : List CpuAction) :
    (ActionRun.exec (CpuAction.act io) m as).bus =
      ActionRun.exec (BusAction.act io) m.bus (runActions io m as) := by
  induction as generalizing m with
  | nil => rfl
  | cons a as ih => rw [ActionRun.exec_cons, ih, runActions, ActionRun.exec_append, a.act_bus]

end Machine

/-! ### Past the bus -/

/-- A data access goes past the bus only while no watchpoint is installed. -/
def Bus.Unwatched (b : Bus D) (a : BusAction) : Prop := a.IsDirect → b.watchpoints = []

namespace Machine

variable (io : IoSpace D) (m : Machine D)

theorem along_access (b : Bus D) (ops : List MemOp) :
    ActionRun.Along (BusAction.act io) Bus.Unwatched b (ops.map .access) := by
  induction ops generalizing b with
  | nil => exact trivial
  | cons op ops ih => exact ⟨False.elim, ih _⟩

theorem along_direct {b : Bus D} (h : b.watchpoints = []) (ops : List MemOp) :
    ActionRun.Along (BusAction.act io) Bus.Unwatched b (ops.map .direct) := by
  induction ops with
  | nil => exact trivial
  | cons op ops ih => exact ⟨fun _ => h, ih⟩

/-- `mac` takes neither of its shortcuts while a watchpoint is installed. -/
theorem unwatched_of_macDirect {rsN : BitVec 4} (h : m.macDirect rsN = true) :
    m.bus.watchpoints = [] := by
  have hwp : (!m.bus.hasWatchpoints) = true := by
    rcases (Bool.or_eq_true ..).mp h with h | h <;> exact (Bool.and_eq_true _ _ ▸ h).2
  simpa [Bus.hasWatchpoints] using hwp

theorem along_actions (h : Handler) (i : Insn) :
    ActionRun.Along (BusAction.act io) Bus.Unwatched m.bus (h.actions io i m) := by
  cases h with
  | mac =>
    change ActionRun.Along _ _ _ (if m.macDirect i.rs then _ else _)
    split_ifs with hdirect
    · rw [ActionRun.along_append]
      exact ⟨along_direct io (m.unwatched_of_macDirect hdirect) _, False.elim, trivial⟩
    · exact along_access io _ _
  | undef => exact ⟨False.elim, trivial⟩
  | _ => exact along_access io _ _

theorem along_stepActions :
    ActionRun.Along (BusAction.act io) Bus.Unwatched m.bus (m.stepActions io) := by
  have hcheck := (unbroken_ticks m.fetched.bus).check rfl m.cpu.pc m.insnAtPc m.cpu.inDelaySlot
  unfold stepActions executeActions
  split_ifs
  · exact trivial
  · exact trivial
  cases hc : m.fetched.check m.cpu.pc m.insnAtPc m.cpu.inDelaySlot with
  | error m' => exact ⟨False.elim, False.elim, trivial⟩
  | ok m' =>
    rw [hc] at hcheck
    have hticked : BusAction.act io m.fetched.bus (.tick m'.bus.cycles) = m'.bus := hcheck.symm
    refine ⟨False.elim, False.elim, (ActionRun.along_append ..).mpr ⟨?_, False.elim, ?_⟩⟩
    · exact hticked ▸ along_actions io m' _ _
    · exact along_access io _ _

theorem along_runActions (as : List CpuAction) :
    ActionRun.Along (BusAction.act io) Bus.Unwatched m.bus (runActions io m as) := by
  induction as generalizing m with
  | nil => exact trivial
  | cons a as ih =>
    refine (ActionRun.along_append ..).mpr ⟨?_, ?_⟩
    · cases a with
      | step => exact m.along_stepActions io
      | assertTrap no level => exact along_access io _ _
    · rw [← a.act_bus]
      exact ih (a.act io m)

end Machine
