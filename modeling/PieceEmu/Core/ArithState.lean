import PieceEmu.Core.Flags
import PieceEmu.Core.StepCases

/-!
# The arithmetic state

What a computation of a program works on: the general registers, `ALR`, `AHR` and the
flags an instruction computes. The rest of a step does not touch it: neither the fetch,
nor a fault, nor the completion of a slot, nor the entry of a trap, which clears `IE`
and raises `IL` (`Machine.doTrap_arith`). So the arithmetic state after a step is the
one its handler leaves (`Machine.step_arith`), wherever the instruction stands.
-/

/-! ### The arithmetic state -/

/-- What a computation works on. -/
@[ext] structure ArithState where
  r : BitVec 4 → U32
  alr : U32
  ahr : U32
  n : Bool
  z : Bool
  v : Bool
  c : Bool
  ds : Bool
  mo : Bool

/-- The arithmetic state of a CPU. -/
def CpuState.arith (s : CpuState) : ArithState where
  r := s.r
  alr := s.alr
  ahr := s.ahr
  n := s.psr.n
  z := s.psr.z
  v := s.psr.v
  c := s.psr.c
  ds := s.psr.ds
  mo := s.psr.mo

namespace Machine

variable {D : Type} (io : IoSpace D) (m : Machine D)

/-! ### The stages of a step -/

theorem enterTrap_arith (no level : ℤ) : (m.enterTrap io no level).cpu.arith = m.cpu.arith := by
  have hpsr : ∀ p : Psr, p = m.cpu.psr.setIe false ∨
      p = (m.cpu.psr.setIe false).setIl (BitVec.ofInt 32 level) →
      ∀ j < 8, j ≠ 4 → p.flag j = m.cpu.psr.flag j := by
    rintro p (rfl | rfl) j hj h4
    · exact (Psr.flag_setFlag _ (by decide) _ _).trans (if_neg h4)
    · rw [Psr.flag_setIl _ _ hj]
      exact (Psr.flag_setFlag _ (by decide) _ _).trans (if_neg h4)
  have hcase : (m.enterTrap io no level).cpu.psr = m.cpu.psr.setIe false ∨
      (m.enterTrap io no level).cpu.psr =
        (m.cpu.psr.setIe false).setIl (BitVec.ofInt 32 level) := by
    change (if 16 ≤ no then _ else _) = _ ∨ (if 16 ≤ no then _ else _) = _
    split_ifs
    · exact .inr rfl
    · exact .inl rfl
  have hflag := hpsr _ hcase
  exact ArithState.ext rfl rfl rfl (hflag 0 (by decide) (by decide))
    (hflag 1 (by decide) (by decide)) (hflag 2 (by decide) (by decide))
    (hflag 3 (by decide) (by decide)) (hflag 6 (by decide) (by decide))
    (hflag 7 (by decide) (by decide))

/-- **A trap does not touch the arithmetic state**, whatever becomes of it. -/
theorem doTrap_arith (no level : ℤ) : (m.doTrap io no level).cpu.arith = m.cpu.arith := by
  rcases m.doTrap_cases io no level with ⟨-, h⟩ | ⟨-, -, h⟩ | ⟨-, -, h⟩
  · rw [h]
  · rw [h]
    rfl
  · rw [h]
    exact m.enterTrap_arith io no level

theorem fireDeferred_arith : (m.fireDeferred io).cpu.arith = m.cpu.arith := by
  unfold fireDeferred
  split_ifs
  · exact m.takeDeferred.doTrap_arith io _ _
  · rfl

theorem checkBusFault_arith : m.checkBusFault.cpu.arith = m.cpu.arith := by
  rcases m.checkBusFault_cpu with h | h
  · rw [h]
  · rw [h]
    rfl

theorem completeSlot_arith (inSlot : Bool) (target : U32) :
    (m.completeSlot inSlot target).cpu.arith = m.cpu.arith := by
  unfold completeSlot
  split_ifs <;> rfl

variable {m}

/-! ### The step -/

/-- **The arithmetic state after a step is the one the handler leaves**, unless a check has
stopped the CPU. -/
theorem step_arith (hrun : m.running = true) (hgo : (m.step io).cpu.inHalt = false) :
    ∃ m₁ : Machine D, m₁.cpu = m.fetched.cpu ∧
      (m.step io).cpu.arith = (m.handlerAtPc.run io m.insnAtPc m₁).cpu.arith := by
  obtain ⟨hh, hb⟩ := m.running_iff.mp hrun
  rcases m.stepCase io with ⟨hin, -⟩ | ⟨-, hit, -⟩ | ⟨-, hcpu⟩ | ⟨-, m₁, hcpu, -, heq⟩
  · exact absurd (hin.symm.trans hh) (by decide)
  · exact absurd (hit.symm.trans hb) (by decide)
  · rw [hcpu] at hgo
    exact nomatch hgo
  · refine ⟨m₁, hcpu, ?_⟩
    rw [heq, fireDeferred_arith]
    unfold retire
    rw [completeSlot_arith, checkBusFault_arith]
    rfl

/-- A trap opens no window and closes none. -/
theorem doTrap_inWindow (m : Machine D) (no level : ℤ) :
    (m.doTrap io no level).inWindow = m.inWindow := by
  rcases m.doTrap_cases io no level with ⟨-, h⟩ | ⟨-, -, h⟩ | ⟨-, -, h⟩ <;> rw [h] <;> rfl

theorem fireDeferred_inWindow (m : Machine D) : (m.fireDeferred io).inWindow = m.inWindow := by
  unfold fireDeferred
  split_ifs
  · exact doTrap_inWindow io m.takeDeferred _ _
  · rfl

theorem checkBusFault_inWindow (m : Machine D) : m.checkBusFault.inWindow = m.inWindow := by
  unfold inWindow
  rcases m.checkBusFault_cpu with h | h
  · rw [h]
  · rw [h]

/-- **After an instruction that opens no window none is open**, if the CPU goes on. -/
theorem step_inWindow (hrun : m.running = true) (hgo : (m.step io).cpu.inHalt = false)
    (hopens : ∀ m₁ : Machine D, m₁.cpu = m.fetched.cpu →
      (m.handlerAtPc.run io m.insnAtPc m₁).cpu.pendingExtCount = 0 ∧
        (m.handlerAtPc.run io m.insnAtPc m₁).cpu.inDelaySlot = m.cpu.inDelaySlot) :
    (m.step io).inWindow = false := by
  obtain ⟨hh, hb⟩ := m.running_iff.mp hrun
  rcases m.stepCase io with ⟨hin, -⟩ | ⟨-, hit, -⟩ | ⟨-, hcpu⟩ | ⟨-, m₁, hcpu, -, heq⟩
  · exact absurd (hin.symm.trans hh) (by decide)
  · exact absurd (hit.symm.trans hb) (by decide)
  · rw [hcpu] at hgo
    exact nomatch hgo
  obtain ⟨hpend, hslot⟩ := hopens m₁ hcpu
  set m₂ := (m.handlerAtPc.run io m.insnAtPc m₁).checkBusFault with hm₂
  have hbus : m₂.cpu.pendingExtCount = 0 ∧ m₂.cpu.inDelaySlot = m.cpu.inDelaySlot := by
    rcases checkBusFault_cpu (m.handlerAtPc.run io m.insnAtPc m₁) with h | h
    · rw [hm₂, h]
      exact ⟨hpend, hslot⟩
    · rw [hm₂, h]
      exact ⟨hpend, hslot⟩
  have heq : m.step io =
      (m₂.completeSlot m.cpu.inDelaySlot m.cpu.delayTarget).fireDeferred io := heq
  rw [heq] at hgo ⊢
  rw [fireDeferred_inWindow]
  unfold completeSlot at hgo ⊢
  split_ifs at hgo ⊢ with hclose
  · exact (inWindow_eq_false_iff _).mpr ⟨hbus.1, rfl⟩
  · refine (inWindow_eq_false_iff _).mpr ⟨hbus.1, hbus.2.trans ?_⟩
    -- a slot that stays open belongs to a CPU that has halted in it
    by_contra hopen
    have hopen : m.cpu.inDelaySlot = true := by simpa using hopen
    have hw : m₂.inWindow = true := (inWindow_eq_true_iff _).mpr (.inr (hbus.2.trans hopen))
    rw [fireDeferred_of_inWindow io hw] at hgo
    rw [hopen, hgo] at hclose
    exact hclose rfl

/-- **At a boundary** nothing stops the instruction, and none is left behind it. -/
theorem step_arith_of_boundary (hrun : m.running = true) (hw : m.inWindow = false) :
    (m.step io).cpu.arith = (m.handlerAtPc.run io m.insnAtPc m.fetched).cpu.arith ∧
      (m.step io).inWindow = (m.handlerAtPc.run io m.insnAtPc m.fetched).inWindow := by
  obtain ⟨hext, hslot⟩ := m.inWindow_eq_false_iff.mp hw
  rw [step_outside_slot io hrun hslot (.inl hext), fireDeferred_arith, checkBusFault_arith,
    fireDeferred_inWindow]
  exact ⟨rfl, checkBusFault_inWindow _⟩

end Machine
