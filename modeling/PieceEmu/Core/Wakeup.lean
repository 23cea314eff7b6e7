import PieceEmu.Core.StepCases

/-!
# Waking a sleeping CPU

`slp` and `halt` stop the CPU until a trap is entered. A trap is only entered
outside a window, so the question is whether a CPU can fall asleep with a prefix
pending or a delay slot open: `step` does nothing while the CPU is halted, and such
a window would never close.

With a prefix it cannot, since both handlers drop the prefixes. In a delay slot it
can: the two instructions pass the check of a slot with a warning, and the slot is
not completed once the CPU has halted (`Machine.slotSleep_not_woken`). As long as
no run executes one of them there, every sleeping CPU is woken by every trap that
passes the gate (`Machine.asleep_woken`).

The invariant that carries the argument is `Machine.SleepSound`: a CPU that is
asleep is halted and outside every window.
-/

namespace Machine

variable {D : Type} (io : IoSpace D) (m : Machine D)

/-! ### The statement -/

/-- `slp` or `halt` has halted the CPU, and it has not faulted. -/
def Asleep : Prop := m.cpu.inHalt = true ∧ m.cpu.haltMode ≠ .none ∧ m.cpu.fault = false

/-- The machine `m'` is `m` woken by a trap: it is no longer halted, its program
counter is the vector, and unless a breakpoint is set there its next step executes
the handler. -/
structure Woken (no : ℤ) (m' : Machine D) : Prop where
  inHalt : m'.cpu.inHalt = false
  haltMode : m'.cpu.haltMode = .none
  pc : m'.cpu.pc = (m.read32 io (m.vectorAddr no)).1
  inWindow : m'.inWindow = false
  next : m'.breakpoints m'.cpu.pc = false → m'.step io = m'.execute io

/-- The next step puts the CPU to sleep inside a delay slot. -/
def SleepsInSlot : Prop :=
  m.running = true ∧ m.cpu.inDelaySlot = true ∧ m.handlerAtPc.sleeps = true

/-- Every trap that passes the gate wakes the CPU of any run from reset. -/
def SleepersWake : Prop :=
  ∀ as : List CpuAction, ∀ s, s = ActionRun.exec (CpuAction.act io) (m.reset io) as →
    s.Asleep → ∀ no level, s.trapGate no level = true →
      s.Woken io no (s.assertTrap io no level)

/-! ### The invariant -/

/-- A CPU that is asleep is halted, and outside every window. -/
def SleepSound : Prop :=
  m.cpu.haltMode ≠ .none → m.cpu.inHalt = true ∧ m.inWindow = false

variable {m}

theorem SleepSound.of_none (h : m.cpu.haltMode = .none) : m.SleepSound :=
  fun hne => absurd h hne

/-- An awake CPU of a sound machine is in no sleep mode. -/
theorem SleepSound.haltMode_eq_none (hs : m.SleepSound) (h : m.cpu.inHalt = false) :
    m.cpu.haltMode = .none := by
  by_contra hne
  rw [(hs hne).1] at h
  exact Bool.noConfusion h

/-- Soundness carries over to a machine in the same sleep mode that is halted when
the first is, and whose window is no larger. -/
theorem SleepSound.mono (hs : m.SleepSound) {m' : Machine D}
    (hmode : m'.cpu.haltMode = m.cpu.haltMode) (hhalt : m.cpu.inHalt = true → m'.cpu.inHalt = true)
    (hwin : m.inWindow = false → m'.inWindow = false) : m'.SleepSound := by
  intro hne
  obtain ⟨hh, hw⟩ := hs (hmode ▸ hne)
  exact ⟨hhalt hh, hwin hw⟩

theorem SleepSound.doTrap (hs : m.SleepSound) (no level : ℤ) :
    (m.doTrap io no level).SleepSound := by
  obtain ⟨-, h⟩ | ⟨-, hw, h⟩ | ⟨-, -, h⟩ := m.doTrap_cases io no level
  · rwa [h]
  · rw [h]
    exact hs.mono rfl id fun hw' => absurd hw (hw' ▸ Bool.false_ne_true)
  · rw [h]
    exact .of_none rfl

theorem SleepSound.checkBusFault (hs : m.SleepSound) : m.checkBusFault.SleepSound := by
  have hwin (m' : Machine D)
      (h : m'.cpu = m.cpu ∨ m'.cpu = { m.cpu with fault := true, inHalt := true }) :
      m'.SleepSound := by
    rcases h with h | h
    · exact hs.mono (by rw [h]) (by rw [h]; exact id) (by simp only [inWindow, h]; exact id)
    · exact hs.mono (by rw [h]) (by rw [h]; exact fun _ => rfl)
        (by simp only [inWindow, h]; exact id)
  exact hwin _ m.checkBusFault_cpu

theorem SleepSound.completeSlot (hs : m.SleepSound) (inSlot : Bool) (target : U32) :
    (m.completeSlot inSlot target).SleepSound := by
  unfold Machine.completeSlot
  split_ifs
  · refine hs.mono rfl id fun hw => ?_
    exact (inWindow_eq_false_iff _).mpr ⟨((inWindow_eq_false_iff m).mp hw).1, rfl⟩
  · exact hs

theorem SleepSound.fireDeferred (hs : m.SleepSound) : (m.fireDeferred io).SleepSound := by
  unfold Machine.fireDeferred
  split_ifs
  · have htaken : m.takeDeferred.SleepSound := hs.mono rfl id id
    exact htaken.doTrap io _ _
  · exact hs

/-- **A dispatched instruction keeps the invariant**, unless it puts the CPU to sleep
inside a delay slot. -/
theorem SleepSound.run {i : Insn} (hnone : m.cpu.haltMode = .none)
    (hslot : (Handler.ofInsn i).sleeps = true → m.cpu.inDelaySlot = false) :
    ((Handler.ofInsn i).run io i m).SleepSound := by
  have hmode : m.ctl.haltMode = .none := hnone
  rcases (Handler.ofInsn i).ctlStep io i m with
    ⟨-, hc⟩ | ⟨-, _, _, hc⟩ | ⟨hsl, mode, heq⟩ | ⟨-, -, hc, -, -⟩ | ⟨-, hc⟩ | ⟨-, no, -, heq⟩
  · exact .of_none ((congrArg Ctl.haltMode hc).trans hmode)
  · exact .of_none ((congrArg Ctl.haltMode hc).trans hmode)
  · rw [heq]
    exact fun _ => ⟨rfl, (inWindow_eq_false_iff _).mpr ⟨rfl, hslot hsl⟩⟩
  · exact .of_none ((congrArg Ctl.haltMode hc).trans hmode)
  · exact .of_none ((congrArg Ctl.haltMode hc).trans hmode)
  · rw [heq]
    exact SleepSound.doTrap io (m := m.flushExt) (.of_none hnone) no 0

/-- **A step keeps the invariant**, unless it puts the CPU to sleep inside a delay
slot. -/
theorem SleepSound.step (hs : m.SleepSound) (hslot : ¬m.SleepsInSlot) : (m.step io).SleepSound := by
  rcases m.stepCase io with ⟨-, h⟩ | ⟨hh, -, h⟩ | ⟨hrun, hcpu⟩ | ⟨hrun, m₁, hcpu, -, h⟩
  · rwa [h]
  · rw [h]
    exact .of_none (hs.haltMode_eq_none hh)
  · exact .of_none ((congrArg CpuState.haltMode hcpu).trans
      (hs.haltMode_eq_none (m.running_iff.mp hrun).1))
  · rw [h]
    have hnone : m₁.cpu.haltMode = .none := by
      rw [hcpu]
      exact hs.haltMode_eq_none (m.running_iff.mp hrun).1
    refine ((SleepSound.run io hnone fun hsl => ?_).checkBusFault.completeSlot _ _).fireDeferred io
    rw [hcpu]
    by_contra hin
    exact hslot ⟨hrun, Bool.not_eq_false _ ▸ hin, hsl⟩

/-! ### Waking -/

/-- **A trap that passes the gate wakes a machine that fell asleep soundly.** -/
theorem SleepSound.woken (hs : m.SleepSound) (ha : m.Asleep) {no level : ℤ}
    (hg : m.trapGate no level = true) : m.Woken io no (m.assertTrap io no level) := by
  have hw : m.inWindow = false := (hs ha.2.1).2
  have h : m.assertTrap io no level = m.enterTrap io no level := by
    rcases m.doTrap_cases io no level with ⟨hg', -⟩ | ⟨-, hw', -⟩ | ⟨-, -, h⟩
    · rw [hg] at hg'
      exact Bool.noConfusion hg'
    · rw [hw] at hw'
      exact Bool.noConfusion hw'
    · exact h
  rw [h]
  refine ⟨rfl, rfl, rfl, hw, fun hb => ?_⟩
  rw [Machine.step, enterTrap_inHalt, if_neg Bool.false_ne_true, hb, if_neg Bool.false_ne_true]

/-- **Every sleeping CPU can be woken**, in every run from reset that puts the CPU to
sleep in no delay slot. -/
theorem asleep_woken (m : Machine D) (as : List CpuAction)
    (h : ActionRun.Along (CpuAction.act io) (fun s a => a = .step → ¬s.SleepsInSlot)
      (m.reset io) as) :
    let s := ActionRun.exec (CpuAction.act io) (m.reset io) as
    s.Asleep → ∀ no level, s.trapGate no level = true →
      s.Woken io no (s.assertTrap io no level) := by
  intro s ha no level hg
  have hs : s.SleepSound := by
    refine ActionRun.exec_invariant (fun t a ht hC => ?_) (.of_none rfl) h
    cases a with
    | step => exact ht.step io (hC rfl)
    | assertTrap no level => exact ht.doTrap io no level
  exact hs.woken io ha hg

/-- A boot ROM that sleeps at once. -/
def sleepRom : Machine Unit := ofRom [0x0004, 0x00C0, 0x0040]

/-- The NMI wakes it. -/
theorem asleep_woken_sleepRom :
    (sleepRom.reset (IoSpace.empty Unit)).step (IoSpace.empty Unit) |>.Woken (IoSpace.empty Unit) 7
      (((sleepRom.reset (IoSpace.empty Unit)).step (IoSpace.empty Unit)).assertTrap
        (IoSpace.empty Unit) 7 0) :=
  asleep_woken (IoSpace.empty Unit) sleepRom [.step]
    ⟨fun _ h => Bool.false_ne_true h.2.1, trivial⟩ ⟨rfl, by decide, rfl⟩ 7 0 rfl

/-- A boot ROM with `slp` in the delay slot of a jump. -/
def slotSleepRom : Machine Unit := ofRom [0x0004, 0x00C0, 0x1F02, 0x0040]

/-- **The defect**: it falls asleep inside the delay slot, and the NMI does not wake
it. -/
theorem slotSleep_not_woken : ¬slotSleepRom.SleepersWake (IoSpace.empty Unit) := by
  intro h
  have hw := h [.step, .step] _ rfl ⟨rfl, by decide, rfl⟩ 7 0 rfl
  exact Bool.noConfusion (hw.inHalt : true = false)

end Machine
