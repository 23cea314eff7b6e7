import PieceEmu.Core.Transparency

/-!
# The one slot of the deferred trap

A trap that is asserted inside a window waits in a slot of its own, and there is one
such slot. What is asserted next overwrites it, and nothing else remembers the trap
that was there: an NMI followed by a division trap is lost
(`Machine.secondTrap_dropped`).

In a run in which nothing overwrites the slot, and in which the CPU is not halted
with a trap waiting in an open window, every trap that was deferred is resolved at
the end of its window (`Machine.deferred_resolved`): the traps asserted between two
steps, and those that an instruction raises in a delay slot (`Machine.trapCall`). The
measure of the argument is `Machine.windowRank`: a chain of prefixes cannot be longer
than the distance to the next address that holds no memory. A trap raised in a slot
needs no measure, since its own step completes the slot
(`Machine.resolves_of_trapCall`).
-/

namespace Machine

variable {D : Type} (io : IoSpace D) (m : Machine D)

/-! ### The statement -/

/-- The machine at the end of its instruction, before a deferred trap may fire. -/
def atEnd : Machine D :=
  match m.fetched.check m.cpu.pc m.insnAtPc m.cpu.inDelaySlot with
  | .error m' => m'
  | .ok m' => m'.retire io m.insnAtPc m.cpu.inDelaySlot m.cpu.delayTarget

/-- The step resolves a deferred trap: the CPU faults, or at the boundary the step
leads to the trap is entered, or if it is maskable rejected by the gate. -/
def Resolves (no level : ℤ) : Prop :=
  (m.step io).cpu.fault = true ∨
    (m.atEnd io).inWindow = false ∧
      (m.step io = (m.atEnd io).takeDeferred.enterTrap io no level ∨
        16 ≤ no ∧ (m.atEnd io).trapGate no level = false ∧ m.step io = (m.atEnd io).takeDeferred)

/-- The number of the trap a handler asserts of its own, at level 0. -/
def raisedTrap? (h : Handler) (i : Insn) : Option ℤ :=
  match h with
  | .brk => some 0
  | .int => some (12 + i.imm2)
  | .div0s | .div0u => if m.cpu.r i.rs = 0 then some trapZeroDiv else none
  | _ => none

/-- The trap an action asserts: the machine that `do_trap` is called on, and the number and
the level of its call. A step asserts the trap its instruction raises. -/
def trapCall : CpuAction → Option (Machine D × ℤ × ℤ)
  | .assertTrap no level => some (m, no, level)
  | .step =>
    if m.running then
      match m.fetched.check m.cpu.pc m.insnAtPc m.cpu.inDelaySlot with
      | .error _ => none
      | .ok m₁ => (m₁.raisedTrap? m.handlerAtPc m.insnAtPc).map fun no => (m₁.flushExt, no, 0)
    else none

/-- **No deferred trap is dropped** in a run: each is resolved at the end of the window
in which it was asserted, a trap that the instruction of a slot raises at the end of its own
step. -/
def NeverDropped (s : ℕ → Machine D) (acts : ℕ → CpuAction) : Prop :=
  ∀ k m no level, (s k).trapCall (acts k) = some (m, no, level) → m.trapGate no level = true →
    m.inWindow = true → m.cpu.fault = false →
      ∃ n ≥ k, acts n = .step ∧ (∀ j, k < j → j ≤ n → (s j).inWindow = true) ∧
        (s n).Resolves io no level

/-- The action leaves a waiting trap in its slot: no other trap is asserted over it, by
the action or by the instruction in a delay slot, and the CPU is not halted. -/
def KeepsSlot : CpuAction → Prop
  | .step => m.cpu.deferredTrapValid = true → m.inWindow = true → m.cpu.fault = false →
      m.running = true ∧
        (m.cpu.inDelaySlot = true → m.handlerAtPc.raisesTrap m.insnAtPc m = false)
  | .assertTrap no level => m.inWindow = true → m.trapGate no level = true →
      m.cpu.fault = true ∨ m.cpu.deferredTrapValid = false

/-! ### Chains of prefixes end -/

/-- The number of halfwords from an address to the first that holds no memory. -/
def unmappedDist (pc : U32) : ℕ :=
  ((0x3000 + 2 ^ 28 - pc.toNat % 2 ^ 28 / 2 * 2) % 2 ^ 28) / 2

theorem unmappedDist_add_two {pc : U32} (h : unmappedDist pc ≠ 0) :
    unmappedDist (pc + 2) < unmappedDist pc := by
  have hadd : (pc + 2).toNat = (pc.toNat + 2) % 2 ^ 32 := BitVec.toNat_add ..
  unfold unmappedDist at h ⊢
  rw [hadd]
  omega

/-- The first halfword that holds no memory is fetched as an undefined instruction. -/
theorem handlerAtPc_of_unmapped (h : unmappedDist m.cpu.pc = 0) : m.handlerAtPc = .undef := by
  have hdown : (Bus.down 1 m.cpu.pc).toNat = 0x3000 := by
    unfold unmappedDist at h
    rw [Bus.toNat_down, Bus.toNat_mask28]
    omega
  have hregion : m.bus.classify (Bus.down 1 m.cpu.pc) = .none := by
    unfold Bus.classify
    rw [Bus.regionOf_eq, Bus.mask28_down, hdown]
    rw [if_neg (by omega), if_neg (by omega), if_neg (by omega), if_neg (by omega),
      if_neg (by omega)]
  have hfetch : (m.bus.fetch16 m.cpu.pc).1 = 0xFFFF := by
    rw [Bus.fetch16_align, Bus.fetch16_even _ (Bus.down_even _), hregion]
  have hinsn : m.insnAtPc = ⟨0xFFFF⟩ := congrArg Insn.mk hfetch
  unfold handlerAtPc
  rw [hinsn]
  rfl

/-- How many steps a window can still stay open: one in a slot, and no more than the
chain of prefixes has room for. -/
def windowRank : ℕ := if m.cpu.inDelaySlot then 0 else unmappedDist m.cpu.pc + 1

/-! ### A trap that waits -/

/-- A trap waits in an open window. -/
structure Waiting (no level : ℤ) : Prop where
  deferral : m.deferral = ⟨true, no, level⟩
  inWindow : m.inWindow = true
  fault : m.cpu.fault = false

variable {m}

/-- A running CPU ends its instruction, and then a deferred trap may fire. -/
theorem step_eq_atEnd (hrun : m.running = true) : m.step io = (m.atEnd io).fireDeferred io := by
  obtain ⟨hh, hb⟩ := m.running_iff.mp hrun
  have hstep : m.step io = m.execute io := by
    unfold step
    rw [hh, if_neg Bool.false_ne_true, hb, if_neg Bool.false_ne_true]
  rw [hstep]
  unfold execute atEnd
  cases hc : m.fetched.check m.cpu.pc m.insnAtPc m.cpu.inDelaySlot with
  | error m' =>
    have hcpu := check_error (m := m.fetched) hh hc
    have hf : m'.cpu.fault = true := congrArg CpuState.fault hcpu
    unfold fireDeferred
    rw [hf, Bool.not_true, Bool.and_false]
    rfl
  | ok m' => rfl

/-- What the end of an instruction makes of a trap that waits. -/
inductive WaitStep (m : Machine D) (no level : ℤ) (e : Machine D) : Prop
  | faults (fault : e.cpu.fault = true)
  | closes (deferral : e.deferral = ⟨true, no, level⟩) (inWindow : e.inWindow = false)
      (fault : e.cpu.fault = false)
  | goesOn (waiting : e.Waiting no level)
      (next : e.cpu.inHalt = true ∨ e.windowRank < m.windowRank)

theorem WaitStep.of_open {no level : ℤ} {e : Machine D} (hd : e.deferral = ⟨true, no, level⟩)
    (hf : e.cpu.fault = false)
    (hnext : e.inWindow = true → e.cpu.inHalt = true ∨ e.windowRank < m.windowRank) :
    WaitStep m no level e := by
  cases hw : e.inWindow with
  | false => exact .closes hd hw hf
  | true => exact .goesOn ⟨hd, hw, hf⟩ (hnext hw)

/-- The end of an instruction in a delay slot: the slot is completed, unless the CPU has
halted. -/
theorem WaitStep.slot {no level : ℤ} {e : Machine D} (target : U32)
    (hd : e.deferral = ⟨true, no, level⟩) (hf : e.cpu.fault = false)
    (hp : e.cpu.inHalt = false → e.cpu.pendingExtCount = 0) :
    WaitStep m no level (e.completeSlot true target) := by
  unfold completeSlot
  cases hh : e.cpu.inHalt with
  | true => exact WaitStep.of_open hd hf fun _ => .inl hh
  | false => exact .closes hd ((inWindow_eq_false_iff _).mpr ⟨hp hh, rfl⟩) hf

/-- The instruction of a waiting machine, in a slot. -/
theorem WaitStep.run_in_slot {no level : ℤ} {h : Handler} {i : Insn} {m₁ m₂ : Machine D}
    (target : U32) (hw : m₁.Waiting no level) (hr : h.raisesTrap i m₁ = false) (hext : h ≠ .ext)
    (hstep : CtlStep io h i m₁ m₂) :
    WaitStep m no level (m₂.completeSlot true target) := by
  have hdef {m' : Machine D} (h : m'.deferral = m₁.deferral) : m'.deferral = ⟨true, no, level⟩ :=
    h.trans hw.deferral
  have hfault {m' : Machine D} (h : m'.cpu.fault = m₁.cpu.fault) : m'.cpu.fault = false :=
    h.trans hw.fault
  rcases hstep with ⟨hp, hc⟩ | ⟨hp, _, _, hc⟩ | ⟨-, mode, heq⟩ | ⟨he, -, -, -, -⟩ | ⟨hh, hc⟩ |
    ⟨hraise, -, -, -⟩
  · exact .slot target (hdef (congrArg (fun c => Deferral.mk c.1 c.2 c.3) hc :))
      (hfault (congrArg Ctl.fault hc :)) fun _ => hp
  · exact .slot target (hdef (congrArg (fun c => Deferral.mk c.1 c.2 c.3) hc :))
      (hfault (congrArg Ctl.fault hc :)) fun _ => hp
  · rw [heq]
    exact .slot target (hdef rfl) (hfault rfl) fun _ => rfl
  · exact absurd he hext
  · refine .faults ?_
    unfold completeSlot
    rw [hh, Bool.not_true, Bool.and_false]
    exact congrArg Ctl.fault hc
  · rw [hr] at hraise
    exact Bool.noConfusion hraise

/-- The instruction of a waiting machine, under a prefix. -/
theorem WaitStep.run_under_prefix {no level : ℤ} {h : Handler} {i : Insn} {m₁ m₂ : Machine D}
    (hw : m₁.Waiting no level) (hslot : m₁.cpu.inDelaySlot = false)
    (hslot' : m.cpu.inDelaySlot = false) (hpc : m₁.cpu.pc = m.cpu.pc + 2)
    (hext : h = .ext → unmappedDist m.cpu.pc ≠ 0) (hstep : CtlStep io h i m₁ m₂) :
    WaitStep m no level m₂ := by
  have hdef {m' : Machine D} (h : m'.deferral = m₁.deferral) : m'.deferral = ⟨true, no, level⟩ :=
    h.trans hw.deferral
  have hfault {m' : Machine D} (h : m'.cpu.fault = m₁.cpu.fault) : m'.cpu.fault = false :=
    h.trans hw.fault
  have hrank : m.windowRank = unmappedDist m.cpu.pc + 1 := by
    unfold windowRank
    rw [hslot', if_neg Bool.false_ne_true]
  rcases hstep with ⟨hp, hc⟩ | ⟨hp, _, _, hc⟩ | ⟨-, mode, heq⟩ | ⟨he, -, hc, hpc', -⟩ | ⟨hh, hc⟩ |
    ⟨-, no', -, heq⟩
  · refine .closes (hdef (congrArg (fun c => Deferral.mk c.1 c.2 c.3) hc :)) ?_
      (hfault (congrArg Ctl.fault hc :))
    exact (inWindow_eq_false_iff _).mpr ⟨hp, (congrArg Ctl.inDelaySlot hc :).trans hslot⟩
  · refine .of_open (hdef (congrArg (fun c => Deferral.mk c.1 c.2 c.3) hc :))
      (hfault (congrArg Ctl.fault hc :)) fun _ => .inr ?_
    have hopen : m₂.cpu.inDelaySlot = true := congrArg Ctl.inDelaySlot hc
    rw [hrank, windowRank, hopen, if_pos rfl]
    exact Nat.succ_pos _
  · rw [heq]
    exact .closes (hdef rfl) ((inWindow_eq_false_iff _).mpr ⟨rfl, hslot⟩) (hfault rfl)
  · refine .of_open (hdef (congrArg (fun c => Deferral.mk c.1 c.2 c.3) hc :))
      (hfault (congrArg Ctl.fault hc :)) fun _ => .inr ?_
    have hclosed : m₂.cpu.inDelaySlot = false := (congrArg Ctl.inDelaySlot hc :).trans hslot
    rw [hrank, windowRank, hclosed, if_neg Bool.false_ne_true, hpc', hpc]
    exact Nat.succ_lt_succ (unmappedDist_add_two (hext he))
  · exact .faults (congrArg Ctl.fault hc)
  · have hw' : m₁.flushExt.inWindow = false := (inWindow_eq_false_iff _).mpr ⟨rfl, hslot⟩
    rw [heq, doTrap_of_boundary io hw']
    split_ifs
    · exact .closes (hdef rfl) hw' (hfault rfl)
    · exact .closes (hdef rfl) hw' (hfault rfl)

theorem deferral_congr {m' : Machine D} (hcpu : m'.cpu = m.cpu) : m'.deferral = m.deferral := by
  unfold deferral
  rw [hcpu]

theorem inWindow_congr {m' : Machine D} (hcpu : m'.cpu = m.cpu) : m'.inWindow = m.inWindow := by
  unfold inWindow
  rw [hcpu]

theorem windowRank_congr {m' : Machine D} (hcpu : m'.cpu = m.cpu) :
    m'.windowRank = m.windowRank := by
  unfold windowRank
  rw [hcpu]

theorem Waiting.congr {no level : ℤ} {m' : Machine D} (hcpu : m'.cpu = m.cpu)
    (hw : m.Waiting no level) : m'.Waiting no level :=
  ⟨(deferral_congr hcpu).trans hw.deferral, (inWindow_congr hcpu).trans hw.inWindow,
    (congrArg CpuState.fault hcpu).trans hw.fault⟩

theorem WaitStep.congr {no level : ℤ} {e e' : Machine D} (hcpu : e'.cpu = e.cpu)
    (h : WaitStep m no level e) : WaitStep m no level e' := by
  rcases h with hf | ⟨hd, hw, hf⟩ | ⟨hw, hnext⟩
  · exact .faults ((congrArg CpuState.fault hcpu).trans hf)
  · exact .closes ((deferral_congr hcpu).trans hd) ((inWindow_congr hcpu).trans hw)
      ((congrArg CpuState.fault hcpu).trans hf)
  · refine .goesOn (hw.congr hcpu) ?_
    rwa [hcpu, windowRank_congr hcpu]

theorem completeSlot_fault (target : U32) (inSlot : Bool) :
    (m.completeSlot inSlot target).cpu.fault = m.cpu.fault := by
  unfold completeSlot
  split_ifs <;> rfl

theorem completeSlot_cpu_congr {m' : Machine D} (hcpu : m'.cpu = m.cpu) (target : U32)
    (inSlot : Bool) :
    (m'.completeSlot inSlot target).cpu = (m.completeSlot inSlot target).cpu := by
  unfold completeSlot mapCpu
  rw [hcpu, apply_ite Machine.cpu, apply_ite Machine.cpu, hcpu]

/-- A fault of the bus ends the window; without one its check changes nothing here. -/
theorem WaitStep.checkBusFault {no level : ℤ} {e : Machine D} {inSlot : Bool} {target : U32}
    (h : WaitStep m no level (e.completeSlot inSlot target)) :
    WaitStep m no level (e.checkBusFault.completeSlot inSlot target) := by
  rcases e.checkBusFault_cpu with hcpu | hcpu
  · exact h.congr (completeSlot_cpu_congr hcpu target inSlot)
  · exact .faults ((completeSlot_fault target inSlot).trans (congrArg CpuState.fault hcpu))

/-- **What an instruction does to a trap that waits**: it keeps the trap, and unless the
CPU faults or halts it closes the window or shortens it. -/
theorem Waiting.atEnd {no level : ℤ} (hw : m.Waiting no level) (hrun : m.running = true)
    (hraise : m.cpu.inDelaySlot = true → m.handlerAtPc.raisesTrap m.insnAtPc m = false) :
    WaitStep m no level (m.atEnd io) := by
  obtain ⟨hh, -⟩ := m.running_iff.mp hrun
  unfold Machine.atEnd
  cases hc : m.fetched.check m.cpu.pc m.insnAtPc m.cpu.inDelaySlot with
  | error m' => exact .faults (congrArg CpuState.fault (check_error (m := m.fetched) hh hc))
  | ok m₁ =>
    obtain ⟨hcpu, hslot⟩ := check_ok hc
    have hfetched : m.fetched.Waiting no level := ⟨hw.deferral, hw.inWindow, hw.fault⟩
    have hw₁ : m₁.Waiting no level := hfetched.congr hcpu
    have hctl := Handler.ctlStep io m.handlerAtPc m.insnAtPc m₁
    refine WaitStep.checkBusFault ?_
    cases hs : m.cpu.inDelaySlot with
    | true =>
      have hraise₁ : m.handlerAtPc.raisesTrap m.insnAtPc m₁ = false :=
        (raisesTrap_congr m.insnAtPc (congrArg CpuState.r hcpu) _).trans (hraise hs)
      have hext : m.handlerAtPc ≠ .ext := fun h =>
        (hslot hs).2 (Handler.delaySlotClass_of_ext h)
      exact WaitStep.run_in_slot io _ hw₁ hraise₁ hext hctl
    | false =>
      have hs₁ : m₁.cpu.inDelaySlot = false := (congrArg CpuState.inDelaySlot hcpu).trans hs
      have hpc : m₁.cpu.pc = m.cpu.pc + 2 := congrArg CpuState.pc hcpu
      refine WaitStep.run_under_prefix io hw₁ hs₁ hs hpc (fun hext hd => ?_) hctl
      rw [handlerAtPc_of_unmapped m hd] at hext
      exact Handler.noConfusion hext

/-! ### Steps and runs -/

/-- A fault resolves a trap. -/
theorem resolves_of_fault {no level : ℤ} (hrun : m.running = true)
    (hf : (m.atEnd io).cpu.fault = true) : m.Resolves io no level := by
  refine .inl ?_
  rw [step_eq_atEnd io hrun, fireDeferred, hf, Bool.not_true, Bool.and_false]
  exact hf

/-- A trap that waits when its window closes is resolved. -/
theorem resolves_of_closed {no level : ℤ} (hrun : m.running = true)
    (hd : (m.atEnd io).deferral = ⟨true, no, level⟩) (hwin : (m.atEnd io).inWindow = false)
    (hf : (m.atEnd io).cpu.fault = false) : m.Resolves io no level := by
  refine .inr ⟨hwin, ?_⟩
  have hfire : m.step io = (m.atEnd io).takeDeferred.doTrap io no level := by
    have hv : (m.atEnd io).cpu.deferredTrapValid = true := congrArg Deferral.valid hd
    have hno : (m.atEnd io).cpu.deferredTrapNo = no := congrArg Deferral.no hd
    have hlevel : (m.atEnd io).cpu.deferredTrapLevel = level := congrArg Deferral.level hd
    rw [step_eq_atEnd io hrun, fireDeferred, hwin, hv, hf, hno, hlevel]
    rfl
  rcases (m.atEnd io).takeDeferred.doTrap_cases io no level with ⟨hg, h⟩ | ⟨-, hopen, -⟩ |
    ⟨-, -, h⟩
  · refine .inr ⟨?_, hg, hfire.trans h⟩
    rw [trapGate, Bool.or_eq_false_iff] at hg
    exact not_lt.mp (of_decide_eq_false hg.1)
  · rw [show (m.atEnd io).takeDeferred.inWindow = (m.atEnd io).inWindow from rfl, hwin] at hopen
    exact Bool.noConfusion hopen
  · exact .inl (hfire.trans h)

/-- **The step of a machine with a waiting trap**: the trap is resolved, or goes on waiting
with less of the window left. -/
theorem Waiting.step {no level : ℤ} (hw : m.Waiting no level) (hkeep : m.KeepsSlot .step) :
    m.Resolves io no level ∨
      (m.step io).Waiting no level ∧
        ((m.step io).cpu.inHalt = true ∨ (m.step io).windowRank < m.windowRank) := by
  have hvalid : m.cpu.deferredTrapValid = true := congrArg Deferral.valid hw.deferral
  obtain ⟨hrun, hraise⟩ := hkeep hvalid hw.inWindow hw.fault
  rcases hw.atEnd io hrun hraise with hf | ⟨hd, hwin, hf⟩ | ⟨hw', hnext⟩
  · exact .inl (resolves_of_fault io hrun hf)
  · exact .inl (resolves_of_closed io hrun hd hwin hf)
  · have hstay : m.step io = m.atEnd io := by
      rw [step_eq_atEnd io hrun, fireDeferred, hw'.inWindow]
      rfl
    rw [hstay]
    exact .inr ⟨hw', hnext⟩

/-- A handler asserts its trap with the prefixes dropped. -/
theorem run_of_raisedTrap {h : Handler} {i : Insn} {no : ℤ}
    (hr : m.raisedTrap? h i = some no) : h.run io i m = m.flushExt.doTrap io no 0 := by
  unfold raisedTrap? at hr
  split at hr
  case h_1 | h_2 =>
    rw [← Option.some.inj hr]
    rfl
  case h_3 | h_4 =>
    split_ifs at hr with hzero
    rw [← Option.some.inj hr]
    exact if_pos hzero
  case h_5 => exact nomatch hr

/-- **A trap that the instruction in a slot raises** is resolved by the same step, which
completes the slot. -/
theorem resolves_of_trapCall {m' : Machine D} {no level : ℤ}
    (hcall : m.trapCall .step = some (m', no, level)) (hg : m'.trapGate no level = true)
    (hwin : m'.inWindow = true) (hf : m'.cpu.fault = false) : m.Resolves io no level := by
  unfold trapCall at hcall
  split_ifs at hcall with hrun
  cases hc : m.fetched.check m.cpu.pc m.insnAtPc m.cpu.inDelaySlot with
  | error => exact absurd (hc ▸ hcall) nofun
  | ok m₁ =>
    rw [hc] at hcall
    obtain ⟨no', hraised, heq⟩ := Option.map_eq_some_iff.mp hcall
    obtain ⟨rfl, rfl, rfl⟩ : m₁.flushExt = m' ∧ no' = no ∧ 0 = level := by simpa using heq
    have hcpu : m₁.cpu = m.fetched.cpu := (check_ok hc).1
    have hslot : m.cpu.inDelaySlot = true :=
      (congrArg CpuState.inDelaySlot hcpu).symm.trans hwin
    have hhalt : m₁.cpu.inHalt = false :=
      (congrArg CpuState.inHalt hcpu).trans (m.running_iff.mp hrun).1
    -- the trap goes into its slot, as the delay slot is still open
    have hdefer : m₁.flushExt.doTrap io no' 0 = m₁.flushExt.deferTrap no' 0 := by
      rcases m₁.flushExt.doTrap_cases io no' 0 with ⟨hg', -⟩ | ⟨-, -, h⟩ | ⟨-, hwin', -⟩
      · rw [hg] at hg'
        exact Bool.noConfusion hg'
      · exact h
      · rw [hwin] at hwin'
        exact Bool.noConfusion hwin'
    have hend : m.atEnd io =
        (m₁.flushExt.deferTrap no' 0).checkBusFault.completeSlot true m.cpu.delayTarget := by
      unfold atEnd
      rw [hc, hslot, ← hdefer, ← run_of_raisedTrap io hraised]
      rfl
    rcases (m₁.flushExt.deferTrap no' 0).checkBusFault_cpu with hbus | hbus
    · have hclosed : ((m₁.flushExt.deferTrap no' 0).completeSlot true m.cpu.delayTarget) =
          (m₁.flushExt.deferTrap no' 0).mapCpu fun s =>
            { s with inDelaySlot := false, delayCaller := .other, pc := m.cpu.delayTarget } :=
        if_pos (by rw [show (m₁.flushExt.deferTrap no' 0).cpu.inHalt = false from hhalt]; rfl)
      have hcpu' := completeSlot_cpu_congr hbus m.cpu.delayTarget true
      rw [hclosed, ← hend] at hcpu'
      exact resolves_of_closed io hrun (deferral_congr hcpu') (inWindow_congr hcpu')
        ((congrArg CpuState.fault hcpu').trans hf)
    · refine resolves_of_fault io hrun ?_
      rw [hend, completeSlot_fault]
      exact congrArg CpuState.fault hbus

/-- A trap asserted over a waiting one is one the gate rejects. -/
theorem Waiting.assertTrap {no level no' level' : ℤ} (hw : m.Waiting no level)
    (hkeep : m.KeepsSlot (.assertTrap no' level')) : m.assertTrap io no' level' = m := by
  rcases m.doTrap_cases io no' level' with ⟨-, h⟩ | ⟨hg, hwin, -⟩ | ⟨-, hwin, -⟩
  · exact h
  · rcases hkeep hwin hg with hf | hv
    · rw [hw.fault] at hf
      exact Bool.noConfusion hf
    · exact Bool.noConfusion (hv.symm.trans (congrArg Deferral.valid hw.deferral))
  · rw [hw.inWindow] at hwin
    exact Bool.noConfusion hwin

section Runs

variable {s : ℕ → Machine D} {acts : ℕ → CpuAction}

/-- Between two steps, a waiting machine stays as it is. -/
theorem Waiting.until_step (hs : ∀ n, s (n + 1) = (acts n).act io (s n))
    (hkeep : ∀ n, (s n).KeepsSlot (acts n)) {no level : ℤ} {j n : ℕ}
    (hw : (s j).Waiting no level) (hnone : ∀ i, j ≤ i → i < n → acts i ≠ .step) (i : ℕ)
    (hji : j ≤ i) (hin : i ≤ n) : s i = s j := by
  induction i, hji using Nat.le_induction with
  | base => rfl
  | succ i hji ih =>
    have hi : s i = s j := ih (Nat.le_of_succ_le hin)
    have hact := hkeep i
    rw [hs i]
    cases ha : acts i with
    | step => exact absurd ha (hnone i hji hin)
    | assertTrap no' level' =>
      rw [ha, hi] at hact
      rw [hi]
      exact hw.assertTrap io hact

/-- A trap that waits in a fair run is resolved, by induction on what the window has left. -/
theorem Waiting.resolved (hs : ∀ n, s (n + 1) = (acts n).act io (s n))
    (hfair : ∀ N, ∃ n ≥ N, acts n = .step) (hkeep : ∀ n, (s n).KeepsSlot (acts n))
    {no level : ℤ} (r j : ℕ) (hw : (s j).Waiting no level) (hr : (s j).windowRank = r) :
    ∃ n ≥ j, acts n = .step ∧ (∀ i, j ≤ i → i ≤ n → (s i).inWindow = true) ∧
      (s n).Resolves io no level := by
  induction r using Nat.strong_induction_on generalizing j with
  | _ r ih =>
    obtain ⟨n, hn, hact, hnone⟩ := ActionRun.exists_next hfair j
    have hsame (i : ℕ) (hji : j ≤ i) (hin : i ≤ n) : s i = s j :=
      hw.until_step io hs hkeep hnone i hji hin
    have hopen (i : ℕ) (hji : j ≤ i) (hin : i ≤ n) : (s i).inWindow = true := by
      rw [hsame i hji hin]
      exact hw.inWindow
    have hwn : (s n).Waiting no level := by
      rw [hsame n hn le_rfl]
      exact hw
    have hkn := hkeep n
    rw [hact] at hkn
    have hsucc : s (n + 1) = (s n).step io := by
      rw [hs n, hact]
      rfl
    rcases hwn.step io hkn with hres | ⟨hw', hnext⟩
    · exact ⟨n, hn, hact, hopen, hres⟩
    · rw [← hsucc] at hw' hnext
      rcases hnext with hhalt | hlt
      · -- a halted machine would have to take its next step halted
        obtain ⟨n', hn', hact', hnone'⟩ := ActionRun.exists_next hfair (n + 1)
        have hkn' := hkeep n'
        rw [hact', hw'.until_step io hs hkeep hnone' n' hn' le_rfl] at hkn'
        obtain ⟨hrun, -⟩ := hkn' (congrArg Deferral.valid hw'.deferral) hw'.inWindow hw'.fault
        rw [((s (n + 1)).running_iff.mp hrun).1] at hhalt
        exact Bool.noConfusion hhalt
      · rw [hsame n hn le_rfl, hr] at hlt
        obtain ⟨n', hn', hact', hopen', hres⟩ := ih _ hlt (n + 1) hw' rfl
        refine ⟨n', by omega, hact', fun i hji hin => ?_, hres⟩
        by_cases hi : i ≤ n
        · exact hopen i hji hi
        · exact hopen' i (by omega) hin

end Runs

/-- **No deferred trap is dropped** in a run that goes on stepping, asserts no trap over a
waiting one and does not halt on one. -/
theorem deferred_resolved (m : Machine D) (acts : ℕ → CpuAction)
    (hfair : ∀ N, ∃ n ≥ N, acts n = .step)
    (hkeep : ∀ n, (ActionRun.trace (CpuAction.act io) m acts n).KeepsSlot (acts n)) :
    NeverDropped io (ActionRun.trace (CpuAction.act io) m acts) acts := by
  intro k m' no level hcall hg hw hf
  cases hact : acts k with
  | step =>
    rw [hact] at hcall
    exact ⟨k, le_rfl, hact, fun j hkj hjk => absurd hjk (Nat.not_le.mpr hkj),
      resolves_of_trapCall io hcall hg hw hf⟩
  | assertTrap no' level' =>
    rw [hact] at hcall
    obtain ⟨rfl, rfl, rfl⟩ : ActionRun.trace (CpuAction.act io) m acts k = m' ∧ no' = no ∧
        level' = level := by
      simpa [trapCall] using hcall
    have hsucc : ActionRun.trace (CpuAction.act io) m acts (k + 1) =
        (ActionRun.trace (CpuAction.act io) m acts k).deferTrap no' level' := by
      rw [ActionRun.trace_succ, hact]
      rcases doTrap_cases io (ActionRun.trace (CpuAction.act io) m acts k) no' level' with
        ⟨hg', -⟩ | ⟨-, -, h⟩ | ⟨-, hw', -⟩
      · rw [hg] at hg'
        exact Bool.noConfusion hg'
      · exact h
      · rw [hw] at hw'
        exact Bool.noConfusion hw'
    have hwait : (ActionRun.trace (CpuAction.act io) m acts (k + 1)).Waiting no' level' := by
      rw [hsucc]
      exact ⟨rfl, hw, hf⟩
    obtain ⟨n, hn, hstep, hopen, hres⟩ := hwait.resolved io
      (fun n => ActionRun.trace_succ m acts n) hfair hkeep _ (k + 1) rfl
    exact ⟨n, Nat.le_of_succ_le hn, hstep, hopen, hres⟩

/-! ### A window with one trap, and with two -/

/-- A boot ROM whose first instruction is a prefix. -/
def prefixRom : Machine Unit := ofRom [0x0004, 0x00C0, 0xC001, 0x6C50]

/-- The machine of `prefixRom`, with the vector of the NMI at `0x100`, the others at 0. The
handler of the NMI divides by `%r1` in the slot of a branch; the other is `halt`. -/
def twoVectors : Machine Unit :=
  { prefixRom with
    bus := { prefixRom.bus with
      iram := fun i =>
        match i with
        | 0x000 => 0x80
        | 0x100 => 0x02 | 0x101 => 0x1F
        | 0x102 => 0x10 | 0x103 => 0x8F
        | 0x41D => 1
        | _ => 0 } }

/-- The NMI is asserted after the prefix. -/
def oneTrap : ℕ → CpuAction
  | 1 => .assertTrap 7 0
  | _ => .step

/-- The NMI is asserted after the prefix, and then the trap of a division. -/
def twoTraps : ℕ → CpuAction
  | 1 => .assertTrap 7 0
  | 2 => .assertTrap 4 0
  | _ => .step

theorem oneTrap_step {n : ℕ} (h : n ≠ 1) : oneTrap n = .step := by
  unfold oneTrap
  split
  · exact absurd rfl h
  · rfl

/-- The run with one trap asserted, from the reset on. -/
def oneTrapRun : ℕ → Machine Unit :=
  ActionRun.trace (CpuAction.act (IoSpace.empty Unit)) (twoVectors.reset (IoSpace.empty Unit))
    oneTrap

/-- From the seventh state on the handler of the division has halted. -/
theorem oneTrapRun_halted (n : ℕ) (hn : 6 ≤ n) : oneTrapRun n = oneTrapRun 6 := by
  have hhalt : (oneTrapRun 6).cpu.inHalt = true := by decide +kernel
  have hfix (m : Machine Unit) (hm : m.cpu.inHalt = true) :
      CpuAction.act (IoSpace.empty Unit) m .step = m := steps_of_inHalt _ hm 1
  refine ActionRun.trace_const (t := oneTrapRun 6) (by unfold oneTrapRun; rfl) (fun n hn => ?_) n hn
  rw [oneTrap_step (by omega)]
  exact hfix _ hhalt

/-- The trap that is asserted after the prefix, and the one that the division in the slot
raises. -/
theorem deferred_resolved_oneTrap :
    ((oneTrapRun 1).trapCall (oneTrap 1)).map (fun c => (c.1.inWindow, c.2)) = some (true, 7, 0) ∧
      ((oneTrapRun 4).trapCall (oneTrap 4)).map (fun c => (c.1.inWindow, c.2)) =
        some (true, 4, 0) ∧
      NeverDropped (IoSpace.empty Unit) oneTrapRun oneTrap := by
  refine ⟨rfl, rfl,
    deferred_resolved _ _ _ (fun N => ⟨N + 2, by omega, oneTrap_step (by omega)⟩) fun n => ?_⟩
  match n with
  | 1 => exact fun _ _ => .inr rfl
  | 2 => exact fun _ _ _ => ⟨rfl, fun h => nomatch h⟩
  | 0 | 3 | 4 | 5 => exact fun h => nomatch h
  | n + 6 =>
    have hhalted := oneTrapRun_halted (n + 6) (by omega)
    unfold oneTrapRun at hhalted
    rw [hhalted]
    exact fun h => nomatch h

/-- **The second trap replaces the first**: the NMI is not entered. -/
theorem secondTrap_dropped :
    ¬NeverDropped (IoSpace.empty Unit)
      (ActionRun.trace (CpuAction.act (IoSpace.empty Unit))
        (twoVectors.reset (IoSpace.empty Unit)) twoTraps) twoTraps := by
  intro h
  obtain ⟨n, hn, hact, hopen, hres⟩ := h 1 _ 7 0 rfl rfl rfl rfl
  have h4 : n < 4 := by
    by_contra hn4
    exact nomatch hopen 4 (by omega) (by omega)
  obtain rfl | rfl | rfl : n = 1 ∨ n = 2 ∨ n = 3 := by omega
  · exact nomatch hact
  · exact nomatch hact
  · rcases hres with hf | ⟨-, heq | ⟨hno, -⟩⟩
    · exact nomatch hf
    · exact nomatch (congrArg (fun m => m.cpu.pc) heq :)
    · omega

end Machine
