import PieceEmu.Lib.Run
import PieceEmu.System.CpuRunner

/-!
# The cycle clock of the loop

The clock `totalCycles` moves in two ways: an instruction adds what it has cost, and a
halted CPU *jumps* to the first of the points at which something may happen next
(`CpuRunner.clockStep`). No jump looks at where the clock is: a jump to a point that has been
passed takes it back (`CpuRunner.step_lt_of_passed`).
-/

/-! ### The cost of an instruction -/

namespace Machine

variable {D : Type} {io : IoSpace D} {m : Machine D}

/-- An instruction costs less than `2 ^ 31` cycles. -/
theorem stepCycles_lt (m : Machine D) (io : IoSpace D) : m.stepCycles io < 2147483648 := by
  unfold stepCycles
  dsimp only
  split_ifs
  · exact BitVec.toInt_lt
  · decide

/-- The clock after an instruction that does not wrap it. -/
theorem toNat_add_stepCycles {t : U64} (hpos : 0 ≤ m.stepCycles io)
    (hroom : t.toNat + 2 ^ 31 ≤ 2 ^ 64) :
    (t + BitVec.ofInt 64 (m.stepCycles io)).toNat = t.toNat + (m.stepCycles io).toNat := by
  have hlt := stepCycles_lt m io
  have hcost : (BitVec.ofInt 64 (m.stepCycles io)).toNat = (m.stepCycles io).toNat := by
    rw [BitVec.toNat_ofInt, Int.emod_eq_of_lt hpos (by omega)]
  rw [BitVec.toNat_add, hcost, Nat.mod_eq_of_lt (by omega)]

end Machine

namespace CpuRunner

variable (cfg : RunnerConfig) (io : IoSpace PiecePeripherals) (r : CpuRunner) (inp : RunnerInput)

/-! ### Instructions and jumps -/

/-- The machine whose instruction a step executes, if it executes one. -/
def executes : Option (Machine PiecePeripherals) :=
  match r.phase with
  | .outer =>
    if r.quit || r.machine.cpu.fault || inp.resetRequest.isSome || !inp.asyncClient then none
    else if inp.asyncRunCmd = some true then
      some ((r.mapMachine inp.debugger).resume.traceInsn cfg).machine
    else none
  | .burst fastPath stop =>
    if !r.machine.cpu.inHalt && !r.machine.cpu.fault && r.totalCycles < stop then
      some (if fastPath then r.machine else (r.traceInsn cfg).machine)
    else none
  | .asyncLoop =>
    if r.machine.cpu.inHalt || r.machine.cpu.fault then none
    else if cfg.breakAddrs.contains (r.traceInsn cfg).machine.cpu.pc then none
    else some (r.traceInsn cfg).machine
  | _ => none

/-- The points in time a halted CPU jumps to the first of, if the step is a jump. -/
def jumpPoints : List U64 :=
  match r.phase with
  | .afterFrame =>
    if r.machine.cpu.fault || r.quit || !r.machine.cpu.inHalt then []
    else if r.machine.wakePoint = Words.uint64Max ∧ !r.machine.sleeping then []
    else [r.machine.wakePoint, r.nextRender, r.nextEventPoll]
  | .asyncStop =>
    if !r.machine.cpu.inHalt || r.machine.cpu.fault then [] else [r.machine.wakePoint]
  | _ => []

/-- The states of a run, step by step. -/
def run (r : CpuRunner) (inputs : ℕ → RunnerInput) : ℕ → CpuRunner :=
  ActionRun.trace (fun r inp => r.step cfg io inp) r inputs

/-! ### What a step does -/

/-- What the head of the outer loop does. -/
inductive OuterCase (r' : CpuRunner) : Prop
  | ends (ending : (r.quit || r.machine.cpu.fault) = true) (eq : r' = { r with phase := .done })
  | resets (cold : Bool) (running : (r.quit || r.machine.cpu.fault) = false)
      (request : inp.resetRequest = some cold) (eq : r' = r.handleReset io inp cold)
  | plays (running : (r.quit || r.machine.cpu.fault) = false) (request : inp.resetRequest = none)
      (client : inp.asyncClient = false) (fastPath : Bool)
      (eq : r' = { r.mapMachine inp.debugger with phase := .frame fastPath })
  | idles (running : (r.quit || r.machine.cpu.fault) = false) (request : inp.resetRequest = none)
      (client : inp.asyncClient = true) (cmd : inp.asyncRunCmd = none)
      (eq : r' = (r.mapMachine inp.debugger).pollButtons io inp)
  | continues (running : (r.quit || r.machine.cpu.fault) = false)
      (request : inp.resetRequest = none) (client : inp.asyncClient = true)
      (cmd : inp.asyncRunCmd = some false)
      (eq : r' = { (r.mapMachine inp.debugger).resume with phase := .asyncLoop })
  | steps (running : (r.quit || r.machine.cpu.fault) = false) (request : inp.resetRequest = none)
      (client : inp.asyncClient = true) (cmd : inp.asyncRunCmd = some true)
      (eq : r' = (((r.mapMachine inp.debugger).resume.traceInsn cfg).cpuStep io).doTick io)

theorem outerCase : r.OuterCase cfg io inp (r.stepOuter cfg io inp) := by
  unfold stepOuter
  cases hend : r.quit || r.machine.cpu.fault with
  | true => exact .ends hend rfl
  | false =>
    rw [if_neg Bool.false_ne_true]
    cases hreset : inp.resetRequest with
    | some cold => exact .resets cold hend hreset rfl
    | none =>
      cases hclient : inp.asyncClient with
      | false => exact .plays hend hreset hclient _ rfl
      | true =>
        rcases hcmd : inp.asyncRunCmd with _ | _ | _
        · exact .idles hend hreset hclient hcmd rfl
        · exact .continues hend hreset hclient hcmd rfl
        · exact .steps hend hreset hclient hcmd rfl

/-- What happens after the loop up to the next frame. -/
inductive AfterFrameCase (r' : CpuRunner) : Prop
  | ends (ending : (r.machine.cpu.fault || r.quit) = true) (eq : r' = { r with phase := .done })
  | plays (running : (r.machine.cpu.fault || r.quit) = false)
      (inHalt : r.machine.cpu.inHalt = false) (eq : r' = { r.renderIfDue with phase := .outer })
  | dead (running : (r.machine.cpu.fault || r.quit) = false) (inHalt : r.machine.cpu.inHalt = true)
      (dead : r.machine.wakePoint = Words.uint64Max ∧ !r.machine.sleeping)
      (eq : r' = { r with phase := .done })
  | jumps (running : (r.machine.cpu.fault || r.quit) = false)
      (inHalt : r.machine.cpu.inHalt = true)
      (alive : ¬(r.machine.wakePoint = Words.uint64Max ∧ !r.machine.sleeping))
      (eq : r' = { (((r.mapMachine Machine.askedWakePoint).jumpTo io r.haltTarget).pollIfDue io
        inp).renderIfDue with phase := .outer })

theorem afterFrameCase : r.AfterFrameCase io inp (r.stepAfterFrame io inp) := by
  unfold stepAfterFrame
  cases hend : r.machine.cpu.fault || r.quit with
  | true => exact .ends hend rfl
  | false =>
    rw [if_neg Bool.false_ne_true]
    cases hhalt : r.machine.cpu.inHalt with
    | false => exact .plays hend hhalt rfl
    | true =>
      rw [if_pos rfl]
      split_ifs with hdead
      · exact .dead hend hhalt hdead rfl
      · exact .jumps hend hhalt hdead rfl

/-- An instruction under the debugger, with the tick that is due after it. -/
def asyncTicked : CpuRunner := ((r.traceInsn cfg).cpuStep io).tickIfDue io

/-- What the head of the loop of a continuing debugger does. -/
inductive AsyncLoopCase (r' : CpuRunner) : Prop
  | ends (ending : (r.machine.cpu.inHalt || r.machine.cpu.fault) = true)
      (eq : r' = { r with phase := .asyncStop })
  | breaks (running : (r.machine.cpu.inHalt || r.machine.cpu.fault) = false)
      (hit : cfg.breakAddrs.contains (r.traceInsn cfg).machine.cpu.pc = true)
      (eq : r' = { r.traceInsn cfg with phase := .asyncStop })
  | stops (running : (r.machine.cpu.inHalt || r.machine.cpu.fault) = false)
      (miss : cfg.breakAddrs.contains (r.traceInsn cfg).machine.cpu.pc = false)
      (inHalt : (r.asyncTicked cfg io).machine.cpu.inHalt = false)
      (eq : r' = { r.asyncTicked cfg io with phase := .asyncStop })
  | quits (running : (r.machine.cpu.inHalt || r.machine.cpu.fault) = false)
      (miss : cfg.breakAddrs.contains (r.traceInsn cfg).machine.cpu.pc = false)
      (quit : ((r.asyncTicked cfg io).pollIfDue io inp).quit = true)
      (eq : r' = { ((r.asyncTicked cfg io).pollIfDue io inp).mapMachine
        (·.mapCpu ({ · with inHalt := true })) with phase := .asyncStop })
  | goesOn (running : (r.machine.cpu.inHalt || r.machine.cpu.fault) = false)
      (miss : cfg.breakAddrs.contains (r.traceInsn cfg).machine.cpu.pc = false)
      (eq : r' = (r.asyncTicked cfg io).pollIfDue io inp)

theorem asyncLoopCase : r.AsyncLoopCase cfg io inp (r.stepAsyncLoop cfg io inp) := by
  unfold stepAsyncLoop
  cases hend : r.machine.cpu.inHalt || r.machine.cpu.fault with
  | true => exact .ends hend rfl
  | false =>
    rw [if_neg Bool.false_ne_true]
    dsimp only
    cases hbreak : cfg.breakAddrs.contains (r.traceInsn cfg).machine.cpu.pc with
    | true => exact .breaks hend hbreak rfl
    | false =>
      rw [if_neg Bool.false_ne_true]
      split_ifs with hstop hquit
      · rw [Bool.and_eq_true, Bool.not_eq_true'] at hstop
        exact .stops hend hbreak hstop.1 rfl
      · exact .quits hend hbreak hquit.2 rfl
      · exact .goesOn hend hbreak rfl

/-- What happens after that loop. -/
inductive AsyncStopCase (r' : CpuRunner) : Prop
  | stays (idle : (r.machine.cpu.inHalt && !r.machine.cpu.fault) = false)
      (eq : r' = { r with phase := .outer })
  | never (inHalt : r.machine.cpu.inHalt = true) (fault : r.machine.cpu.fault = false)
      (wake : r.machine.wakePoint = Words.uint64Max)
      (eq : r' = { r.mapMachine Machine.askedWakePoint with phase := .outer })
  | jumps (inHalt : r.machine.cpu.inHalt = true) (fault : r.machine.cpu.fault = false)
      (wake : r.machine.wakePoint ≠ Words.uint64Max)
      (eq : r' = { (r.mapMachine Machine.askedWakePoint).jumpTo io r.machine.wakePoint with
        phase := .outer })

theorem asyncStopCase : r.AsyncStopCase io (r.stepAsyncStop io) := by
  unfold stepAsyncStop
  cases hgo : r.machine.cpu.inHalt && !r.machine.cpu.fault with
  | false => exact .stays hgo rfl
  | true =>
    rw [if_pos rfl]
    rw [Bool.and_eq_true, Bool.not_eq_true'] at hgo
    dsimp only
    split_ifs with hwake
    · exact .never hgo.1 hgo.2 hwake rfl
    · exact .jumps hgo.1 hgo.2 hwake rfl

/-! ### What leaves the clock alone -/

@[simp] theorem mapMachine_totalCycles (f : Machine PiecePeripherals → Machine PiecePeripherals) :
    (r.mapMachine f).totalCycles = r.totalCycles := rfl

@[simp] theorem updateTimerWake_totalCycles :
    r.updateTimerWake.totalCycles = r.totalCycles := rfl

/-- The callbacks that are answered set the next frame and the next tick. -/
theorem foldl_onClockChange_eq (changes : List ClockChange) :
    ∃ nextRender nextTimerWake, changes.foldl onClockChange r =
      { r with nextRender := nextRender, nextTimerWake := nextTimerWake } := by
  induction changes generalizing r with
  | nil => exact ⟨_, _, rfl⟩
  | cons change changes ih =>
    obtain ⟨nextRender, nextTimerWake, h⟩ := ih (r.onClockChange change)
    exact ⟨nextRender, nextTimerWake, h⟩

@[simp] theorem answerClockChanges_totalCycles :
    r.answerClockChanges.totalCycles = r.totalCycles := by
  obtain ⟨_, _, h⟩ := r.foldl_onClockChange_eq r.machine.periph.clockChanges
  unfold answerClockChanges
  rw [h]

@[simp] theorem doTick_totalCycles : (r.doTick io).totalCycles = r.totalCycles :=
  answerClockChanges_totalCycles _

@[simp] theorem tickIfDue_totalCycles : (r.tickIfDue io).totalCycles = r.totalCycles := by
  unfold tickIfDue
  split_ifs
  · exact doTick_totalCycles io r
  · rfl

@[simp] theorem jumpTo_totalCycles (target : U64) : (r.jumpTo io target).totalCycles = target :=
  doTick_totalCycles io _

@[simp] theorem setButtons_totalCycles (k5 k6 : U8) :
    (r.setButtons io k5 k6).totalCycles = r.totalCycles :=
  answerClockChanges_totalCycles _

@[simp] theorem sharedSetButtons_totalCycles :
    (r.sharedSetButtons io inp).totalCycles = r.totalCycles := by
  unfold sharedSetButtons
  exact setButtons_totalCycles io r ((inp.sharedButtons >>> 8).setWidth 8)
    (inp.sharedButtons.setWidth 8)

@[simp] theorem pollButtons_totalCycles : (r.pollButtons io inp).totalCycles = r.totalCycles := by
  unfold pollButtons
  dsimp only
  exact sharedSetButtons_totalCycles io r inp

@[simp] theorem pollIfDue_totalCycles : (r.pollIfDue io inp).totalCycles = r.totalCycles := by
  unfold pollIfDue
  split_ifs
  · dsimp only
    exact pollButtons_totalCycles io r inp
  · rfl

@[simp] theorem renderIfDue_totalCycles : r.renderIfDue.totalCycles = r.totalCycles := by
  unfold renderIfDue
  split_ifs <;> rfl

@[simp] theorem traceInsn_totalCycles : (r.traceInsn cfg).totalCycles = r.totalCycles := rfl

@[simp] theorem resume_totalCycles : r.resume.totalCycles = r.totalCycles := rfl

@[simp] theorem cpuStep_totalCycles :
    (r.cpuStep io).totalCycles = r.totalCycles + BitVec.ofInt 64 (r.machine.stepCycles io) := rfl

@[simp] theorem handleReset_totalCycles (cold : Bool) :
    (r.handleReset io inp cold).totalCycles = r.totalCycles := by
  unfold handleReset
  simp only [mapMachine_totalCycles, updateTimerWake_totalCycles, setButtons_totalCycles,
    sharedSetButtons_totalCycles]

/-! ### What leaves the phase alone -/

@[simp] theorem mapMachine_phase (f : Machine PiecePeripherals → Machine PiecePeripherals) :
    (r.mapMachine f).phase = r.phase := rfl

@[simp] theorem updateTimerWake_phase : r.updateTimerWake.phase = r.phase := rfl

@[simp] theorem answerClockChanges_phase : r.answerClockChanges.phase = r.phase := by
  obtain ⟨_, _, h⟩ := r.foldl_onClockChange_eq r.machine.periph.clockChanges
  unfold answerClockChanges
  rw [h]

@[simp] theorem cpuStep_phase : (r.cpuStep io).phase = r.phase := answerClockChanges_phase _

@[simp] theorem doTick_phase : (r.doTick io).phase = r.phase := answerClockChanges_phase _

@[simp] theorem tickIfDue_phase : (r.tickIfDue io).phase = r.phase := by
  unfold tickIfDue
  split_ifs
  · exact doTick_phase io r
  · rfl

@[simp] theorem setButtons_phase (k5 k6 : U8) : (r.setButtons io k5 k6).phase = r.phase :=
  answerClockChanges_phase _

@[simp] theorem sharedSetButtons_phase : (r.sharedSetButtons io inp).phase = r.phase :=
  setButtons_phase io r ((inp.sharedButtons >>> 8).setWidth 8) (inp.sharedButtons.setWidth 8)

@[simp] theorem pollButtons_phase : (r.pollButtons io inp).phase = r.phase :=
  sharedSetButtons_phase io r inp

@[simp] theorem pollIfDue_phase : (r.pollIfDue io inp).phase = r.phase := by
  unfold pollIfDue
  split_ifs
  · exact pollButtons_phase io r inp
  · rfl

@[simp] theorem handleReset_phase (cold : Bool) : (r.handleReset io inp cold).phase = r.phase := by
  unfold handleReset
  simp only [mapMachine_phase, updateTimerWake_phase, setButtons_phase, sharedSetButtons_phase]

/-! ### How the clock moves -/

/-- The three things a step can do to the clock. -/
inductive ClockStep (t' : U64) : Prop
  | stays (eq : t' = r.totalCycles)
  | pays (m : Machine PiecePeripherals) (executes : r.executes cfg inp = some m)
      (eq : t' = r.totalCycles + BitVec.ofInt 64 (m.stepCycles io))
  | jumps (mem : t' ∈ r.jumpPoints) (first : ∀ t ∈ r.jumpPoints, t' ≤ t)

variable {r}

theorem clockStep_outer (hphase : r.phase = .outer) :
    r.ClockStep cfg io inp (r.stepOuter cfg io inp).totalCycles := by
  rcases r.outerCase cfg io inp with ⟨-, h⟩ | ⟨cold, -, -, h⟩ | ⟨-, -, -, _, h⟩ |
    ⟨-, -, -, -, h⟩ | ⟨-, -, -, -, h⟩ | ⟨hend, hreset, hclient, hcmd, h⟩
  · exact .stays (h ▸ rfl)
  · exact .stays (h ▸ handleReset_totalCycles io r inp cold)
  · exact .stays (h ▸ rfl)
  · exact .stays (h ▸ pollButtons_totalCycles io _ inp)
  · exact .stays (h ▸ rfl)
  · refine .pays ((r.mapMachine inp.debugger).resume.traceInsn cfg).machine ?_
      (h ▸ doTick_totalCycles io _)
    unfold executes
    rw [hphase]
    simp [hend, hreset, hclient, hcmd]

theorem clockStep_burst {fastPath : Bool} {stop : U64} (hphase : r.phase = .burst fastPath stop) :
    r.ClockStep cfg io inp (r.stepBurst cfg io fastPath stop).totalCycles := by
  unfold stepBurst
  by_cases hgo : (!r.machine.cpu.inHalt && !r.machine.cpu.fault && r.totalCycles < stop) = true
  · have hexec : r.executes cfg inp =
        some (if fastPath then r.machine else (r.traceInsn cfg).machine) := by
      unfold executes
      rw [hphase]
      exact if_pos hgo
    rw [if_pos hgo]
    cases fastPath with
    | true => exact .pays r.machine hexec rfl
    | false =>
      refine .pays (r.traceInsn cfg).machine hexec ?_
      rw [if_neg Bool.false_ne_true]
      dsimp only
      split_ifs <;> rfl
  · rw [if_neg hgo]
    exact .stays rfl

@[simp] theorem stepAfterBurst_totalCycles (r : CpuRunner) (fastPath : Bool) :
    (r.stepAfterBurst io inp fastPath).totalCycles = r.totalCycles := by
  unfold stepAfterBurst
  split_ifs
  · rfl
  · exact (pollIfDue_totalCycles io _ inp).trans (tickIfDue_totalCycles io r)

/-- The target of the jump is the first of the points. -/
theorem haltTarget_le : r.haltTarget ≤ r.machine.wakePoint ∧ r.haltTarget ≤ r.nextRender ∧
    r.haltTarget ≤ r.nextEventPoll := by
  have hleft := Words.stdMin_le_left (Words.stdMin r.machine.wakePoint r.nextRender)
    r.nextEventPoll
  exact ⟨BitVec.le_trans hleft (Words.stdMin_le_left ..),
    BitVec.le_trans hleft (Words.stdMin_le_right ..), Words.stdMin_le_right ..⟩

theorem haltTarget_mem :
    r.haltTarget ∈ [r.machine.wakePoint, r.nextRender, r.nextEventPoll] := by
  unfold haltTarget
  rcases Words.stdMin_eq (Words.stdMin r.machine.wakePoint r.nextRender) r.nextEventPoll with h | h
  · rcases Words.stdMin_eq r.machine.wakePoint r.nextRender with h' | h'
    · rw [h, h']
      exact List.mem_cons_self
    · rw [h, h']
      exact List.mem_cons_of_mem _ List.mem_cons_self
  · rw [h]
    exact List.mem_cons_of_mem _ (List.mem_cons_of_mem _ List.mem_cons_self)

theorem jumpPoints_afterFrame (hphase : r.phase = .afterFrame)
    (hend : (r.machine.cpu.fault || r.quit) = false) (hhalt : r.machine.cpu.inHalt = true)
    (halive : ¬(r.machine.wakePoint = Words.uint64Max ∧ (!r.machine.sleeping) = true)) :
    r.jumpPoints = [r.machine.wakePoint, r.nextRender, r.nextEventPoll] := by
  unfold jumpPoints
  rw [hphase]
  dsimp only
  rw [hend, hhalt, if_neg (by decide), if_neg halive]

/-- The clock after a jump in the loop of frames. -/
theorem totalCycles_jumped : { (((r.mapMachine Machine.askedWakePoint).jumpTo io
    r.haltTarget).pollIfDue io inp).renderIfDue with phase := .outer }.totalCycles =
      r.haltTarget := by
  dsimp only
  rw [renderIfDue_totalCycles, pollIfDue_totalCycles, jumpTo_totalCycles]

theorem clockStep_afterFrame (hphase : r.phase = .afterFrame) :
    r.ClockStep cfg io inp (r.stepAfterFrame io inp).totalCycles := by
  rcases r.afterFrameCase io inp with ⟨-, h⟩ | ⟨-, -, h⟩ | ⟨-, -, -, h⟩ | ⟨hend, hhalt, halive, h⟩
  · exact .stays (h ▸ rfl)
  · exact .stays (h ▸ renderIfDue_totalCycles r)
  · exact .stays (h ▸ rfl)
  · have hpoints := jumpPoints_afterFrame hphase hend hhalt halive
    rw [h, totalCycles_jumped]
    refine .jumps (hpoints ▸ haltTarget_mem) fun t ht => ?_
    rw [hpoints] at ht
    obtain ⟨hwake, hrender, hpoll⟩ := haltTarget_le (r := r)
    simp only [List.mem_cons, List.not_mem_nil, or_false] at ht
    rcases ht with rfl | rfl | rfl
    · exact hwake
    · exact hrender
    · exact hpoll

theorem executes_asyncLoop (hphase : r.phase = .asyncLoop)
    (hrun : (r.machine.cpu.inHalt || r.machine.cpu.fault) = false)
    (hmiss : cfg.breakAddrs.contains (r.traceInsn cfg).machine.cpu.pc = false) :
    r.executes cfg inp = some (r.traceInsn cfg).machine := by
  unfold executes
  rw [hphase]
  dsimp only
  rw [hrun, if_neg Bool.false_ne_true, hmiss, if_neg Bool.false_ne_true]

@[simp] theorem asyncTicked_totalCycles :
    (r.asyncTicked cfg io).totalCycles = ((r.traceInsn cfg).cpuStep io).totalCycles :=
  tickIfDue_totalCycles io _

theorem clockStep_asyncLoop (hphase : r.phase = .asyncLoop) :
    r.ClockStep cfg io inp (r.stepAsyncLoop cfg io inp).totalCycles := by
  have hpays (hrun : (r.machine.cpu.inHalt || r.machine.cpu.fault) = false)
      (hmiss : cfg.breakAddrs.contains (r.traceInsn cfg).machine.cpu.pc = false) :
      r.ClockStep cfg io inp ((r.traceInsn cfg).cpuStep io).totalCycles :=
    .pays _ (executes_asyncLoop cfg inp hphase hrun hmiss) rfl
  have hpolled : ((r.asyncTicked cfg io).pollIfDue io inp).totalCycles =
      ((r.traceInsn cfg).cpuStep io).totalCycles :=
    (pollIfDue_totalCycles io _ inp).trans (asyncTicked_totalCycles cfg io)
  rcases r.asyncLoopCase cfg io inp with ⟨-, h⟩ | ⟨-, -, h⟩ | ⟨hrun, hmiss, -, h⟩ |
    ⟨hrun, hmiss, -, h⟩ | ⟨hrun, hmiss, h⟩
  · exact .stays (h ▸ rfl)
  · exact .stays (h ▸ rfl)
  · rw [h]
    exact asyncTicked_totalCycles cfg io (r := r) ▸ hpays hrun hmiss
  · rw [h]
    exact hpolled ▸ hpays hrun hmiss
  · rw [h]
    exact hpolled ▸ hpays hrun hmiss

theorem jumpPoints_asyncStop (hphase : r.phase = .asyncStop) (hhalt : r.machine.cpu.inHalt = true)
    (hfault : r.machine.cpu.fault = false) : r.jumpPoints = [r.machine.wakePoint] := by
  unfold jumpPoints
  rw [hphase]
  dsimp only
  rw [hhalt, hfault]
  rfl

/-- The clock after a jump under the debugger. -/
theorem totalCycles_asyncJumped : { (r.mapMachine Machine.askedWakePoint).jumpTo io
    r.machine.wakePoint with phase := .outer }.totalCycles = r.machine.wakePoint :=
  jumpTo_totalCycles io _ _

theorem clockStep_asyncStop (hphase : r.phase = .asyncStop) :
    r.ClockStep cfg io inp (r.stepAsyncStop io).totalCycles := by
  rcases r.asyncStopCase io with ⟨-, h⟩ | ⟨-, -, -, h⟩ | ⟨hhalt, hfault, -, h⟩
  · exact .stays (h ▸ rfl)
  · exact .stays (h ▸ rfl)
  · have hpoints := jumpPoints_asyncStop hphase hhalt hfault
    rw [h, totalCycles_asyncJumped]
    refine .jumps (hpoints ▸ List.mem_singleton_self _) fun t ht => ?_
    rw [hpoints, List.mem_singleton] at ht
    exact BitVec.le_of_eq ht.symm

/-- **The inversion lemma of the clock.** -/
theorem clockStep (r : CpuRunner) :
    r.ClockStep cfg io inp (r.step cfg io inp).totalCycles := by
  unfold step
  split
  case h_1 h => exact clockStep_outer cfg io inp h
  case h_2 fastPath h =>
    refine .stays ?_
    unfold stepFrame
    split_ifs <;> rfl
  case h_3 fastPath stop h => exact clockStep_burst cfg io inp h
  case h_4 fastPath h => exact .stays (stepAfterBurst_totalCycles io inp r fastPath)
  case h_5 h => exact clockStep_afterFrame cfg io inp h
  case h_6 h => exact clockStep_asyncLoop cfg io inp h
  case h_7 h => exact clockStep_asyncStop cfg io inp h
  case h_8 h => exact .stays rfl

/-! ### Going back -/

/-- **A jump to a point that has been passed takes the clock back.** -/
theorem step_lt_of_passed {r : CpuRunner} {t : U64} (ht : t ∈ r.jumpPoints)
    (hpassed : t < r.totalCycles) : (r.step cfg io inp).totalCycles < r.totalCycles := by
  have hlt {u : U64} (hu : u ≤ t) : u < r.totalCycles :=
    BitVec.lt_def.mpr (Nat.lt_of_le_of_lt (BitVec.le_def.mp hu) (BitVec.lt_def.mp hpassed))
  unfold step
  cases hphase : r.phase with
  | afterFrame =>
    rcases r.afterFrameCase io inp with ⟨hend, -⟩ | ⟨hend, hhalt, -⟩ | ⟨hend, hhalt, hdead, -⟩ |
      ⟨hend, hhalt, halive, h⟩
    · exact absurd ht (by simp [jumpPoints, hphase, hend])
    · exact absurd ht (by simp [jumpPoints, hphase, hend, hhalt])
    · exact absurd ht (by simp [jumpPoints, hphase, hend, hhalt, hdead.1, hdead.2])
    · rw [jumpPoints_afterFrame hphase hend hhalt halive] at ht
      dsimp only
      rw [h, totalCycles_jumped]
      obtain ⟨hwake, hrender, hpoll⟩ := haltTarget_le (r := r)
      simp only [List.mem_cons, List.not_mem_nil, or_false] at ht
      rcases ht with rfl | rfl | rfl
      · exact hlt hwake
      · exact hlt hrender
      · exact hlt hpoll
  | asyncStop =>
    rcases r.asyncStopCase io with ⟨hidle, -⟩ | ⟨hhalt, hfault, hwake, -⟩ | ⟨hhalt, hfault, -, h⟩
    · refine absurd ht ?_
      unfold jumpPoints
      rw [hphase]
      dsimp only
      rw [← Bool.not_not r.machine.cpu.fault, ← Bool.not_and, hidle]
      exact List.not_mem_nil
    · rw [jumpPoints_asyncStop hphase hhalt hfault, List.mem_singleton] at ht
      rw [ht, hwake] at hpassed
      exact absurd (BitVec.lt_def.mp hpassed) (Nat.not_lt.mpr (Nat.le_of_lt_succ
        r.totalCycles.isLt))
    · rw [jumpPoints_asyncStop hphase hhalt hfault, List.mem_singleton] at ht
      dsimp only
      rw [h, totalCycles_asyncJumped, ← ht]
      exact hpassed
  | outer | frame | burst | afterBurst | asyncLoop | done =>
    unfold jumpPoints at ht
    rw [hphase] at ht
    exact absurd ht List.not_mem_nil

/-! ### A board that halts -/

/-- A board that boots into halts, without register handlers. -/
def haltBoard : Machine PiecePeripherals where
  cpu := {}
  bus :=
    { iram := fun _ => 0, sram := fun _ => 0, sramSize := 0x40000
      dev := PiecePeripherals.attach {}
      flash := .flat ⟨0x80000, fun i =>
        (([0x0004, 0x00C0, 0x0080, 0x0080] : List U16).getD (i / 2) 0xFFFF >>>
          (8 * (i % 2))).setWidth 8⟩ }

end CpuRunner
