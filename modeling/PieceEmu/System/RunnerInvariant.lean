import PieceEmu.Debug.GdbRegs
import PieceEmu.System.CycleClock
import PieceEmu.System.HaltLoop
import PieceEmu.System.RegisterAccess

/-!
# Invariants of the devices in the loop

Besides the register handlers, the loop itself changes the peripherals: it ticks them,
moves the inputs of the keys, asks for the wake point and answers callbacks. An invariant
of the devices that stands this too (`LoopInvariant`) is kept by every step of the CPU
thread that handles no reset (`CpuRunner.satisfies_step`). A tick may keep it at some cycle
counts only. An invariant of the clock control, the ports, the area registers and the
divisor of the bus clock (`ControlInvariant`) stands a tick at any time, which changes none of
them (`ControlInvariant.loop`).

What the debugger does to the machine while it is paused is a list of accesses
(`DebuggerAccess`): it writes registers of the CPU and bytes of the memory map, and reads
such bytes.
-/

/-! ### The accesses of the debugger -/

/-- What a command of the debugger does to the machine. -/
inductive DebuggerAccess
  /-- `reg_write_n`. -/
  | writeReg (n : ℕ) (val : U32)
  /-- A byte of `m`. -/
  | readMem (addr : U32)
  /-- A byte of `M`. -/
  | writeMem (addr : U32) (val : U8)
  /-- `add_watchpoint`, `remove_watchpoint` and `clear_watchpoints`. -/
  | setWatchpoints (wps : List Watchpoint)
  /-- `set_strict`. -/
  | setStrict (strict : Bool)
  /-- A watchpoint has been hit: the CPU is halted. -/
  | halt
  deriving DecidableEq

/-- One access. -/
def DebuggerAccess.act {D : Type} (io : IoSpace D) (m : Machine D) : DebuggerAccess → Machine D
  | writeReg n val => m.mapCpu (·.regWriteN n val)
  | readMem addr => (m.read8 io addr).2
  | writeMem addr val => m.write8 io addr val
  | setWatchpoints wps => { m with bus := { m.bus with watchpoints := wps } }
  | setStrict strict => { m with strict }
  | halt => m.mapCpu ({ · with inHalt := true })

/-- The debugger has made these accesses. -/
def DebuggerAccess.session {D : Type} (io : IoSpace D) (as : List DebuggerAccess)
    (m : Machine D) : Machine D :=
  as.foldl (act io) m

theorem DeviceInvariant.session {D : Type} {io : IoSpace D} {P : Bus D → U32 → Prop}
    (hP : DeviceInvariant io P) (as : List DebuggerAccess) {m : Machine D} (h : m.Satisfies P) :
    (DebuggerAccess.session io as m).Satisfies P := by
  induction as generalizing m with
  | nil => exact h
  | cons a as ih =>
    refine ih ?_
    cases a with
    | writeReg n val =>
      change P m.bus (m.cpu.regWriteN n val).ttbr
      rw [CpuState.regWriteN_ttbr]
      exact h
    | readMem addr => exact hP.load8 h addr
    | writeMem addr val => exact hP.write8 h addr val
    | setWatchpoints wps => exact hP.congr h rfl rfl rfl
    | setStrict strict | halt => exact h

/-! ### The peripherals -/

/-- **An invariant of the loop** over the registers `io`: what the loop does to the
peripherals keeps it as well. A change that leaves the controls and the timers alone does, a
question for the wake point does, and a tick of a timer does at the cycle counts of `At`. -/
structure LoopInvariant (io : IoSpace PiecePeripherals) (At : U64 → Prop)
    (P : Bus PiecePeripherals → U32 → Prop) : Prop extends DeviceInvariant io P where
  quiet : ∀ {b b' t}, Bus.SameControl b b' → b'.dev.t8 = b.dev.t8 → b'.dev.t16 = b.dev.t16 →
    P b t → P b' t
  askedWake : ∀ {b t}, P b t → P { b with dev := b.dev.askedWake } t
  t16 : ∀ {now}, At now → ∀ {b t} (i : Fin 6), P b t →
    P { b with dev := b.dev.act (.tickT16 i now) } t
  t8 : ∀ {now}, At now → ∀ {b t} (i : Fin 4), P b t →
    P { b with dev := b.dev.act (.tickT8 i now) } t

/-- The controls do not change in the loop. -/
theorem ControlInvariant.loop {P : Bus PiecePeripherals → U32 → Prop}
    (hP : ControlInvariant .cpuRunner P) (o : OtherDevices) :
    LoopInvariant (o.attach .cpuRunner) (fun _ => True) P where
  toDeviceInvariant := hP.attach o
  quiet hsame _ _ h := hP.congr hsame h
  askedWake h := hP.congr ⟨Frontend.askedWake_clk _, congrArg _ (Frontend.askedWake_portctrl _),
    Frontend.askedWake_bcuArea _, rfl⟩ h
  t16 := fun {now} _ {b _} i h => hP.congr (show Bus.SameControl b
    { b with dev := b.dev.act (.tickT16 i now) } from ⟨rfl, rfl, rfl, rfl⟩) h
  t8 := fun {now} _ {b _} i h => hP.congr (show Bus.SameControl b
    { b with dev := b.dev.act (.tickT8 i now) } from ⟨rfl, rfl, rfl, rfl⟩) h

namespace LoopInvariant

variable {io : IoSpace PiecePeripherals} {At : U64 → Prop}
  {P : Bus PiecePeripherals → U32 → Prop} (hP : LoopInvariant io At P)
  {m : Machine PiecePeripherals}
include hP

/-- A change of the other peripherals keeps the predicate. -/
theorem mapPeriph {f : PiecePeripherals → PiecePeripherals} (h : m.Satisfies P)
    (hclk : (f m.periph).clk = m.periph.clk)
    (hpport : (f m.periph).portctrl.pport = m.periph.portctrl.pport)
    (hbcu : (f m.periph).bcuArea = m.periph.bcuArea) (ht8 : (f m.periph).t8 = m.periph.t8)
    (ht16 : (f m.periph).t16 = m.periph.t16) : (m.mapPeriph f).Satisfies P :=
  hP.quiet ⟨hclk, hpport, hbcu, rfl⟩ ht8 ht16 h

theorem deliver (h : m.Satisfies P) (c : InterruptController × Option (ℤ × ℤ)) :
    (m.deliver io c).Satisfies P := by
  have hintc : (m.mapPeriph ({ · with intc := c.1 })).Satisfies P :=
    hP.mapPeriph h rfl rfl rfl rfl rfl
  unfold Machine.deliver
  cases c.2 with
  | none => exact hintc
  | some trap => exact hP.doTrap hintc trap.1 trap.2

theorem raiseAll (h : m.Satisfies P) (srcs : List IrqSource) :
    (m.raiseAll io srcs).Satisfies P := by
  unfold Machine.raiseAll
  induction srcs generalizing m with
  | nil => exact h
  | cons src srcs ih => exact ih (hP.deliver h _)

theorem tickT16 (h : m.Satisfies P) {cycles : U64} (hat : At cycles) (i : Fin 6) :
    (Machine.tickT16 io cycles m i).Satisfies P := by
  have hticked : (m.mapPeriph (·.act (.tickT16 i cycles))).Satisfies P := hP.t16 hat i h
  exact hP.raiseAll hticked _

theorem tickT8 (h : m.Satisfies P) {cycles : U64} (hat : At cycles) (i : Fin 4) :
    (Machine.tickT8 io cycles m i).Satisfies P := by
  have hticked : (m.mapPeriph (·.act (.tickT8 i cycles))).Satisfies P := hP.t8 hat i h
  exact hP.raiseAll hticked _

omit hP in
theorem foldl_tick {ι : Type} {tick : Machine PiecePeripherals → ι → Machine PiecePeripherals}
    (htick : ∀ m i, m.Satisfies P → (tick m i).Satisfies P) (l : List ι) (h : m.Satisfies P) :
    (l.foldl tick m).Satisfies P := by
  induction l generalizing m with
  | nil => exact h
  | cons i l ih => exact ih (htick m i h)

theorem tickWdt (h : m.Satisfies P) (cycles : U64) : (m.tickWdt io cycles).Satisfies P := by
  unfold Machine.tickWdt
  dsimp only
  split_ifs
  · exact hP.doTrap (m := m.mapPeriph _) (hP.mapPeriph h rfl rfl rfl rfl rfl) 7 0
  · exact hP.mapPeriph h rfl rfl rfl rfl rfl

theorem tickSound (h : m.Satisfies P) (cycles : U64) : (m.tickSound io cycles).Satisfies P := by
  unfold Machine.tickSound
  dsimp only
  split_ifs
  · exact hP.deliver (hP.mapPeriph h rfl rfl rfl rfl rfl) _
  · exact hP.mapPeriph h rfl rfl rfl rfl rfl

theorem tickPeripherals (h : m.Satisfies P) {cycles : U64} (hat : At cycles) :
    (m.tickPeripherals io cycles).Satisfies P := by
  have ht16 := foldl_tick (fun m i hm => hP.tickT16 hm hat i)
    ((List.finRange 6).filter fun i => (m.periph.t16 i).active) h
  have ht8 := foldl_tick (fun m i hm => hP.tickT8 hm hat i)
    ((List.finRange 4).filter fun i => (m.periph.t8 i).active) ht16
  have hwdt := hP.tickWdt ht8 cycles
  have hrtc := hP.mapPeriph (f := fun p => { p with rtc := p.rtc.tick p.clk cycles }) hwdt
    rfl rfl rfl rfl rfl
  exact hP.mapPeriph (hP.tickSound hrtc cycles) rfl rfl rfl rfl rfl

theorem tickAndPoll (h : m.Satisfies P) {cycles : U64} (hat : At cycles) :
    (m.tickAndPoll io cycles).Satisfies P :=
  hP.deliver (hP.mapPeriph (hP.tickPeripherals h hat) rfl rfl rfl rfl rfl) _

/-- The inputs of the keys change, and the keys raise their interrupts. -/
theorem press (h : m.Satisfies P) (k : PortCtrl × List IrqSource)
    (hk : k.1.pport = m.periph.portctrl.pport) :
    ((m.mapPeriph ({ · with portctrl := k.1 })).raiseAll io k.2).Satisfies P :=
  hP.raiseAll (hP.mapPeriph h rfl hk rfl rfl rfl) k.2

theorem askedWakePoint (h : m.Satisfies P) : m.askedWakePoint.Satisfies P := by
  unfold Machine.askedWakePoint
  split_ifs
  · exact h
  · exact hP.askedWake (b := m.bus) h

end LoopInvariant

/-! ### The loop -/

namespace CpuRunner

/-- The machine of the thread satisfies a predicate. -/
def Satisfies (r : CpuRunner) (P : Bus PiecePeripherals → U32 → Prop) : Prop :=
  r.machine.Satisfies P

/-- The reset a step handles, if it handles one: a cold start, or a hot one. -/
def takesReset (r : CpuRunner) (inp : RunnerInput) : Option Bool :=
  if r.phase = .outer ∧ !r.quit && !r.machine.cpu.fault then inp.resetRequest else none

variable {io : IoSpace PiecePeripherals} {At : U64 → Prop}
  {P : Bus PiecePeripherals → U32 → Prop} (hP : LoopInvariant io At P) (cfg : RunnerConfig)
  {r : CpuRunner} (inp : RunnerInput)
include hP

omit hP in
/-- Only the machine of a thread matters. -/
theorem Satisfies.of_machine {r r' : CpuRunner} (h : r.Satisfies P)
    (hm : r'.machine = r.machine) : r'.Satisfies P := by
  unfold CpuRunner.Satisfies at h ⊢
  rwa [hm]

omit hP in
/-- Halting the CPU changes nothing the predicate sees. -/
theorem Satisfies.halted {r : CpuRunner} (h : r.Satisfies P) :
    (r.mapMachine (·.mapCpu ({ · with inHalt := true }))).Satisfies P := h

omit hP in
theorem satisfies_ite {c : Prop} [Decidable c] {r r' : CpuRunner} (h : c → r.Satisfies P)
    (h' : ¬c → r'.Satisfies P) : (if c then r else r').Satisfies P := by
  split_ifs with hc
  · exact h hc
  · exact h' hc

theorem satisfies_answer (h : r.Satisfies P) : r.answerClockChanges.Satisfies P :=
  hP.mapPeriph (m := r.machine) h rfl rfl rfl rfl rfl

theorem satisfies_updateTimerWake (h : r.Satisfies P) : r.updateTimerWake.Satisfies P :=
  hP.askedWake (b := r.machine.bus) h

theorem satisfies_doTick (h : r.Satisfies P) (hat : At r.totalCycles) :
    (r.doTick io).Satisfies P :=
  satisfies_updateTimerWake hP (satisfies_answer hP (r := r.mapMachine _)
    (hP.tickAndPoll (m := r.machine) h hat))

theorem satisfies_tickIfDue (h : r.Satisfies P) (hat : At r.totalCycles) :
    (r.tickIfDue io).Satisfies P :=
  satisfies_ite (fun _ => satisfies_doTick hP h hat) fun _ => h

theorem satisfies_setButtons (h : r.Satisfies P) (k5 k6 : U8) :
    (r.setButtons io k5 k6).Satisfies P := by
  have hk5 := hP.press (m := r.machine) h (r.machine.periph.portctrl.setK5 k5) rfl
  unfold setButtons
  exact satisfies_answer hP (hP.press hk5 (PortCtrl.setK6 _ k6) rfl)

theorem satisfies_pollButtons (h : r.Satisfies P) : (r.pollButtons io inp).Satisfies P :=
  satisfies_setButtons hP h _ _

theorem satisfies_pollIfDue (h : r.Satisfies P) : (r.pollIfDue io inp).Satisfies P := by
  unfold pollIfDue
  split_ifs
  · exact (satisfies_pollButtons hP inp h).of_machine rfl
  · exact h

theorem satisfies_traceInsn (h : r.Satisfies P) : (r.traceInsn cfg).Satisfies P := by
  unfold traceInsn
  dsimp only
  cases cfg.trace with
  | true => exact hP.congr (hP.disasm (m := r.machine) h r.machine.cpu.pc) rfl rfl rfl
  | false => exact hP.congr h rfl rfl rfl

theorem satisfies_cpuStep (h : r.Satisfies P) : (r.cpuStep io).Satisfies P :=
  satisfies_answer hP (r := r.mapMachine _) (hP.step (m := r.machine) h)

theorem satisfies_start (h : r.Satisfies P) : (r.start io).Satisfies P :=
  satisfies_updateTimerWake hP (satisfies_setButtons hP h 0xFF 0xFF)

/-- A reset keeps the predicate if what it does to the peripherals and the CPU does. -/
theorem satisfies_handleReset (cold : Bool)
    (h : ((r.machine.resetPeripherals cold).reset io).Satisfies P) :
    (r.handleReset io inp cold).Satisfies P := by
  have hmachine : (r.mapMachine fun m => (m.resetPeripherals cold).reset io).Satisfies P := h
  have hbuttons := satisfies_pollButtons hP inp (satisfies_setButtons hP hmachine 0xFF 0xFF)
  unfold handleReset
  refine hP.mapPeriph ?_ rfl rfl rfl rfl rfl
  exact hP.askedWake hbuttons

/-! ### The phases -/

theorem satisfies_stepOuter (h : r.Satisfies P)
    (hreset : ∀ cold ∈ r.takesReset inp,
      ((r.machine.resetPeripherals cold).reset io).Satisfies P)
    (hdebugger : (r.mapMachine inp.debugger).Satisfies P) (hphase : r.phase = .outer)
    (hat : At (r.stepOuter cfg io inp).totalCycles) :
    (r.stepOuter cfg io inp).Satisfies P := by
  rcases r.outerCase cfg io inp with ⟨-, heq⟩ | ⟨cold, hend, hreq, heq⟩ | ⟨-, -, -, _, heq⟩ |
    ⟨-, -, -, -, heq⟩ | ⟨-, -, -, -, heq⟩ | ⟨-, -, -, -, heq⟩
  all_goals rw [heq] at hat ⊢
  · exact h.of_machine rfl
  · refine satisfies_handleReset hP inp cold (hreset cold ?_)
    unfold takesReset
    rw [if_pos ⟨hphase, by simpa using hend⟩, hreq]
    rfl
  · exact hdebugger
  · exact satisfies_pollButtons hP inp hdebugger
  · exact hdebugger
  · rw [doTick_totalCycles] at hat
    have hresumed : (r.mapMachine inp.debugger).resume.Satisfies P := hdebugger
    exact satisfies_doTick hP (satisfies_cpuStep hP (satisfies_traceInsn hP cfg hresumed)) hat

theorem satisfies_stepBurst (h : r.Satisfies P) (fastPath : Bool) (stop : U64) :
    (r.stepBurst cfg io fastPath stop).Satisfies P := by
  have htraced := satisfies_cpuStep hP (satisfies_traceInsn hP cfg h)
  unfold stepBurst
  refine satisfies_ite (fun _ => ?_) fun _ => h.of_machine rfl
  refine satisfies_ite (fun _ => satisfies_cpuStep hP h) fun _ => ?_
  exact satisfies_ite (fun _ => htraced.of_machine rfl) fun _ => htraced

theorem satisfies_jumpTo (h : r.Satisfies P) {target : U64} (hat : At target) :
    (r.jumpTo io target).Satisfies P :=
  satisfies_doTick hP (h.of_machine rfl) hat

omit hP in
theorem satisfies_renderIfDue (h : r.Satisfies P) : r.renderIfDue.Satisfies P := by
  unfold renderIfDue
  exact satisfies_ite (fun _ => h.of_machine rfl) fun _ => h

theorem satisfies_stepAfterBurst (h : r.Satisfies P) (fastPath : Bool) (hat : At r.totalCycles) :
    (r.stepAfterBurst io inp fastPath).Satisfies P := by
  unfold stepAfterBurst
  refine satisfies_ite (fun _ => h.of_machine rfl) fun _ => ?_
  exact (satisfies_pollIfDue hP inp (satisfies_tickIfDue hP h hat)).of_machine rfl

theorem satisfies_stepAfterFrame (h : r.Satisfies P)
    (hat : At (r.stepAfterFrame io inp).totalCycles) :
    (r.stepAfterFrame io inp).Satisfies P := by
  rcases r.afterFrameCase io inp with ⟨-, heq⟩ | ⟨-, -, heq⟩ | ⟨-, -, -, heq⟩ | ⟨-, -, -, heq⟩
  all_goals rw [heq] at hat ⊢
  · exact h.of_machine rfl
  · exact (satisfies_renderIfDue h).of_machine rfl
  · exact h.of_machine rfl
  · rw [totalCycles_jumped] at hat
    have hasked : (r.mapMachine Machine.askedWakePoint).Satisfies P :=
      hP.askedWakePoint (m := r.machine) h
    exact (satisfies_renderIfDue
      (satisfies_pollIfDue hP inp (satisfies_jumpTo hP hasked hat))).of_machine rfl

theorem satisfies_stepAsyncLoop (h : r.Satisfies P)
    (hat : At (r.stepAsyncLoop cfg io inp).totalCycles) :
    (r.stepAsyncLoop cfg io inp).Satisfies P := by
  have htraced := satisfies_traceInsn hP cfg h
  have hstepped := satisfies_cpuStep hP htraced
  rcases r.asyncLoopCase cfg io inp with ⟨-, heq⟩ | ⟨-, -, heq⟩ | ⟨-, -, -, heq⟩ |
    ⟨-, -, -, heq⟩ | ⟨-, -, heq⟩
  all_goals rw [heq] at hat ⊢
  · exact h.of_machine rfl
  · exact htraced.of_machine rfl
  · have hticked := satisfies_tickIfDue hP hstepped (tickIfDue_totalCycles io _ ▸ hat)
    exact hticked.of_machine rfl
  · have hclock := (pollIfDue_totalCycles io (r.asyncTicked cfg io) inp).trans
      (tickIfDue_totalCycles io _)
    have hticked := satisfies_tickIfDue hP hstepped (hclock ▸ hat)
    exact (satisfies_pollIfDue hP inp hticked).halted.of_machine rfl
  · rw [pollIfDue_totalCycles, asyncTicked_totalCycles] at hat
    exact satisfies_pollIfDue hP inp (satisfies_tickIfDue hP hstepped hat)

theorem satisfies_stepAsyncStop (h : r.Satisfies P) (hat : At (r.stepAsyncStop io).totalCycles) :
    (r.stepAsyncStop io).Satisfies P := by
  have hasked : (r.mapMachine Machine.askedWakePoint).Satisfies P :=
    hP.askedWakePoint (m := r.machine) h
  rcases r.asyncStopCase io with ⟨-, heq⟩ | ⟨-, -, -, heq⟩ | ⟨-, -, -, heq⟩
  all_goals rw [heq] at hat ⊢
  · exact h.of_machine rfl
  · exact hasked.of_machine rfl
  · rw [totalCycles_asyncJumped] at hat
    exact (satisfies_jumpTo hP hasked hat).of_machine rfl

/-- **A step of the loop keeps the invariant**, if the debugger does, and a reset it
handles. -/
theorem satisfies_step (h : r.Satisfies P)
    (hreset : ∀ cold ∈ r.takesReset inp,
      ((r.machine.resetPeripherals cold).reset io).Satisfies P)
    (hdebugger : (r.mapMachine inp.debugger).Satisfies P)
    (hat : At (r.step cfg io inp).totalCycles) : (r.step cfg io inp).Satisfies P := by
  revert hat
  unfold step
  cases hphase : r.phase with
  | outer => exact satisfies_stepOuter hP cfg inp h hreset hdebugger hphase
  | frame fastPath =>
    unfold stepFrame
    exact fun _ => satisfies_ite (fun _ => h.of_machine rfl) fun _ => h.of_machine rfl
  | burst fastPath stop => exact fun _ => satisfies_stepBurst hP cfg h fastPath stop
  | afterBurst fastPath =>
    intro hat
    rw [stepAfterBurst_totalCycles io inp] at hat
    exact satisfies_stepAfterBurst hP inp h fastPath hat
  | afterFrame => exact satisfies_stepAfterFrame hP inp h
  | asyncLoop => exact satisfies_stepAsyncLoop hP cfg inp h
  | asyncStop => exact satisfies_stepAsyncStop hP h
  | done => exact fun _ => h

end CpuRunner
