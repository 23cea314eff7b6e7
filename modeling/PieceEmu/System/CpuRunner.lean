import PieceEmu.System.PiecePeripherals

/-!
# The loop of the CPU thread

`CpuRunner::run`, one step at a time. The loop has three nested parts in normal mode
(the outer loop, the loop up to the next frame, the burst of instructions up to the
next event) and one of its own under an asynchronous debugger; `RunnerPhase` says in
which of them the thread is. What the thread reads of the others, the requests and
buttons of the main thread and the commands of the debugger, is the input of a step.
-/

/-- The parts of the configuration the loop looks at. -/
structure RunnerConfig where
  trace : Bool := false
  /-- `break_addrs`. -/
  breakAddrs : List U32 := []
  maxCycles : U64 := 0

/-- What a step of the loop reads of the other threads. -/
structure RunnerInput where
  /-- `reset_request`: a cold start, or a hot one. -/
  resetRequest : Option Bool := none
  /-- `has_async_client`. -/
  asyncClient : Bool := false
  /-- `take_async_run_cmd`: a single step, or not. -/
  asyncRunCmd : Option Bool := none
  /-- `has_breakpoint`. -/
  hasBreakpoint : U32 → Bool := fun _ => false
  /-- What the debugger has done to the machine while it was paused. -/
  debugger : Machine PiecePeripherals → Machine PiecePeripherals := id
  /-- `shared_buttons`. -/
  sharedButtons : U16 := 0xFFFF
  quitFlag : Bool := false

/-- Where in `run` the thread is. -/
inductive RunnerPhase
  /-- At the head of the outer loop. -/
  | outer
  /-- At the head of the loop up to the next frame. -/
  | frame (fastPath : Bool)
  /-- At the head of the burst that ends at `stop`. -/
  | burst (fastPath : Bool) (stop : U64)
  /-- After a burst. -/
  | afterBurst (fastPath : Bool)
  /-- After the loop up to the next frame. -/
  | afterFrame
  /-- At the head of the loop of a continuing debugger. -/
  | asyncLoop
  /-- After it. -/
  | asyncStop
  /-- The thread has ended. -/
  | done
  deriving DecidableEq, Repr

/-- `CpuRunner`, with the local variables of `run`. -/
structure CpuRunner where
  machine : Machine PiecePeripherals
  totalCycles : U64 := 0
  nextTimerWake : U64 := 0
  nextRender : U64 := 0
  nextEventPoll : U64 := 0
  quit : Bool := false
  phase : RunnerPhase := .outer

namespace CpuRunner

variable (cfg : RunnerConfig) (io : IoSpace PiecePeripherals) (r : CpuRunner) (inp : RunnerInput)

/-- `EVENT_INTERVAL`. -/
def eventInterval : U64 := 10000
/-- `MIN_TICK_BURST`. -/
def minTickBurst : U64 := 2000

/-- The cycles of a frame at a clock frequency. -/
def frameCycles (hz : U32) : U64 := hz.setWidth 64 / 60

/-- `cpu_clock_hz`. -/
def cpuClockHz : U32 := r.machine.periph.clk.cpuClockHz

/-- A change of the machine alone. -/
def mapMachine (f : Machine PiecePeripherals → Machine PiecePeripherals) : CpuRunner :=
  { r with machine := f r.machine }

/-! ### The wake point of the timers -/

/-- `std::clamp`. -/
def clamp (v lo hi : U64) : U64 := if v < lo then lo else if hi < v then hi else v

/-- The next tick, when the peripherals wake at `w`. -/
def timerWake (w : U64) : U64 :=
  if w = Words.uint64Max then r.totalCycles + eventInterval
  else clamp w (r.totalCycles + minTickBurst) (r.totalCycles + eventInterval)

/-- `update_timer_wake`. -/
def updateTimerWake : CpuRunner :=
  { r with
    nextTimerWake := r.timerWake r.machine.periph.nextWakeCycle
    machine := r.machine.mapPeriph PiecePeripherals.askedWake }

/-- The callback `on_clock_change`. The divisor of the bus clock, which it also sets, is
set by the register handler here. -/
def onClockChange (change : ClockChange) : CpuRunner :=
  { r with
    nextRender := r.totalCycles + frameCycles change.newHz
    nextTimerWake := r.timerWake change.wake }

/-- The calls of `on_clock_change` that register writes have made, answered. -/
def answerClockChanges : CpuRunner :=
  let r' := r.machine.periph.clockChanges.foldl onClockChange r
  { r' with machine := r.machine.mapPeriph ({ · with clockChanges := [] }) }

/-! ### The parts of the loop -/

/-- `do_tick`. -/
def doTick : CpuRunner :=
  (r.mapMachine (·.tickAndPoll io r.totalCycles)).answerClockChanges.updateTimerWake

/-- The tick, where it is due. -/
def tickIfDue : CpuRunner := if r.nextTimerWake ≤ r.totalCycles then r.doTick io else r

/-- `set_k5` and `set_k6`. -/
def setButtons (k5 k6 : U8) : CpuRunner :=
  let press (m : Machine PiecePeripherals) (k : PortCtrl × List IrqSource) :=
    (m.mapPeriph ({ · with portctrl := k.1 })).raiseAll io k.2
  (r.mapMachine fun m =>
    let m := press m (m.periph.portctrl.setK5 k5)
    press m (m.periph.portctrl.setK6 k6)).answerClockChanges

/-- The buttons, as the main thread last stored them. -/
def sharedSetButtons : CpuRunner :=
  r.setButtons io ((inp.sharedButtons >>> 8).setWidth 8) (inp.sharedButtons.setWidth 8)

/-- `poll_buttons`. -/
def pollButtons : CpuRunner := { r.sharedSetButtons io inp with quit := inp.quitFlag }

/-- The buttons are polled when it is time, and the next time is set. -/
def pollIfDue : CpuRunner :=
  if r.nextEventPoll ≤ r.totalCycles then
    { r.pollButtons io inp with nextEventPoll := r.totalCycles + eventInterval }
  else r

/-- What the slow path does before an instruction: it prints it, and notes its
address. -/
def traceInsn : CpuRunner :=
  r.mapMachine fun m =>
    let m := if cfg.trace then m.disasm m.cpu.pc else m
    { m with bus := { m.bus with debugPc := m.cpu.pc } }

/-- `total_cycles += cpu.step()`. -/
def cpuStep : CpuRunner :=
  let r' := (r.mapMachine (·.step io)).answerClockChanges
  { r' with totalCycles := r.totalCycles + BitVec.ofInt 64 (r.machine.stepCycles io) }

/-- The jump of the clock, and the tick that processes what lies between. -/
def jumpTo (target : U64) : CpuRunner := { r with totalCycles := target }.doTick io

/-- `run`, up to its loop. -/
def start : CpuRunner :=
  let r := r.setButtons io 0xFF 0xFF
  { r with
    nextRender := r.totalCycles + frameCycles r.cpuClockHz
    nextEventPoll := r.totalCycles + eventInterval
    nextTimerWake := 0
    quit := false
    phase := .outer }.updateTimerWake

/-- The reset handshake. -/
def handleReset (cold : Bool) : CpuRunner :=
  let r := r.mapMachine fun m => (m.resetPeripherals cold).reset io
  let r := (r.setButtons io 0xFF 0xFF).sharedSetButtons io inp
  let r := { r with
    nextRender := r.totalCycles + frameCycles r.cpuClockHz
    nextEventPoll := r.totalCycles + eventInterval }
  r.updateTimerWake.mapMachine fun m =>
    m.mapPeriph fun p => { p with intc := p.intc.setCurrentIl m.cpu.psr.il }

/-- `take_async_run_cmd` lets a halted CPU go on. -/
def resume : CpuRunner :=
  r.mapMachine (·.mapCpu ({ · with inHalt := false, haltMode := .none }))

/-! ### The phases -/

/-- The head of the outer loop. -/
def stepOuter : CpuRunner :=
  if r.quit || r.machine.cpu.fault then { r with phase := .done }
  else
    match inp.resetRequest with
    | some cold => r.handleReset io inp cold
    | none =>
      let r := r.mapMachine inp.debugger
      if inp.asyncClient then
        match inp.asyncRunCmd with
        | some true => (((r.resume.traceInsn cfg).cpuStep io).doTick io)
        | some false => { r.resume with phase := .asyncLoop }
        | none => r.pollButtons io inp
      else
        let fastPath := !cfg.trace && cfg.breakAddrs.isEmpty && cfg.maxCycles = 0 &&
          r.machine.bus.watchpoints.isEmpty
        { r with phase := .frame fastPath }

/-- The head of the loop up to the next frame. -/
def stepFrame (fastPath : Bool) : CpuRunner :=
  if !r.machine.cpu.inHalt && !r.machine.cpu.fault && !r.quit && r.totalCycles < r.nextRender then
    let stop := Words.stdMin (Words.stdMin r.nextTimerWake r.nextEventPoll) r.nextRender
    { r with phase := .burst fastPath stop }
  else { r with phase := .afterFrame }

/-- The head of a burst. -/
def stepBurst (fastPath : Bool) (stop : U64) : CpuRunner :=
  if !r.machine.cpu.inHalt && !r.machine.cpu.fault && r.totalCycles < stop then
    if fastPath then r.cpuStep io
    else
      let r := (r.traceInsn cfg).cpuStep io
      if cfg.maxCycles ≠ 0 ∧ cfg.maxCycles ≤ r.totalCycles then
        { r with quit := true, phase := .afterBurst fastPath }
      else r
  else { r with phase := .afterBurst fastPath }

/-- After a burst: the tick and the buttons, where they are due. -/
def stepAfterBurst (fastPath : Bool) : CpuRunner :=
  if r.machine.cpu.fault || r.quit then { r with phase := .afterFrame }
  else
    { (r.tickIfDue io).pollIfDue io inp with phase := .frame fastPath }

/-- The next frame is rendered when it is time. -/
def renderIfDue : CpuRunner :=
  if r.nextRender ≤ r.totalCycles then
    { r with nextRender := r.nextRender + frameCycles r.cpuClockHz }
  else r

/-- Where a halted CPU jumps to. -/
def haltTarget : U64 :=
  Words.stdMin (Words.stdMin r.machine.wakePoint r.nextRender) r.nextEventPoll

/-- After the loop up to the next frame: the jump of a halted CPU. -/
def stepAfterFrame : CpuRunner :=
  if r.machine.cpu.fault || r.quit then { r with phase := .done }
  else if r.machine.cpu.inHalt then
    if r.machine.wakePoint = Words.uint64Max ∧ !r.machine.sleeping then { r with phase := .done }
    else
      let r := (r.mapMachine Machine.askedWakePoint).jumpTo io r.haltTarget
      { (r.pollIfDue io inp).renderIfDue with phase := .outer }
  else { r.renderIfDue with phase := .outer }

/-- The head of the loop of a continuing debugger. -/
def stepAsyncLoop : CpuRunner :=
  if r.machine.cpu.inHalt || r.machine.cpu.fault then { r with phase := .asyncStop }
  else
    let r := r.traceInsn cfg
    if cfg.breakAddrs.contains r.machine.cpu.pc then { r with phase := .asyncStop }
    else
      let r := (r.cpuStep io).tickIfDue io
      if !r.machine.cpu.inHalt && inp.hasBreakpoint r.machine.cpu.pc then
        { r with phase := .asyncStop }
      else
        let polled := r.pollIfDue io inp
        if r.nextEventPoll ≤ r.totalCycles ∧ polled.quit then
          { polled.mapMachine (·.mapCpu ({ · with inHalt := true })) with phase := .asyncStop }
        else polled

/-- After it: the jump of a halted CPU. -/
def stepAsyncStop : CpuRunner :=
  if r.machine.cpu.inHalt && !r.machine.cpu.fault then
    let wake := r.machine.wakePoint
    let r := r.mapMachine Machine.askedWakePoint
    if wake = Words.uint64Max then { r with phase := .outer }
    else { r.jumpTo io wake with phase := .outer }
  else { r with phase := .outer }

/-- One step of `run`. -/
def step : CpuRunner :=
  match r.phase with
  | .outer => r.stepOuter cfg io inp
  | .frame fastPath => r.stepFrame fastPath
  | .burst fastPath stop => r.stepBurst cfg io fastPath stop
  | .afterBurst fastPath => r.stepAfterBurst io inp fastPath
  | .afterFrame => r.stepAfterFrame io inp
  | .asyncLoop => r.stepAsyncLoop cfg io inp
  | .asyncStop => r.stepAsyncStop io
  | .done => r

end CpuRunner
