import PieceEmu.Lib.Run
import PieceEmu.System.CpuRunner

/-!
# The loop of a libretro frame

The loop of `retro_run`, one step at a time. It is the loop of the CPU thread without its
pacing: a frame lasts until the cycle count has reached `target`, and nothing but the
machine decides what happens on the way. Each iteration runs a burst of instructions up
to the next tick or the end of the frame, ticks the peripherals if a tick is due, and, if
the CPU is halted, jumps to its wake point, by at least `MIN_TICK_BURST` cycles and at
most to the end of the frame. `LibretroPhase` says where in an iteration the core is.

Of the globals of the core, those the loop reads or writes are kept; the options, the
picture, the sound and the save memory of `retro_run` come before and behind it.
-/

/-- Where in the loop of `retro_run` the core is. -/
inductive LibretroPhase
  /-- At the head of the loop. -/
  | head
  /-- At the head of the burst that ends at `stop`. -/
  | burst (stop : U64)
  /-- After a burst. -/
  | afterBurst
  /-- The loop has been left. -/
  | done
  deriving DecidableEq, Repr

/-- The globals of the core, with the local variables of `retro_run`. -/
structure LibretroCore where
  machine : Machine PiecePeripherals
  /-- `g_total_cycles`. -/
  totalCycles : U64 := 0
  /-- `g_next_timer_wake`. -/
  nextTimerWake : U64 := 0
  /-- `g_cached_cpu_hz`. -/
  cachedCpuHz : U32 := 24000000
  /-- `g_tick_burst`, which is `MIN_TICK_BURST`. -/
  tickBurst : U64 := 4000
  target : U64 := 0
  phase : LibretroPhase := .head

namespace LibretroCore

variable (io : IoSpace PiecePeripherals) (r : LibretroCore)

/-- `EVENT_INTERVAL`. -/
def eventInterval : U64 := r.tickBurst * 4

/-- A change of the machine alone. -/
def mapMachine (f : Machine PiecePeripherals → Machine PiecePeripherals) : LibretroCore :=
  { r with machine := f r.machine }

/-- The callback `on_clock_change`. -/
def onClockChange (change : ClockChange) : LibretroCore := { r with cachedCpuHz := change.newHz }

/-- The calls of `on_clock_change` that register writes have made, answered. -/
def answerClockChanges : LibretroCore :=
  let r' := r.machine.periph.clockChanges.foldl onClockChange r
  { r' with machine := r.machine.mapPeriph ({ · with clockChanges := [] }) }

/-! ### The parts of the loop -/

/-- The next tick, when the peripherals wake at `w`. -/
def timerWake (w : U64) : U64 :=
  let earliest := r.totalCycles + r.tickBurst
  let latest := r.totalCycles + r.eventInterval
  if w = Words.uint64Max then latest else CpuRunner.clamp w earliest latest

/-- `do_tick`. -/
def doTick : LibretroCore :=
  let r := (r.mapMachine (·.tickAndPoll io r.totalCycles)).answerClockChanges
  { r with
    nextTimerWake := r.timerWake r.machine.periph.nextWakeCycle
    machine := r.machine.mapPeriph PiecePeripherals.askedWake }

/-- `g_total_cycles += g_cpu->step()`. -/
def cpuStep : LibretroCore :=
  let r' := (r.mapMachine (·.step io)).answerClockChanges
  { r' with totalCycles := r.totalCycles + BitVec.ofInt 64 (r.machine.stepCycles io) }

/-- `advance_to`. -/
def advanceTo : U64 :=
  let wake := r.machine.wakePoint
  let raw := if wake = Words.uint64Max then r.target else wake
  Words.stdMin (Words.stdMax raw (r.totalCycles + r.tickBurst)) r.target

/-- The jump of a halted CPU, and the tick that processes what lies between. -/
def jump : LibretroCore :=
  { r.mapMachine Machine.askedWakePoint with totalCycles := r.advanceTo }.doTick io

/-- The tick that is due after a burst. -/
def tickIfDue : LibretroCore := if r.nextTimerWake ≤ r.totalCycles then r.doTick io else r

/-- The loop is left. -/
def leave : LibretroCore :=
  { r with cachedCpuHz := r.machine.periph.clk.cpuClockHz, phase := .done }

/-- `retro_run`, up to its loop: `set_k5` and `set_k6`, and the end of the frame. -/
def start (k5 k6 : U8) : LibretroCore :=
  let press (m : Machine PiecePeripherals) (k : PortCtrl × List IrqSource) :=
    (m.mapPeriph ({ · with portctrl := k.1 })).raiseAll io k.2
  let r := (r.mapMachine fun m =>
    let m := press m (m.periph.portctrl.setK5 k5)
    press m (m.periph.portctrl.setK6 k6)).answerClockChanges
  { r with target := r.totalCycles + CpuRunner.frameCycles r.cachedCpuHz, phase := .head }

/-! ### The phases -/

/-- The head of the loop. -/
def stepHead : LibretroCore :=
  if r.totalCycles < r.target && !r.machine.cpu.fault then
    { r with phase := .burst (Words.stdMin r.nextTimerWake r.target) }
  else r.leave

/-- The burst goes on. -/
def inBurst (stop : U64) : Bool :=
  !r.machine.cpu.inHalt && !r.machine.cpu.fault && r.totalCycles < stop

/-- The head of a burst. -/
def stepBurst (stop : U64) : LibretroCore :=
  if r.inBurst stop then r.cpuStep io else { r with phase := .afterBurst }

/-- After a burst: the tick, where it is due, and the jump of a halted CPU. -/
def stepAfterBurst : LibretroCore :=
  if r.machine.cpu.fault then r.leave
  else
    let r := r.tickIfDue io
    let r := if r.machine.cpu.inHalt then r.jump io else r
    { r with phase := .head }

/-- One step of the loop. -/
def step : LibretroCore :=
  match r.phase with
  | .head => r.stepHead
  | .burst stop => r.stepBurst io stop
  | .afterBurst => r.stepAfterBurst io
  | .done => r

/-- The loop of `retro_run`, step by step, with the buttons as the frontend reports
them. -/
def frame (k5 k6 : U8) : ℕ → LibretroCore :=
  ActionRun.trace (fun r _ => r.step io) (r.start io k5 k6) fun _ => ()

end LibretroCore
