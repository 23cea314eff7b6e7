import PieceEmu.Core.Step
import PieceEmu.Soc.Intc
import PieceEmu.Soc.RegisterFiles
import PieceEmu.Soc.Schedules
import PieceEmu.Soc.Timer16bit
import PieceEmu.Soc.Timer8bit

/-!
# The peripherals of the board

`PiecePeripherals`: the peripherals behind one bus and one CPU. A tick advances all
that run on the cycle count, and what they raise goes through the interrupt
controller to the CPU at once; `nextWakeCycle` is the earliest cycle at which one of
them has something to do, kept in a cache that a tick invalidates.

The machine of this module is the CPU with these peripherals behind its bus, over any
register handlers `io`. A channel's interrupts are raised when its tick is done; the
code raises them in the middle of it, which could be told apart only by a trap entry
that pushes onto the registers of that very channel.
-/

/-- A call of `on_clock_change`: the new frequency, and what `next_wake_cycle` answers
to the callback. -/
structure ClockChange where
  newHz : U32
  wake : U64

/-- `PiecePeripherals`. -/
structure PiecePeripherals where
  intc : InterruptController := {}
  clk : ClockControl := {}
  t8 : Fin 4 → Timer8bit := fun i => { ch := i }
  t16 : Fin 6 → Timer16bit := fun i => { ch := i }
  portctrl : PortCtrl := {}
  bcuArea : BcuAreaCtrl := {}
  wdt : WatchdogTimer := {}
  rtc : ClockTimer := {}
  hsdma : Hsdma := {}
  sound : SoundIrq := {}
  nmiCount : ℕ := 0
  /-- `wake_cached_`. -/
  wakeCached : U64 := 0
  /-- `wake_valid_`. -/
  wakeValid : Bool := false
  /-- The calls of `on_clock_change` that have not been answered yet. -/
  clockChanges : List ClockChange := []

namespace PiecePeripherals

variable (p : PiecePeripherals)

/-- `attach`, as far as it sets state: the clock timer starts its prescaler. -/
def attach : PiecePeripherals :=
  { p with
    intc := { p.intc with levelOverride := fun _ => -1 }
    rtc := { p.rtc with nextPrescalerCycle := ClockTimer.prescalerPeriod p.clk.cpuClockHz } }

/-! ### Wake points -/

/-- The earliest of the wake points: what `next_wake_cycle` computes. -/
def computeWake : U64 :=
  let wake := (List.finRange 4).foldl
    (fun wake i => Words.stdMin wake ((p.t8 i).nextWakeCycle p.clk)) Words.uint64Max
  let wake := (List.finRange 6).foldl (fun wake i => Words.stdMin wake (p.t16 i).nextWakeCycle) wake
  let wake := Words.stdMin wake p.rtc.nextWakeCycle
  let wake := Words.stdMin wake p.wdt.nextWakeCycle
  Words.stdMin wake p.sound.nextWakeCycle

/-- What `next_wake_cycle` returns. -/
def nextWakeCycle : U64 := if p.wakeValid then p.wakeCached else p.computeWake

/-- The caches `next_wake_cycle` leaves. -/
def askedWake : PiecePeripherals :=
  if p.wakeValid then p
  else
    { p with
      t8 := fun i => (p.t8 i).askedWake p.clk
      wakeCached := p.computeWake
      wakeValid := true }

/-- `sleep_wake_cycle`. -/
def sleepWakeCycle : U64 := p.rtc.nextWakeCycle

/-- `reset`, of the peripherals alone. -/
def reset (cold : Bool) : PiecePeripherals :=
  let clk := p.clk.reset
  { p with
    intc := .reset
    clk := clk
    t8 := fun i => (p.t8 i).reset
    t16 := fun i => (p.t16 i).reset
    wdt := .reset
    rtc := ClockTimer.reset clk
    hsdma := p.hsdma.reset
    sound := .reset
    nmiCount := 0
    wakeValid := false
    bcuArea := if cold then p.bcuArea.reset else p.bcuArea
    portctrl := if cold then .reset else p.portctrl }

end PiecePeripherals

/-! ### The CPU with the peripherals of the board -/

namespace Machine

variable (io : IoSpace PiecePeripherals) (m : Machine PiecePeripherals)

/-- The peripherals. -/
def periph : PiecePeripherals := m.bus.dev

/-- A change of the peripherals alone. -/
def mapPeriph (f : PiecePeripherals → PiecePeripherals) : Machine PiecePeripherals :=
  { m with bus := { m.bus with dev := f m.bus.dev } }

/-- The trap an interrupt controller asserts, if it does. -/
def deliver (c : InterruptController × Option (ℤ × ℤ)) : Machine PiecePeripherals :=
  let m := m.mapPeriph ({ · with intc := c.1 })
  match c.2 with
  | none => m
  | some (no, level) => m.assertTrap io no level

/-- `reset`: a cold start also resets the area registers, and with them the wait states
and the trap table base. -/
def resetPeripherals (cold : Bool) : Machine PiecePeripherals :=
  let m := m.mapPeriph (·.reset cold)
  if cold then
    { m with
      bus := { m.bus with sramWait := 7, flashWait := 7 }
      cpu := { m.cpu with ttbr := m.periph.bcuArea.ttbr } }
  else m

/-- `intc.raise`. -/
def raise (src : IrqSource) (levelOverride : ℤ) : Machine PiecePeripherals :=
  m.deliver io (m.periph.intc.raise src levelOverride)

/-- `raise` for each source of a list, without an override. -/
def raiseAll (srcs : List IrqSource) : Machine PiecePeripherals :=
  srcs.foldl (fun m src => m.raise io src (-1)) m

/-- `intc.poll`. -/
def poll : Machine PiecePeripherals := m.deliver io m.periph.intc.poll

/-! ### The tick -/

/-- The source of a compare interrupt. -/
def t16Source (ch : Fin 6) : T16Irq → IrqSource
  | .cra => IrqSource.t16Cra ch
  | .crb => IrqSource.t16Crb ch

/-- `t16_ch[i].tick`. -/
def tickT16 (cycles : U64) (m : Machine PiecePeripherals) (i : Fin 6) : Machine PiecePeripherals :=
  let t := (m.periph.t16 i).tick m.periph.clk cycles
  (m.mapPeriph fun p => { p with t16 := Function.update p.t16 i t.1 }).raiseAll io
    (t.2.map (t16Source i))

/-- `t8_ch[i].tick`. -/
def tickT8 (cycles : U64) (m : Machine PiecePeripherals) (i : Fin 4) : Machine PiecePeripherals :=
  let t := (m.periph.t8 i).tick m.periph.clk cycles
  (m.mapPeriph fun p => { p with t8 := Function.update p.t8 i t.1 }).raiseAll io
    (if t.2 then [IrqSource.t8Uf i] else [])

/-- `wdt.tick`. -/
def tickWdt (cycles : U64) : Machine PiecePeripherals :=
  let w := m.periph.wdt.tick m.periph.clk cycles
  if w.2 then
    (m.mapPeriph fun p => { p with wdt := w.1, nmiCount := p.nmiCount + 1 }).assertTrap io 7 0
  else m.mapPeriph ({ · with wdt := w.1 })

/-- `rtc.tick`. -/
def tickRtc (cycles : U64) : Machine PiecePeripherals :=
  m.mapPeriph fun p => { p with rtc := p.rtc.tick p.clk cycles }

/-- `sound.tick`. -/
def tickSound (cycles : U64) : Machine PiecePeripherals :=
  let s := m.periph.sound.tick cycles
  if s.2 then
    (m.mapPeriph fun p => { p with sound := s.1, hsdma := p.hsdma.finishCh1 }).raise io
      IrqSource.hsdma1 1
  else m.mapPeriph ({ · with sound := s.1 })

/-- `tick`: the timers that were running when it began, and the rest. -/
def tickPeripherals (cycles : U64) : Machine PiecePeripherals :=
  let mt16 := (List.finRange 6).filter fun i => (m.periph.t16 i).active
  let mt8 := (List.finRange 4).filter fun i => (m.periph.t8 i).active
  let m := mt16.foldl (tickT16 io cycles) m
  let m := mt8.foldl (tickT8 io cycles) m
  let m := m.tickWdt io cycles
  let m := m.tickRtc cycles
  let m := m.tickSound io cycles
  m.mapPeriph ({ · with wakeValid := false })

/-- The part of `do_tick` before the wake point is taken: the tick, and the poll at the
interrupt level of the CPU. -/
def tickAndPoll (cycles : U64) : Machine PiecePeripherals :=
  let m := m.tickPeripherals io cycles
  let m := m.mapPeriph fun p => { p with intc := p.intc.setCurrentIl m.cpu.psr.il }
  m.poll io

/-- `halt_mode == Slp`: only the clock timer runs. -/
def sleeping : Bool := m.cpu.haltMode = .slp

/-- The wake point of a halted CPU. -/
def wakePoint : U64 :=
  if m.sleeping then m.periph.sleepWakeCycle else m.periph.nextWakeCycle

/-- The caches that asking for the wake point leaves. -/
def askedWakePoint : Machine PiecePeripherals :=
  if m.sleeping then m else m.mapPeriph PiecePeripherals.askedWake

end Machine
