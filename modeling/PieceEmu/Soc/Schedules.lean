import PieceEmu.Soc.ClockControl

/-!
# Peripherals with a schedule

Three peripherals that act when the cycle count of the CPU has reached a point they
keep themselves: the watchdog (`WatchdogTimer`), which asserts an NMI about every
millisecond; the clock timer (`ClockTimer`), of which only the prescaler runs on the
cycle count; and the completion interrupt of the sound channel (`SoundIrq`).

The calendar of the clock timer reads the clock of the host and has no part in the
schedule; of its registers only the stop bit is modelled. The samples of the sound
channel go through the ring of `SoundRing` and are no part of its schedule either.
-/

/-! ### The watchdog -/

/-- `WatchdogTimer`. -/
structure WatchdogTimer where
  wrwd : U8 := 0
  ewd : U8 := 0
  nextNmiCycle : U64 := 0

namespace WatchdogTimer

variable (w : WatchdogTimer) (clk : ClockControl)

/-- `EWD`: the watchdog runs. -/
def running : Bool := w.ewd.getLsbD 1

/-- `nmi_period`. -/
def nmiPeriod : U64 :=
  if clk.cpuClockHz = 0 then 48000 else clk.cpuClockHz.setWidth 64 / 1000

/-- `next_wake_cycle`. -/
def nextWakeCycle : U64 := if w.running then w.nextNmiCycle else Words.uint64Max

/-- `tick`, and whether it asserts the NMI. -/
def tick (cpuCycles : U64) : WatchdogTimer × Bool :=
  if !w.running then ({ w with nextNmiCycle := cpuCycles + nmiPeriod clk }, false)
  else if w.nextNmiCycle ≤ cpuCycles then
    ({ w with nextNmiCycle := cpuCycles + nmiPeriod clk }, true)
  else (w, false)

/-- The read handler of `WRWD` and `EWD`. -/
def read : U16 := w.wrwd.setWidth 16 ||| w.ewd.setWidth 16 <<< 8

/-- The halfword handler of `WRWD` and `EWD`. -/
def write (v : U16) : WatchdogTimer :=
  { w with wrwd := v.setWidth 8, ewd := (v >>> 8).setWidth 8 }

/-- The byte handler of `WRWD` and `EWD`. -/
def writeByte (addr : U32) (v : U8) : WatchdogTimer :=
  if addr.getLsbD 0 then { w with ewd := v } else { w with wrwd := v }

/-- `reset`. -/
def reset : WatchdogTimer := {}

end WatchdogTimer

/-! ### The clock timer -/

/-- `ClockTimer`. -/
structure ClockTimer where
  rtcstop : U8 := 0x01
  /-- `prescaler_`. -/
  prescaler : U8 := 0
  nextPrescalerCycle : U64 := 0

namespace ClockTimer

variable (r : ClockTimer) (clk : ClockControl)

/-- `prescaler_period`. -/
def prescalerPeriod (cpuHz : U32) : U64 :=
  if cpuHz = 0 then 24000000 / 256 else cpuHz.setWidth 64 / 256

/-- `next_wake_cycle`. -/
def nextWakeCycle : U64 := r.nextPrescalerCycle

/-- `tick`. -/
def tick (cpuCycles : U64) : ClockTimer :=
  if cpuCycles < r.nextPrescalerCycle then r
  else if r.rtcstop.getLsbD 1 then { r with nextPrescalerCycle := cpuCycles + 1 }
  else
    let per := if prescalerPeriod clk.cpuClockHz = 0 then 1 else prescalerPeriod clk.cpuClockHz
    let counts := (cpuCycles - r.nextPrescalerCycle) / per + 1
    { r with
      nextPrescalerCycle := r.nextPrescalerCycle + counts * per
      prescaler := r.prescaler + counts.setWidth 8 }

/-- `write_rtcstop`: a clock that starts again after a stop starts with its prescaler
at 0. -/
def writeRtcstop (written : U8) : ClockTimer :=
  { r with
    rtcstop := written
    prescaler := if written.getLsbD 0 && r.rtcstop.getLsbD 1 then 0 else r.prescaler }

/-- `reset`. -/
def reset : ClockTimer where
  nextPrescalerCycle := prescalerPeriod clk.cpuClockHz

end ClockTimer

/-! ### The completion of the sound channel -/

/-- The schedule of `Sound`. -/
structure SoundIrq where
  pending : Bool := false
  completeCycle : U64 := 0
  lastIrqCycle : U64 := 0

namespace SoundIrq

variable (s : SoundIrq) (clk : ClockControl)

/-- `SAMPLE_RATE`. -/
def sampleRate : U64 := 32000

/-- `delta`: the cycles a burst of `cnt` samples takes. -/
def delta (cnt : U32) : U64 := cnt.setWidth 64 * clk.cpuClockHz.setWidth 64 / sampleRate

/-- `handle_ch1_start`, as far as it schedules: the completion is counted from the last
one when that is less than a burst away. -/
def handleCh1Start (nowCyc : U64) (cnt : U32) : SoundIrq :=
  if cnt = 0 then s
  else
    let base :=
      if s.lastIrqCycle ≠ 0 ∧ s.lastIrqCycle ≤ nowCyc ∧
          nowCyc - s.lastIrqCycle < delta clk cnt then s.lastIrqCycle
      else nowCyc
    { s with completeCycle := base + delta clk cnt, pending := true }

/-- `next_wake_cycle`. -/
def nextWakeCycle : U64 := if s.pending then s.completeCycle else Words.uint64Max

/-- `tick`, and whether it completes the burst. -/
def tick (cycles : U64) : SoundIrq × Bool :=
  if !s.pending then (s, false)
  else if cycles < s.completeCycle then (s, false)
  else ({ s with pending := false, lastIrqCycle := s.completeCycle }, true)

/-- `reset`. -/
def reset : SoundIrq := {}

end SoundIrq
