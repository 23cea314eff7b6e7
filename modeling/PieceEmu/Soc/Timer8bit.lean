import PieceEmu.Soc.ClockControl

/-!
# The 8-bit timer

`Timer8bit`: a counter that runs down from its reload value and raises an interrupt
when a count finds it at 0. Its wake point is computed each time it is asked for.
-/

/-- `Timer8bit`. -/
structure Timer8bit where
  ch : Fin 4
  ctl : U8 := 0
  rld : U8 := 0
  ptd : U8 := 0
  nextTickCycle : U64 := 0
  /-- `cached_cpc_`. -/
  cachedCpc : U64 := 0
  /-- `cpc_gen_`. -/
  cpcGen : U32 := 0xFFFFFFFF
  /-- The bit of this timer in the active mask of its parent. -/
  active : Bool := false

namespace Timer8bit

variable (t : Timer8bit) (clk : ClockControl)

/-- `PTRUN`. -/
def ptrun : Bool := t.ctl.getLsbD 0

/-- What `cycles_per_count` returns. -/
def cpc : U64 :=
  if clk.configGen ≠ t.cpcGen then clk.cyclesPerCount (clk.t8ClockHz (t.ch.castLE (by decide)))
  else t.cachedCpc

/-- The cache `cycles_per_count` leaves. -/
def fillCpc : Timer8bit := { t with cachedCpc := t.cpc clk, cpcGen := clk.configGen }

/-- `on_ctl_write`. -/
def onCtlWrite (val : U8) : Timer8bit :=
  let ctl := val &&& 0x07
  { t with
    ctl := ctl
    ptd := if ctl.getLsbD 1 then t.rld else t.ptd
    active := if t.ptrun ≠ ctl.getLsbD 0 then ctl.getLsbD 0 else t.active }

/-- `reset`. -/
def reset : Timer8bit := { ch := t.ch }

/-- The read handler of `T8CTL` and `RLD`. -/
def readCtl : U16 := t.ctl.setWidth 16 ||| t.rld.setWidth 16 <<< 8

/-- The halfword handler of `T8CTL` and `RLD`. -/
def writeCtl (v : U16) : Timer8bit :=
  { t.onCtlWrite (v.setWidth 8) with rld := (v >>> 8).setWidth 8 }

/-- The byte handler of `T8CTL` and `RLD`. -/
def writeCtlByte (addr : U32) (v : U8) : Timer8bit :=
  if addr.getLsbD 0 then { t with rld := v } else t.onCtlWrite v

/-- The read handler of `PTD`. -/
def readPtd : U16 := t.ptd.setWidth 16

/-- `next_wake_cycle`. -/
def nextWakeCycle : U64 :=
  if !t.ptrun then Words.uint64Max
  else if t.cpc clk = 0 then Words.uint64Max
  else t.nextTickCycle + t.ptd.setWidth 64 * t.cpc clk

/-- The cache `next_wake_cycle` leaves. -/
def askedWake : Timer8bit := if t.ptrun then t.fillCpc clk else t

/-! ### The tick -/

/-- The counts a tick at `cpuCycles` processes, once its time has come. -/
def counts (cpuCycles : U64) : U64 := (cpuCycles - t.nextTickCycle) / t.cpc clk + 1

/-- `counts` counts, and whether the counter has run out in one of them. -/
def advance (counts : U64) : Timer8bit × Bool :=
  if counts ≤ t.ptd.setWidth 64 then ({ t with ptd := t.ptd - counts.setWidth 8 }, false)
  else
    let period : U64 := t.rld.setWidth 64 + 1
    let remaining := counts - t.ptd.setWidth 64 - 1
    ({ t with ptd := (t.rld.setWidth 64 - remaining % period).setWidth 8 }, true)

/-- `tick`, and whether it raises the interrupt of the timer. -/
def tick (cpuCycles : U64) : Timer8bit × Bool :=
  if !t.ptrun then (t, false)
  else if cpuCycles < t.nextTickCycle then (t, false)
  else if t.cpc clk = 0 then (t.fillCpc clk, false)
  else
    let n := t.counts clk cpuCycles
    { t.fillCpc clk with nextTickCycle := t.nextTickCycle + n * t.cpc clk }.advance n

end Timer8bit
