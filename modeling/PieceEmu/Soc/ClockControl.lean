import PieceEmu.Lib.Words
import Mathlib.Data.Fin.VecNotation

/-!
# The clock control

`ClockControl`: the registers that select and divide the clocks. The timers ask it for
the clock of their channel; every write to one of its registers advances
`config_gen_`, by which a timer notices that the cycles per count it has cached are
out of date.
-/

/-- `ClockControl`. -/
structure ClockControl where
  /-- `config_gen_`, advanced by every register write. -/
  configGen : U32 := 0
  /-- `clksel_t8_03_`. -/
  clkselT8 : U8 := 0
  /-- `clksel_t8_45_`. -/
  clkselT8_45 : U8 := 0
  clkctlT16 : Fin 6 → U8 := fun _ => 0
  clkctlT8 : Fin 3 → U8 := fun _ => 0
  pwrctl : U8 := 0
  /-- `p07_slow_`: the oscillator runs at 24 MHz. -/
  p07Slow : Bool := true

namespace ClockControl

variable (c : ClockControl)

/-- `CPU_CLOCK_FAST`. -/
def cpuClockFast : U32 := 48000000
/-- `CPU_CLOCK_NORM`. -/
def cpuClockNorm : U32 := 24000000

/-! ### The clocks -/

/-- `TS_DIV_T16`. -/
def tsDivT16 : Fin 8 → U32 := ![1, 2, 4, 16, 64, 256, 1024, 4096]
/-- `TS_DIV_T8_CH0`. -/
def tsDivT8Ch0 : Fin 8 → U32 := ![1, 2, 4, 8, 16, 64, 128, 256]
/-- `TS_DIV_T8_CH1`. -/
def tsDivT8Ch1 : Fin 8 → U32 := ![32, 64, 128, 256, 512, 1024, 2048, 4096]
/-- `TS_DIV_T8_CH2`. -/
def tsDivT8Ch2 : Fin 8 → U32 := ![2, 4, 8, 16, 32, 64, 2048, 4096]

/-- `t8_div_table`. -/
def t8DivTable : Fin 6 → Fin 8 → U32
  | 1 => tsDivT8Ch1
  | 2 | 4 => tsDivT8Ch2
  | _ => tsDivT8Ch0

/-- `clock_from_clkctl`: 0 when the clock is stopped. -/
def clockFromClkctl (clkctl : U8) (useB : Bool) (base : U32) (divTable : Fin 8 → U32) : U32 :=
  let ts := (if useB then clkctl.extractLsb' 4 3 else clkctl.extractLsb' 0 3).toFin
  let ton := if useB then clkctl.getLsbD 7 else clkctl.getLsbD 3
  if !ton then 0 else base / divTable ts

/-- `osc3_hz`. -/
def osc3Hz : U32 := if c.p07Slow then cpuClockNorm else cpuClockFast

/-- `cpu_clock_hz`. -/
def cpuClockHz : U32 := c.osc3Hz >>> ((c.pwrctl >>> 6) &&& 0x03).toNat

/-- `t16_clock_hz`. -/
def t16ClockHz (ch : Fin 6) (cksl : Bool) : U32 :=
  clockFromClkctl (c.clkctlT16 ch) cksl c.osc3Hz tsDivT16

/-- `t8_clock_hz`. -/
def t8ClockHz (ch : Fin 6) : U32 :=
  let bypass := if ch < 4 then c.clkselT8.getLsbD ch else c.clkselT8_45.getLsbD (ch - 4)
  if bypass then c.osc3Hz
  else
    clockFromClkctl (c.clkctlT8 ⟨ch / 2, by omega⟩) (ch.val % 2 = 1) c.osc3Hz (t8DivTable ch)

/-- The cycles of the CPU for one count of a timer clock, rounded up: 0 when the clock
is stopped. The body of the two `cycles_per_count`. -/
def cyclesPerCount (hz : U32) : U64 :=
  if hz = 0 then 0 else ((c.cpuClockHz + hz - 1) / hz).setWidth 64

/-! ### The registers -/

/-- `write_single`, with the frequency `on_clock_change` is called with, if it is. -/
def writeSingle (addr : U32) (val : U8) : ClockControl × Option U32 :=
  let c := { c with configGen := c.configGen + 1 }
  if addr = 0x040140 then ({ c with clkselT8_45 := val }, none)
  else if addr = 0x040145 then ({ c with clkctlT8 := Function.update c.clkctlT8 2 val }, none)
  else if addr = 0x040146 then ({ c with clkselT8 := val }, none)
  else if addr = 0x040147 then ({ c with clkctlT16 := Function.update c.clkctlT16 0 val }, none)
  else if addr = 0x040148 then ({ c with clkctlT16 := Function.update c.clkctlT16 1 val }, none)
  else if addr = 0x040149 then ({ c with clkctlT16 := Function.update c.clkctlT16 2 val }, none)
  else if addr = 0x04014A then ({ c with clkctlT16 := Function.update c.clkctlT16 3 val }, none)
  else if addr = 0x04014B then ({ c with clkctlT16 := Function.update c.clkctlT16 4 val }, none)
  else if addr = 0x04014C then ({ c with clkctlT16 := Function.update c.clkctlT16 5 val }, none)
  else if addr = 0x04014D then ({ c with clkctlT8 := Function.update c.clkctlT8 0 val }, none)
  else if addr = 0x04014E then ({ c with clkctlT8 := Function.update c.clkctlT8 1 val }, none)
  else if addr = 0x040180 then
    let c' := { c with pwrctl := val }
    (c', if (c.pwrctl ^^^ val) &&& 0xC4 ≠ 0 then some c'.cpuClockHz else none)
  else (c, none)

/-- `set_p07`. -/
def setP07 (slow : Bool) : ClockControl × Option U32 :=
  if c.p07Slow = slow then (c, none)
  else
    let c := { c with p07Slow := slow, configGen := c.configGen + 1 }
    (c, some c.cpuClockHz)

/-- `reset`. -/
def reset : ClockControl := { configGen := c.configGen + 1 }

/-! ### What a register write changes -/

/-- A write that leaves the frequency of the CPU alone, and tells nobody. -/
structure KeepsFrequency (r : ClockControl × Option U32) : Prop where
  untold : r.2 = none
  pwrctl : r.1.pwrctl = c.pwrctl
  p07Slow : r.1.p07Slow = c.p07Slow

/-- **Only `PWRCTL` can change the frequency** among the registers of the clock control. -/
theorem keepsFrequency_writeSingle {reg : U32} (h : reg ≠ 0x040180) (v : U8) :
    c.KeepsFrequency (c.writeSingle reg v) := by
  unfold writeSingle
  dsimp only
  -- eleven registers that have no part in it, and `PWRCTL`
  iterate 11 refine iteInduction (fun _ => ⟨rfl, rfl, rfl⟩) fun _ => ?_
  rw [if_neg h]
  exact ⟨rfl, rfl, rfl⟩

/-- Every write is a new generation. -/
theorem writeSingle_configGen (reg : U32) (v : U8) :
    (c.writeSingle reg v).1.configGen = c.configGen + 1 := by
  unfold writeSingle
  dsimp only
  iterate 12 refine iteInduction (motive := fun r : ClockControl × Option U32 =>
    r.1.configGen = c.configGen + 1) (fun _ => rfl) fun _ => ?_
  rfl

theorem writeSingle_pwrctl (v : U8) :
    c.writeSingle 0x040180 v =
      ({ c with configGen := c.configGen + 1, pwrctl := v },
        if (c.pwrctl ^^^ v) &&& 0xC4 ≠ 0 then some { c with pwrctl := v }.cpuClockHz else none) :=
  rfl

/-- The registers of the clock control have no part in `P07`. -/
@[simp] theorem writeSingle_p07Slow (reg : U32) (v : U8) :
    (c.writeSingle reg v).1.p07Slow = c.p07Slow := by
  by_cases h : reg = 0x040180
  · rw [h, writeSingle_pwrctl]
  · exact (c.keepsFrequency_writeSingle h v).p07Slow

@[simp] theorem setP07_p07Slow (slow : Bool) : (c.setP07 slow).1.p07Slow = slow := by
  unfold setP07
  split_ifs with h
  · exact h
  · rfl

end ClockControl
