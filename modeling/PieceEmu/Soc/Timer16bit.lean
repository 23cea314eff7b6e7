import PieceEmu.Soc.ClockControl

/-!
# The 16-bit timer

`Timer16bit`: a counter that runs from 0 to `CRB` and back, with two compare
registers. A tick is handed the cycle count of the CPU and processes all counts that
have come due at once; when `CRB` is set it does so in closed form.

What a tick raises is returned as the list of the compare interrupts it raises, in
order.
-/

/-- The two interrupts of a 16-bit timer. -/
inductive T16Irq
  | cra
  | crb
  deriving DecidableEq, Repr

/-- `Timer16bit`. -/
structure Timer16bit where
  ch : Fin 6
  cra : U16 := 0
  crb : U16 := 0
  tc : U16 := 0
  ctl : U8 := 0
  nextTickCycle : U64 := 0
  /-- `cached_cpc_`. -/
  cachedCpc : U64 := 0
  /-- `cpc_gen_`. -/
  cpcGen : U32 := 0xFFFFFFFF
  /-- `cached_wake_`. -/
  cachedWake : U64 := 0xFFFFFFFFFFFFFFFF
  /-- The bit of this timer in the active mask of its parent. -/
  active : Bool := false

namespace Timer16bit

variable (t : Timer16bit) (clk : ClockControl)

/-- `UINT64_MAX`. -/
def never : U64 := 0xFFFFFFFFFFFFFFFF

/-- `PRUN`. -/
def prun : Bool := t.ctl.getLsbD 0

/-- What `cycles_per_count` returns. -/
def cpc : U64 :=
  if clk.configGen ≠ t.cpcGen then clk.cyclesPerCount (clk.t16ClockHz t.ch (t.ctl.getLsbD 3))
  else t.cachedCpc

/-- The cache `cycles_per_count` leaves. -/
def fillCpc : Timer16bit := { t with cachedCpc := t.cpc clk, cpcGen := clk.configGen }

/-- The counts to the next match of `CRB`, when it is set. -/
def countsToCrb : U64 :=
  if t.tc < t.crb then t.crb.setWidth 64 - t.tc.setWidth 64 else t.crb.setWidth 64

/-- The counts to the next match of `CRA`, when it is set. -/
def countsToCra : U64 :=
  if t.tc < t.cra then t.cra.setWidth 64 - t.tc.setWidth 64
  else if t.crb ≠ 0 ∧ t.cra ≤ t.crb then t.countsToCrb + t.cra.setWidth 64
  else (0x10000 - t.tc.setWidth 64) + t.cra.setWidth 64

/-- The wake point of a running timer. -/
def nextMatch (cpc : U64) : U64 :=
  let crbWake := if t.crb ≠ 0 then t.nextTickCycle + t.countsToCrb * cpc else never
  let craWake := if t.cra ≠ 0 then t.nextTickCycle + t.countsToCra * cpc else never
  Words.stdMin crbWake craWake

/-- `refresh_wake`. -/
def refreshWake : Timer16bit :=
  if !t.prun then { t with cachedWake := never }
  else
    let t := t.fillCpc clk
    if t.cachedCpc = 0 then { t with cachedWake := never }
    else { t with cachedWake := t.nextMatch t.cachedCpc }

/-- `next_wake_cycle`. -/
def nextWakeCycle : U64 := t.cachedWake

/-- `reset`. -/
def reset : Timer16bit := { ch := t.ch }

/-! ### The registers -/

/-- The write handler of `CRA`. -/
def writeCra (v : U16) : Timer16bit := { t with cra := v }.refreshWake clk

/-- The write handler of `CRB`. -/
def writeCrb (v : U16) : Timer16bit := { t with crb := v }.refreshWake clk

/-- The write handler of `TC`. -/
def writeTc (v : U16) : Timer16bit := { t with tc := v }.refreshWake clk

/-- `PRESET`: the counter goes to 0, and its next count is due at once. -/
def preset : Timer16bit := { t with tc := 0, nextTickCycle := 0 }

/-- The write handler of `T16CTL`. -/
def writeCtl (v : U16) : Timer16bit :=
  let val : U8 := v.setWidth 8
  let t := if val.getLsbD 1 then t.preset else t
  let ctl := val &&& ~~~0x02
  let active := if t.prun ≠ ctl.getLsbD 0 then ctl.getLsbD 0 else t.active
  { t with ctl := ctl, active := active }.refreshWake clk

/-! ### The tick -/

/-- The counts a tick at `cpuCycles` processes, once its time has come. -/
def counts (cpuCycles : U64) : U64 := (cpuCycles - t.nextTickCycle) / t.cpc clk + 1

/-- `period`. -/
def period : U64 := t.crb.setWidth 64 + 1

/-- `v_end`: where the counter would be after `counts` counts, were it not to wrap. -/
def vEnd (counts : U64) : U64 := t.tc.setWidth 64 + counts

/-- `N`: the matches of `CRB` in `counts` counts. -/
def crbFires (counts : U64) : U64 :=
  if t.crb.setWidth 64 ≤ t.vEnd counts then (t.vEnd counts - t.crb.setWidth 64) / t.period + 1
  else 0

/-- `final_tc`. -/
def finalTc (counts : U64) : U16 := (t.vEnd counts % t.period).setWidth 16

/-- `CRA` is met on the way up from the current count. -/
def craAhead (counts : U64) : Prop :=
  t.tc < t.cra ∧ t.cra.setWidth 64 - t.tc.setWidth 64 ≤ counts

instance (counts : U64) : Decidable (t.craAhead counts) := by unfold craAhead; infer_instance

/-- `cra_fires`. -/
def craFires (counts : U64) : Prop :=
  t.tc < t.cra ∧ t.cra.setWidth 64 ≤ t.tc.setWidth 64 + counts ∨ 2 ≤ t.crbFires counts ∨
    t.cra ≤ t.finalTc counts

instance (counts : U64) : Decidable (t.craFires counts) := by unfold craFires; infer_instance

/-- `cra_possible`. -/
def craPossible : Prop := t.cra ≠ 0 ∧ t.cra ≤ t.crb

instance : Decidable t.craPossible := by unfold craPossible; infer_instance

/-- The closed form of `counts` counts, with `CRB` set. -/
def advance (counts : U64) : Timer16bit × List T16Irq :=
  ({ t with tc := t.finalTc counts },
    if t.crbFires counts = 0 then
      if t.craPossible ∧ t.craAhead counts then [.cra] else []
    else (if t.craPossible ∧ t.craFires counts then [.cra] else []) ++ [.crb])

/-- The loop over `counts` counts of a free-running counter, `CRB` being 0. -/
def freeRun : ℕ → Timer16bit → Timer16bit × List T16Irq
  | 0, t => (t, [])
  | counts + 1, t =>
    let t := { t with tc := t.tc + 1 }
    let raised := if t.cra ≠ 0 ∧ t.tc = t.cra then [T16Irq.cra] else []
    let (t, more) := freeRun counts t
    (t, raised ++ more)

/-- `tick`. -/
def tick (cpuCycles : U64) : Timer16bit × List T16Irq :=
  if !t.prun then (t, [])
  else if cpuCycles < t.nextTickCycle then (t, [])
  else if t.cpc clk = 0 then (t.fillCpc clk, [])
  else
    let n := t.counts clk cpuCycles
    let t := { t.fillCpc clk with nextTickCycle := t.nextTickCycle + n * t.cpc clk }
    let (t, raised) :=
      if t.crb ≠ 0 then t.advance n
      else if t.cra = 0 then ({ t with tc := t.tc + n.setWidth 16 }, [])
      else freeRun n.toNat t
    (t.refreshWake clk, raised)

end Timer16bit
