import Mathlib.Algebra.Order.Floor.Div
import PieceEmu.Lib.Run
import PieceEmu.Soc.T16Reference
import PieceEmu.Soc.WakePoints

/-!
# A channel of the 16-bit timer with its clock

A `Timer16bit` and the `ClockControl` it asks for its clock, and the runs of the two:
writes to the registers of either, changes of `P07`, resets and ticks.

The cycles of a count are remembered with the generation of the clock control they were
computed in. Every write to the clock control starts a new generation, so that this
follows the clock. The other thing the cycles depend on is `CKSL`, which is a bit of the
timer's own control register, and a write of that starts no generation: the timer goes on
counting at the speed of the clock it has been switched away from.

`T16Channel.follows_iff` says exactly which steps leave a count of the wrong length: these
writes of `CKSL`, and besides them the steps that bring the generation, which is a counter
of 32 bits, back to one that is remembered.
-/

namespace Timer16bit

/-- A tick that does not count does nothing, or asks for the cycles of a count. -/
theorem tick_of_not_counted {t : Timer16bit} {clk : ClockControl} {cpu : U64}
    (h : ¬(t.prun = true ∧ ¬cpu < t.nextTickCycle ∧ t.cpc clk ≠ 0)) :
    t.tick clk cpu = (t, []) ∨ t.tick clk cpu = (t.fillCpc clk, []) := by
  unfold tick
  split_ifs with hrun hdue hcpc
  · exact .inl rfl
  · exact .inl rfl
  · exact .inr rfl
  · exact absurd ⟨by simpa using hrun, hdue, hcpc⟩ h

/-- The three ways of a tick: it does nothing, or asks for the cycles of a count, or
counts. -/
theorem tick_cases (t : Timer16bit) (clk : ClockControl) (cpu : U64) :
    (t.tick clk cpu).1 = t ∨ (t.tick clk cpu).1 = t.fillCpc clk ∨
      ∃ tc next, (t.tick clk cpu).1 =
        ({ t.fillCpc clk with tc := tc, nextTickCycle := next } : Timer16bit).refreshWake clk := by
  by_cases h : t.prun = true ∧ ¬cpu < t.nextTickCycle ∧ t.cpc clk ≠ 0
  · obtain ⟨hrun, hdue, hcpc⟩ := h
    obtain ⟨tc, htick⟩ := tick_counted hrun hdue hcpc
    exact .inr (.inr ⟨tc, _, htick⟩)
  · rcases tick_of_not_counted h with heq | heq
    · exact .inl (congrArg Prod.fst heq)
    · exact .inr (.inl (congrArg Prod.fst heq))

end Timer16bit

/-- A channel of the 16-bit timer, with the clock control. -/
structure T16Channel where
  timer : Timer16bit
  clk : ClockControl := {}

namespace T16Channel

/-- What can happen to a channel and to its clock. -/
inductive Op
  | writeCra (v : U16)
  | writeCrb (v : U16)
  | writeTc (v : U16)
  | writeCtl (v : U16)
  | writeClk (addr : U32) (val : U8)
  | setP07 (slow : Bool)
  | reset
  | resetClk
  | tick (cpuCycles : U64)

/-- One step. -/
def step (s : T16Channel) : Op → T16Channel
  | .writeCra v => { s with timer := s.timer.writeCra s.clk v }
  | .writeCrb v => { s with timer := s.timer.writeCrb s.clk v }
  | .writeTc v => { s with timer := s.timer.writeTc s.clk v }
  | .writeCtl v => { s with timer := s.timer.writeCtl s.clk v }
  | .writeClk addr val => { s with clk := (s.clk.writeSingle addr val).1 }
  | .setP07 slow => { s with clk := (s.clk.setP07 slow).1 }
  | .reset => { s with timer := s.timer.reset }
  | .resetClk => { s with clk := s.clk.reset }
  | .tick cpuCycles => { s with timer := (s.timer.tick s.clk cpuCycles).1 }

/-- The channel after power-on. -/
def powerOn (ch : Fin 6) : T16Channel := { timer := { ch := ch } }

/-! ### The length of a count -/

/-- The clock the channel is set to. -/
def clockHz (clk : ClockControl) (ch : Fin 6) (cksl : Bool) : ℕ := (clk.t16ClockHz ch cksl).toNat

/-- The cycles one count of this clock takes, 0 when it is stopped. -/
def cyclesOf (clk : ClockControl) (ch : Fin 6) (cksl : Bool) : ℕ :=
  if clockHz clk ch cksl = 0 then 0 else clk.cpuClockHz.toNat ⌈/⌉ clockHz clk ch cksl

/-- `CKSL`. -/
def cksl (t : Timer16bit) : Bool := t.ctl.getLsbD 3

/-- **The length of a count follows its configuration.** -/
def Follows (s : T16Channel) : Prop :=
  (s.timer.cpc s.clk).toNat = cyclesOf s.clk s.timer.ch (cksl s.timer)

instance (s : T16Channel) : Decidable s.Follows := Nat.decEq _ _

/-- The generation that comes next is not the one the timer remembers, or its clock, in the
new configuration `clk`, comes out at the cycles that are remembered. -/
def Renewed (s : T16Channel) (clk : ClockControl) : Prop :=
  s.clk.configGen + 1 ≠ s.timer.cpcGen ∨
    cyclesOf clk s.timer.ch (cksl s.timer) = s.timer.cachedCpc.toNat

/-- **The steps that leave the length of a count right.** -/
def Keeps (s : T16Channel) : Op → Prop
  -- the remembered cycles are not computed anew for the other clock
  | .writeCtl v =>
      s.clk.configGen ≠ s.timer.cpcGen ∨
        cyclesOf s.clk s.timer.ch (v.getLsbD 3) = cyclesOf s.clk s.timer.ch (cksl s.timer)
  | .writeClk addr val => s.Renewed (s.clk.writeSingle addr val).1
  | .setP07 slow => s.clk.p07Slow = slow ∨ s.Renewed (s.clk.setP07 slow).1
  | .resetClk => s.Renewed s.clk.reset
  -- a timer that has remembered nothing yet takes the last generation for its own
  | .reset => s.clk.configGen ≠ 0xFFFFFFFF ∨ clockHz s.clk s.timer.ch false = 0
  | _ => True

/-! ### The cycles of a count -/

theorem osc3Hz_le (clk : ClockControl) : clk.osc3Hz.toNat ≤ 48000000 := by
  unfold ClockControl.osc3Hz
  split_ifs
  · decide
  · exact Nat.le_refl _

theorem t16ClockHz_le (clk : ClockControl) (ch : Fin 6) (cksl : Bool) :
    (clk.t16ClockHz ch cksl).toNat ≤ 48000000 := by
  refine iteInduction (motive := fun hz : U32 => hz.toNat ≤ 48000000)
    (fun _ => Nat.zero_le _) fun _ => ?_
  rw [BitVec.toNat_udiv]
  exact (Nat.div_le_self _ _).trans (osc3Hz_le clk)

/-- The cycles of a count are rounded up, and none of the sums on the way wraps. -/
theorem toNat_cyclesPerCount (clk : ClockControl) (ch : Fin 6) (cksl : Bool) :
    (clk.cyclesPerCount (clk.t16ClockHz ch cksl)).toNat = cyclesOf clk ch cksl := by
  have hhz := t16ClockHz_le clk ch cksl
  obtain ⟨hlow, hhigh⟩ := clk.cpuClockHz_bounds
  unfold cyclesOf clockHz
  generalize clk.t16ClockHz ch cksl = hz at hhz
  have hone : (1 : U32).toNat = 1 := rfl
  have hsum : (clk.cpuClockHz + hz - 1).toNat = clk.cpuClockHz.toNat + hz.toNat - 1 := by
    rw [BitVec.toNat_sub_of_le, BitVec.toNat_add, hone, Nat.mod_eq_of_lt (by omega)]
    rw [BitVec.le_def, BitVec.toNat_add, hone, Nat.mod_eq_of_lt (by omega)]
    omega
  unfold ClockControl.cyclesPerCount
  by_cases h0 : hz = 0
  · rw [if_pos h0, h0]
    rfl
  · have hne : hz.toNat ≠ 0 := fun h => h0 (BitVec.eq_of_toNat_eq h)
    rw [if_neg h0, if_neg hne, BitVec.toNat_setWidth, BitVec.toNat_udiv, hsum,
      Nat.ceilDiv_eq_add_pred_div]
    refine Nat.mod_eq_of_lt ((Nat.div_le_self _ _).trans_lt ?_)
    omega

theorem cyclesOf_eq_zero_iff {clk : ClockControl} {ch : Fin 6} {cksl : Bool} :
    cyclesOf clk ch cksl = 0 ↔ clockHz clk ch cksl = 0 := by
  have hpos := clk.cpuClockHz_bounds.1
  unfold cyclesOf
  split_ifs with h
  · exact iff_of_true rfl h
  · refine iff_of_false (fun h0 => ?_) h
    have hle := (ceilDiv_le_iff_le_mul (Nat.pos_of_ne_zero h)).mp (Nat.le_of_eq h0)
    omega

/-- **What is computed anew is right**; so it comes down to what is remembered. -/
theorem follows_iff_remembered {s : T16Channel} :
    s.Follows ↔ (s.clk.configGen ≠ s.timer.cpcGen ∨
      cyclesOf s.clk s.timer.ch (cksl s.timer) = s.timer.cachedCpc.toNat) := by
  unfold Follows Timer16bit.cpc
  by_cases hgen : s.clk.configGen ≠ s.timer.cpcGen
  · rw [if_pos hgen]
    exact iff_of_true (toNat_cyclesPerCount _ _ _) (.inl hgen)
  · rw [if_neg hgen]
    exact ⟨fun h => .inr h.symm, fun h => (h.resolve_left hgen).symm⟩

/-! ### The steps -/

/-- Timers that agree in what the length of a count depends on. -/
theorem follows_congr {t t' : Timer16bit} {clk : ClockControl} (hcpc : t'.cpc clk = t.cpc clk)
    (hch : t'.ch = t.ch) (hctl : t'.ctl = t.ctl) :
    ({ timer := t', clk := clk } : T16Channel).Follows ↔
      ({ timer := t, clk := clk } : T16Channel).Follows := by
  unfold Follows cksl
  rw [hcpc, hch, hctl]

theorem follows_refreshWake {t : Timer16bit} {clk : ClockControl} :
    ({ timer := t.refreshWake clk, clk := clk } : T16Channel).Follows ↔
      ({ timer := t, clk := clk } : T16Channel).Follows := by
  refine follows_congr Timer16bit.refreshWake_cpc ?_ ?_
  · unfold Timer16bit.refreshWake
    dsimp only
    split_ifs <;> rfl
  · unfold Timer16bit.refreshWake
    dsimp only
    split_ifs <;> rfl

theorem follows_tick {s : T16Channel} (cpu : U64) : (s.step (.tick cpu)).Follows ↔ s.Follows := by
  change ({ s with timer := (s.timer.tick s.clk cpu).1 } : T16Channel).Follows ↔ _
  rcases s.timer.tick_cases s.clk cpu with heq | heq | ⟨tc, next, heq⟩
  · rw [heq]
  · rw [heq]
    exact follows_congr Timer16bit.fillCpc_cpc rfl rfl
  · rw [heq, follows_refreshWake]
    exact follows_congr Timer16bit.fillCpc_cpc rfl rfl

theorem follows_writeCtl {s : T16Channel} (h : s.Follows) (v : U16) :
    (s.step (.writeCtl v)).Follows ↔ s.Keeps (.writeCtl v) := by
  have hcksl : ((v.setWidth 8 : U8) &&& ~~~0x02).getLsbD 3 = v.getLsbD 3 := by
    simp
  -- `PRESET` has no part in it
  have hpreset (t : Timer16bit) (hch : t.ch = s.timer.ch) (hgen : t.cpcGen = s.timer.cpcGen)
      (hcached : t.cachedCpc = s.timer.cachedCpc) (active : Bool) :
      ({ s with timer := { t with ctl := (v.setWidth 8 : U8) &&& ~~~0x02, active := active } } :
        T16Channel).Follows ↔ s.Keeps (.writeCtl v) := by
    rw [follows_iff_remembered]
    unfold cksl Keeps
    dsimp only
    rw [hch, hgen, hcached, hcksl]
    by_cases hne : s.clk.configGen ≠ s.timer.cpcGen
    · exact iff_of_true (.inl hne) (.inl hne)
    · rw [(follows_iff_remembered.mp h).resolve_left hne]
  unfold step Timer16bit.writeCtl
  dsimp only
  rw [follows_refreshWake]
  by_cases hp : (v.setWidth 8 : U8).getLsbD 1 = true
  · rw [if_pos hp]
    exact hpreset s.timer.preset rfl rfl rfl _
  · rw [if_neg hp]
    exact hpreset s.timer rfl rfl rfl _

/-- A step to the next generation of the clock control. -/
theorem follows_renewed {s : T16Channel} {clk : ClockControl}
    (hgen : clk.configGen = s.clk.configGen + 1) :
    ({ s with clk := clk } : T16Channel).Follows ↔ s.Renewed clk := by
  rw [follows_iff_remembered, hgen]
  exact Iff.rfl

/-- **A step leaves the length of a count right** if and only if it is one of these. -/
theorem follows_step_iff {s : T16Channel} (h : s.Follows) (op : Op) :
    (s.step op).Follows ↔ s.Keeps op := by
  cases op with
  | writeCra v => exact iff_of_true (follows_refreshWake.mpr h) trivial
  | writeCrb v => exact iff_of_true (follows_refreshWake.mpr h) trivial
  | writeTc v => exact iff_of_true (follows_refreshWake.mpr h) trivial
  | writeCtl v => exact follows_writeCtl h v
  | writeClk addr val => exact follows_renewed (s.clk.writeSingle_configGen addr val)
  | setP07 slow =>
    change ({ s with clk := (s.clk.setP07 slow).1 } : T16Channel).Follows ↔
      (s.clk.p07Slow = slow ∨ s.Renewed (s.clk.setP07 slow).1)
    unfold ClockControl.setP07
    split_ifs with hslow
    · exact iff_of_true h (.inl hslow)
    · rw [or_iff_right hslow]
      exact follows_renewed rfl
  | reset =>
    have hcksl : cksl (s.step .reset).timer = false := BitVec.getLsbD_zero (w := 8)
    rw [follows_iff_remembered, hcksl]
    exact or_congr_right cyclesOf_eq_zero_iff
  | resetClk => exact follows_renewed rfl
  | tick cpu => exact iff_of_true ((follows_tick cpu).mpr h) trivial

/-- **The length of a count follows its configuration** all along a run if and only if no
step of the run leaves it behind. -/
theorem follows_iff (ch : Fin 6) (ops : List Op) :
    (∀ run, run <+: ops → (ActionRun.exec step (powerOn ch) run).Follows) ↔
      ActionRun.Along step Keeps (powerOn ch) ops :=
  ActionRun.along_iff_forall_prefix (I := Follows) (fun _ op h => follows_step_iff h op)
    (follows_iff_remembered.mpr (.inl (by show (0 : U32) ≠ 0xFFFFFFFF; decide)))

/-- **The defect**: a running timer is switched to a clock of half the speed, and goes on
counting at full speed. -/
theorem not_follows_writeCtl :
    ¬(ActionRun.exec step (powerOn 0)
      [.writeClk 0x040147 0x98, .writeCtl 0x01, .writeCtl 0x09]).Follows := by
  decide +kernel

end T16Channel
