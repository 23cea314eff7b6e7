import PieceEmu.Lib.CyclicCounter
import PieceEmu.Soc.Schedules
import PieceEmu.Soc.Timer16bit
import PieceEmu.Soc.Timer8bit

/-!
# Wake points after a tick

A peripheral that has been ticked at a cycle count wakes after it. This holds of the
8-bit timer, the clock timer, the watchdog and the sound channel in every state; of the
16-bit timer it holds unless the timer is *stuck*: it runs, its input clock is stopped,
and the wake point it has cached before the clock was stopped has been passed. Then the
tick does not come as far as the cache.

The clock of the CPU is kept below `2 ^ 63`, so that no sum of the schedules wraps.
-/

namespace Wake

/-- A cycle count from which no schedule reaches the end of the clock. -/
def Early (cycles : U64) : Prop := cycles.toNat < 2 ^ 63

instance (cycles : U64) : Decidable (Early cycles) := inferInstanceAs (Decidable (_ < _))

/-- The bound on the next tick of a timer that has only been ticked early. -/
def Near (next : U64) : Prop := next.toNat < 2 ^ 63 + 2 ^ 32

/-- **The counts of a tick** are those that are due, and neither they nor the time of the
next one wrap, a period away from the end of the clock. -/
theorem toNat_counts {next now per : U64} (hper : per ≠ 0) (hdue : ¬now < next)
    (hroom : now.toNat + per.toNat < 2 ^ 64) :
    ((now - next) / per + 1).toNat = Cyclic.due next.toNat per.toNat now.toNat ∧
      (next + ((now - next) / per + 1) * per).toNat =
        next.toNat + Cyclic.due next.toNat per.toNat now.toNat * per.toNat := by
  have hle : next.toNat ≤ now.toNat := Nat.not_lt.mp fun h => hdue (BitVec.lt_def.mpr h)
  have hpos : 0 < per.toNat := Nat.pos_of_ne_zero fun h => hper (BitVec.eq_of_toNat_eq h)
  have hhigh : next.toNat + Cyclic.due next.toNat per.toNat now.toNat * per.toNat ≤
      now.toNat + per.toNat := Cyclic.next_due_le hle
  have hfit := hhigh.trans_lt hroom
  have hmul : Cyclic.due next.toNat per.toNat now.toNat ≤
      Cyclic.due next.toNat per.toNat now.toNat * per.toNat := Nat.le_mul_of_pos_right _ hpos
  have hcounts := (hmul.trans (Nat.le_add_left _ _)).trans_lt hfit
  exact ⟨Cyclic.toNat_due hdue hcounts, Cyclic.toNat_next_due hdue hpos hfit⟩

/-- **A schedule moved on by the periods that are due** lies ahead, by one period at
most. -/
theorem advance {next now per : U64} (hnow : Early now) (hper : per ≠ 0)
    (hlt : per.toNat < 2 ^ 32) (hdue : ¬now < next) :
    now < next + ((now - next) / per + 1) * per ∧
      Near (next + ((now - next) / per + 1) * per) := by
  have hle : next.toNat ≤ now.toNat := Nat.not_lt.mp fun h => hdue (BitVec.lt_def.mpr h)
  have hpos : 0 < per.toNat := Nat.pos_of_ne_zero fun h => hper (BitVec.eq_of_toNat_eq h)
  unfold Early at hnow
  have hsum := (toNat_counts hper hdue (by omega)).2
  constructor
  · rw [BitVec.lt_def, hsum]
    exact Cyclic.lt_next_due hpos
  · have hhigh : next.toNat + Cyclic.due next.toNat per.toNat now.toNat * per.toNat ≤
        now.toNat + per.toNat := Cyclic.next_due_le hle
    unfold Near
    rw [hsum]
    omega

/-- A parent's bit that is moved when the run bit moves stays in step with it. -/
theorem move_active (was now : Bool) : (if was ≠ now then now else was) = now := by
  split_ifs with hne
  · rfl
  · exact not_not.mp hne

theorem Early.lt_uint64Max {now : U64} (h : Early now) : now < Words.uint64Max := by
  unfold Early at h
  rw [BitVec.lt_def]
  exact Nat.lt_trans h (by decide)

end Wake

open Wake

/-! ### The cycles of a count -/

theorem ClockControl.toNat_cyclesPerCount_lt (c : ClockControl) (hz : U32) :
    (c.cyclesPerCount hz).toNat < 2 ^ 32 := by
  unfold cyclesPerCount
  split_ifs
  · decide
  · rw [BitVec.toNat_setWidth]
    exact Nat.lt_of_le_of_lt (Nat.mod_le ..) (BitVec.isLt _)

/-! ### The 8-bit timer -/

namespace Timer8bit

/-- What a timer that has only been ticked early keeps. -/
structure Scheduled (t : Timer8bit) : Prop where
  active : t.active = t.ptrun
  next : Near t.nextTickCycle
  cachedCpc : t.cachedCpc.toNat < 2 ^ 32

variable {t : Timer8bit} {clk : ClockControl} {now : U64}

theorem cpc_lt (h : t.cachedCpc.toNat < 2 ^ 32) : (t.cpc clk).toNat < 2 ^ 32 := by
  unfold cpc
  split_ifs
  · exact ClockControl.toNat_cyclesPerCount_lt ..
  · exact h

theorem Scheduled.cpc (h : t.Scheduled) : (t.cpc clk).toNat < 2 ^ 32 := cpc_lt h.cachedCpc

theorem Scheduled.fillCpc (h : t.Scheduled) : (t.fillCpc clk).Scheduled :=
  ⟨h.active, h.next, h.cpc⟩

theorem Scheduled.onCtlWrite (h : t.Scheduled) (val : U8) : (t.onCtlWrite val).Scheduled := by
  refine ⟨?_, h.next, h.cachedCpc⟩
  change (if t.ptrun ≠ (val &&& 0x07).getLsbD 0 then (val &&& 0x07).getLsbD 0 else t.active) =
    (val &&& 0x07).getLsbD 0
  rw [h.active]
  exact move_active _ _

@[simp] theorem fillCpc_cpc : (t.fillCpc clk).cpc clk = t.cpc clk := by
  unfold Timer8bit.fillCpc
  rw [Timer8bit.cpc, if_neg (not_not.mpr rfl)]

theorem Scheduled.writeCtl (h : t.Scheduled) (v : U16) : (t.writeCtl v).Scheduled :=
  ⟨(h.onCtlWrite (v.setWidth 8)).active, h.next, h.cachedCpc⟩

theorem Scheduled.writeCtlByte (h : t.Scheduled) (addr : U32) (v : U8) :
    (t.writeCtlByte addr v).Scheduled := by
  unfold Timer8bit.writeCtlByte
  split_ifs
  · exact ⟨h.active, h.next, h.cachedCpc⟩
  · exact h.onCtlWrite v

theorem Scheduled.askedWake (h : t.Scheduled) : (t.askedWake clk).Scheduled := by
  unfold Timer8bit.askedWake
  split_ifs
  · exact h.fillCpc
  · exact h

theorem scheduled_reset (t : Timer8bit) : t.reset.Scheduled :=
  ⟨(BitVec.getLsbD_zero (w := 8)).symm, Nat.two_pow_pos 63 |>.trans_le (Nat.le_add_right _ _),
    Nat.two_pow_pos 32⟩

/-- A step of the schedule, whatever it does to the counter. -/
theorem advance_eq (t : Timer8bit) (n : U64) : ∃ ptd, (t.advance n).1 = { t with ptd := ptd } := by
  unfold advance
  split_ifs
  · exact ⟨_, rfl⟩
  · exact ⟨_, rfl⟩

theorem nextWakeCycle_of_lt (h : t.Scheduled) (hnow : Early now) (hlt : now < t.nextTickCycle) :
    now < t.nextWakeCycle clk := by
  unfold nextWakeCycle
  split_ifs with hrun hcpc
  · exact hnow.lt_uint64Max
  · exact hnow.lt_uint64Max
  · have hn := h.next
    have hcpc : (t.cpc clk).toNat < 2 ^ 32 := h.cpc
    have hmul : t.ptd.toNat * (t.cpc clk).toNat ≤ 255 * 2 ^ 32 :=
      Nat.mul_le_mul (Nat.le_of_lt_succ t.ptd.isLt) (Nat.le_of_lt hcpc)
    have hptd : (t.ptd.setWidth 64).toNat = t.ptd.toNat :=
      BitVec.toNat_setWidth_of_le (by decide)
    unfold Near at hn
    rw [BitVec.lt_def] at hlt ⊢
    rw [BitVec.toNat_add, BitVec.toNat_mul, hptd]
    generalize t.ptd.toNat * (t.cpc clk).toNat = k at hmul ⊢
    omega

/-- What a tick does to the schedule. -/
theorem Scheduled.tick (h : t.Scheduled) (hnow : Early now) :
    (t.tick clk now).1.Scheduled ∧ now < (t.tick clk now).1.nextWakeCycle clk := by
  unfold Timer8bit.tick
  cases hrun : t.ptrun with
  | false =>
    refine ⟨h, ?_⟩
    change now < t.nextWakeCycle clk
    unfold nextWakeCycle
    rw [hrun]
    exact hnow.lt_uint64Max
  | true =>
    rw [Bool.not_true, if_neg Bool.false_ne_true]
    by_cases hdue : now < t.nextTickCycle
    · rw [if_pos hdue]
      exact ⟨h, nextWakeCycle_of_lt h hnow hdue⟩
    rw [if_neg hdue]
    by_cases hcpc : t.cpc clk = 0
    · rw [if_pos hcpc]
      refine ⟨h.fillCpc, ?_⟩
      dsimp only
      unfold nextWakeCycle
      rw [fillCpc_cpc, hcpc, if_pos rfl, ite_self]
      exact hnow.lt_uint64Max
    · rw [if_neg hcpc]
      obtain ⟨hlt, hnear⟩ := Wake.advance hnow hcpc h.cpc hdue
      obtain ⟨ptd, heq⟩ := advance_eq { t.fillCpc clk with
        nextTickCycle := t.nextTickCycle + t.counts clk now * t.cpc clk } (t.counts clk now)
      dsimp only
      rw [heq]
      have hs : ({ t.fillCpc clk with
          nextTickCycle := t.nextTickCycle + t.counts clk now * t.cpc clk
          ptd := ptd } : Timer8bit).Scheduled := ⟨h.active, hnear, h.cpc⟩
      exact ⟨hs, nextWakeCycle_of_lt hs hnow hlt⟩

end Timer8bit

/-! ### The 16-bit timer -/

namespace Timer16bit

/-- What a timer that has only been ticked early keeps: its wake point lies after the
next tick. -/
structure Scheduled (t : Timer16bit) : Prop where
  active : t.active = t.prun
  next : Near t.nextTickCycle
  cachedCpc : t.cachedCpc.toNat < 2 ^ 32
  wake : t.cachedWake = Words.uint64Max ∨ t.prun = true ∧ t.nextTickCycle < t.cachedWake

/-- **A timer is stuck** at a cycle count: it runs, its clock is stopped, and the wake
point it has cached has been passed. -/
def Stuck (t : Timer16bit) (clk : ClockControl) (now : U64) : Prop :=
  t.prun = true ∧ t.cpc clk = 0 ∧ t.cachedWake ≤ now

instance (t : Timer16bit) (clk : ClockControl) (now : U64) : Decidable (t.Stuck clk now) := by
  unfold Stuck
  infer_instance

/-- **A timer is left behind** at a cycle count: it is stuck, and the wake point it has
cached lies before. -/
def Behind (t : Timer16bit) (clk : ClockControl) (now : U64) : Prop :=
  t.Stuck clk now ∧ t.cachedWake ≠ now

instance (t : Timer16bit) (clk : ClockControl) (now : U64) : Decidable (t.Behind clk now) := by
  unfold Behind
  infer_instance

variable {t : Timer16bit} {clk : ClockControl} {now : U64}

theorem cpc_lt (h : t.cachedCpc.toNat < 2 ^ 32) : (t.cpc clk).toNat < 2 ^ 32 := by
  unfold cpc
  split_ifs
  · exact ClockControl.toNat_cyclesPerCount_lt ..
  · exact h

/-! The counts to the next match: at least one, and not many. -/

theorem toNat_countsToCrb (h : t.crb ≠ 0) :
    1 ≤ t.countsToCrb.toNat ∧ t.countsToCrb.toNat < 2 ^ 16 := by
  have hpos : 0 < t.crb.toNat := Nat.pos_of_ne_zero fun h0 => h (BitVec.eq_of_toNat_eq h0)
  have hcrb : (t.crb.setWidth 64).toNat = t.crb.toNat :=
    BitVec.toNat_setWidth_of_le (by decide)
  have htc : (t.tc.setWidth 64).toNat = t.tc.toNat :=
    BitVec.toNat_setWidth_of_le (by decide)
  have hlt := t.crb.isLt
  unfold countsToCrb
  split_ifs with hc
  · rw [BitVec.lt_def] at hc
    rw [BitVec.toNat_sub_of_le (by rw [BitVec.le_def, hcrb, htc]; omega), hcrb, htc]
    omega
  · rw [hcrb]
    omega

theorem toNat_countsToCra (h : t.cra ≠ 0) :
    1 ≤ t.countsToCra.toNat ∧ t.countsToCra.toNat < 2 ^ 18 := by
  have hpos : 0 < t.cra.toNat := Nat.pos_of_ne_zero fun h0 => h (BitVec.eq_of_toNat_eq h0)
  have hcra : (t.cra.setWidth 64).toNat = t.cra.toNat :=
    BitVec.toNat_setWidth_of_le (by decide)
  have htc : (t.tc.setWidth 64).toNat = t.tc.toNat :=
    BitVec.toNat_setWidth_of_le (by decide)
  have hlt := t.cra.isLt
  have hlt' := t.tc.isLt
  unfold countsToCra
  split_ifs with hc hcrb
  · rw [BitVec.lt_def] at hc
    rw [BitVec.toNat_sub_of_le (by rw [BitVec.le_def, hcra, htc]; omega), hcra, htc]
    omega
  · have := toNat_countsToCrb hcrb.1
    rw [BitVec.toNat_add, hcra]
    omega
  · rw [BitVec.toNat_add, BitVec.toNat_sub, hcra, htc]
    have h0 : (0x10000 : U64).toNat = 2 ^ 16 := rfl
    rw [h0]
    omega

/-- The next match lies after the next tick. -/
theorem lt_nextMatch (hnext : Near t.nextTickCycle) {cpc : U64} (h0 : cpc ≠ 0)
    (hcpc : cpc.toNat < 2 ^ 32) : t.nextTickCycle < t.nextMatch cpc := by
  have hpos : 0 < cpc.toNat := Nat.pos_of_ne_zero fun h => h0 (BitVec.eq_of_toNat_eq h)
  unfold Near at hnext
  have hafter {counts : U64} (h1 : 1 ≤ counts.toNat) (h2 : counts.toNat < 2 ^ 18) :
      t.nextTickCycle < t.nextTickCycle + counts * cpc := by
    have hlow : 1 ≤ counts.toNat * cpc.toNat := Nat.mul_pos h1 hpos
    have hhigh : counts.toNat * cpc.toNat ≤ 2 ^ 18 * 2 ^ 32 :=
      Nat.mul_le_mul (Nat.le_of_lt h2) (Nat.le_of_lt hcpc)
    rw [BitVec.lt_def, BitVec.toNat_add, BitVec.toNat_mul]
    generalize counts.toNat * cpc.toNat = k at hlow hhigh ⊢
    omega
  have hnever : t.nextTickCycle < never := by
    rw [BitVec.lt_def]
    exact Nat.lt_trans hnext (by decide)
  refine Words.lt_stdMin_iff.mpr ⟨?_, ?_⟩
  · split_ifs with hcrb
    · obtain ⟨h1, h2⟩ := toNat_countsToCrb hcrb
      exact hafter h1 (Nat.lt_trans h2 (by decide))
    · exact hnever
  · split_ifs with hcra
    · obtain ⟨h1, h2⟩ := toNat_countsToCra hcra
      exact hafter h1 h2
    · exact hnever

/-- **A timer that refreshes its wake point is scheduled**, whatever was cached before. -/
theorem scheduled_refreshWake (hactive : t.active = t.prun) (hnext : Near t.nextTickCycle)
    (hcpc : t.cachedCpc.toNat < 2 ^ 32) : (t.refreshWake clk).Scheduled := by
  unfold refreshWake
  cases hrun : t.prun with
  | false => exact ⟨hactive, hnext, hcpc, .inl rfl⟩
  | true =>
    rw [Bool.not_true, if_neg Bool.false_ne_true]
    dsimp only
    have hfill : (t.fillCpc clk).cachedCpc.toNat < 2 ^ 32 := cpc_lt hcpc
    split_ifs with h0
    · exact ⟨hactive, hnext, hfill, .inl rfl⟩
    · exact ⟨hactive, hnext, hfill, .inr ⟨hrun, lt_nextMatch hnext h0 hfill⟩⟩

theorem scheduled_reset (t : Timer16bit) : t.reset.Scheduled :=
  ⟨(BitVec.getLsbD_zero (w := 8)).symm, Nat.two_pow_pos 63 |>.trans_le (Nat.le_add_right _ _),
    Nat.two_pow_pos 32, .inl rfl⟩

/-! The register writes. -/

theorem Scheduled.writeCra (h : t.Scheduled) (v : U16) : (t.writeCra clk v).Scheduled :=
  scheduled_refreshWake h.active h.next h.cachedCpc

theorem Scheduled.writeCrb (h : t.Scheduled) (v : U16) : (t.writeCrb clk v).Scheduled :=
  scheduled_refreshWake h.active h.next h.cachedCpc

theorem Scheduled.writeTc (h : t.Scheduled) (v : U16) : (t.writeTc clk v).Scheduled :=
  scheduled_refreshWake h.active h.next h.cachedCpc

theorem Scheduled.preset (h : t.Scheduled) :
    t.preset.active = t.prun ∧ Near t.preset.nextTickCycle :=
  ⟨h.active, Nat.two_pow_pos 63 |>.trans_le (Nat.le_add_right _ _)⟩

theorem Scheduled.writeCtl (h : t.Scheduled) (v : U16) : (t.writeCtl clk v).Scheduled := by
  have hmove (t' : Timer16bit) (hactive : t'.active = t'.prun) (hnext : Near t'.nextTickCycle)
      (hcpc : t'.cachedCpc.toNat < 2 ^ 32) (ctl : U8) :
      ({ t' with
        ctl := ctl
        active := if t'.prun ≠ ctl.getLsbD 0 then ctl.getLsbD 0 else t'.active } :
          Timer16bit).refreshWake clk |>.Scheduled := by
    refine scheduled_refreshWake ?_ hnext hcpc
    dsimp only
    rw [hactive]
    exact move_active _ _
  unfold Timer16bit.writeCtl
  dsimp only
  by_cases hpreset : (v.setWidth 8).getLsbD 1 = true
  · rw [if_pos hpreset]
    exact hmove t.preset h.preset.1 h.preset.2 h.cachedCpc _
  · rw [if_neg hpreset]
    exact hmove t h.active h.next h.cachedCpc _

/-! The tick. -/

theorem freeRun_eq (n : ℕ) (t : Timer16bit) : ∃ tc, (freeRun n t).1 = { t with tc := tc } := by
  induction n generalizing t with
  | zero => exact ⟨t.tc, rfl⟩
  | succ n ih =>
    obtain ⟨tc, h⟩ := ih { t with tc := t.tc + 1 }
    exact ⟨tc, h⟩

/-- The counts of a tick, whatever they do to the counter, leave the schedule alone. -/
theorem tick_counted (hrun : t.prun = true) (hdue : ¬now < t.nextTickCycle)
    (hcpc : t.cpc clk ≠ 0) : ∃ tc, (t.tick clk now).1 =
      ({ t.fillCpc clk with
        nextTickCycle := t.nextTickCycle + t.counts clk now * t.cpc clk
        tc := tc } : Timer16bit).refreshWake clk := by
  unfold tick
  rw [hrun, Bool.not_true, if_neg Bool.false_ne_true, if_neg hdue, if_neg hcpc]
  dsimp only
  split_ifs
  · exact ⟨_, rfl⟩
  · exact ⟨_, rfl⟩
  · obtain ⟨tc, h⟩ := freeRun_eq (t.counts clk now).toNat { t.fillCpc clk with
      nextTickCycle := t.nextTickCycle + t.counts clk now * t.cpc clk }
    refine ⟨tc, ?_⟩
    rw [h]

theorem refreshWake_wake_gt (hnow : Early now) (hnext : Near t.nextTickCycle)
    (hcpc : t.cachedCpc.toNat < 2 ^ 32) (hlt : now < t.nextTickCycle) :
    now < (t.refreshWake clk).cachedWake := by
  unfold refreshWake
  split_ifs with hrun
  · exact hnow.lt_uint64Max
  · dsimp only
    have hfill : (t.fillCpc clk).cachedCpc.toNat < 2 ^ 32 := cpc_lt hcpc
    split_ifs with h0
    · exact hnow.lt_uint64Max
    · exact BitVec.lt_trans hlt (lt_nextMatch hnext h0 hfill)

/-- **What a tick does to the schedule**: the timer wakes after it, unless it is stuck. -/
theorem Scheduled.tick (h : t.Scheduled) (hnow : Early now) :
    (t.tick clk now).1.Scheduled ∧
      (now < (t.tick clk now).1.cachedWake ↔ ¬t.Stuck clk now) := by
  cases hrun : t.prun with
  | false =>
    have hwake : t.cachedWake = Words.uint64Max := by
      rcases h.wake with hw | ⟨hw, -⟩
      · exact hw
      · rw [hrun] at hw
        exact Bool.noConfusion hw
    have htick : (t.tick clk now).1 = t := by
      unfold Timer16bit.tick
      rw [hrun]
      rfl
    rw [htick, hwake]
    refine ⟨h, iff_of_true hnow.lt_uint64Max fun hs => ?_⟩
    rw [hs.1] at hrun
    exact Bool.noConfusion hrun
  | true =>
    by_cases hdue : now < t.nextTickCycle
    · have htick : (t.tick clk now).1 = t := by
        unfold Timer16bit.tick
        rw [if_pos hdue, ite_self]
      have hlt : now < t.cachedWake := by
        rcases h.wake with hw | ⟨-, hw⟩
        · rw [hw]
          exact hnow.lt_uint64Max
        · exact BitVec.lt_trans hdue hw
      rw [htick]
      exact ⟨h, iff_of_true hlt fun hs => BitVec.not_lt.mpr hs.2.2 hlt⟩
    · by_cases hcpc : t.cpc clk = 0
      · have htick : (t.tick clk now).1 = t.fillCpc clk := by
          unfold Timer16bit.tick
          rw [hrun, Bool.not_true, if_neg Bool.false_ne_true, if_neg hdue, if_pos hcpc]
        rw [htick]
        refine ⟨⟨h.active, h.next, cpc_lt h.cachedCpc, h.wake⟩, ?_⟩
        change now < t.cachedWake ↔ _
        rw [← BitVec.not_le]
        exact not_congr ⟨fun hle => ⟨hrun, hcpc, hle⟩, fun hs => hs.2.2⟩
      · obtain ⟨hlt, hnear⟩ := Wake.advance hnow hcpc (cpc_lt h.cachedCpc) hdue
        obtain ⟨tc, htick⟩ := tick_counted hrun hdue hcpc
        rw [htick]
        exact ⟨scheduled_refreshWake h.active hnear (cpc_lt h.cachedCpc),
          iff_of_true (refreshWake_wake_gt hnow hnear (cpc_lt h.cachedCpc) hlt) fun hs =>
            hcpc hs.2.1⟩

/-- A timer that has not been left behind wakes no earlier than it is ticked. -/
theorem Scheduled.le_wake_tick (h : t.Scheduled) (hnow : Early now) (hb : ¬t.Behind clk now) :
    now ≤ (t.tick clk now).1.cachedWake := by
  by_cases hs : t.Stuck clk now
  · have heq : t.cachedWake = now := by
      by_contra hne
      exact hb ⟨hs, hne⟩
    have hkept : (t.tick clk now).1.cachedWake = t.cachedWake := by
      unfold Timer16bit.tick
      rw [if_pos hs.2.1]
      split_ifs <;> rfl
    rw [hkept, heq]
    exact BitVec.le_refl now
  · exact BitVec.le_of_lt ((h.tick hnow).2.mpr hs)

end Timer16bit

/-! ### The clock timer, the watchdog and the sound channel -/

/-- The clock of the CPU lies between 3 and 48 MHz. -/
theorem ClockControl.cpuClockHz_bounds (c : ClockControl) :
    3000000 ≤ c.cpuClockHz.toNat ∧ c.cpuClockHz.toNat ≤ 48000000 := by
  have hosc : c.osc3Hz.toNat = 24000000 ∨ c.osc3Hz.toNat = 48000000 := by
    unfold osc3Hz
    cases c.p07Slow
    · exact .inr rfl
    · exact .inl rfl
  have hdiv : ((c.pwrctl >>> 6) &&& 0x03).toNat ≤ 3 := by
    rw [BitVec.toNat_and]
    exact Nat.and_le_right
  unfold cpuClockHz
  rw [BitVec.toNat_ushiftRight, Nat.shiftRight_eq_div_pow]
  generalize ((c.pwrctl >>> 6) &&& 0x03).toNat = k at hdiv
  obtain rfl | rfl | rfl | rfl : k = 0 ∨ k = 1 ∨ k = 2 ∨ k = 3 := by omega
  all_goals omega

theorem ClockTimer.prescalerPeriod_bounds (clk : ClockControl) :
    prescalerPeriod clk.cpuClockHz ≠ 0 ∧ (prescalerPeriod clk.cpuClockHz).toNat < 2 ^ 32 := by
  obtain ⟨hlow, hhigh⟩ := clk.cpuClockHz_bounds
  have hne : clk.cpuClockHz ≠ 0 := fun h => by
    rw [h] at hlow
    exact absurd hlow (by decide)
  have hper : (prescalerPeriod clk.cpuClockHz).toNat = clk.cpuClockHz.toNat / 256 := by
    unfold prescalerPeriod
    rw [if_neg hne, BitVec.toNat_udiv, BitVec.toNat_setWidth,
      Nat.mod_eq_of_lt (Nat.lt_trans (BitVec.isLt _) (by decide))]
    rfl
  refine ⟨fun h => ?_, by omega⟩
  rw [h] at hper
  have h0 : (0 : U64).toNat = 0 := rfl
  omega

theorem ClockTimer.tick_wake (r : ClockTimer) (clk : ClockControl) {now : U64}
    (hnow : Early now) : now < (r.tick clk now).nextWakeCycle := by
  obtain ⟨hper, hlt⟩ := prescalerPeriod_bounds clk
  unfold ClockTimer.tick ClockTimer.nextWakeCycle
  rw [if_neg hper]
  by_cases hdue : now < r.nextPrescalerCycle
  · rw [if_pos hdue]
    exact hdue
  rw [if_neg hdue]
  by_cases hstop : r.rtcstop.getLsbD 1 = true
  · rw [if_pos hstop]
    unfold Early at hnow
    have h1 : (1 : U64).toNat = 1 := rfl
    rw [BitVec.lt_def, BitVec.toNat_add, h1]
    omega
  · rw [if_neg hstop]
    exact (Wake.advance hnow hper hlt hdue).1

theorem WatchdogTimer.nmiPeriod_bounds (clk : ClockControl) :
    0 < (nmiPeriod clk).toNat ∧ (nmiPeriod clk).toNat < 2 ^ 32 := by
  obtain ⟨hlow, hhigh⟩ := clk.cpuClockHz_bounds
  have hne : clk.cpuClockHz ≠ 0 := fun h => by
    rw [h] at hlow
    exact absurd hlow (by decide)
  have hper : (nmiPeriod clk).toNat = clk.cpuClockHz.toNat / 1000 := by
    unfold nmiPeriod
    rw [if_neg hne, BitVec.toNat_udiv, BitVec.toNat_setWidth,
      Nat.mod_eq_of_lt (Nat.lt_trans (BitVec.isLt _) (by decide))]
    rfl
  omega

theorem WatchdogTimer.tick_wake (w : WatchdogTimer) (clk : ClockControl) {now : U64}
    (hnow : Early now) : now < (w.tick clk now).1.nextWakeCycle := by
  have hnext : now < now + nmiPeriod clk := by
    obtain ⟨hpos, hlt⟩ := nmiPeriod_bounds clk
    unfold Early at hnow
    rw [BitVec.lt_def, BitVec.toNat_add]
    omega
  unfold WatchdogTimer.tick
  cases hrun : w.running with
  | false =>
    have hrun' (next : U64) : ({ w with nextNmiCycle := next } : WatchdogTimer).running = false :=
      hrun
    rw [Bool.not_false, if_pos rfl]
    unfold WatchdogTimer.nextWakeCycle
    rw [hrun', if_neg Bool.false_ne_true]
    exact hnow.lt_uint64Max
  | true =>
    have hrun' (next : U64) : ({ w with nextNmiCycle := next } : WatchdogTimer).running = true :=
      hrun
    rw [Bool.not_true, if_neg Bool.false_ne_true]
    unfold WatchdogTimer.nextWakeCycle
    split_ifs with hdue
    · exact hnext
    · exact absurd (hrun' _) ‹_›
    · exact BitVec.not_le.mp hdue

theorem SoundIrq.tick_wake (s : SoundIrq) {now : U64} (hnow : Early now) :
    now < (s.tick now).1.nextWakeCycle := by
  unfold SoundIrq.tick
  cases hp : s.pending with
  | false =>
    rw [Bool.not_false, if_pos rfl]
    unfold SoundIrq.nextWakeCycle
    rw [hp]
    exact hnow.lt_uint64Max
  | true =>
    rw [Bool.not_true, if_neg Bool.false_ne_true]
    by_cases hdue : now < s.completeCycle
    · rw [if_pos hdue]
      unfold SoundIrq.nextWakeCycle
      rw [hp]
      exact hdue
    · rw [if_neg hdue]
      exact hnow.lt_uint64Max
