import PieceEmu.Lib.PacedCounter
import PieceEmu.Soc.T16Wake
import PieceEmu.Soc.T8Reference

/-!
# Timers that are stopped and started

The timers keep the cycle count of their next count, `next_tick_cycle_`, across the writes
to their control registers. A timer that is stopped and started again some time later finds
it in the past, and its first tick takes all the counts of the time it stood still. The
`PRESET` of the 16-bit timer sets it to 0, and so has the counts of all the time since
power-on taken.

Both timers are counters in the sense of `Paced`, and `timers_lawful_iff` says when they
count as they should.
-/

/-! ### The 8-bit timer -/

namespace Timer8bit

/-- The counts a tick takes. -/
def applied (t : Timer8bit) (clk : ClockControl) (cpuCycles : U64) : ℕ :=
  if !t.ptrun then 0
  else if cpuCycles < t.nextTickCycle then 0
  else if t.cpc clk = 0 then 0
  else (t.counts clk cpuCycles).toNat

/-- The timer at a fixed clock, with the writes to its control register. -/
def paced (clk : ClockControl) : Paced.Device Timer8bit U8 64 where
  pace t := { going := t.Counting clk, next := t.nextTickCycle.toNat, period := (t.cpc clk).toNat }
  write := onCtlWrite
  tick := ticked clk
  applied t cpuCycles := t.applied clk cpuCycles

variable {t : Timer8bit} {clk : ClockControl} {cpu : U64}

theorem applied_of_not_counting (h : ¬t.Counting clk) : t.applied clk cpu = 0 := by
  unfold applied
  split_ifs with hrun hdue hcpc
  · rfl
  · rfl
  · rfl
  · exact absurd ⟨by simpa using hrun, hcpc⟩ h

theorem Counting.applied (h : t.Counting clk) (hcpu : cpu.toNat + 1 < 2 ^ 64) :
    t.applied clk cpu = t.due clk cpu := by
  unfold Timer8bit.applied
  rw [h.ptrun, Bool.not_true, if_neg Bool.false_ne_true, if_neg h.cpc_ne]
  split_ifs with hdue
  · exact (due_eq_zero_iff.mpr hdue).symm
  · refine toNat_counts ?_ hdue
    have hdiv : (cpu.toNat - t.nextTickCycle.toNat) / (t.cpc clk).toNat ≤
      cpu.toNat - t.nextTickCycle.toNat := Nat.div_le_self ..
    have hd : t.due clk cpu =
      (cpu.toNat - t.nextTickCycle.toNat) / (t.cpc clk).toNat + 1 := if_neg hdue
    rw [hd]
    omega

theorem tick_pace (h : t.cachedCpc.toNat < 2 ^ 32) (hcpu : cpu.toNat + 2 ^ 32 < 2 ^ 64) :
    (paced clk).pace (t.ticked clk cpu) = { (paced clk).pace t with
      next := t.nextTickCycle.toNat + t.applied clk cpu * (t.cpc clk).toNat } := by
  by_cases hcount : t.Counting clk
  · have hcpc : (t.cpc clk).toNat < 2 ^ 32 := cpc_lt h
    have hw : t.NoWrap clk cpu := by
      unfold NoWrap
      by_cases hdue : cpu < t.nextTickCycle
      · rw [due_eq_zero_iff.mpr hdue, Nat.zero_mul]
        exact t.nextTickCycle.isLt
      · exact (Cyclic.next_due_le (Nat.not_lt.mp fun hlt => hdue hlt)).trans_lt (by omega)
    have hl : t.TickLeaves clk cpu (t.ticked clk cpu) := (hcount.tick_spec hw).1
    refine Paced.Pace.ext (propext (iff_of_true (hl.counting hcount) hcount)) ?_
      (congrArg BitVec.toNat hl.cpc)
    rw [hcount.applied (by omega)]
    exact hl.nextTickCycle
  · refine Paced.Pace.ext (propext (iff_of_false (not_counting_ticked hcount cpu) hcount)) ?_ ?_
    · rw [applied_of_not_counting hcount, Nat.zero_mul]
      unfold ticked
      rcases tick_of_not_counting hcount cpu with heq | heq
      · rw [heq]
        rfl
      · rw [heq]
        rfl
    · unfold ticked
      rcases tick_of_not_counting hcount cpu with heq | heq
      · rw [heq]
      · rw [heq]
        exact congrArg BitVec.toNat fillCpc_cpc

theorem cachedCpc_ticked (h : t.cachedCpc.toNat < 2 ^ 32) :
    (t.ticked clk cpu).cachedCpc.toNat < 2 ^ 32 := by
  unfold ticked tick
  split_ifs
  · exact h
  · exact h
  · exact cpc_lt h
  · obtain ⟨ptd, heq⟩ := advance_eq { t.fillCpc clk with
      nextTickCycle := t.nextTickCycle + t.counts clk cpu * t.cpc clk } (t.counts clk cpu)
    dsimp only
    rw [heq]
    exact cpc_lt h

theorem paced_laws (clk : ClockControl) :
    Paced.Laws (paced clk) (2 ^ 32) fun t => t.cachedCpc.toNat < 2 ^ 32 where
  write_inv h _ := h
  tick_inv h _ := cachedCpc_ticked h
  period_pos _ hgo := Counting.cpc_pos hgo
  period_lt h := cpc_lt h
  write_next _ _ := .inr ⟨rfl, rfl⟩
  applied_eq _ _ htime hgo := Counting.applied hgo htime
  applied_stopped _ _ hstop := applied_of_not_counting hstop
  tick_pace h _ htime := tick_pace h htime

end Timer8bit

/-! ### The 16-bit timer -/

namespace Timer16bit

/-- The counts a tick takes. -/
def applied (t : Timer16bit) (clk : ClockControl) (cpuCycles : U64) : ℕ :=
  if !t.prun then 0
  else if cpuCycles < t.nextTickCycle then 0
  else if t.cpc clk = 0 then 0
  else (t.counts clk cpuCycles).toNat

/-- A running timer whose clock is going. -/
structure Going (t : Timer16bit) (clk : ClockControl) : Prop where
  prun : t.prun = true
  cpc_ne : t.cpc clk ≠ 0

/-- The timer at a fixed clock, with the writes to its control register. -/
def paced (clk : ClockControl) : Paced.Device Timer16bit U16 64 where
  pace t := { going := t.Going clk, next := t.nextTickCycle.toNat, period := (t.cpc clk).toNat }
  write t v := t.writeCtl clk v
  tick t cpuCycles := t.ticked clk cpuCycles
  applied t cpuCycles := t.applied clk cpuCycles

/-- The cycles of a count are filled in when the timer is started, and stay; until then no
count has been taken. -/
structure Settled (clk : ClockControl) (t : Timer16bit) : Prop where
  cachedCpc : t.cachedCpc.toNat < 2 ^ 32
  filled : clk.configGen = t.cpcGen ∨ t.prun = false ∧ t.nextTickCycle = 0

variable {t : Timer16bit} {clk : ClockControl} {cpu : U64}

theorem applied_of_not_counted
    (h : ¬(t.prun = true ∧ ¬cpu < t.nextTickCycle ∧ t.cpc clk ≠ 0)) : t.applied clk cpu = 0 := by
  unfold applied
  split_ifs with hrun hdue hcpc
  · rfl
  · rfl
  · rfl
  · exact absurd ⟨by simpa using hrun, hdue, hcpc⟩ h

theorem applied_of_not_going (h : ¬t.Going clk) : t.applied clk cpu = 0 :=
  applied_of_not_counted fun hc => h ⟨hc.1, hc.2.2⟩

theorem Going.applied (h : t.Going clk) (hcpu : cpu.toNat + 1 < 2 ^ 64) :
    t.applied clk cpu =
      Cyclic.due t.nextTickCycle.toNat (t.cpc clk).toNat cpu.toNat := by
  unfold Timer16bit.applied
  rw [h.prun, Bool.not_true, if_neg Bool.false_ne_true, if_neg h.cpc_ne]
  split_ifs with hdue
  · exact (Cyclic.due_eq_zero_iff.mpr hdue).symm
  · have hdiv : (cpu.toNat - t.nextTickCycle.toNat) / (t.cpc clk).toNat ≤
      cpu.toNat - t.nextTickCycle.toNat := Nat.div_le_self ..
    have hd : Cyclic.due t.nextTickCycle.toNat (t.cpc clk).toNat cpu.toNat =
      (cpu.toNat - t.nextTickCycle.toNat) / (t.cpc clk).toNat + 1 := if_neg hdue
    unfold counts
    rw [hd, BitVec.toNat_add, BitVec.toNat_udiv, BitVec.toNat_sub_of_le (BitVec.not_lt.mp hdue)]
    exact Nat.mod_eq_of_lt (show _ + 1 < 2 ^ 64 by omega)

theorem tick_pace (h : t.cachedCpc.toNat < 2 ^ 32) (hcpu : cpu.toNat + 2 ^ 32 < 2 ^ 64) :
    (paced clk).pace (t.ticked clk cpu) = { (paced clk).pace t with
      next := t.nextTickCycle.toNat + t.applied clk cpu * (t.cpc clk).toNat } := by
  by_cases hcount : t.prun = true ∧ ¬cpu < t.nextTickCycle ∧ t.cpc clk ≠ 0
  · obtain ⟨hrun, hdue, hcpc⟩ := hcount
    have hgo : t.Going clk := ⟨hrun, hcpc⟩
    have hlt : (t.cpc clk).toNat < 2 ^ 32 := cpc_lt h
    obtain ⟨tc, htick⟩ := tick_counted hrun hdue hcpc
    have hcpc' : (t.ticked clk cpu).cpc clk = t.cpc clk := by
      unfold ticked
      rw [htick, refreshWake_cpc]
      exact fillCpc_cpc
    have hgo' : (t.ticked clk cpu).Going clk := by
      refine ⟨?_, hcpc' ▸ hcpc⟩
      unfold ticked
      rw [htick, refreshWake_prun]
      exact hrun
    refine Paced.Pace.ext (propext (iff_of_true hgo' hgo)) ?_ (congrArg BitVec.toNat hcpc')
    change (t.ticked clk cpu).nextTickCycle.toNat = _
    unfold ticked
    rw [htick, refreshWake_nextTickCycle, hgo.applied (by omega)]
    exact (Wake.toNat_counts hcpc hdue (by omega)).2
  · rw [applied_of_not_counted hcount, Nat.zero_mul, Nat.add_zero]
    unfold ticked
    rcases tick_of_not_counted hcount with heq | heq
    · rw [heq]
      rfl
    · rw [heq]
      have hcpc : (t.fillCpc clk).cpc clk = t.cpc clk := fillCpc_cpc
      refine Paced.Pace.ext (propext ⟨fun hg => ⟨hg.prun, hcpc ▸ hg.cpc_ne⟩, fun hg =>
        ⟨hg.prun, hcpc ▸ hg.cpc_ne⟩⟩) rfl (congrArg BitVec.toNat hcpc)

/-! The cycles of a count, and where the next one is behind a write. -/

theorem settled_refreshWake (hcpc : t.cachedCpc.toNat < 2 ^ 32)
    (h : clk.configGen = t.cpcGen ∨ t.prun = true ∨ t.nextTickCycle = 0) :
    (t.refreshWake clk).Settled clk := by
  refine ⟨cachedCpc_refreshWake_lt hcpc, ?_⟩
  rw [refreshWake_prun, refreshWake_nextTickCycle]
  cases hrun : t.prun with
  | false =>
    have hsame : (t.refreshWake clk).cpcGen = t.cpcGen := by
      unfold refreshWake
      rw [hrun]
      rfl
    rw [hsame]
    rw [hrun] at h
    exact h.imp_right fun h => ⟨rfl, h.resolve_left Bool.false_ne_true⟩
  | true =>
    left
    unfold refreshWake
    rw [hrun, Bool.not_true, if_neg Bool.false_ne_true]
    dsimp only
    split_ifs <;> rfl

/-- Behind a write to the control register the next count is due at once, or where it was,
as long as before. -/
theorem writeCtl_eq (t : Timer16bit) (clk : ClockControl) (v : U16) :
    ∃ tc ctl active next, (next = 0 ∨ next = t.nextTickCycle) ∧
      t.writeCtl clk v = ({ t with
        tc := tc, ctl := ctl, active := active, nextTickCycle := next } : Timer16bit).refreshWake
          clk := by
  unfold writeCtl
  by_cases hp : (v.setWidth 8 : U8).getLsbD 1 = true
  · dsimp only
    rw [if_pos hp]
    exact ⟨_, _, _, _, .inl rfl, rfl⟩
  · dsimp only
    rw [if_neg hp]
    exact ⟨_, _, _, _, .inr rfl, rfl⟩

theorem Settled.writeCtl (h : t.Settled clk) (v : U16) : (t.writeCtl clk v).Settled clk := by
  obtain ⟨tc, ctl, active, next, hnext, heq⟩ := writeCtl_eq t clk v
  rw [heq]
  refine settled_refreshWake h.cachedCpc ?_
  rcases h.filled with hgen | ⟨-, hzero⟩
  · exact .inl hgen
  · rcases hnext with h0 | hsame
    · exact .inr (.inr h0)
    · exact .inr (.inr (hsame.trans hzero))

theorem Settled.ticked (h : t.Settled clk) : (t.ticked clk cpu).Settled clk := by
  unfold Timer16bit.ticked
  rcases t.tick_cases clk cpu with heq | heq | ⟨tc, next, heq⟩
  · rw [heq]
    exact h
  · rw [heq]
    exact ⟨cpc_lt h.cachedCpc, .inl rfl⟩
  · rw [heq]
    exact settled_refreshWake (cpc_lt h.cachedCpc) (.inl rfl)

theorem Settled.write_next (h : t.Settled clk) (v : U16) :
    ((paced clk).pace (t.writeCtl clk v)).next = 0 ∨
      ((paced clk).pace (t.writeCtl clk v)).next = ((paced clk).pace t).next ∧
        ((paced clk).pace (t.writeCtl clk v)).period = ((paced clk).pace t).period := by
  obtain ⟨tc, ctl, active, next, hnext, heq⟩ := writeCtl_eq t clk v
  have hmoved : ((paced clk).pace (t.writeCtl clk v)).next = next.toNat := by
    change (t.writeCtl clk v).nextTickCycle.toNat = next.toNat
    rw [heq, refreshWake_nextTickCycle]
  rw [hmoved]
  rcases hnext with h0 | hsame
  · exact .inl (congrArg BitVec.toNat h0)
  · rcases h.filled with hgen | ⟨-, hzero⟩
    · refine .inr ⟨congrArg BitVec.toNat hsame, congrArg BitVec.toNat ?_⟩
      -- the cycles of a count are remembered, whatever clock is selected
      have hgen' : ¬clk.configGen ≠ t.cpcGen := not_not.mpr hgen
      rw [heq, refreshWake_cpc]
      unfold cpc
      rw [if_neg hgen', if_neg hgen']
    · exact .inl (congrArg BitVec.toNat (hsame.trans hzero))

theorem paced_laws (clk : ClockControl) : Paced.Laws (paced clk) (2 ^ 32) (Settled clk) where
  write_inv h v := h.writeCtl v
  tick_inv h _ := h.ticked
  period_pos _ hgo := Nat.pos_of_ne_zero fun h0 => hgo.cpc_ne (BitVec.eq_of_toNat_eq h0)
  period_lt h := cpc_lt h.cachedCpc
  write_next h v := h.write_next v
  applied_eq _ _ htime hgo := Going.applied hgo htime
  applied_stopped _ _ hstop := applied_of_not_going hstop
  tick_pace h _ htime := tick_pace h.cachedCpc htime

end Timer16bit

/-! ### Both timers -/

open ActionRun in
/-- **The timers count only while they run**, all along a run from power-on at a fixed
clock, if and only if no write to a control register leaves a timer counting with its next
count in the past. -/
theorem timers_lawful_iff (clk : ClockControl) :
    (∀ (ch : Fin 4) (ops : List (Paced.Op U8 64)),
      let d := Timer8bit.paced clk
      let start : Paced.Watched Timer8bit := { counter := { ch := ch } }
      Along (Paced.step d) (Paced.OnTime (2 ^ 32)) start ops →
        ((∀ run, run <+: ops → Paced.Lawful d (exec (Paced.step d) start run)) ↔
          Along (Paced.step d) (Paced.StartsAhead d) start ops)) ∧
      ∀ (ch : Fin 6) (ops : List (Paced.Op U16 64)),
        let d := Timer16bit.paced clk
        let start : Paced.Watched Timer16bit := { counter := { ch := ch } }
        Along (Paced.step d) (Paced.OnTime (2 ^ 32)) start ops →
          ((∀ run, run <+: ops → Paced.Lawful d (exec (Paced.step d) start run)) ↔
            Along (Paced.step d) (Paced.StartsAhead d) start ops) := by
  have hstopped : (0 : U8).getLsbD 0 = false := BitVec.getLsbD_zero
  refine ⟨fun ch ops hon => ?_, fun ch ops hon => ?_⟩
  · have hinv : ({ ch := ch } : Timer8bit).cachedCpc.toNat < 2 ^ 32 := Nat.two_pow_pos 32
    refine Paced.lawful_iff (Timer8bit.paced_laws clk) hinv (fun hgo => ?_) rfl hon
    exact Bool.false_ne_true (hstopped.symm.trans hgo.ptrun)
  · have hinv : ({ ch := ch } : Timer16bit).Settled clk :=
      ⟨Nat.two_pow_pos 32, .inr ⟨hstopped, rfl⟩⟩
    refine Paced.lawful_iff (Timer16bit.paced_laws clk) hinv (fun hgo => ?_) rfl hon
    exact Bool.false_ne_true (hstopped.symm.trans hgo.prun)

/-- A clock of two cycles a count, for all channels of both timers. -/
def pacedClock : ClockControl := { clkctlT8 := fun _ => 0x99, clkctlT16 := fun _ => 0x99 }

theorem timers_lawful_iff_started :
    let d := Timer8bit.paced pacedClock
    let start : Paced.Watched Timer8bit := { counter := { ch := 0 } }
    let ops := [.write 1 0, .tick 5]
    (∀ run, run <+: ops → Paced.Lawful d (ActionRun.exec (Paced.step d) start run)) ↔
      ActionRun.Along (Paced.step d) (Paced.StartsAhead d) start ops :=
  (timers_lawful_iff pacedClock).1 0 _
    ⟨⟨by decide, by decide⟩, ⟨by decide, by decide⟩, trivial⟩

/-- **The defect**: a timer that has been stopped for a thousand cycles takes their 500
counts when it is started again; and a `PRESET` has the counts since power-on taken. -/
theorem timers_not_lawful :
    ¬Paced.Lawful (Timer8bit.paced pacedClock)
        (ActionRun.exec (Paced.step (Timer8bit.paced pacedClock)) { counter := { ch := 0 } }
          [.write 1 0, .tick 5, .write 0 6, .write 1 1006]) ∧
      ¬Paced.Lawful (Timer16bit.paced pacedClock)
        (ActionRun.exec (Paced.step (Timer16bit.paced pacedClock)) { counter := { ch := 0 } }
          [.write 1 0, .tick 1000, .write 3 1001]) := by
  constructor
  · intro hlaw
    have hcounts := ((hlaw 1006 (by decide +kernel) (by decide)).1
      ⟨by decide +kernel, by decide +kernel⟩).1
    exact absurd hcounts (by decide +kernel)
  · intro hlaw
    have hcounts := ((hlaw 1001 (by decide +kernel) (by decide)).1
      ⟨by decide +kernel, by decide +kernel⟩).1
    exact absurd hcounts (by decide +kernel)
