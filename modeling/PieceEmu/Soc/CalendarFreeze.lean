import PieceEmu.Lib.Run
import PieceEmu.Soc.Calendar

/-!
# When the calendar stands still

The stop bit of `rRTCSTOP` is to say whether the date and time stand still or go with the
clock of the host (`Calendar.Honest`). What decides is the flag `frozen_`, which is set when
the bit rises and cleared by a start, so that the two agree only as long as a stopped timer
is written the one or the other: both bits start it and leave the bit set, no bit clears it
and leaves the time frozen (`Calendar.Resolves`).
-/

namespace Calendar

/-! ### Standing still, or not -/

/-- What the stop bit says is so: set, the date and time that are read are the same at all
times; clear, they are the host's, shifted by some offset. -/
def Honest (r : Calendar) : Prop :=
  (r.rtcstop.getLsbD 1 = true → ∀ tm tm', r.dateTime tm = r.dateTime tm') ∧
    (r.rtcstop.getLsbD 1 = false →
      ∃ offset, ∀ tm, r.dateTime tm = .ofSeconds (r.hostSecondsSince2000 tm + offset))

/-- A second and the next one leave different remainders, with the sign of the second. -/
theorem tmod_sixty_succ (s : ℤ) :
    s.tmod 60 % 256 ≠ (s + 1).tmod 60 % 256 := by
  rcases Int.lt_or_le s 0 with hneg | hpos
  · have hthis : s.tmod 60 = -(-s % 60) := by
      rw [← Int.tmod_eq_emod_of_nonneg (by omega), Int.neg_tmod, Int.neg_neg]
    have hnext : (s + 1).tmod 60 = -(-(s + 1) % 60) := by
      rw [← Int.tmod_eq_emod_of_nonneg (by omega), Int.neg_tmod, Int.neg_neg]
    omega
  · rw [Int.tmod_eq_emod_of_nonneg hpos, Int.tmod_eq_emod_of_nonneg (by omega)]
    omega

/-- **The calendar tells a second from the next.** -/
theorem DateTime.ofSeconds_succ_ne (s : ℤ) : ofSeconds s ≠ ofSeconds (s + 1) := by
  have hsec (s : ℤ) : (ofSeconds s).sec.toNat = s.tmod 60 % 256 := by
    have htod : s - s.tdiv 86400 * 86400 = s.tmod 86400 := by
      rw [Int.tmod_def, Int.mul_comm]
    have hbyte : (ofSeconds s).sec = byteOf ((s - s.tdiv 86400 * 86400).tmod 60) := rfl
    rw [hbyte, htod, Int.tmod_tmod_of_dvd s (by decide), byteOf, BitVec.toNat_ofInt,
      Int.toNat_of_nonneg (Int.emod_nonneg _ (by decide))]
    rfl
  intro h
  apply tmod_sixty_succ s
  rw [← hsec, ← hsec, h]

/-- The clock of the host goes on by a second. -/
theorem exists_tick :
    ∃ tm tm' : Tm, tm'.realHostSecondsSince2000 = tm.realHostSecondsSince2000 + 1 :=
  ⟨⟨100, 0, 1, 0, 0, 0⟩, ⟨100, 0, 1, 0, 0, 1⟩, by decide⟩

variable {r : Calendar}

/-- A calendar that goes with a host's clock does not stand still. -/
theorem not_forall_ofSeconds_eq (offset : ℤ) (d : DateTime) :
    ¬∀ tm : Tm, d = .ofSeconds (tm.realHostSecondsSince2000 + offset) := by
  intro h
  obtain ⟨tm, tm', hnext⟩ := exists_tick
  apply DateTime.ofSeconds_succ_ne (tm.realHostSecondsSince2000 + offset)
  calc DateTime.ofSeconds (tm.realHostSecondsSince2000 + offset)
      = d := (h tm).symm
    _ = .ofSeconds (tm'.realHostSecondsSince2000 + offset) := h tm'
    _ = .ofSeconds (tm.realHostSecondsSince2000 + offset + 1) := by
      rw [hnext, Int.add_right_comm]

/-- **The stop bit tells the truth if and only if the flag agrees with it**, or the clock of
the host is pinned. -/
theorem honest_iff :
    r.Honest ↔ r.fixedMode = true ∨ r.frozen = r.rtcstop.getLsbD 1 := by
  constructor
  · rintro ⟨hset, hclear⟩
    by_contra hno
    obtain ⟨hmode, hdiffer⟩ := not_or.mp hno
    have hhost (tm : Tm) : r.hostSecondsSince2000 tm = tm.realHostSecondsSince2000 :=
      if_neg hmode
    rcases Bool.eq_false_or_eq_true (r.rtcstop.getLsbD 1) with hbit | hbit
    · -- the bit is set, and the time goes on
      have hgoes (tm : Tm) :
          r.dateTime tm = .ofSeconds (tm.realHostSecondsSince2000 + r.offsetSec) := by
        rw [dateTime_eq, currentSecondsSince2000, if_neg (fun h => hdiffer (h.trans hbit.symm)),
          hhost]
      refine not_forall_ofSeconds_eq r.offsetSec (r.dateTime ⟨100, 0, 1, 0, 0, 0⟩) fun tm => ?_
      rw [← hgoes]
      exact hset hbit _ _
    · -- the bit is clear, and the time stands still
      have hstill (tm : Tm) : r.dateTime tm = .ofSeconds r.frozenSec := by
        have hfrozen : r.frozen = true := by
          rw [hbit] at hdiffer
          exact Bool.eq_true_of_not_eq_false hdiffer
        rw [dateTime_eq, currentSecondsSince2000, if_pos hfrozen]
      obtain ⟨offset, hoff⟩ := hclear hbit
      refine not_forall_ofSeconds_eq offset (.ofSeconds r.frozenSec) fun tm => ?_
      rw [← hstill tm, ← hhost]
      exact hoff tm
  · rintro (hmode | hagree)
    · -- a pinned clock answers the same however the time goes
      have hhost (tm : Tm) : r.hostSecondsSince2000 tm = r.fixedEpoch := if_pos hmode
      have hcurrent (tm tm' : Tm) :
          r.currentSecondsSince2000 tm = r.currentSecondsSince2000 tm' := by
        rw [currentSecondsSince2000, currentSecondsSince2000, hhost, hhost]
      refine ⟨fun _ tm tm' => ?_, fun _ => ?_⟩
      · rw [dateTime_eq, dateTime_eq, hcurrent tm tm']
      · refine ⟨r.currentSecondsSince2000 ⟨100, 0, 1, 0, 0, 0⟩ - r.fixedEpoch, fun tm => ?_⟩
        rw [dateTime_eq, hcurrent tm ⟨100, 0, 1, 0, 0, 0⟩, hhost]
        congr 1
        omega
    · refine ⟨fun hbit tm tm' => ?_, fun hbit => ⟨r.offsetSec, fun tm => ?_⟩⟩
      · have hfrozen : r.frozen = true := hagree.trans hbit
        rw [dateTime_eq, dateTime_eq, currentSecondsSince2000, currentSecondsSince2000,
          if_pos hfrozen, if_pos hfrozen]
      · have hgoes : ¬r.frozen = true := by
          rw [hagree, hbit]
          exact Bool.false_ne_true
        rw [dateTime_eq, currentSecondsSince2000, if_neg hgoes]

/-- As the timer is reset, it runs. -/
theorem honest_of_running (hfrozen : r.frozen = false) (hrun : r.rtcstop = 0x01) : r.Honest := by
  refine honest_iff.mpr (.inr ?_)
  rw [hfrozen, hrun]
  decide

/-! ### What a write to the stop register leaves -/

variable {tm : Tm}

theorem fixedMode_writeRtcstop (v : U8) : (r.writeRtcstop tm v).fixedMode = r.fixedMode := by
  unfold writeRtcstop latch applySetToOffset
  dsimp only
  split_ifs <;> rfl

/-- **What a write does to the flag**: a stop that comes to a going timer sets it, a start
that comes to a stopped one clears it. -/
theorem frozen_writeRtcstop (v : U8) :
    (r.writeRtcstop tm v).frozen =
      if r.rtcstop.getLsbD 1 then r.frozen && !v.getLsbD 0 else r.frozen || v.getLsbD 1 := by
  unfold writeRtcstop latch applySetToOffset
  dsimp only
  cases r.rtcstop.getLsbD 1 <;> cases v.getLsbD 0 <;> cases v.getLsbD 1 <;> simp

/-! ### Runs -/

/-- An access to the timer, or a reset. -/
inductive Event
  | write (tm : Tm) (w : CalendarWrite)
  | reset (clk : ClockControl)

/-- What an event leads to. -/
def next (r : Calendar) : Event → Calendar
  | .write tm w => r.write tm w
  | .reset clk => r.reset clk

/-- A write to the stop register of a stopped timer sets one of the two bits, and not the
other; or the clock of the host is pinned. -/
def Resolves (r : Calendar) : Event → Prop
  | .write _ w => r.fixedMode = true ∨
      ∀ v, stopValue w = some v → r.rtcstop.getLsbD 1 = true → v.getLsbD 0 ≠ v.getLsbD 1
  | .reset _ => True

/-- From a calendar whose stop bit tells the truth, a write leaves one whose stop bit does if
and only if it resolves. -/
theorem honest_next_iff (h : r.Honest) (e : Event) : (r.next e).Honest ↔ r.Resolves e := by
  cases e with
  | reset clk => exact iff_of_true (honest_of_running rfl rfl) trivial
  | write tm w =>
    rw [honest_iff] at h ⊢
    unfold next Resolves
    dsimp only
    cases hv : stopValue w with
    | none =>
      have hkept : r.KeepsTime (r.write tm w) := keepsTime_write hv
      rw [hkept.fixedMode, hkept.frozen, hkept.rtcstop]
      exact iff_of_true h (.inr fun v hno => absurd hno.symm (Option.some_ne_none v))
    | some v =>
      rw [write_of_stopValue hv, fixedMode_writeRtcstop, rtcstop_writeRtcstop,
        frozen_writeRtcstop]
      rcases h with hmode | hagree
      · exact iff_of_true (.inl hmode) (.inl hmode)
      · refine or_congr_right ?_
        rw [hagree]
        simp only [Option.some.injEq, forall_eq']
        cases r.rtcstop.getLsbD 1 <;> cases v.getLsbD 0 <;> cases v.getLsbD 1 <;> decide

open ActionRun in
/-- **The calendar stands still exactly while the stop bit is set**, all along a run from
power-on, if and only if no write to the stop register of a stopped timer sets both or
neither of the bits 0 and 1, or the clock of the host is pinned. -/
theorem honest_run_iff (fixedMode : Bool) (fixedEpoch : ℤ) (events : List Event) :
    let start : Calendar := { fixedMode, fixedEpoch }
    (∀ run, run <+: events → (exec next start run).Honest) ↔ Along next Resolves start events := by
  intro start
  have hstart : start.Honest := honest_of_running rfl rfl
  have hstep (r : Calendar) (e : Event) : r.Honest → ((r.next e).Honest ↔ r.Resolves e) :=
    fun h => honest_next_iff h e
  exact along_iff_forall_prefix hstep hstart

/-- **The defect**: a stopped timer whose stop bit is cleared keeps its time frozen, and one
that is stopped and started at once goes with the stop bit set. -/
theorem not_honest_run :
    let tm : Tm := { year := 124, mon := 5, mday := 15, hour := 10, min := 0, sec := 0 }
    let stopped (v : U8) : List Event :=
      [.write tm (.byte .stop true 0x02), .write tm (.byte .stop true v)]
    ¬(ActionRun.exec next {} (stopped 0x00)).Honest ∧
      ¬(ActionRun.exec next {} (stopped 0x03)).Honest := by
  intro tm stopped
  rw [honest_iff, honest_iff]
  decide +kernel

end Calendar
