import PieceEmu.Lib.Spacing
import PieceEmu.Soc.WakePoints

/-!
# The watchdog and the ticks

The watchdog asserts its NMI in the first tick at or after the time it has set itself, and
sets itself the next one a period after that *tick*. The lateness of a tick is so carried
over to all later ones, and how many NMIs there are depends on when the ticks come: the
timers, and the prescaler of the clock timer, move their schedule on by whole periods
instead.

The NMIs are those ticks that someone takes who goes through the list and always takes the
first that is a period behind the last one he took. Their number is the number of periods,
as it should be, exactly if there are that many ticks a period apart
(`WatchdogTimer.nmis_eq_iff`).
-/

namespace WatchdogTimer

/-- The NMIs asserted in a list of ticks. -/
def nmis (clk : ClockControl) : WatchdogTimer → List U64 → ℕ
  | _, [] => 0
  | w, cpuCycles :: ts =>
      (if (w.tick clk cpuCycles).2 then 1 else 0) + nmis clk (w.tick clk cpuCycles).1 ts

/-- A watchdog whose last tick, while it was disabled, was at `start`, and that has been
enabled then. -/
def enabledAt (w : WatchdogTimer) (clk : ClockControl) (start : U64) (ewd : U8) : WatchdogTimer :=
  (w.tick clk start).1.writeByte 1 ewd

/-- The cycle of the last of a list of ticks. -/
def lastTick (start : U64) (ts : List U64) : U64 := ts.getLastD start

variable {w : WatchdogTimer} {clk : ClockControl}

/-- **The NMIs** are asserted in the first tick from the time that is set on, and then
again and again in the first tick a period later. -/
theorem nmis_eq_greedy (hrun : w.running = true) {ts : List U64}
    (hfits : ∀ c ∈ ts, c.toNat + (nmiPeriod clk).toNat < 2 ^ 64) :
    nmis clk w ts = (Spacing.greedy (nmiPeriod clk).toNat w.nextNmiCycle.toNat
      (ts.map BitVec.toNat)).length := by
  induction ts generalizing w with
  | nil => rfl
  | cons c ts ih =>
    have hrest (u : WatchdogTimer) (hu : u.running = true) := ih hu fun c' hc' =>
      hfits c' (List.mem_cons_of_mem _ hc')
    have hnext : (c + nmiPeriod clk).toNat = c.toNat + (nmiPeriod clk).toNat := by
      rw [BitVec.toNat_add]
      exact Nat.mod_eq_of_lt (hfits c List.mem_cons_self)
    unfold nmis tick
    rw [hrun, Bool.not_true, if_neg Bool.false_ne_true, List.map_cons, Spacing.greedy]
    by_cases hdue : w.nextNmiCycle ≤ c
    · rw [if_pos hdue, if_pos (BitVec.le_def.mp hdue), if_pos rfl, List.length_cons, ← hnext,
        Nat.add_comm]
      exact congrArg (· + 1) (hrest { w with nextNmiCycle := c + nmiPeriod clk } hrun)
    · rw [if_neg hdue, if_neg (mt BitVec.le_def.mpr hdue), if_neg Bool.false_ne_true, Nat.zero_add]
      exact hrest w hrun

theorem le_lastTick {start : U64} {ts : List U64} (h : (start :: ts).Pairwise (· < ·)) :
    start ≤ lastTick start ts ∧ ∀ c ∈ ts, c ≤ lastTick start ts := by
  induction ts generalizing start with
  | nil => exact ⟨BitVec.le_refl _, nofun⟩
  | cons c ts ih =>
    obtain ⟨hlt, h⟩ := List.pairwise_cons.mp h
    have hlast : lastTick start (c :: ts) = lastTick c ts := List.getLastD_cons ..
    obtain ⟨hc, hts⟩ := ih h
    rw [hlast]
    refine ⟨BitVec.le_trans (BitVec.le_of_lt (hlt c List.mem_cons_self)) hc, ?_⟩
    exact List.forall_mem_cons.mpr ⟨hc, hts⟩

/-- Enabled, the watchdog has its first NMI a period behind the last tick. -/
theorem enabledAt_spec (clk : ClockControl) (start : U64) {ewd : U8} (hoff : w.running = false)
    (hon : ewd.getLsbD 1 = true) :
    (w.enabledAt clk start ewd).running = true ∧
      (w.enabledAt clk start ewd).nextNmiCycle = start + nmiPeriod clk := by
  unfold enabledAt tick
  rw [hoff, Bool.not_false, if_pos rfl]
  exact ⟨hon, rfl⟩

/-- **The NMIs do not drift** exactly if there are ticks, a period apart, for all the
periods that have passed. -/
theorem nmis_eq_iff (w : WatchdogTimer) (clk : ClockControl) (start : U64) (ewd : U8)
    (ts : List U64) (hoff : w.running = false) (hon : ewd.getLsbD 1 = true)
    (hinc : (start :: ts).Pairwise (· < ·))
    (hfits : (lastTick start ts).toNat + (nmiPeriod clk).toNat < 2 ^ 64) :
    let periods := ((lastTick start ts).toNat - start.toNat) / (nmiPeriod clk).toNat
    nmis clk (w.enabledAt clk start ewd) ts = periods ↔
      ∃ l, l.Sublist (ts.map BitVec.toNat) ∧
        Spacing.Apart (nmiPeriod clk).toNat (start.toNat + (nmiPeriod clk).toNat) l ∧
          l.length = periods := by
  obtain ⟨hstart, hle⟩ := le_lastTick hinc
  obtain ⟨hrun, hnext⟩ := enabledAt_spec clk start hoff hon
  have hfirst : (start + nmiPeriod clk).toNat = start.toNat + (nmiPeriod clk).toNat := by
    rw [BitVec.le_def] at hstart
    rw [BitVec.toNat_add]
    exact Nat.mod_eq_of_lt (by omega)
  have hsorted : (ts.map BitVec.toNat).Pairwise (· ≤ ·) :=
    List.pairwise_map.mpr ((List.pairwise_cons.mp hinc).2.imp fun hlt =>
      BitVec.le_def.mp (BitVec.le_of_lt hlt))
  have hbound : ∀ t ∈ ts.map BitVec.toNat, t ≤ (lastTick start ts).toNat :=
    List.forall_mem_map.mpr fun c hc => hle c hc
  intro periods
  rw [nmis_eq_greedy hrun fun c hc => ?_, hnext, hfirst]
  · exact Spacing.length_greedy_eq_iff hsorted hbound hstart (nmiPeriod_bounds clk).1
  · have hc' : c.toNat ≤ (lastTick start ts).toNat := hle c hc
    omega

/-- With a tick in every period's first cycle there is no drift. -/
theorem nmis_eq_iff_exact :
    nmis {} (enabledAt {} {} 0 2) [24000, 48000] = 2 ↔
      ∃ l, l.Sublist ([24000, 48000] : List ℕ) ∧ Spacing.Apart 24000 24000 l ∧ l.length = 2 :=
  nmis_eq_iff {} {} 0 2 [24000, 48000] (by decide) (by decide) (by decide) (by decide +kernel)

/-- **The defect**: at 24000 cycles a period, ticks 20000 cycles apart assert one NMI in
60000 cycles, and not two. -/
theorem nmis_late :
    let ts : List U64 := [20000, 40000, 60000]
    (0 :: ts).IsChain (fun c c' => c < c' ∧ c'.toNat < c.toNat + (nmiPeriod {}).toNat) ∧
      nmis {} (enabledAt {} {} 0 2) ts = 1 ∧
        ((lastTick 0 ts).toNat - (0 : U64).toNat) / (nmiPeriod {}).toNat = 2 := by
  decide +kernel

end WatchdogTimer
