import Mathlib.Data.BitVec
import PieceEmu.Lib.CyclicCounter
import PieceEmu.Lib.Run

/-!
# Counters that are started and stopped

A counter that is handed the time now and then, takes the counts that have come due, and
keeps the time of the next one. It is started, stopped and set through a control register,
of which it is not told the time.

What such a counter should do is simple: no counts while it is stopped, and while it is
going as many as there have been periods since the register was written, up to one for the
phase (`Paced.Lawful`). Whether it does depends on a single thing, the time of the next
count with which a write leaves it going: if that has passed already, the counts from there
on are taken with the next tick, as if it had been going all the time
(`Paced.lawful_iff`).

The times are machine words; a run stays as far from their end as a period is long.
-/

namespace Paced

/-- Where the counts of a counter are. -/
@[ext] structure Pace where
  /-- It counts. -/
  going : Prop
  /-- The time of the next count. -/
  next : ℕ
  period : ℕ

/-- A counter with a control register. -/
structure Device (σ V : Type*) (w : ℕ) where
  pace : σ → Pace
  write : σ → V → σ
  tick : σ → BitVec w → σ
  /-- The counts a tick takes. -/
  applied : σ → BitVec w → ℕ

/-- What happens to the counter, and when. -/
inductive Op (V : Type*) (w : ℕ)
  | write (v : V) (time : BitVec w)
  | tick (time : BitVec w)

/-- The time of an event. -/
def Op.time {V : Type*} {w : ℕ} : Op V w → BitVec w
  | .write _ time => time
  | .tick time => time

/-- A counter that is watched: since the last write to its register. -/
structure Watched (σ : Type*) where
  counter : σ
  /-- The time of the last write. -/
  since : ℕ := 0
  /-- The time of the last event. -/
  now : ℕ := 0
  /-- The counts taken since the last write. -/
  counts : ℕ := 0

variable {σ V : Type*} {w : ℕ} (d : Device σ V w)

/-- One event. -/
def step (s : Watched σ) : Op V w → Watched σ
  | .write v time =>
      { counter := d.write s.counter v, since := time.toNat, now := time.toNat, counts := 0 }
  | .tick time =>
      { s with
        counter := d.tick s.counter time
        now := time.toNat
        counts := s.counts + d.applied s.counter time }

/-- **The counts since the last write**, were there a tick now or at any time to come: none
if the counter does not count, and else as many as there have been periods, up to one for
the phase. -/
def Lawful (s : Watched σ) : Prop :=
  ∀ time : BitVec w, s.now ≤ time.toNat → time.toNat + 1 < 2 ^ w →
    let total := s.counts + d.applied s.counter time
    ((d.pace s.counter).going →
      total ≤ (time.toNat - s.since) / (d.pace s.counter).period + 1 ∧
        (time.toNat - s.since) / (d.pace s.counter).period ≤ total + 1) ∧
      (¬(d.pace s.counter).going → total = 0)

/-- The time does not go back, and stays clear of its end. -/
def OnTime (margin : ℕ) (s : Watched σ) (op : Op V w) : Prop :=
  s.now ≤ op.time.toNat ∧ op.time.toNat + margin < 2 ^ w

/-- A write that leaves the counter going leaves its next count ahead. -/
def StartsAhead (s : Watched σ) : Op V w → Prop
  | .write v time =>
      (d.pace (d.write s.counter v)).going → time.toNat ≤ (d.pace (d.write s.counter v)).next
  | .tick _ => True

/-- What is relied on: the counter takes the counts that are due, its register leaves the
next one alone or sets it to 0, and its periods are shorter than `margin`. -/
structure Laws (margin : ℕ) (I : σ → Prop) : Prop where
  write_inv {c : σ} (h : I c) (v : V) : I (d.write c v)
  tick_inv {c : σ} (h : I c) (time : BitVec w) : I (d.tick c time)
  period_pos {c : σ} (h : I c) : (d.pace c).going → 0 < (d.pace c).period
  period_lt {c : σ} (h : I c) : (d.pace c).period < margin
  write_next {c : σ} (h : I c) (v : V) :
    (d.pace (d.write c v)).next = 0 ∨ (d.pace (d.write c v)).next = (d.pace c).next ∧
      (d.pace (d.write c v)).period = (d.pace c).period
  applied_eq {c : σ} (h : I c) {time : BitVec w} (htime : time.toNat + 1 < 2 ^ w) :
    (d.pace c).going →
      d.applied c time = Cyclic.due (d.pace c).next (d.pace c).period time.toNat
  applied_stopped {c : σ} (h : I c) (time : BitVec w) :
    ¬(d.pace c).going → d.applied c time = 0
  tick_pace {c : σ} (h : I c) {time : BitVec w} (htime : time.toNat + margin < 2 ^ w) :
    d.pace (d.tick c time) =
      { d.pace c with next := (d.pace c).next + d.applied c time * (d.pace c).period }

variable {d}

/-- What a run keeps, in which every start has been ahead: the first count since the last
write has come within a period. -/
structure Steady (d : Device σ V w) (I : σ → Prop) (s : Watched σ) : Prop where
  inv : I s.counter
  since_le : s.since ≤ s.now
  next_le : (d.pace s.counter).next ≤ s.now + (d.pace s.counter).period
  going : (d.pace s.counter).going → ∃ start, s.since ≤ start ∧
    start ≤ s.since + (d.pace s.counter).period ∧
    s.counts ≤ Cyclic.due start (d.pace s.counter).period s.now ∧
    (d.pace s.counter).next = start + s.counts * (d.pace s.counter).period
  stopped : ¬(d.pace s.counter).going → s.counts = 0

variable {margin : ℕ} {I : σ → Prop} {s : Watched σ}

/-- The counts so far and those of a tick to come are those due at it. -/
theorem Steady.total (h : Steady d I s) (hl : Laws d margin I) {time : BitVec w}
    (hnow : s.now ≤ time.toNat) (htime : time.toNat + 1 < 2 ^ w) (hgo : (d.pace s.counter).going) :
    ∃ start, s.since ≤ start ∧ start ≤ s.since + (d.pace s.counter).period ∧
      s.counts + d.applied s.counter time =
        Cyclic.due start (d.pace s.counter).period time.toNat ∧
      (d.pace s.counter).next = start + s.counts * (d.pace s.counter).period := by
  obtain ⟨start, hlow, hhigh, hcounts, hnext⟩ := h.going hgo
  refine ⟨start, hlow, hhigh, ?_, hnext⟩
  rw [hl.applied_eq h.inv htime hgo, hnext]
  exact (Cyclic.due_split (hl.period_pos h.inv hgo)
    (hcounts.trans (Cyclic.due_mono hnow))).symm

theorem Steady.lawful (h : Steady d I s) (hl : Laws d margin I) : Lawful d s := by
  intro time hnow htime
  refine ⟨fun hgo => ?_, fun hstop => ?_⟩
  · obtain ⟨start, hlow, hhigh, htotal, -⟩ := h.total hl hnow htime hgo
    rw [htotal]
    exact Cyclic.due_near (hl.period_pos h.inv hgo) hlow hhigh
  · rw [h.stopped hstop, hl.applied_stopped h.inv time hstop]

/-- A tick keeps the pace. -/
theorem Steady.tick (h : Steady d I s) (hl : Laws d margin I) {time : BitVec w}
    (hon : OnTime margin s (.tick (V := V) time)) : Steady d I (step d s (.tick time)) := by
  obtain ⟨hnow, hroom⟩ := hon
  have hperiod := hl.period_lt h.inv
  have htime : time.toNat + 1 < 2 ^ w := by
    change time.toNat + margin < 2 ^ w at hroom
    omega
  have hpace : d.pace (d.tick s.counter time) = _ := hl.tick_pace h.inv hroom
  have hnext := h.next_le
  refine ⟨hl.tick_inv h.inv time, h.since_le.trans hnow, ?_, ?_, ?_⟩
  · change (d.pace (d.tick s.counter time)).next ≤
      time.toNat + (d.pace (d.tick s.counter time)).period
    rw [hpace]
    change s.now ≤ time.toNat at hnow
    -- a counter that goes has its next step at most a period after the tick
    by_cases hgo : (d.pace s.counter).going
    · by_cases hdue : time.toNat < (d.pace s.counter).next
      · rw [hl.applied_eq h.inv htime hgo, Cyclic.due_eq_zero_iff.mpr hdue]
        dsimp only
        omega
      · rw [hl.applied_eq h.inv htime hgo]
        exact Cyclic.next_due_le (Nat.not_lt.mp hdue)
    · rw [hl.applied_stopped h.inv time hgo]
      dsimp only
      omega
  · intro hgo
    change (d.pace (d.tick s.counter time)).going at hgo
    rw [hpace] at hgo
    obtain ⟨start, hlow, hhigh, htotal, hstart⟩ := h.total hl hnow htime hgo
    have hmoved : (d.pace (step d s (.tick time)).counter).next =
        start + (s.counts + d.applied s.counter time) * (d.pace s.counter).period := by
      change (d.pace (d.tick s.counter time)).next = _
      rw [hpace, hstart, Nat.add_mul, Nat.add_assoc]
    have hsame : (d.pace (step d s (.tick time)).counter).period = (d.pace s.counter).period := by
      change (d.pace (d.tick s.counter time)).period = _
      rw [hpace]
    refine ⟨start, hlow, ?_, ?_, ?_⟩
    · rw [hsame]
      exact hhigh
    · rw [hsame]
      exact Nat.le_of_eq htotal
    · rw [hsame]
      exact hmoved
  · intro hstop
    change ¬(d.pace (d.tick s.counter time)).going at hstop
    rw [hpace] at hstop
    change s.counts + d.applied s.counter time = 0
    rw [h.stopped hstop, hl.applied_stopped h.inv time hstop]

/-- The next count behind a write is not more than a period away. -/
theorem Steady.write_next_le (h : Steady d I s) (hl : Laws d margin I) (v : V) {time : ℕ}
    (hnow : s.now ≤ time) :
    (d.pace (d.write s.counter v)).next ≤ time + (d.pace (d.write s.counter v)).period := by
  rcases hl.write_next h.inv v with hzero | ⟨hsame, hperiod⟩
  · rw [hzero]
    exact Nat.zero_le _
  · rw [hsame, hperiod]
    exact h.next_le.trans (Nat.add_le_add_right hnow _)

/-- A write that leaves the next count ahead keeps it too. -/
theorem Steady.write (h : Steady d I s) (hl : Laws d margin I) {v : V} {time : BitVec w}
    (hon : OnTime margin s (.write v time)) (hahead : StartsAhead d s (.write v time)) :
    Steady d I (step d s (.write v time)) := by
  have hnext := h.write_next_le hl v hon.1
  refine ⟨hl.write_inv h.inv v, Nat.le_refl _, hnext, fun hgo => ?_, fun _ => rfl⟩
  refine ⟨_, hahead hgo, hnext, ?_, ?_⟩
  · exact Nat.zero_le _
  · exact (Nat.add_eq_left.mpr (Nat.zero_mul _)).symm

/-- **A counter that is started late** takes two counts within the first period. -/
theorem Steady.startsAhead (h : Steady d I s) (hl : Laws d margin I) {v : V} {time : BitVec w}
    (hon : OnTime margin s (.write v time)) (hlaw : Lawful d (step d s (.write v time))) :
    StartsAhead d s (.write v time) := by
  obtain ⟨hnow, hroom⟩ := hon
  change time.toNat + margin < 2 ^ w at hroom
  intro hgo
  by_contra hlate
  have hinv : I (d.write s.counter v) := hl.write_inv h.inv v
  have hpos := hl.period_pos hinv hgo
  have hperiod := hl.period_lt hinv
  generalize hp : (d.pace (d.write s.counter v)).period = p at hpos hperiod
  have hlast : (BitVec.ofNat w (time.toNat + p - 1)).toNat = time.toNat + p - 1 := by
    rw [BitVec.toNat_ofNat]
    exact Nat.mod_eq_of_lt (by omega)
  have hone := ((hlaw (BitVec.ofNat w (time.toNat + p - 1))
    (by rw [hlast]; change time.toNat ≤ _; omega) (by rw [hlast]; omega)).1 hgo).1
  have htwo := Cyclic.two_le_due hpos (Nat.not_le.mp hlate)
  change 0 + d.applied (d.write s.counter v) _ ≤
    (_ - time.toNat) / (d.pace (d.write s.counter v)).period + 1 at hone
  rw [hl.applied_eq hinv (by rw [hlast]; omega) hgo, hp, hlast,
    Nat.div_eq_of_lt (by omega)] at hone
  omega

/-- **A counter counts the periods since the last write**, all along a run, if and only if
no write leaves it going with a count that is overdue. -/
theorem lawful_iff (hl : Laws d margin I) {c : σ} (hc : I c) (hgo : ¬(d.pace c).going)
    (hnext : (d.pace c).next = 0) {ops : List (Op V w)}
    (hon : ActionRun.Along (step d) (OnTime margin) { counter := c } ops) :
    (∀ run, run <+: ops → Lawful d (ActionRun.exec (step d) { counter := c } run)) ↔
      ActionRun.Along (step d) (StartsAhead d) { counter := c } ops := by
  refine ActionRun.along_iff_forall_prefix_under (I := Steady d I) (P := Lawful d)
    (fun s h => h.lawful hl) (fun s op h hB => ?_) (fun s op h hB hC => ?_) ?_ hon
  · cases op with
    | write v time => exact ⟨h.startsAhead hl hB, fun hC => (h.write hl hB hC).lawful hl⟩
    | tick time => exact iff_of_true ((h.tick hl hB).lawful hl) trivial
  · cases op with
    | write v time => exact h.write hl hB hC
    | tick time => exact h.tick hl hB
  · refine ⟨hc, Nat.le_refl _, ?_, fun h => absurd h hgo, fun _ => rfl⟩
    rw [hnext]
    exact Nat.zero_le _

end Paced
