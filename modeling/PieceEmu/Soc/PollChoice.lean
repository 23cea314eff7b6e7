import PieceEmu.Soc.PollSkip

/-!
# The source that `poll` chooses

When `InterruptController::poll` scans, it goes through the source table once and keeps
the best source so far. Its four skip conditions leave the sources whose status and enable
bits are set and whose level is above both zero and the interrupt level of the CPU; its
comparison is strict, so that of two sources with the same level the one with the lower
index stays.

The scan is a loop of `FirstMax`, and `InterruptController.poll_exact` is what it says of
every content of the registers, every table of overrides and every interrupt level. That
the levels are compared as unsigned words does no harm, because an override fits a signed
byte and a negative one does not count.
-/

namespace InterruptController

variable (c : InterruptController)

/-! ### The sources that compete -/

/-- The status and enable bits are set, and the level is above that of the CPU. -/
structure Competes (src : IrqSource) : Prop where
  pending : c.pending src = true
  enabled : c.enabled src = true
  above : max 0 (c.currentIl.toNat : ℤ) < c.level src

/-- **The source that is chosen**: no other has a greater level, or the same and a lower
index. -/
structure Chosen (src : IrqSource) : Prop where
  competes : c.Competes src
  greatest : ∀ other, c.Competes other →
    c.level other < c.level src ∨ c.level other = c.level src ∧ src ≤ other

theorem priority_lt (src : IrqSource) : c.priority src < 8 := by
  have h : (((c.regs (srcTable src).priByte) >>> (srcTable src).priShift) &&& 0x07).toNat < 8 := by
    rw [BitVec.toNat_and]
    exact Nat.lt_succ_of_le Nat.and_le_right
  exact Int.ofNat_lt.mpr h

variable {c}

/-- The word that is compared with the interrupt level is the level itself. -/
theorem toNat_level (hov : ∀ src, c.levelOverride src < 128) (src : IrqSource) :
    ((BitVec.ofInt 32 (c.level src)).toNat : ℤ) = c.level src := by
  have hlt : c.level src < 128 := by
    rw [level]
    split_ifs
    · exact hov src
    · exact (c.priority_lt src).trans (by decide)
  have hnonneg := c.level_nonneg src
  rw [BitVec.toNat_ofInt]
  omega

/-- The skip conditions leave the sources that compete. -/
theorem deliverable_iff (hov : ∀ src, c.levelOverride src < 128) (src : IrqSource) :
    c.deliverable src = true ↔ c.Competes src := by
  have hword := toNat_level hov src
  have hnonneg := c.level_nonneg src
  have hle : BitVec.ofInt 32 (c.level src) ≤ c.currentIl ↔ c.level src ≤ c.currentIl.toNat := by
    rw [BitVec.le_def]
    omega
  simp only [deliverable, Bool.and_eq_true, Bool.not_eq_true', decide_eq_true_eq,
    decide_eq_false_iff_not, hle]
  constructor
  · rintro ⟨⟨⟨hpend, hen⟩, hne⟩, hlt⟩
    exact ⟨hpend, hen, by omega⟩
  · rintro ⟨hpend, hen, habove⟩
    exact ⟨⟨⟨hpend, hen⟩, by omega⟩, by omega⟩

/-! ### The scan -/

/-- **The scan ends with the source that is chosen.** -/
theorem best_eq_some_iff (hov : ∀ src, c.levelOverride src < 128) {src : IrqSource} :
    c.best = some src ↔ c.Chosen src := by
  rw [best_eq_some_iff_isFirstMax]
  constructor
  · rintro ⟨-, hsrc, hbest⟩
    refine ⟨(deliverable_iff hov src).mp hsrc, fun other hother => ?_⟩
    exact hbest other (List.mem_finRange other) ((deliverable_iff hov other).mpr hother)
  · rintro ⟨hsrc, hbest⟩
    refine ⟨List.mem_finRange src, (deliverable_iff hov src).mpr hsrc, fun other _ hother => ?_⟩
    exact hbest other ((deliverable_iff hov other).mp hother)

/-- A controller whose registers, overrides and interrupt level are as given, and which
is about to scan. -/
def scanning (regs : ℕ → U8) (levelOverride : IrqSource → BitVec 8) (currentIl : U32) :
    InterruptController where
  regs
  levelOverride src := (levelOverride src).toInt
  currentIl
  pollDirty := true

/-- **`poll` asserts the right source.** For every content of the registers, every table
of overrides and every interrupt level, a scan asserts the trap of the source with the
greatest level among those that compete, the first of them in the table, at that level;
and it asserts none if and only if no source competes. -/
theorem poll_exact (regs : ℕ → U8) (levelOverride : IrqSource → BitVec 8) (currentIl : U32) :
    let c := scanning regs levelOverride currentIl
    (∀ trap, c.poll.2 = some trap ↔
      ∃ src, c.Chosen src ∧ trap = ((srcTable src).trapNo, c.level src)) ∧
    (c.poll.2 = none ↔ ∀ src, ¬c.Competes src) := by
  intro c
  have hov (src : IrqSource) : c.levelOverride src < 128 := BitVec.toInt_lt
  have hpoll : c.poll.2 = c.best.map fun best => ((srcTable best).trapNo, c.level best) := rfl
  rw [hpoll]
  constructor
  · intro trap
    rw [Option.map_eq_some_iff]
    exact exists_congr fun src => and_congr (best_eq_some_iff hov) eq_comm
  · rw [Option.map_eq_none_iff, best_eq_none_iff]
    refine forall_congr' fun src => ?_
    rw [← Bool.not_eq_true, deliverable_iff hov]

end InterruptController
