import Mathlib.Algebra.Group.Nat.Defs
import Mathlib.Logic.Function.Iterate
import Mathlib.Tactic.Common

/-!
# Cyclic counters

A counter that runs from 0 to `p` and starts again, over the natural numbers. Its
position after any number of counts is a remainder (`Cyclic.iterate_next`), and so is
the question whether it meets a given value on the way (`Cyclic.meets_iff`).

A counter that runs down to 0 and starts again from `r` need not start below `r`; it comes
to 0 for the first time after as many counts as it stands at (`Cyclic.runsOut_iff`).

How many counts have come due at a given time, for a counter that takes one every
`period` from `next` on, is `Cyclic.due`; taking them in two goes takes as many
(`Cyclic.due_add`). Machine words that divide and add compute these counts and the time of
the next one, as long as that fits (`Cyclic.toNat_due`, `Cyclic.toNat_next_due`).
-/

namespace Cyclic

/-- One count. -/
def next (p v : ℕ) : ℕ := if v = p then 0 else v + 1

/-- One of the next `k` counts brings the counter from `v` to `c`. -/
def Meets (p v k c : ℕ) : Prop := ∃ j, 1 ≤ j ∧ j ≤ k ∧ (next p)^[j] v = c

variable {p v k l c : ℕ}

theorem next_eq_mod (h : v ≤ p) : next p v = (v + 1) % (p + 1) := by
  unfold next
  split_ifs with hv
  · rw [hv, Nat.mod_self]
  · rw [Nat.mod_eq_of_lt (by omega)]

/-- **The position after `k` counts.** -/
theorem iterate_next (h : v ≤ p) (k : ℕ) : (next p)^[k] v = (v + k) % (p + 1) := by
  induction k with
  | zero => exact (Nat.mod_eq_of_lt (Nat.lt_succ_of_le h)).symm
  | succ k ih =>
    have hle : (v + k) % (p + 1) ≤ p := Nat.le_of_lt_succ (Nat.mod_lt _ p.succ_pos)
    rw [Function.iterate_succ_apply', ih, next_eq_mod hle, Nat.mod_add_mod, Nat.add_assoc]

theorem iterate_next_le (h : v ≤ p) (k : ℕ) : (next p)^[k] v ≤ p := by
  rw [iterate_next h]
  exact Nat.le_of_lt_succ (Nat.mod_lt _ p.succ_pos)

/-- **The values met within `k` counts**: on the way up from `v`, or after a wrap. -/
theorem meets_iff (hv : v ≤ p) (hc : c ≤ p) :
    Meets p v k c ↔ v < c ∧ c ≤ v + k ∨ p + 1 + c ≤ v + k := by
  constructor
  · rintro ⟨j, hj, hjk, h⟩
    rw [iterate_next hv] at h
    rcases Nat.lt_or_ge (v + j) (p + 1) with hlt | hge
    · rw [Nat.mod_eq_of_lt hlt] at h
      omega
    · have := Nat.mod_le (v + j - (p + 1)) (p + 1)
      rw [Nat.mod_eq_sub_mod hge] at h
      omega
  · have hmeets (j : ℕ) (hj : 1 ≤ j) (hjk : j ≤ k) (h : (v + j) % (p + 1) = c) : Meets p v k c :=
      ⟨j, hj, hjk, (iterate_next hv j).trans h⟩
    rintro (⟨hlt, hle⟩ | hle)
    · refine hmeets (c - v) (by omega) (by omega) ?_
      rw [Nat.add_sub_cancel' (Nat.le_of_lt hlt), Nat.mod_eq_of_lt (by omega)]
    · refine hmeets (p + 1 + c - v) (by omega) (by omega) ?_
      rw [Nat.add_sub_cancel' (by omega), Nat.add_mod_left, Nat.mod_eq_of_lt (by omega)]

@[simp] theorem not_meets_zero : ¬Meets p v 0 c := fun ⟨_, h1, h0, _⟩ => by omega

/-- **A span of counts taken in two parts.** -/
theorem meets_add : Meets p v (k + l) c ↔ Meets p v k c ∨ Meets p ((next p)^[k] v) l c := by
  constructor
  · rintro ⟨j, hj, hjk, h⟩
    rcases Nat.lt_or_ge k j with hlt | hle
    · refine .inr ⟨j - k, by omega, by omega, ?_⟩
      rw [← Function.iterate_add_apply, Nat.sub_add_cancel (Nat.le_of_lt hlt)]
      exact h
    · exact .inl ⟨j, hj, hle, h⟩
  · rintro (⟨j, hj, hjk, h⟩ | ⟨j, hj, hjl, h⟩)
    · exact ⟨j, hj, by omega, h⟩
    · refine ⟨j + k, by omega, by omega, ?_⟩
      rw [Function.iterate_add_apply]
      exact h

/-! ### Running down -/

/-- One count of a counter that runs down, and starts again from `r`. -/
def prev (r v : ℕ) : ℕ := if v = 0 then r else v - 1

/-- One of the next `k` counts finds the counter at 0. -/
def RunsOut (r v k : ℕ) : Prop := ∃ j < k, (prev r)^[j] v = 0

variable {r : ℕ}

theorem iterate_prev_of_le (h : k ≤ v) : (prev r)^[k] v = v - k := by
  induction k with
  | zero => rfl
  | succ k ih =>
    rw [Function.iterate_succ_apply', ih (Nat.le_of_succ_le h), prev, if_neg (by omega)]
    omega

theorem iterate_prev_self (v : ℕ) : (prev r)^[v + 1] v = r := by
  rw [Function.iterate_succ_apply', iterate_prev_of_le (Nat.le_refl v), Nat.sub_self, prev,
    if_pos rfl]

/-- **The position after `k` counts**, behind the first time it has run out. -/
theorem iterate_prev_add (r v k : ℕ) : (prev r)^[v + 1 + k] v = r - k % (r + 1) := by
  rw [Nat.add_comm, Function.iterate_add_apply, iterate_prev_self]
  induction k using Nat.strongRecOn with
  | _ k ih =>
    rcases Nat.lt_or_ge k (r + 1) with hlt | hge
    · rw [iterate_prev_of_le (Nat.le_of_lt_succ hlt), Nat.mod_eq_of_lt hlt]
    · -- once around
      obtain ⟨d, rfl⟩ := Nat.exists_eq_add_of_le hge
      rw [Nat.add_comm, Function.iterate_add_apply, iterate_prev_self, ih d (by omega),
        Nat.add_mod_right]

/-- **It runs out** as soon as there are more counts than it stands at. -/
theorem runsOut_iff : RunsOut r v k ↔ v < k := by
  constructor
  · rintro ⟨j, hj, h⟩
    by_contra hle
    rw [iterate_prev_of_le (by omega)] at h
    omega
  · intro h
    exact ⟨v, h, by rw [iterate_prev_of_le (Nat.le_refl v), Nat.sub_self]⟩

theorem runsOut_add :
    RunsOut r v (k + l) ↔ RunsOut r v k ∨ RunsOut r ((prev r)^[k] v) l := by
  constructor
  · rintro ⟨j, hj, h⟩
    rcases Nat.lt_or_ge j k with hlt | hge
    · exact .inl ⟨j, hlt, h⟩
    · refine .inr ⟨j - k, by omega, ?_⟩
      rw [← Function.iterate_add_apply, Nat.sub_add_cancel hge]
      exact h
  · rintro (⟨j, hj, h⟩ | ⟨j, hj, h⟩)
    · exact ⟨j, by omega, h⟩
    · refine ⟨j + k, by omega, ?_⟩
      rw [Function.iterate_add_apply]
      exact h

/-! ### The counts that are due -/

/-- The counts due at the time `now`, of one every `period` from `next` on. -/
def due (next period now : ℕ) : ℕ := if now < next then 0 else (now - next) / period + 1

variable {start period now later : ℕ}

theorem due_eq_zero_iff : due start period now = 0 ↔ now < start := by
  unfold due
  split_ifs with h <;> simp [h]

/-- The next count, once those due are taken, is still to come. -/
theorem lt_next_due (hp : 0 < period) : now < start + due start period now * period := by
  unfold due
  split_ifs with h
  · omega
  · have := Nat.lt_mul_div_succ (now - start) hp
    rw [Nat.mul_comm] at this
    omega

/-- It is at most one period away. -/
theorem next_due_le (hle : start ≤ now) :
    start + due start period now * period ≤ now + period := by
  have hdiv := Nat.div_mul_le_self (now - start) period
  unfold due
  rw [if_neg (Nat.not_lt.mpr hle), Nat.add_mul]
  omega

theorem due_mono (hle : now ≤ later) : due start period now ≤ due start period later := by
  unfold due
  split_ifs with hnow hlater
  · exact Nat.zero_le _
  · exact Nat.zero_le _
  · omega
  · exact Nat.succ_le_succ (Nat.div_le_div_right (Nat.sub_le_sub_right hle _))

/-- Some of the counts that are due, and those that are due behind them. -/
theorem due_split (hp : 0 < period) (hk : k ≤ due start period now) :
    due start period now = k + due (start + k * period) period now := by
  by_cases hnow : now < start
  · rw [due_eq_zero_iff.mpr hnow] at hk ⊢
    rw [Nat.le_zero.mp hk, Nat.zero_mul, Nat.add_zero, due_eq_zero_iff.mpr hnow]
  have hd : due start period now = (now - start) / period + 1 := if_neg hnow
  rw [hd] at hk ⊢
  by_cases hnew : now < start + k * period
  · -- all of them
    have hlt : (now - start) / period < k := (Nat.div_lt_iff_lt_mul hp).mpr (by omega)
    rw [due_eq_zero_iff.mpr hnew]
    exact Nat.le_antisymm hlt hk
  · have hsplit : now - start = now - (start + k * period) + k * period := by omega
    rw [due, if_neg hnew, hsplit, Nat.add_mul_div_right _ _ hp]
    omega

/-- **Counts taken in two goes.** -/
theorem due_add (hp : 0 < period) (hle : now ≤ later) :
    due start period later =
      due start period now + due (start + due start period now * period) period later :=
  due_split hp (due_mono hle)

/-- **Counts that start within the first period** are the periods that have passed, up to
one for the phase. -/
theorem due_near {since : ℕ} (hp : 0 < period) (hlow : since ≤ start)
    (hhigh : start ≤ since + period) :
    due start period now ≤ (now - since) / period + 1 ∧
      (now - since) / period ≤ due start period now + 1 := by
  unfold due
  split_ifs with h
  · have hlt : (now - since) / period < 1 := (Nat.div_lt_iff_lt_mul hp).mpr (by omega)
    generalize (now - since) / period = q at hlt
    omega
  · have hle : (now - start) / period ≤ (now - since) / period :=
      Nat.div_le_div_right (by omega)
    have hge : (now - since) / period ≤ (now - start + period) / period :=
      Nat.div_le_div_right (by omega)
    rw [Nat.add_div_right _ hp] at hge
    exact ⟨Nat.succ_le_succ hle, Nat.le_trans hge (Nat.le_succ _)⟩

/-- A count that is overdue at the beginning is one too many at the end of the first
period. -/
theorem two_le_due {since : ℕ} (hp : 0 < period) (h : start < since) :
    2 ≤ due start period (since + period - 1) := by
  have hle : 1 ≤ (since + period - 1 - start) / period := by
    rw [Nat.one_le_div_iff hp]
    omega
  unfold due
  rw [if_neg (by omega)]
  exact Nat.succ_le_succ hle

/-! ### On machine words -/

section Words

variable {w : ℕ} {first per time : BitVec w}

/-- **The counts that are due**, as words compute them, where they fit. -/
theorem toNat_due (hdue : ¬time < first)
    (hfit : due first.toNat per.toNat time.toNat < 2 ^ w) :
    ((time - first) / per + 1).toNat = due first.toNat per.toNat time.toNat := by
  have hd : due first.toNat per.toNat time.toNat =
      (time.toNat - first.toNat) / per.toNat + 1 := if_neg hdue
  rw [hd] at hfit ⊢
  rw [BitVec.toNat_add, BitVec.toNat_udiv, BitVec.toNat_sub_of_le (BitVec.not_lt.mp hdue)]
  exact (Nat.add_mod_mod _ 1 _).trans (Nat.mod_eq_of_lt hfit)

/-- The time of the next count, once they are taken, where it fits. -/
theorem toNat_next_due (hdue : ¬time < first) (hper : 0 < per.toNat)
    (hfit : first.toNat + due first.toNat per.toNat time.toNat * per.toNat < 2 ^ w) :
    (first + ((time - first) / per + 1) * per).toNat =
      first.toNat + due first.toNat per.toNat time.toNat * per.toNat := by
  have hmul : due first.toNat per.toNat time.toNat * per.toNat < 2 ^ w :=
    Nat.lt_of_le_of_lt (Nat.le_add_left _ _) hfit
  have hcounts := toNat_due hdue (Nat.lt_of_le_of_lt (Nat.le_mul_of_pos_right _ hper) hmul)
  rw [BitVec.toNat_add, BitVec.toNat_mul, hcounts, Nat.mod_eq_of_lt hmul]
  exact Nat.mod_eq_of_lt hfit

end Words

end Cyclic
