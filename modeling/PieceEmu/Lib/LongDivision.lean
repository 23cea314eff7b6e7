import Mathlib.Data.Nat.Bitwise
import Mathlib.Tactic.Ring

/-!
# Long division of binary numbers

The digits of a dividend of `w` bits, from the most significant one down: `leading w u k`
is the number its first `k` digits make. Bringing down one more digit doubles the partial
remainder and adds the digit; the quotient digit says whether the divisor fits, and the
divisor is subtracted if it does (`quotient_succ`, `remainder_succ`). After the last digit
the two are the quotient and the remainder (`quotient_all`, `remainder_all`).

The complement of a word has the complements of its digits (`digit_complement`), so that a
negative dividend is divided by the same steps.
-/

namespace LongDivision

variable {w u d k : ℕ}

/-- The number the first `k` digits of `u` make. -/
def leading (w u k : ℕ) : ℕ := u / 2 ^ (w - k)

/-- The digit number `k`, the most significant one being number 0. -/
def digit (w u k : ℕ) : ℕ := u / 2 ^ (w - 1 - k) % 2

/-- The quotient after `k` digits. -/
def quotient (w u d k : ℕ) : ℕ := leading w u k / d

/-- The partial remainder after `k` digits. -/
def remainder (w u d k : ℕ) : ℕ := leading w u k % d

/-- The digit is brought down. -/
theorem leading_succ (hk : k < w) : leading w u (k + 1) = 2 * leading w u k + digit w u k := by
  unfold leading digit
  have hexp : w - k = w - 1 - k + 1 := by omega
  have hexp' : w - (k + 1) = w - 1 - k := by omega
  rw [hexp, hexp', pow_succ, ← Nat.div_div_eq_div_mul, Nat.div_add_mod]

theorem leading_zero (hu : u < 2 ^ w) : leading w u 0 = 0 := Nat.div_eq_of_lt hu

theorem leading_all : leading w u w = u := by
  unfold leading
  rw [Nat.sub_self, pow_zero, Nat.div_one]

theorem leading_lt (hu : u < 2 ^ w) (hk : k ≤ w) : leading w u k < 2 ^ k := by
  refine Nat.div_lt_of_lt_mul ?_
  rwa [← pow_add, Nat.sub_add_cancel hk]

theorem digit_lt_two : digit w u k < 2 := Nat.mod_lt _ Nat.two_pos

/-! ### One digit -/

/-- The divisor fits once or not at all. -/
theorem two_mul_add_div (hd : 0 < d) {x b : ℕ} (hb : b < 2) :
    (2 * x + b) / d = 2 * (x / d) + (if d ≤ 2 * (x % d) + b then 1 else 0) ∧
      (2 * x + b) % d =
        (if d ≤ 2 * (x % d) + b then 2 * (x % d) + b - d else 2 * (x % d) + b) := by
  have hx := Nat.div_add_mod x d
  have hlt := Nat.mod_lt x hd
  rw [Nat.div_mod_unique hd]
  split_ifs with hfit
  · refine ⟨?_, by omega⟩
    have hexpand : d * (2 * (x / d) + 1) = 2 * (d * (x / d)) + d := by ring
    rw [hexpand]
    omega
  · refine ⟨?_, by omega⟩
    have hexpand : d * (2 * (x / d) + 0) = 2 * (d * (x / d)) := by ring
    rw [hexpand]
    omega

/-- **The quotient digit.** -/
theorem quotient_succ (hd : 0 < d) (hk : k < w) :
    quotient w u d (k + 1) = 2 * quotient w u d k +
      (if d ≤ 2 * remainder w u d k + digit w u k then 1 else 0) := by
  unfold quotient remainder
  rw [leading_succ hk]
  exact (two_mul_add_div hd digit_lt_two).1

/-- **The partial remainder.** -/
theorem remainder_succ (hd : 0 < d) (hk : k < w) :
    remainder w u d (k + 1) =
      if d ≤ 2 * remainder w u d k + digit w u k then
        2 * remainder w u d k + digit w u k - d
      else 2 * remainder w u d k + digit w u k := by
  unfold remainder
  rw [leading_succ hk]
  exact (two_mul_add_div hd digit_lt_two).2

/-! ### The ends -/

theorem quotient_zero (hu : u < 2 ^ w) : quotient w u d 0 = 0 := by
  rw [quotient, leading_zero hu, Nat.zero_div]

theorem remainder_zero (hu : u < 2 ^ w) : remainder w u d 0 = 0 := by
  rw [remainder, leading_zero hu, Nat.zero_mod]

theorem quotient_all : quotient w u d w = u / d := by rw [quotient, leading_all]

theorem remainder_all : remainder w u d w = u % d := by rw [remainder, leading_all]

/-- No digit of a partial remainder is lost. -/
theorem remainder_lt_two_pow (hu : u < 2 ^ w) (hk : k ≤ w) : remainder w u d k < 2 ^ k :=
  (Nat.mod_le _ _).trans_lt (leading_lt hu hk)

theorem quotient_lt_two_pow (hu : u < 2 ^ w) (hk : k ≤ w) : quotient w u d k < 2 ^ k :=
  (Nat.div_le_self _ _).trans_lt (leading_lt hu hk)

/-! ### Complements -/

/-- The quotient and the remainder of the next number: a greatest remainder is spent. -/
theorem succ_div_mod (hd : 0 < d) (u : ℕ) :
    (u + 1) / d = (if u % d + 1 = d then u / d + 1 else u / d) ∧
      (u + 1) % d = (if u % d + 1 = d then 0 else u % d + 1) := by
  have hu := Nat.div_add_mod u d
  have hlt := Nat.mod_lt u hd
  rw [Nat.div_mod_unique hd]
  split_ifs with hlast
  · refine ⟨?_, hd⟩
    rw [Nat.mul_add]
    omega
  · exact ⟨by omega, by omega⟩

/-- The complement of a word has the complements of its digits. -/
theorem digit_complement (hu : u < 2 ^ w) (hk : k < w) :
    digit w (2 ^ w - 1 - u) k = 1 - digit w u k := by
  have hbit := Nat.testBit_two_pow_sub_succ hu (w - 1 - k)
  rw [decide_eq_true (by omega : w - 1 - k < w), Bool.true_and, Nat.testBit_eq_decide_div_mod_eq,
    Nat.testBit_eq_decide_div_mod_eq, ← Nat.sub_sub, Nat.sub_right_comm] at hbit
  unfold digit
  have h1 := Nat.mod_lt ((2 ^ w - 1 - u) / 2 ^ (w - 1 - k)) Nat.two_pos
  have h2 := Nat.mod_lt (u / 2 ^ (w - 1 - k)) Nat.two_pos
  by_cases h : u / 2 ^ (w - 1 - k) % 2 = 1
  · simp only [h, decide_true, Bool.not_true, decide_eq_false_iff_not] at hbit
    omega
  · simp only [h, decide_false, Bool.not_false, decide_eq_true_eq] at hbit
    omega

end LongDivision
