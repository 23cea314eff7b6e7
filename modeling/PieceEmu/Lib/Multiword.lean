import Mathlib.Data.Nat.Digits.Defs
import Mathlib.Tactic.LinearCombination
import Mathlib.Tactic.Linarith

/-!
# Multiword arithmetic

Numbers of several words, the least significant word first, in base `β`
(`Nat.ofDigits`). An addition or a subtraction goes word by word with a carry, and the sign
`ε` covers both: it is `1` for an addition and `-1` for a subtraction, whose carry is a
borrow. One more word keeps the equation between the operands, the words of the result and
the carry (`carry_concat`), and the most significant words alone decide whether the whole
fits in its words, signed (`fits_concat`).
-/

namespace Multiword

variable {β : ℕ} {ε : ℤ} {as bs ss : List ℕ} {a b s : ℕ} {c c' : ℕ}

/-- The number its words make. -/
def value (β : ℕ) (ws : List ℕ) : ℕ := Nat.ofDigits β ws

@[simp] theorem value_nil : value β [] = 0 := rfl

theorem value_concat (ws : List ℕ) (w : ℕ) :
    value β (ws ++ [w]) = value β ws + β ^ ws.length * w := by
  unfold value
  rw [Nat.ofDigits_append, Nat.ofDigits_singleton]

/-- The words of a result, and the carry behind them, come from the words of the operands. -/
def Carries (β : ℕ) (ε : ℤ) (as bs ss : List ℕ) (c : ℕ) : Prop :=
  (value β as : ℤ) + ε * value β bs =
    value β ss + ε * β ^ ss.length * c

/-- **One more word.** -/
theorem carry_concat (h : Carries β ε as bs ss c) (ha : as.length = ss.length)
    (hb : bs.length = ss.length)
    (hw : (a : ℤ) + ε * (b + c) = s + ε * β * c') :
    Carries β ε (as ++ [a]) (bs ++ [b]) (ss ++ [s]) c' := by
  unfold Carries at h ⊢
  rw [value_concat, value_concat, value_concat, ha, hb, List.length_append,
    List.length_singleton, pow_succ]
  push_cast
  linear_combination h + (β : ℤ) ^ ss.length * hw

/-- **Only the most significant words overflow.** -/
theorem fits_concat {P h : ℤ} {L t : ℤ} (h0 : 0 ≤ L) (hL : L < P) :
    (-(P * h) ≤ L + P * t ∧ L + P * t < P * h) ↔ (-h ≤ t ∧ t < h) := by
  have hP : 0 < P := h0.trans_lt hL
  constructor
  · rintro ⟨hlo, hhi⟩
    constructor
    · by_contra hlt
      have hle : t + 1 ≤ -h := by omega
      have := mul_le_mul_of_nonneg_left hle hP.le
      linarith
    · by_contra hge
      have := mul_le_mul_of_nonneg_left (not_lt.mp hge) hP.le
      linarith
  · rintro ⟨hlo, hhi⟩
    have h1 := mul_le_mul_of_nonneg_left hlo hP.le
    have h2 := mul_le_mul_of_nonneg_left (Int.add_one_le_iff.mpr hhi) hP.le
    constructor <;> linarith

/-- **A sum of several words**: the words of the result are the sum, wrapped, and the carry
says whether it has wrapped. -/
theorem sum_of_carries (h : Carries β 1 as bs ss c) (hc : c ≤ 1)
    (hs : value β ss < β ^ ss.length) :
    value β ss = (value β as + value β bs) % β ^ ss.length ∧
      (c = 1 ↔ β ^ ss.length ≤ value β as + value β bs) := by
  have hsum : value β as + value β bs = value β ss + β ^ ss.length * c := by
    unfold Carries at h
    rw [one_mul, one_mul] at h
    exact_mod_cast h
  rw [hsum, Nat.add_mul_mod_self_left, Nat.mod_eq_of_lt hs]
  refine ⟨rfl, ?_⟩
  rcases Nat.le_one_iff_eq_zero_or_eq_one.mp hc with rfl | rfl <;> omega

/-- **A difference of several words**, and its borrow. -/
theorem difference_of_carries (h : Carries β (-1) as bs ss c) (hc : c ≤ 1)
    (hs : value β ss < β ^ ss.length) :
    (value β ss : ℤ) =
        ((value β as : ℤ) - value β bs) % (β ^ ss.length : ℕ) ∧
      (c = 1 ↔ value β as < value β bs) := by
  have hdiff : (value β as : ℤ) - value β bs =
      value β ss + (β ^ ss.length : ℕ) * (-(c : ℤ)) := by
    unfold Carries at h
    push_cast
    linear_combination h
  constructor
  · rw [hdiff, Int.add_mul_emod_self_left]
    exact (Int.emod_eq_of_lt (Int.natCast_nonneg _) (by exact_mod_cast hs)).symm
  · rcases Nat.le_one_iff_eq_zero_or_eq_one.mp hc with rfl | rfl
    · omega
    · rw [Nat.cast_one, mul_neg, mul_one] at hdiff
      omega

/-! ### Signed numbers -/

/-- The signed number its words make. -/
def signed (β : ℕ) (ws : List ℕ) : ℤ :=
  if 2 * value β ws < β ^ ws.length then value β ws else value β ws - (β ^ ws.length : ℕ)

/-- **The most significant word carries the sign.** -/
theorem signed_concat {h : ℕ} {ws : List ℕ} {w : ℕ} (hws : value (2 * h) ws < (2 * h) ^ ws.length) :
    signed (2 * h) (ws ++ [w]) =
      value (2 * h) ws + ((2 * h) ^ ws.length : ℕ) * signed (2 * h) [w] := by
  have hone : value (2 * h) [w] = w := Nat.ofDigits_singleton
  unfold signed
  rw [value_concat, hone, List.length_append, List.length_singleton, pow_succ, pow_one]
  generalize (2 * h) ^ ws.length = P at hws ⊢
  have hsign : 2 * (value (2 * h) ws + P * w) < P * (2 * h) ↔ 2 * w < 2 * h := by
    constructor
    · intro hlt
      by_contra hge
      have := Nat.mul_le_mul_left P (not_lt.mp hge)
      linarith
    · intro hlt
      have := Nat.mul_le_mul_left P (by omega : 2 * (w + 1) ≤ 2 * h)
      linarith
  by_cases hw : 2 * w < 2 * h
  · rw [if_pos (hsign.mpr hw), if_pos hw]
    push_cast
    ring
  · rw [if_neg (mt hsign.mp hw), if_neg hw]
    push_cast
    ring

end Multiword
