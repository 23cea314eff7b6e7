import Mathlib.Computability.RegularExpressions

/-!
# Character classes and bounded repetition

The regular expressions of Mathlib have symbols, sums, products and stars. What the
patterns of programs have besides is written here in their terms: `[…]` is a sum of
symbols (`charClass`), `r{0,n}` and `r{1,n}` nest an optional part (`upTo`, `oneUpTo`),
and `r?` is a sum with the empty word (`optional`). A bounded repetition of a class
matches the short words over it, and nothing else.
-/

namespace BoundedRegex

variable {α : Type*}

/-- `[cs]`. -/
def charClass (cs : List α) : RegularExpression α := cs.foldr (fun c r => .char c + r) 0

/-- `r{0,n}`. -/
def upTo (r : RegularExpression α) : ℕ → RegularExpression α
  | 0 => 1
  | n + 1 => 1 + r * upTo r n

/-- `r{1,n + 1}`. -/
def oneUpTo (r : RegularExpression α) (n : ℕ) : RegularExpression α := r * upTo r n

/-- `r?`. -/
def optional (r : RegularExpression α) : RegularExpression α := 1 + r

variable {cs s : List α}

theorem mem_charClass : s ∈ (charClass cs).matches' ↔ ∃ c ∈ cs, s = [c] := by
  induction cs with
  | nil => exact iff_of_false id nofun
  | cons c cs ih =>
    change s ∈ ({[c]} : Language α) + (charClass cs).matches' ↔ _
    rw [Language.mem_add, ih, List.exists_mem_cons_iff]
    exact Iff.rfl

theorem mem_optional {r : RegularExpression α} :
    s ∈ (optional r).matches' ↔ s = [] ∨ s ∈ r.matches' := Iff.rfl

/-- A symbol of a class in front of a word of another expression. -/
theorem mem_charClass_mul {r : RegularExpression α} :
    s ∈ (charClass cs * r).matches' ↔ ∃ c t, s = c :: t ∧ c ∈ cs ∧ t ∈ r.matches' := by
  rw [RegularExpression.matches'_mul, Language.mem_mul]
  constructor
  · rintro ⟨a, ha, t, ht, rfl⟩
    obtain ⟨c, hc, rfl⟩ := mem_charClass.mp ha
    exact ⟨c, t, rfl, hc, ht⟩
  · rintro ⟨c, t, rfl, hc, ht⟩
    exact ⟨[c], mem_charClass.mpr ⟨c, hc, rfl⟩, t, ht, rfl⟩

/-- **The words of `[cs]{0,n}`**. -/
theorem mem_upTo {n : ℕ} :
    s ∈ (upTo (charClass cs) n).matches' ↔ s.length ≤ n ∧ ∀ c ∈ s, c ∈ cs := by
  induction n generalizing s with
  | zero =>
    rw [Nat.le_zero, List.length_eq_zero_iff]
    exact ⟨by rintro rfl; exact ⟨rfl, nofun⟩, fun h => h.1⟩
  | succ n ih =>
    change s = [] ∨ s ∈ (charClass cs * upTo (charClass cs) n).matches' ↔ _
    rw [mem_charClass_mul]
    cases s with
    | nil => exact iff_of_true (.inl rfl) ⟨Nat.zero_le _, nofun⟩
    | cons c t => simp [ih, and_left_comm]

/-- **The words of `[cs]{1,n + 1}`**. -/
theorem mem_oneUpTo {n : ℕ} :
    s ∈ (oneUpTo (charClass cs) n).matches' ↔
      s ≠ [] ∧ s.length ≤ n + 1 ∧ ∀ c ∈ s, c ∈ cs := by
  rw [oneUpTo, mem_charClass_mul]
  cases s with
  | nil => simp
  | cons c t => simp [mem_upTo, and_left_comm]

/-- A symbol in front of a word of another expression. -/
theorem mem_char_mul {c : α} {r : RegularExpression α} :
    s ∈ (.char c * r : RegularExpression α).matches' ↔ ∃ t, s = c :: t ∧ t ∈ r.matches' := by
  rw [RegularExpression.matches'_mul, Language.mem_mul]
  constructor
  · rintro ⟨a, rfl, t, ht, rfl⟩
    exact ⟨t, rfl, ht⟩
  · rintro ⟨t, rfl, ht⟩
    exact ⟨[c], rfl, t, ht, rfl⟩

end BoundedRegex
