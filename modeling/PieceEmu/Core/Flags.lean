import PieceEmu.Core.Machine

/-!
# The flags of an addition and of a subtraction

The arithmetic instructions compute in 64 bits, and read the four flags off the result.
With a carry or a borrow `c` coming in, the result word `s`, the flag `C` and the flag `V`
are those of the exact sum or difference:

| | `s` and `C` | `V` |
|---|---|---|
| addition | `a + b + c = s + 2^32 C` | `a + b + c` leaves the signed words |
| subtraction | `a - b - c = s - 2^32 C` | `a - b - c` leaves the signed words |

The conditions of the branches are read off the same flags: after a subtraction without a
borrow, `N` and `V` differ exactly when the first operand is the lesser one, signed
(`Psr.sub_lt_iff`).
-/

namespace Psr

variable (p : Psr)

@[simp] theorem flag_setFlag {k : ℕ} (hk : k < 32) (v : Bool) (j : ℕ) :
    (p.setFlag k v).flag j = if j = k then v else p.flag j := by
  have hbit : (1#32 <<< k).getLsbD j = decide (j = k) := by
    rw [BitVec.getLsbD_shiftLeft, BitVec.getLsbD_one]
    rcases lt_trichotomy j k with h | rfl | h
    · simp [h, h.ne]
    · simp [hk]
    · simp [h.ne', Nat.sub_ne_zero_of_lt h]
  have hval : ((BitVec.ofBool v).setWidth 32 <<< k).getLsbD j = (decide (j = k) && v) := by
    rw [BitVec.getLsbD_shiftLeft, BitVec.getLsbD_setWidth, BitVec.getLsbD_ofBool]
    rcases lt_trichotomy j k with h | rfl | h
    · simp [h, h.ne]
    · simp [hk]
    · simp [h.ne', Nat.sub_ne_zero_of_lt h]
  unfold setFlag flag
  rw [BitVec.getLsbD_or, BitVec.getLsbD_and, BitVec.getLsbD_not, hbit, hval]
  by_cases hj : j = k
  · simp [hj]
  · by_cases hlt : j < 32
    · simp [hj, hlt]
    · simp [hj, hlt, BitVec.getLsbD_of_ge p.raw j (Nat.not_lt.mp hlt)]

/-- The level is no flag below bit 8. -/
@[simp] theorem flag_setIl (lv : U32) {j : ℕ} (hj : j < 8) : (p.setIl lv).flag j = p.flag j := by
  have hmask : (0xF#32 <<< 8).getLsbD j = false := by
    rw [BitVec.getLsbD_shiftLeft]
    simp [hj]
  unfold setIl flag
  rw [BitVec.getLsbD_or, BitVec.getLsbD_and, BitVec.getLsbD_not, hmask,
    BitVec.getLsbD_shiftLeft]
  simp [hj, Nat.lt_trans hj (by decide : 8 < 32)]

/-- The four flags an arithmetic instruction sets, and the two it keeps. -/
theorem setNzvc_flags (n z c v : Bool) :
    let q := (((p.setN n).setZ z).setC c).setV v
    q.n = n ∧ q.z = z ∧ q.c = c ∧ q.v = v ∧ q.ds = p.ds ∧ q.mo = p.mo := by
  simp only [Psr.setN, Psr.setZ, Psr.setC, Psr.setV, Psr.n, Psr.z, Psr.c, Psr.v, Psr.ds, Psr.mo,
    flag_setFlag _ (by decide : 0 < 32), flag_setFlag _ (by decide : 1 < 32),
    flag_setFlag _ (by decide : 2 < 32), flag_setFlag _ (by decide : 3 < 32)]
  exact ⟨rfl, rfl, rfl, rfl, rfl, rfl⟩

/-! ### The words -/

/-- The 64-bit sum with a carry. -/
def sum64 (a b : U32) (c : Bool) : U64 := a.setWidth 64 + b.setWidth 64 + if c then 1 else 0

/-- The 64-bit difference with a borrow. -/
def diff64 (a b : U32) (c : Bool) : U64 := a.setWidth 64 - b.setWidth 64 - if c then 1 else 0

theorem toNat_sum64 (a b : U32) (c : Bool) :
    (sum64 a b c).toNat = a.toNat + b.toNat + c.toNat := by
  have ha := a.isLt
  have hb := b.isLt
  cases c <;> simp only [sum64, BitVec.toNat_add, BitVec.toNat_setWidth, if_true, if_false,
    Bool.false_eq_true, Bool.toNat_true, Bool.toNat_false] <;> simp <;> omega

theorem toNat_diff64 (a b : U32) (c : Bool) :
    (diff64 a b c).toNat =
      if b.toNat + c.toNat ≤ a.toNat then a.toNat - b.toNat - c.toNat
      else 2 ^ 64 + a.toNat - b.toNat - c.toNat := by
  have ha := a.isLt
  have hb := b.isLt
  cases c <;> simp only [diff64, BitVec.toNat_sub, BitVec.toNat_setWidth, if_true, if_false,
    Bool.false_eq_true, Bool.toNat_true, Bool.toNat_false] <;> simp <;> split_ifs <;> omega

/-- The carry flag is the part of a result above its word. -/
theorem ushiftRight_ne_zero_iff (r : U64) : r >>> 32 ≠ 0 ↔ 2 ^ 32 ≤ r.toNat := by
  have hzero : r >>> 32 = 0 ↔ (r >>> 32).toNat = 0 :=
    ⟨fun h => h ▸ rfl, fun h => BitVec.eq_of_toNat_eq h⟩
  rw [Ne, hzero, BitVec.toNat_ushiftRight, Nat.shiftRight_eq_div_pow]
  omega

/-- **The sum is its word and its carry.** -/
theorem sum64_eq (a b : U32) (c : Bool) :
    a.toNat + b.toNat + c.toNat =
      ((sum64 a b c).setWidth 32).toNat + 2 ^ 32 * (decide (sum64 a b c >>> 32 ≠ 0)).toNat := by
  have ha := a.isLt
  have hb := b.isLt
  have hc := c.toNat_le
  rw [BitVec.toNat_setWidth, toNat_sum64]
  by_cases h : 2 ^ 32 ≤ a.toNat + b.toNat + c.toNat
  · rw [decide_eq_true ((ushiftRight_ne_zero_iff _).mpr (h.trans_eq (toNat_sum64 a b c).symm)),
      Bool.toNat_true]
    omega
  · rw [decide_eq_false fun hne => h (toNat_sum64 a b c ▸ (ushiftRight_ne_zero_iff _).mp hne),
      Bool.toNat_false]
    omega

/-- **The difference is its word less its borrow.** -/
theorem diff64_eq (a b : U32) (c : Bool) :
    a.toNat + 2 ^ 32 * (decide (diff64 a b c >>> 32 ≠ 0)).toNat =
      ((diff64 a b c).setWidth 32).toNat + b.toNat + c.toNat := by
  have ha := a.isLt
  have hb := b.isLt
  have hc := c.toNat_le
  have hdiff := toNat_diff64 a b c
  rw [BitVec.toNat_setWidth]
  by_cases h : b.toNat + c.toNat ≤ a.toNat
  · rw [if_pos h] at hdiff
    rw [decide_eq_false fun hne => absurd ((ushiftRight_ne_zero_iff _).mp hne) (by omega), hdiff,
      Bool.toNat_false]
    omega
  · rw [if_neg h] at hdiff
    rw [decide_eq_true ((ushiftRight_ne_zero_iff _).mpr (by omega)), hdiff, Bool.toNat_true]
    omega

/-- A number a signed word can hold. -/
def Fits (x : ℤ) : Prop := -2 ^ 31 ≤ x ∧ x < 2 ^ 31

instance (x : ℤ) : Decidable (Fits x) := inferInstanceAs (Decidable (_ ∧ _))

/-- A word by its sign. -/
theorem msb_cases (v : U32) :
    v.msb = true ∧ v.toInt = v.toNat - 2 ^ 32 ∧ 2 ^ 31 ≤ v.toNat ∨
      v.msb = false ∧ v.toInt = v.toNat ∧ v.toNat < 2 ^ 31 := by
  rw [BitVec.toInt_eq_msb_cond, BitVec.msb_eq_decide]
  by_cases h : 2 ^ (32 - 1) ≤ v.toNat
  · rw [decide_eq_true h]
    exact .inl ⟨rfl, rfl, h⟩
  · rw [decide_eq_false h]
    exact .inr ⟨rfl, rfl, Nat.not_le.mp h⟩

/-- **The overflow of an addition**: the operands have one sign and the word the other. -/
theorem sum64_overflow (a b : U32) (c : Bool) :
    (~~~(a ^^^ b) &&& (a ^^^ (sum64 a b c).setWidth 32)).msb =
      decide (¬Fits (a.toInt + b.toInt + c.toNat)) := by
  have hsum := sum64_eq a b c
  have hc := c.toNat_le
  have hk := (decide (sum64 a b c >>> 32 ≠ 0)).toNat_le
  generalize (sum64 a b c).setWidth 32 = s at hsum ⊢
  have hs := s.isLt
  rw [BitVec.msb_and, BitVec.msb_not, BitVec.msb_xor, BitVec.msb_xor, Bool.eq_iff_iff,
    decide_eq_true_iff]
  unfold Fits
  rcases msb_cases a with ⟨ha, hai, hal⟩ | ⟨ha, hai, hal⟩ <;>
    rcases msb_cases b with ⟨hb, hbi, hbl⟩ | ⟨hb, hbi, hbl⟩ <;>
      rcases msb_cases s with ⟨hs, -, hsl⟩ | ⟨hs, -, hsl⟩ <;>
        simp only [ha, hb, hs, hai, hbi, Bool.xor_self, Bool.xor_false, Bool.xor_true,
          Bool.not_true, Bool.not_false, Bool.and_true, Bool.and_false,
          Nat.reduceLT, decide_true, Bool.false_eq_true, false_iff, true_iff, not_not] <;>
          omega

/-- **The overflow of a subtraction**: the operands have two signs and the word has not that
of the first. -/
theorem diff64_overflow (a b : U32) (c : Bool) :
    ((a ^^^ b) &&& (a ^^^ (diff64 a b c).setWidth 32)).msb =
      decide (¬Fits (a.toInt - b.toInt - c.toNat)) := by
  have hdiff := diff64_eq a b c
  have hc := c.toNat_le
  have hk := (decide (diff64 a b c >>> 32 ≠ 0)).toNat_le
  generalize (diff64 a b c).setWidth 32 = s at hdiff ⊢
  have hs := s.isLt
  rw [BitVec.msb_and, BitVec.msb_xor, BitVec.msb_xor, Bool.eq_iff_iff, decide_eq_true_iff]
  unfold Fits
  rcases msb_cases a with ⟨ha, hai, hal⟩ | ⟨ha, hai, hal⟩ <;>
    rcases msb_cases b with ⟨hb, hbi, hbl⟩ | ⟨hb, hbi, hbl⟩ <;>
      rcases msb_cases s with ⟨hs, -, hsl⟩ | ⟨hs, -, hsl⟩ <;>
        simp only [ha, hb, hs, hai, hbi, Bool.xor_self, Bool.xor_false, Bool.xor_true,
          Bool.not_false, Bool.and_true, Bool.and_false, Bool.false_eq_true, false_iff,
          true_iff, not_not] <;>
          omega

/-! ### The flags of the two instructions -/

theorem setNzvcAdd_flags (a b : U32) (c : Bool) :
    let q := p.setNzvcAdd a b (sum64 a b c)
    q.c = decide (sum64 a b c >>> 32 ≠ 0) ∧
      q.v = decide (¬Fits (a.toInt + b.toInt + c.toNat)) ∧ q.ds = p.ds ∧ q.mo = p.mo := by
  obtain ⟨-, -, hc, hv, hds, hmo⟩ := p.setNzvc_flags ((sum64 a b c).setWidth 32).msb
    ((sum64 a b c).setWidth 32 = 0) (decide (sum64 a b c >>> 32 ≠ 0))
    (~~~(a ^^^ b) &&& (a ^^^ (sum64 a b c).setWidth 32)).msb
  exact ⟨hc, hv.trans (sum64_overflow a b c), hds, hmo⟩

theorem setNzvcSub_flags (a b : U32) (c : Bool) :
    let q := p.setNzvcSub a b (diff64 a b c)
    q.n = ((diff64 a b c).setWidth 32).msb ∧ q.z = decide ((diff64 a b c).setWidth 32 = 0) ∧
      q.c = decide (diff64 a b c >>> 32 ≠ 0) ∧
      q.v = decide (¬Fits (a.toInt - b.toInt - c.toNat)) ∧ q.ds = p.ds ∧ q.mo = p.mo := by
  obtain ⟨hn, hz, hc, hv, hds, hmo⟩ := p.setNzvc_flags ((diff64 a b c).setWidth 32).msb
    ((diff64 a b c).setWidth 32 = 0) (decide (diff64 a b c >>> 32 ≠ 0))
    ((a ^^^ b) &&& (a ^^^ (diff64 a b c).setWidth 32)).msb
  exact ⟨hn, hz, hc, hv.trans (diff64_overflow a b c), hds, hmo⟩

/-! ### Comparing -/

/-- **What the flags of a comparison say**: `Z` that the operands are equal, `C` that the
first is the lesser one unsigned, `N` and `V` that it is the lesser one signed. -/
theorem compare_flags (a b : U32) :
    let q := p.setNzvcSub a b (diff64 a b false)
    (q.z = true ↔ a = b) ∧ (q.c = true ↔ a.toNat < b.toNat) ∧
      ((q.n ^^ q.v) = true ↔ a.toInt < b.toInt) := by
  obtain ⟨hn, hz, hc, hv, -, -⟩ := p.setNzvcSub_flags a b false
  have hdiff := diff64_eq a b false
  have ha := a.isLt
  have hb := b.isLt
  have hk := (decide (diff64 a b false >>> 32 ≠ 0)).toNat_le
  dsimp only
  rw [hn, hz, hc, hv]
  generalize (diff64 a b false).setWidth 32 = s at hdiff ⊢
  generalize decide (diff64 a b false >>> 32 ≠ 0) = k at hdiff hk ⊢
  have hs := s.isLt
  rw [Bool.toNat_false, Nat.add_zero] at hdiff
  refine ⟨?_, ?_, ?_⟩
  · rw [decide_eq_true_iff, ← BitVec.toNat_inj, ← BitVec.toNat_inj]
    change s.toNat = 0 ↔ _
    omega
  · cases k
    · rw [Bool.toNat_false] at hdiff
      simp only [Bool.false_eq_true, false_iff]
      omega
    · rw [Bool.toNat_true] at hdiff
      simp only [true_iff]
      omega
  · rw [Bool.toNat_false, Int.natCast_zero, Int.sub_zero]
    unfold Fits
    rcases msb_cases a with ⟨-, hai, hal⟩ | ⟨-, hai, hal⟩ <;>
      rcases msb_cases b with ⟨-, hbi, hbl⟩ | ⟨-, hbi, hbl⟩ <;>
        rcases msb_cases s with ⟨hsm, -, hsl⟩ | ⟨hsm, -, hsl⟩ <;>
          rw [hsm, hai, hbi]
    all_goals
      simp only [Bool.true_xor, Bool.false_xor, Bool.not_eq_true', decide_eq_false_iff_not,
        decide_eq_true_iff, not_not]
      omega

end Psr
