import Mathlib.Data.BitVec

/-!
# Fields of a word

A word put together from fields, in the three ways programs write it: shifting and
joining (`shiftLeft_or_eq_append`), masking (`setWidth_and_mask`), and the extension of
a sign by an exclusive or and a subtraction (`xor_sub_sign`). Each is the concatenation
or the extension it stands for.
-/

namespace BitFields

variable {k n w : ℕ}

/-! ### Joining -/

/-- **Two fields, shifted and joined, are their concatenation.** -/
theorem shiftLeft_or_eq_append (e : BitVec k) (b : BitVec n) :
    e.setWidth w <<< n ||| b.setWidth w = (e ++ b).setWidth w := by
  ext i hi
  simp only [BitVec.getElem_or, BitVec.getElem_shiftLeft, BitVec.getElem_setWidth,
    BitVec.getLsbD_append]
  by_cases h : i < n
  · simp [h]
  · have hb : b.getLsbD i = false := BitVec.getLsbD_of_ge b i (Nat.not_lt.mp h)
    simp [h, hb]

theorem toNat_one_shiftLeft (hk : k < w) : (1#w <<< k).toNat = 2 ^ k := by
  have hlt : 2 ^ k < 2 ^ w := Nat.pow_lt_pow_right (by decide) hk
  have hpos : 0 < 2 ^ k := Nat.two_pow_pos k
  rw [BitVec.toNat_shiftLeft, BitVec.toNat_ofNat, Nat.mod_eq_of_lt (by omega : 1 < 2 ^ w),
    Nat.one_shiftLeft, Nat.mod_eq_of_lt hlt]

/-- A field under the mask of its width. -/
theorem setWidth_and_mask (b : BitVec n) (hn : n < w) :
    b.setWidth w &&& (1#w <<< n - 1) = b.setWidth w := by
  have hlt : 2 ^ n < 2 ^ w := Nat.pow_lt_pow_right (by decide) hn
  have hpos : 0 < 2 ^ n := Nat.two_pow_pos n
  have h1 : (1#w).toNat = 1 := by
    rw [BitVec.toNat_ofNat]
    exact Nat.mod_eq_of_lt (by omega)
  have hmask : (1#w <<< n - 1).toNat = 2 ^ n - 1 := by
    change (1#w <<< n - 1#w).toNat = _
    rw [BitVec.toNat_sub, toNat_one_shiftLeft hn, h1,
      show 2 ^ w - 1 + 2 ^ n = 2 ^ n - 1 + 2 ^ w by omega, Nat.add_mod_right,
      Nat.mod_eq_of_lt (by omega)]
  apply BitVec.eq_of_toNat_eq
  rw [BitVec.toNat_and, hmask, Nat.and_two_pow_sub_one_eq_mod, BitVec.toNat_setWidth,
    Nat.mod_eq_of_lt (b.isLt.trans hlt), Nat.mod_eq_of_lt b.isLt]

/-! ### Disjoint words -/

/-- Words without a common bit are added by an exclusive or. -/
theorem xor_eq_add (v s : BitVec w) (h : v &&& s = 0#w) : v ^^^ s = v + s := by
  rw [BitVec.add_eq_or_of_and_eq_zero v s h]
  ext i hi
  have hi' := congrArg (fun x : BitVec w => x[i]) h
  simp only [BitVec.getElem_and, BitVec.getElem_xor, BitVec.getElem_or,
    BitVec.getElem_zero] at hi' ⊢
  revert hi'
  cases v[i] <;> cases s[i] <;> simp

/-- A word has lost the bits it is combined with, when it had them all. -/
theorem xor_and_self_eq_zero (v s : BitVec w) (h : v &&& s = s) : (v ^^^ s) &&& s = 0#w := by
  ext i hi
  have hi' := congrArg (fun x : BitVec w => x[i]) h
  simp only [BitVec.getElem_and, BitVec.getElem_xor, BitVec.getElem_zero] at hi' ⊢
  revert hi'
  cases v[i] <;> cases s[i] <;> simp

/-! ### Signs -/

theorem getLsbD_one_shiftLeft (i : ℕ) (hk : k < w) :
    (1#w <<< k).getLsbD i = decide (i = k) := by
  rw [BitVec.getLsbD_shiftLeft, BitVec.getLsbD_one]
  rcases lt_trichotomy i k with h | rfl | h
  · simp [h, h.ne]
  · have hw : 0 < w := by omega
    simp [hk, hw]
  · have hik : i - k ≠ 0 := by omega
    simp [hik, h.ne']

/-- The bit of the sign, in the field extended with zeros. -/
theorem and_sign (b : BitVec n) (h0 : 0 < n) (hn : n < w) :
    b.setWidth w &&& 1#w <<< (n - 1) = if b.msb then 1#w <<< (n - 1) else 0#w := by
  ext i hi
  rw [BitVec.getElem_and, ← BitVec.getLsbD_eq_getElem, ← BitVec.getLsbD_eq_getElem,
    BitVec.getLsbD_setWidth, getLsbD_one_shiftLeft i (by omega)]
  by_cases h : i = n - 1
  · subst h
    rw [BitVec.msb_eq_getLsbD_last]
    cases b.getLsbD (n - 1) with
    | false => simp
    | true => simp [hi]
  · have hbit := getLsbD_one_shiftLeft (k := n - 1) i (by omega : n - 1 < w)
    rw [BitVec.getLsbD_eq_getElem hi] at hbit
    cases b.msb <;> simp [h, hbit]

/-- **The extension of a sign**: flipping the bit of the sign and subtracting it. -/
theorem xor_sub_sign (b : BitVec n) (h0 : 0 < n) (hn : n < w) :
    (b.setWidth w ^^^ 1#w <<< (n - 1)) - 1#w <<< (n - 1) = b.signExtend w := by
  have hs := and_sign b h0 hn
  cases hb : b.msb with
  | false =>
    rw [hb, if_neg Bool.false_ne_true] at hs
    rw [xor_eq_add _ _ hs, BitVec.add_sub_cancel, BitVec.signExtend_eq_setWidth_of_msb_false hb]
  | true =>
    rw [hb, if_pos rfl] at hs
    have hx := xor_eq_add _ _ (xor_and_self_eq_zero _ _ hs)
    rw [BitVec.xor_assoc, BitVec.xor_self, BitVec.xor_zero] at hx
    have hpow : 2 ^ n = 2 * 2 ^ (n - 1) := by
      rw [← Nat.pow_succ', Nat.succ_eq_add_one, Nat.sub_add_cancel h0]
    have hlt : 2 ^ n < 2 ^ w := Nat.pow_lt_pow_right (by decide) hn
    have hpos : 0 < 2 ^ (n - 1) := Nat.two_pow_pos _
    generalize hu : b.setWidth w ^^^ 1#w <<< (n - 1) = u at hx ⊢
    have hsign : (1#w <<< (n - 1)).toNat = 2 ^ (n - 1) := toNat_one_shiftLeft (by omega)
    have hxn := congrArg BitVec.toNat hx
    apply BitVec.eq_of_toNat_eq
    rw [BitVec.toNat_signExtend, hb, if_pos rfl]
    rw [BitVec.toNat_add, hsign] at hxn
    rw [BitVec.toNat_sub, hsign]
    have hge : 2 ^ (n - 1) ≤ b.toNat := BitVec.le_toNat_of_msb_true hb
    have hbw : (b.setWidth w).toNat = b.toNat := by
      rw [BitVec.toNat_setWidth]
      exact Nat.mod_eq_of_lt (b.isLt.trans hlt)
    rw [hbw] at hxn ⊢
    have hbn := b.isLt
    have hun := u.isLt
    have hmod : (u.toNat + 2 ^ (n - 1)) % 2 ^ w = u.toNat + 2 ^ (n - 1) := by
      by_contra hne
      have hle : 2 ^ w ≤ u.toNat + 2 ^ (n - 1) := by
        by_contra hlt'
        exact hne (Nat.mod_eq_of_lt (Nat.not_le.mp hlt'))
      rw [Nat.mod_eq_sub_mod hle, Nat.mod_eq_of_lt (by omega)] at hxn
      omega
    rw [hmod] at hxn
    rw [Nat.mod_eq_of_lt (by omega)]
    omega

theorem two_mul_eq_shiftLeft (x : BitVec w) : 2#w * x = x <<< 1 := by
  apply BitVec.eq_of_toNat_eq
  rw [BitVec.toNat_mul, BitVec.toNat_shiftLeft, BitVec.toNat_ofNat, Nat.shiftLeft_eq, pow_one,
    Nat.mod_mul_mod, Nat.mul_comm]

/-- Doubling a word whose sign is extended is extending the sign of the doubled field. -/
theorem two_mul_signExtend (b : BitVec n) (h0 : 0 < n) :
    2#w * b.signExtend w = (b ++ 0#1).signExtend w := by
  rw [two_mul_eq_shiftLeft]
  ext i hi
  rw [BitVec.getElem_shiftLeft, BitVec.getElem_signExtend, BitVec.getElem_signExtend]
  cases i with
  | zero =>
    rw [dif_pos (Nat.succ_pos n), BitVec.getElem_append, dif_pos Nat.one_pos]
    simp
  | succ i =>
    have hmsb : (b ++ 0#1).msb = b.msb := by
      rw [BitVec.msb_append, if_neg h0.ne']
    by_cases h : i < n
    · have h' : i + 1 < n + 1 := by omega
      simp [h, h', BitVec.getElem_append]
    · have h' : ¬i + 1 < n + 1 := by omega
      simp [h, h', hmsb]

end BitFields
