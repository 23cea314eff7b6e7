import Mathlib.Data.Nat.Bitwise
import Mathlib.Logic.Function.Basic

/-!
# Machine words and little-endian byte memories

The general part of every model of memory-mapped hardware: what masking does to
the value of a word, and how halfwords and words lie in a byte memory.

A byte memory is a function `ℕ → BitVec 8`. It has no size of its own: an access
past the end of the array a program has allocated is then visible as an access
to an index the array does not have, instead of being silently dropped.
-/

/-- A byte. -/
abbrev U8 := BitVec 8
/-- A halfword. -/
abbrev U16 := BitVec 16
/-- A word. -/
abbrev U32 := BitVec 32
/-- A double word. -/
abbrev U64 := BitVec 64

/-! ### Banks

Registers and interrupt sources come in banks, which are numbered by `Fin 3`, `Fin 4`,
`Fin 6` and `Fin 39`. That a bank is not empty is what its numerals rest on. -/

instance (priority := 1100) neZero_three : NeZero 3 := ⟨by decide⟩
instance (priority := 1100) neZero_four : NeZero 4 := ⟨by decide⟩
instance (priority := 1100) neZero_six : NeZero 6 := ⟨by decide⟩
instance (priority := 1100) neZero_thirtyNine : NeZero 39 := ⟨by decide⟩

namespace Words

/-! ### Masking -/

/-- Masking with `2 ^ k - 1` keeps the remainder modulo `2 ^ k`, whatever the
width: a `k` past the width keeps everything. -/
theorem toNat_and_low {w : ℕ} (x : BitVec w) (k : ℕ) :
    (x &&& BitVec.ofNat w (2 ^ k - 1)).toNat = x.toNat % 2 ^ k := by
  apply Nat.eq_of_testBit_eq
  intro i
  rw [BitVec.toNat_and, Nat.testBit_and, BitVec.toNat_ofNat, Nat.testBit_mod_two_pow,
    Nat.testBit_mod_two_pow, Nat.testBit_two_pow_sub_one]
  rcases Nat.lt_or_ge i w with hi | hi
  · simp [hi, Bool.and_comm]
  · simp [Nat.testBit_lt_two_pow (Nat.lt_of_lt_of_le x.isLt (Nat.pow_le_pow_right (by simp) hi))]

/-- Masking with the complement of `2 ^ k - 1` rounds down to a multiple of
`2 ^ k`. -/
theorem toNat_and_not_low {w : ℕ} (x : BitVec w) (k : ℕ) :
    (x &&& ~~~BitVec.ofNat w (2 ^ k - 1)).toNat = x.toNat / 2 ^ k * 2 ^ k := by
  apply Nat.eq_of_testBit_eq
  intro i
  rw [Nat.testBit_mul_two_pow, Nat.testBit_div_two_pow, BitVec.testBit_toNat,
    BitVec.testBit_toNat, BitVec.getLsbD_and, BitVec.getLsbD_not, BitVec.getLsbD_ofNat,
    Nat.testBit_two_pow_sub_one]
  rcases Nat.lt_or_ge i k with hk | hk
  · simp [hk, Nat.not_le.mpr hk]
  · rcases Nat.lt_or_ge i w with hi | hi
    · simp [hk, hi, Nat.not_lt.mpr hk]
    · simp [BitVec.getLsbD_of_ge x i hi, Nat.sub_add_cancel hk]

/-! ### Minima and maxima -/

/-- `UINT64_MAX`, which stands for “never” where a point in time is meant. -/
def uint64Max : U64 := 0xFFFFFFFFFFFFFFFF

/-- `std::min`. -/
def stdMin {w : ℕ} (x y : BitVec w) : BitVec w := if y < x then y else x

theorem toNat_stdMin {w : ℕ} (x y : BitVec w) : (stdMin x y).toNat = min x.toNat y.toNat := by
  unfold stdMin
  split_ifs with h
  · exact (Nat.min_eq_right (Nat.le_of_lt (BitVec.lt_def.mp h))).symm
  · exact (Nat.min_eq_left (Nat.not_lt.mp fun hlt => h (BitVec.lt_def.mpr hlt))).symm

theorem stdMin_le_left {w : ℕ} (x y : BitVec w) : stdMin x y ≤ x := by
  rw [BitVec.le_def, toNat_stdMin]
  exact Nat.min_le_left _ _

theorem stdMin_le_right {w : ℕ} (x y : BitVec w) : stdMin x y ≤ y := by
  rw [BitVec.le_def, toNat_stdMin]
  exact Nat.min_le_right _ _

theorem stdMin_eq {w : ℕ} (x y : BitVec w) : stdMin x y = x ∨ stdMin x y = y := by
  unfold stdMin
  split_ifs
  · exact .inr rfl
  · exact .inl rfl

theorem lt_stdMin_iff {w : ℕ} {x y z : BitVec w} : x < stdMin y z ↔ x < y ∧ x < z := by
  rw [BitVec.lt_def, BitVec.lt_def, BitVec.lt_def, toNat_stdMin]
  exact Nat.lt_min

/-- `std::max`. -/
def stdMax {w : ℕ} (x y : BitVec w) : BitVec w := if x < y then y else x

theorem toNat_stdMax {w : ℕ} (x y : BitVec w) : (stdMax x y).toNat = max x.toNat y.toNat := by
  unfold stdMax
  split_ifs with h
  · exact (Nat.max_eq_right (Nat.le_of_lt (BitVec.lt_def.mp h))).symm
  · exact (Nat.max_eq_left (Nat.not_lt.mp fun hlt => h (BitVec.lt_def.mpr hlt))).symm

/-- The minimum of a list of points, by a loop. -/
theorem lt_foldl_stdMin_iff {w : ℕ} {ι : Type*} {x y : BitVec w} (f : ι → BitVec w) (l : List ι) :
    x < l.foldl (fun wake i => stdMin wake (f i)) y ↔ x < y ∧ ∀ i ∈ l, x < f i := by
  induction l generalizing y with
  | nil => simp
  | cons i l ih =>
    rw [List.foldl_cons, ih, lt_stdMin_iff, List.forall_mem_cons, and_assoc]

theorem le_stdMin_iff {w : ℕ} {x y z : BitVec w} : x ≤ stdMin y z ↔ x ≤ y ∧ x ≤ z := by
  rw [BitVec.le_def, BitVec.le_def, BitVec.le_def, toNat_stdMin]
  exact Nat.le_min

theorem le_foldl_stdMin_iff {w : ℕ} {ι : Type*} {x y : BitVec w} (f : ι → BitVec w) (l : List ι) :
    x ≤ l.foldl (fun wake i => stdMin wake (f i)) y ↔ x ≤ y ∧ ∀ i ∈ l, x ≤ f i := by
  induction l generalizing y with
  | nil => simp
  | cons i l ih =>
    rw [List.foldl_cons, ih, le_stdMin_iff, List.forall_mem_cons, and_assoc]

/-! ### Byte memories -/

/-- `std::fill` on `[base, base + len)`. -/
def fill (m : ℕ → U8) (base len : ℕ) (v : U8) : ℕ → U8 :=
  fun i => if base ≤ i ∧ i < base + len then v else m i

theorem fill_of_not_mem {m : ℕ → U8} {base len i : ℕ} {v : U8}
    (h : ¬(base ≤ i ∧ i < base + len)) : fill m base len v i = m i := if_neg h

/-- The halfword at `i`, low byte first. -/
def le16 (m : ℕ → U8) (i : ℕ) : U16 := (m i).setWidth 16 ||| ((m (i + 1)).setWidth 16 <<< 8)

/-- The word at `i`, low byte first. -/
def le32 (m : ℕ → U8) (i : ℕ) : U32 :=
  (m i).setWidth 32 ||| ((m (i + 1)).setWidth 32 <<< 8) |||
    ((m (i + 2)).setWidth 32 <<< 16) ||| ((m (i + 3)).setWidth 32 <<< 24)

/-- Store a halfword at `i`, low byte first. -/
def putLe16 (m : ℕ → U8) (i : ℕ) (v : U16) : ℕ → U8 :=
  Function.update (Function.update m i (v.setWidth 8)) (i + 1) ((v >>> 8).setWidth 8)

/-- Store a word at `i`, low byte first. -/
def putLe32 (m : ℕ → U8) (i : ℕ) (v : U32) : ℕ → U8 :=
  Function.update (Function.update (Function.update (Function.update m
    i (v.setWidth 8)) (i + 1) ((v >>> 8).setWidth 8)) (i + 2) ((v >>> 16).setWidth 8))
    (i + 3) ((v >>> 24).setWidth 8)

theorem putLe16_of_ne {m : ℕ → U8} {i j : ℕ} {v : U16} (h : j < i ∨ i + 2 ≤ j) :
    putLe16 m i v j = m j := by
  rw [putLe16, Function.update_of_ne (by omega), Function.update_of_ne (by omega)]

theorem putLe32_of_ne {m : ℕ → U8} {i j : ℕ} {v : U32} (h : j < i ∨ i + 4 ≤ j) :
    putLe32 m i v j = m j := by
  rw [putLe32, Function.update_of_ne (by omega), Function.update_of_ne (by omega),
    Function.update_of_ne (by omega), Function.update_of_ne (by omega)]

/-- Two bytes that are those of a halfword read as it. -/
theorem le16_of_bytes {m : ℕ → U8} {i : ℕ} {v : U16} (h0 : m i = v.setWidth 8)
    (h1 : m (i + 1) = (v >>> 8).setWidth 8) : le16 m i = v := by
  rw [le16, h0, h1]
  apply BitVec.eq_of_getLsbD_eq
  intro j hj
  simp only [BitVec.getLsbD_or, BitVec.getLsbD_setWidth, BitVec.getLsbD_shiftLeft,
    BitVec.getLsbD_ushiftRight, hj, decide_true, Bool.true_and]
  rcases Nat.lt_or_ge j 8 with h | h
  · simp [h]
  · simp [Nat.not_lt.mpr h, Nat.add_sub_cancel' h, show j - 8 < 8 by omega,
      show j - 8 < 16 by omega]

/-- Four bytes that are those of a word read as it. -/
theorem le32_of_bytes {m : ℕ → U8} {i : ℕ} {v : U32} (h0 : m i = v.setWidth 8)
    (h1 : m (i + 1) = (v >>> 8).setWidth 8) (h2 : m (i + 2) = (v >>> 16).setWidth 8)
    (h3 : m (i + 3) = (v >>> 24).setWidth 8) : le32 m i = v := by
  rw [le32, h0, h1, h2, h3]
  apply BitVec.eq_of_getLsbD_eq
  intro j hj
  simp only [BitVec.getLsbD_or, BitVec.getLsbD_setWidth, BitVec.getLsbD_shiftLeft,
    BitVec.getLsbD_ushiftRight, hj, decide_true, Bool.true_and]
  -- exactly one of the four bytes holds bit `j`
  rcases Nat.lt_or_ge j 8 with h8 | h8
  · simp [h8, show j < 16 by omega, show j < 24 by omega]
  rcases Nat.lt_or_ge j 16 with h16 | h16
  · simp [Nat.not_lt.mpr h8, h16, show j < 24 by omega, Nat.add_sub_cancel' h8,
      show j - 8 < 8 by omega, show j - 8 < 32 by omega]
  rcases Nat.lt_or_ge j 24 with h24 | h24
  · simp [Nat.not_lt.mpr h8, Nat.not_lt.mpr h16, h24, Nat.add_sub_cancel' h16,
      show ¬j - 8 < 8 by omega, show j - 16 < 8 by omega, show j - 16 < 32 by omega]
  · simp [Nat.not_lt.mpr h8, Nat.not_lt.mpr h16, Nat.not_lt.mpr h24, Nat.add_sub_cancel' h24,
      show ¬j - 8 < 8 by omega, show ¬j - 16 < 8 by omega, show j - 24 < 8 by omega,
      show j - 24 < 32 by omega]

/-- **What is stored is what is read back**, one word. -/
theorem le32_putLe32 (m : ℕ → U8) (i : ℕ) (v : U32) : le32 (putLe32 m i v) i = v :=
  le32_of_bytes (by simp [putLe32]) (by simp [putLe32]) (by simp [putLe32]) (by simp [putLe32])

/-- The bytes of a halfword, low byte first. -/
def bytes16 (v : U16) : List U8 := [v.setWidth 8, (v >>> 8).setWidth 8]

/-- The bytes of a word, low byte first. -/
def bytes32 (v : U32) : List U8 :=
  [v.setWidth 8, (v >>> 8).setWidth 8, (v >>> 16).setWidth 8, (v >>> 24).setWidth 8]

/-- The halfword at an index of a list of bytes. -/
def listLe16 (data : List U8) (i : ℕ) : U16 := le16 (fun j => data.getD j 0) i

/-- The word at an index of a list of bytes. -/
def listLe32 (data : List U8) (i : ℕ) : U32 := le32 (fun j => data.getD j 0) i

section Fields

variable (v : U16) (w : U32) (rest : List U8) (i : ℕ)

theorem listLe16_bytes16 : listLe16 (bytes16 v ++ rest) 0 = v := le16_of_bytes rfl rfl

theorem listLe32_bytes32 : listLe32 (bytes32 w ++ rest) 0 = w := le32_of_bytes rfl rfl rfl rfl

theorem listLe16_skip16 : listLe16 (bytes16 v ++ rest) (i + 2) = listLe16 rest i := rfl

theorem listLe16_skip32 : listLe16 (bytes32 w ++ rest) (i + 4) = listLe16 rest i := rfl

theorem listLe32_skip16 : listLe32 (bytes16 v ++ rest) (i + 2) = listLe32 rest i := rfl

theorem listLe32_skip32 : listLe32 (bytes32 w ++ rest) (i + 4) = listLe32 rest i := rfl

end Fields

/-- A stored halfword, byte by byte. -/
theorem putLe16_apply (m : ℕ → U8) (i j : ℕ) (v : U16) :
    putLe16 m i v j =
      if j = i + 1 then (v >>> 8).setWidth 8 else if j = i then v.setWidth 8 else m j := by
  simp only [putLe16, Function.update_apply]

/-- A stored word, byte by byte. -/
theorem putLe32_apply (m : ℕ → U8) (i j : ℕ) (v : U32) :
    putLe32 m i v j =
      if j = i + 3 then (v >>> 24).setWidth 8 else if j = i + 2 then (v >>> 16).setWidth 8
      else if j = i + 1 then (v >>> 8).setWidth 8 else if j = i then v.setWidth 8 else m j := by
  simp only [putLe32, Function.update_apply]

/-- A way to store `n` bytes: what it stores does not depend on the memory or the place,
and it keeps the other bytes. -/
structure Stores (n : ℕ) (put : (ℕ → U8) → ℕ → ℕ → U8) : Prop where
  stored : ∀ m m' i i', ∀ k < n, put m i (i + k) = put m' i' (i' + k)
  kept : ∀ m i j, j < i ∨ i + n ≤ j → put m i j = m j

/-- What a store makes of a byte depends on that byte only. -/
theorem Stores.congr {n : ℕ} {put : (ℕ → U8) → ℕ → ℕ → U8} (h : Stores n put) {m m' : ℕ → U8}
    {i j : ℕ} (hj : m j = m' j) : put m i j = put m' i j := by
  by_cases hin : i ≤ j ∧ j < i + n
  · obtain ⟨k, rfl⟩ := Nat.exists_eq_add_of_le hin.1
    exact h.stored _ _ _ _ k (by omega)
  · rw [h.kept _ _ _ (by omega), h.kept _ _ _ (by omega), hj]

/-- A store into a part of a memory. -/
theorem Stores.shift {n : ℕ} {put : (ℕ → U8) → ℕ → ℕ → U8} (h : Stores n put) (m : ℕ → U8)
    (c i j : ℕ) : put m (c + i) (c + j) = put (fun k => m (c + k)) i j := by
  by_cases hin : i ≤ j ∧ j < i + n
  · obtain ⟨k, rfl⟩ := Nat.exists_eq_add_of_le hin.1
    rw [← Nat.add_assoc]
    exact h.stored _ _ _ _ k (by omega)
  · rw [h.kept _ _ _ (by omega), h.kept _ _ _ (by omega)]

theorem stores_update (v : U8) : Stores 1 fun m i => Function.update m i v where
  stored := by
    intro m m' i i' k hk
    rw [Nat.lt_one_iff.mp hk, Nat.add_zero, Nat.add_zero, Function.update_self,
      Function.update_self]
  kept m i j h := Function.update_of_ne (by omega) ..

theorem stores_putLe16 (v : U16) : Stores 2 fun m i => putLe16 m i v where
  stored := by
    intro m m' i i' k hk
    rw [putLe16_apply, putLe16_apply]
    split_ifs <;> first | rfl | omega
  kept _ _ _ h := putLe16_of_ne h

theorem stores_putLe32 (v : U32) : Stores 4 fun m i => putLe32 m i v where
  stored := by
    intro m m' i i' k hk
    rw [putLe32_apply, putLe32_apply]
    split_ifs <;> first | rfl | omega
  kept _ _ _ h := putLe32_of_ne h

/-- A halfword is its two bytes, wherever they lie. -/
theorem le16_eq {m m' : ℕ → U8} {i j : ℕ} (h : ∀ k < 2, m (i + k) = m' (j + k)) :
    le16 m i = le16 m' j := by
  rw [le16, le16, h 1 (by decide), show m i = m' j from h 0 (by decide)]

/-- A word is its four bytes, wherever they lie. -/
theorem le32_eq {m m' : ℕ → U8} {i j : ℕ} (h : ∀ k < 4, m (i + k) = m' (j + k)) :
    le32 m i = le32 m' j := by
  rw [le32, le32, h 1 (by decide), h 2 (by decide), h 3 (by decide),
    show m i = m' j from h 0 (by decide)]

/-- A word is its two halfwords. -/
theorem le32_eq_le16 (m : ℕ → U8) (i : ℕ) :
    le32 m i = (le16 m i).setWidth 32 ||| (le16 m (i + 2)).setWidth 32 <<< 16 := by
  rw [le32, le16, le16]
  apply BitVec.eq_of_getLsbD_eq
  intro j hj
  simp only [BitVec.getLsbD_or, BitVec.getLsbD_setWidth, BitVec.getLsbD_shiftLeft, hj,
    decide_true, Bool.true_and]
  -- a byte has no bits from 8 on
  have hbyte (k : ℕ) {l : ℕ} (hl : 8 ≤ l) : (m k).getLsbD l = false := BitVec.getLsbD_of_ge _ _ hl
  rcases Nat.lt_or_ge j 16 with h16 | h16
  · simp [h16, show j < 24 by omega, show j - 8 < 32 by omega, show j - 8 < 16 by omega]
  · simp [Nat.not_lt.mpr h16, show ¬j < 8 by omega, hbyte i (show 8 ≤ j by omega),
      hbyte (i + 1) (show 8 ≤ j - 8 by omega), show j - 16 < 32 by omega,
      show j - 16 < 16 by omega, show j - 16 - 8 = j - 24 by omega,
      show j - 24 < 32 by omega, show j - 24 < 16 by omega, show j - 16 < 8 ↔ j < 24 by omega,
      Nat.add_assoc]

/-- A halfword of an open bus. -/
theorem le16_openBus {m : ℕ → U8} {i : ℕ} (h : ∀ k < 2, m (i + k) = 0xFF) : le16 m i = 0xFFFF := by
  rw [le16, h 1 (by decide), show m i = 0xFF from h 0 (by decide)]
  rfl

/-- A word of an open bus. -/
theorem le32_openBus {m : ℕ → U8} {i : ℕ} (h : ∀ k < 4, m (i + k) = 0xFF) :
    le32 m i = 0xFFFFFFFF := by
  rw [le32, h 1 (by decide), h 2 (by decide), h 3 (by decide),
    show m i = 0xFF from h 0 (by decide)]
  rfl

/-- Reading a word depends only on its four bytes. -/
theorem le32_congr {m m' : ℕ → U8} {i : ℕ} (h : ∀ j, i ≤ j → j < i + 4 → m j = m' j) :
    le32 m i = le32 m' i := by
  rw [le32, le32, h i (by omega) (by omega), h (i + 1) (by omega) (by omega),
    h (i + 2) (by omega) (by omega), h (i + 3) (by omega) (by omega)]

/-! ### The bytes of a halfword -/

/-- The halfword of two bytes, the low one first. -/
def pair (lo hi : U8) : U16 := lo.setWidth 16 ||| hi.setWidth 16 <<< 8

/-- One of the two bytes of a halfword. -/
def lane (odd : Bool) (v : U16) : U8 := if odd then (v >>> 8).setWidth 8 else v.setWidth 8

/-- A halfword with one of its bytes replaced. -/
def withLane (odd : Bool) (b : U8) (v : U16) : U16 :=
  if odd then pair (lane false v) b else pair b (lane true v)

@[simp] theorem lane_false_pair (lo hi : U8) : lane false (pair lo hi) = lo := by
  ext i hi'
  simp [lane, pair]

@[simp] theorem lane_true_pair (lo hi : U8) : lane true (pair lo hi) = hi := by
  ext i hi'
  simp [lane, pair, show 8 + i < 16 by omega, show i < 16 by omega, show ¬8 + i < 8 by omega,
    BitVec.getLsbD_eq_getElem hi']

theorem lane_pair (odd : Bool) (lo hi : U8) :
    lane odd (pair lo hi) = if odd then hi else lo := by
  cases odd with
  | false => exact lane_false_pair lo hi
  | true => exact lane_true_pair lo hi

/-- A halfword is its two bytes. -/
theorem eq_of_lanes {v w : U16} (hlo : lane false v = lane false w)
    (hhi : lane true v = lane true w) : v = w := by
  have hw : le16 (fun i => lane (i = 1) w) 0 = w := le16_of_bytes rfl rfl
  rw [← hw]
  exact (le16_of_bytes hlo.symm hhi.symm).symm

/-- A byte that is extended with zeros. -/
theorem setWidth_eq_pair (b : U8) : b.setWidth 16 = pair b 0 := by
  apply BitVec.eq_of_getLsbD_eq
  intro i hi
  simp [pair]

@[simp] theorem lane_withLane (odd : Bool) (b : U8) (v : U16) :
    lane odd (withLane odd b v) = b := by
  cases odd with
  | false => exact lane_false_pair _ _
  | true => exact lane_true_pair _ _

@[simp] theorem lane_not_withLane (odd : Bool) (b : U8) (v : U16) :
    lane (!odd) (withLane odd b v) = lane (!odd) v := by
  cases odd with
  | false => exact lane_true_pair _ _
  | true => exact lane_false_pair _ _

/-- A halfword that has a byte, and next to it that of another, is the other with the byte
in place. -/
theorem eq_withLane_iff {odd : Bool} {b : U8} {v w : U16} :
    w = withLane odd b v ↔ lane odd w = b ∧ lane (!odd) w = lane (!odd) v := by
  constructor
  · rintro rfl
    exact ⟨lane_withLane odd b v, lane_not_withLane odd b v⟩
  · rintro ⟨hself, hother⟩
    have h := lane_withLane odd b v
    have h' := lane_not_withLane odd b v
    cases odd with
    | false => exact eq_of_lanes (hself.trans h.symm) (hother.trans h'.symm)
    | true => exact eq_of_lanes (hother.trans h'.symm) (hself.trans h.symm)

end Words
