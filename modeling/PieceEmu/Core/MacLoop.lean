import Mathlib.Data.BitVec
import PieceEmu.Core.Class5

/-!
# The loop of `mac`

The slow loop of `mac` does two things at once: it walks two arrays over the bus
(`Bus.macWalk`) and it accumulates the products (`macAccumulate`). Taken apart, the
walk concerns the bus alone and the accumulation a list of numbers alone, and the
registers advance by themselves (`Machine.macLoop_eq`). The loop over the SRAM
bytes accumulates in the same way (`Machine.macSramLoop_eq`), and the analytic sum
is an accumulation of ones (`foldl_macAccumulate_replicate_one`).
-/

/-! ### Accumulating -/

open Machine in
/-- One product added to the accumulator, under the sticky flag. -/
def macAccumulate (s : Psr × U64) (x : U64) : Psr × U64 := (macFlag s.1 s.2 x, s.2 + x)

theorem snd_foldl_macAccumulate (xs : List U64) (s : Psr × U64) :
    (xs.foldl macAccumulate s).2 = s.2 + xs.sum := by
  induction xs generalizing s with
  | nil => exact (BitVec.add_zero _).symm
  | cons x xs ih => rw [List.foldl_cons, ih, List.sum_cons, macAccumulate, BitVec.add_assoc]

namespace Machine

/-- The overflow check, for an addend that is not negative. -/
theorem macOverflow_iff {u x : U64} (hx : x.toNat < 2 ^ 32) :
    macOverflow u x = true ↔ u.toNat < 2 ^ 63 ∧ 2 ^ 63 ≤ u.toNat + x.toNat := by
  have hxm : x.msb = false := by
    rw [BitVec.msb_eq_false_iff_two_mul_lt]
    omega
  rw [macOverflow, BitVec.msb_and, BitVec.msb_not, BitVec.msb_xor, BitVec.msb_xor, hxm]
  simp only [Bool.and_eq_true, Nat.reduceLT, decide_true, Bool.true_and, Bool.xor_false]
  rcases Nat.lt_or_ge u.toNat (2 ^ 63) with hlt | hge
  · have hum : u.msb = false := by
      rw [BitVec.msb_eq_false_iff_two_mul_lt]
      omega
    have hsum : (u + x).toNat = u.toNat + x.toNat := BitVec.toNat_add_of_lt (by omega)
    rw [hum, Bool.not_false, Bool.false_xor, BitVec.msb_eq_true_iff_two_mul_ge, hsum,
      eq_self, true_and]
    omega
  · have hum : u.msb = true := by
      rw [BitVec.msb_eq_true_iff_two_mul_ge]
      omega
    rw [hum]
    simp only [Bool.not_true, Bool.false_eq_true, false_and, false_iff]
    omega

@[simp] theorem setMo_mo (p : Psr) : (p.setMo true).mo = true := by
  simp [Psr.setMo, Psr.setFlag, Psr.mo, Psr.flag]

theorem macFlag_zero (p : Psr) (u : U64) : macFlag p u 0 = p := by
  have h : macOverflow u 0 = false := by
    rw [Bool.eq_false_iff, Ne, macOverflow_iff (by decide)]
    change ¬(_ ∧ _ ≤ u.toNat + 0)
    omega
  rw [macFlag, h, Bool.and_false, if_neg Bool.false_ne_true]

/-- Overflow in the first of `k + 1` turns or in the rest is overflow of the whole. -/
theorem macOverflow_succ {k : ℕ} (hk : k + 1 < 2 ^ 32) (u : U64) :
    macOverflow u (BitVec.ofNat 64 (k + 1)) =
      (macOverflow u 1 || macOverflow (u + 1) (BitVec.ofNat 64 k)) := by
  have htoNat {j : ℕ} (hj : j < 2 ^ 32) : (BitVec.ofNat 64 j).toNat = j := by
    rw [BitVec.toNat_ofNat, Nat.mod_eq_of_lt (by omega)]
  have hk' := htoNat (Nat.lt_of_succ_lt hk)
  have hk1 := htoNat hk
  rw [Bool.eq_iff_iff, Bool.or_eq_true, macOverflow_iff (by omega), macOverflow_iff (by decide),
    macOverflow_iff (by omega), hk', hk1]
  have hu := u.isLt
  change _ ↔ (_ ∧ _ ≤ u.toNat + 1) ∨ _
  rcases Nat.lt_or_ge (u.toNat + 1) (2 ^ 64) with hlt | hge
  · have hu1 : (u + 1).toNat = u.toNat + 1 := BitVec.toNat_add_of_lt hlt
    omega
  · have hu1 : (u + 1).toNat = (u.toNat + 1) % 2 ^ 64 := BitVec.toNat_add u 1
    have h0 : (u + 1).toNat = 0 := by omega
    omega

/-- One turn and then the rest set the flag as the whole does. -/
theorem macFlag_succ {k : ℕ} (hk : k + 1 < 2 ^ 32) (p : Psr) (u : U64) :
    macFlag (macFlag p u 1) (u + 1) (BitVec.ofNat 64 k) =
      macFlag p u (BitVec.ofNat 64 (k + 1)) := by
  unfold macFlag
  rw [macOverflow_succ hk]
  cases macOverflow u 1 <;> cases macOverflow (u + 1) (BitVec.ofNat 64 k) <;> cases hm : p.mo <;>
    simp [hm]

/-- **The analytic sum**: accumulating `k` ones sets the accumulator and the flag as
adding `k` once does. -/
theorem foldl_macAccumulate_replicate_one {k : ℕ} (hk : k < 2 ^ 32) (p : Psr) (u : U64) :
    (List.replicate k 1).foldl macAccumulate (p, u) =
      (macFlag p u (BitVec.ofNat 64 k), u + BitVec.ofNat 64 k) := by
  induction k generalizing p u with
  | zero => exact Prod.ext (macFlag_zero p u).symm (BitVec.add_zero u).symm
  | succ k ih =>
    rw [List.replicate_succ, List.foldl_cons, macAccumulate, ih (by omega), macFlag_succ hk,
      BitVec.add_assoc]
    congr 2
    rw [Nat.add_comm k 1, BitVec.ofNat_add]
    rfl

end Machine

/-! ### Walking -/

namespace Bus

variable {D : Type}

/-- The reads of `k` turns of the slow loop from two addresses on: the products, and
the bus the walk leaves. -/
def macWalk (io : IoSpace D) : ℕ → U32 → U32 → Bus D → List U64 × Bus D
  | 0, _, _, b => ([], b)
  | k + 1, p1, p2, b =>
    let (h1, b) := b.read16 io p1
    let (h2, b) := b.read16 io p2
    let (xs, b) := macWalk io k (p1 + 2) (p2 + 2) b
    (Machine.macProduct h1 h2 :: xs, b)

end Bus

namespace Machine

variable {D : Type} (io : IoSpace D) (rsN : BitVec 4)

/-- The registers of `mac` after `k` turns: the pointers have advanced, the count has
gone down. -/
def macAdvance (r : BitVec 4 → U32) (k : ℕ) : BitVec 4 → U32 :=
  Function.update (Function.update
    (Function.update r (rsN + 1) (r (rsN + 1) + BitVec.ofNat 32 (2 * k)))
    (rsN + 2) (r (rsN + 2) + BitVec.ofNat 32 (2 * k))) rsN (r rsN - BitVec.ofNat 32 k)

theorem rsN_ne_add_one : rsN ≠ rsN + 1 := by bv_omega
theorem rsN_ne_add_two : rsN ≠ rsN + 2 := by bv_omega
theorem add_one_ne_add_two : rsN + 1 ≠ rsN + 2 := by bv_omega

variable {rsN}

@[simp] theorem macAdvance_rsN (r : BitVec 4 → U32) (k : ℕ) :
    macAdvance rsN r k rsN = r rsN - BitVec.ofNat 32 k :=
  Function.update_self ..

@[simp] theorem macAdvance_add_one (r : BitVec 4 → U32) (k : ℕ) :
    macAdvance rsN r k (rsN + 1) = r (rsN + 1) + BitVec.ofNat 32 (2 * k) := by
  rw [macAdvance, Function.update_of_ne (rsN_ne_add_one rsN).symm,
    Function.update_of_ne (add_one_ne_add_two rsN), Function.update_self]

@[simp] theorem macAdvance_add_two (r : BitVec 4 → U32) (k : ℕ) :
    macAdvance rsN r k (rsN + 2) = r (rsN + 2) + BitVec.ofNat 32 (2 * k) := by
  rw [macAdvance, Function.update_of_ne (rsN_ne_add_two rsN).symm, Function.update_self]

theorem macAdvance_of_ne (r : BitVec 4 → U32) (k : ℕ) {n : BitVec 4} (h0 : n ≠ rsN)
    (h1 : n ≠ rsN + 1) (h2 : n ≠ rsN + 2) : macAdvance rsN r k n = r n := by
  rw [macAdvance, Function.update_of_ne h0, Function.update_of_ne h2, Function.update_of_ne h1]

/-- A register file is known by the three registers of `mac` and by the others. -/
theorem macRegs_ext (rsN : BitVec 4) {r r' : BitVec 4 → U32} (h0 : r rsN = r' rsN)
    (h1 : r (rsN + 1) = r' (rsN + 1)) (h2 : r (rsN + 2) = r' (rsN + 2))
    (h : ∀ n, n ≠ rsN → n ≠ rsN + 1 → n ≠ rsN + 2 → r n = r' n) : r = r' := by
  funext n
  by_cases hn0 : n = rsN
  · exact hn0 ▸ h0
  by_cases hn1 : n = rsN + 1
  · exact hn1 ▸ h1
  by_cases hn2 : n = rsN + 2
  · exact hn2 ▸ h2
  exact h n hn0 hn1 hn2

theorem macAdvance_zero (r : BitVec 4 → U32) : macAdvance rsN r 0 = r := by
  refine macRegs_ext rsN ?_ ?_ ?_ fun n h0 h1 h2 => macAdvance_of_ne r 0 h0 h1 h2
  · rw [macAdvance_rsN, BitVec.sub_zero]
  · rw [macAdvance_add_one, Nat.mul_zero, BitVec.add_zero]
  · rw [macAdvance_add_two, Nat.mul_zero, BitVec.add_zero]

theorem macAdvance_succ (r : BitVec 4 → U32) (k : ℕ) :
    macAdvance rsN (macAdvance rsN r 1) k = macAdvance rsN r (k + 1) := by
  refine macRegs_ext rsN ?_ ?_ ?_ fun n h0 h1 h2 => ?_
  · simp only [macAdvance_rsN]
    rw [BitVec.sub_sub, ← BitVec.ofNat_add, Nat.add_comm]
  · simp only [macAdvance_add_one]
    rw [BitVec.add_assoc, ← BitVec.ofNat_add, ← Nat.mul_add, Nat.add_comm]
  · simp only [macAdvance_add_two]
    rw [BitVec.add_assoc, ← BitVec.ofNat_add, ← Nat.mul_add, Nat.add_comm]
  · simp only [macAdvance_of_ne _ _ h0 h1 h2]

/-- The three assignments that end a turn advance the registers. -/
theorem macAdvance_one (r : BitVec 4 → U32) :
    let r₁ := Function.update r (rsN + 1) (r (rsN + 1) + 2)
    let r₂ := Function.update r₁ (rsN + 2) (r₁ (rsN + 2) + 2)
    Function.update r₂ rsN (r₂ rsN - 1) = macAdvance rsN r 1 := by
  simp only [Function.update_of_ne (add_one_ne_add_two rsN).symm,
    Function.update_of_ne (rsN_ne_add_one rsN), Function.update_of_ne (rsN_ne_add_two rsN)]
  rfl

/-- **The slow loop, taken apart**: the walk over the bus, the accumulation of its
products, and the advance of the registers. -/
theorem macLoop_eq (k : ℕ) (uacc : U64) (m : Machine D) :
    macLoop io rsN k uacc m =
      let w := Bus.macWalk io k (m.cpu.r (rsN + 1)) (m.cpu.r (rsN + 2)) m.bus
      let s := w.1.foldl macAccumulate (m.cpu.psr, uacc)
      (s.2, { m with
        bus := w.2
        cpu := { m.cpu with psr := s.1, r := macAdvance rsN m.cpu.r k } }) := by
  induction k generalizing uacc m with
  | zero =>
    rw [macAdvance_zero]
    rfl
  | succ k ih =>
    have hr : (m.macStep io rsN uacc).2.cpu.r = macAdvance rsN m.cpu.r 1 := macAdvance_one m.cpu.r
    change macLoop io rsN k (m.macStep io rsN uacc).1 (m.macStep io rsN uacc).2 = _
    rw [ih, hr, macAdvance_succ, macAdvance_add_one, macAdvance_add_two]
    rfl

/-- **The loop over the SRAM bytes accumulates the products of its halfwords.** -/
theorem macSramLoop_eq (sram : ℕ → U8) (k : ℕ) (off1 off2 : U32) (uacc : U64) (p : Psr) :
    macSramLoop sram k off1 off2 uacc p =
      (((List.range k).map fun j =>
        macProduct (Words.le16 sram (off1 + BitVec.ofNat 32 (2 * j)).toNat)
          (Words.le16 sram (off2 + BitVec.ofNat 32 (2 * j)).toNat)).foldl macAccumulate
            (p, uacc)).swap := by
  induction k generalizing off1 off2 uacc p with
  | zero => rfl
  | succ k ih =>
    have hoff (off : U32) (j : ℕ) :
        off + BitVec.ofNat 32 (2 * (j + 1)) = off + 2 + BitVec.ofNat 32 (2 * j) := by
      rw [BitVec.add_assoc, Nat.mul_add, Nat.add_comm, BitVec.ofNat_add]
      rfl
    rw [macSramLoop, ih, List.range_succ_eq_map, List.map_cons, List.foldl_cons, List.map_map]
    simp only [Function.comp_def, Nat.succ_eq_add_one, hoff, macAccumulate, Nat.mul_zero,
      BitVec.add_zero]

end Machine
