import PieceEmu.Core.ArithState
import PieceEmu.Core.ExtTarget
import PieceEmu.Lib.LongDivision

/-!
# Step division

The division of `{AHR, ALR}` by a register, one quotient digit at a time. The four sign
cases of `div1` are one long division: the divisor counts by its magnitude, and a negative
dividend by its complement, so that a partial remainder is kept complemented too. `Dividing`
is the invariant of the loop in these terms, and one `div1` brings down one digit
(`Machine.hDiv1_dividing`), whatever the signs.

| | divided | after the loop `AHR` is |
|---|---|---|
| dividend not negative | `a` | the remainder of `a` |
| dividend negative | `|a| - 1`, the complement of `a` | the complement of its remainder |

In the second case the quotient is one short when the remainder of `|a| - 1` is the
greatest possible. That is the case `div2s` repairs; `div3s` gives the quotient its sign.
-/

open LongDivision

/-! ### Signs -/

/-- A word, complemented under a sign, as a number. -/
def complementIf (neg : Bool) (v : U32) : ℕ := if neg then 2 ^ 32 - 1 - v.toNat else v.toNat

/-- The magnitude of a divisor of the given sign. -/
def magnitude (neg : Bool) (v : U32) : ℕ := if neg then 2 ^ 32 - v.toNat else v.toNat

theorem complementIf_lt (neg : Bool) (v : U32) : complementIf neg v < 2 ^ 32 := by
  unfold complementIf
  have := v.isLt
  split_ifs <;> omega

theorem magnitude_pos (neg : Bool) {v : U32} (hv : v ≠ 0) : 0 < magnitude neg v := by
  unfold magnitude
  have hlt := v.isLt
  have h0 : v.toNat ≠ 0 := fun h => hv (BitVec.eq_of_toNat_eq h)
  split_ifs <;> omega

/-- The difference `div1` tries, with the digit it would give. -/
def tryDivisor (ds n : Bool) (ahr divisor : U32) : U32 × Bool :=
  match ds, n with
  | false, false => (ahr - divisor, ahr - divisor ≤ ahr)
  | false, true => (ahr + divisor, ahr + divisor < ahr)
  | true, false => (ahr + divisor, ahr ≤ ahr + divisor)
  | true, true => (ahr - divisor, ahr < ahr - divisor)

/-- **The four sign cases are one comparison**: the digit is set when the magnitude of the
divisor fits, and the difference is the one with that magnitude. -/
theorem tryDivisor_spec (ds n : Bool) (ahr : U32) {divisor : U32} (hd : divisor ≠ 0) :
    ((tryDivisor ds n ahr divisor).2 = true ↔ magnitude n divisor ≤ complementIf ds ahr) ∧
      (magnitude n divisor ≤ complementIf ds ahr →
        complementIf ds (tryDivisor ds n ahr divisor).1 =
          complementIf ds ahr - magnitude n divisor) := by
  have ha := ahr.isLt
  have hlt := divisor.isLt
  have h0 : divisor.toNat ≠ 0 := fun h => hd (BitVec.eq_of_toNat_eq h)
  have hsub : (ahr - divisor).toNat = (2 ^ 32 - divisor.toNat + ahr.toNat) % 2 ^ 32 :=
    BitVec.toNat_sub ..
  have hadd : (ahr + divisor).toNat = (ahr.toNat + divisor.toNat) % 2 ^ 32 := BitVec.toNat_add ..
  cases ds <;> cases n <;>
    simp only [tryDivisor, complementIf, magnitude, decide_eq_true_eq, BitVec.le_def,
      BitVec.lt_def, hsub, hadd, if_true, if_false, Bool.false_eq_true] <;> omega

/-! ### The words of a step -/

/-- The remainder takes in the digit that leaves `ALR`. -/
theorem complementIf_shifted {ds : Bool} {ahr alr : U32} (hlt : complementIf ds ahr < 2 ^ 31) :
    complementIf ds (ahr <<< 1 ||| alr >>> 31) =
      2 * complementIf ds ahr +
        (if ds then 1 - alr.toNat / 2 ^ 31 else alr.toNat / 2 ^ 31) := by
  have hb : alr.toNat / 2 ^ 31 < 2 := by
    have := alr.isLt
    omega
  have hshift : ahr.toNat * 2 % 2 ^ 32 = 2 ^ 1 * (ahr.toNat % 2 ^ 31) := by omega
  have hor : (ahr <<< 1 ||| alr >>> 31).toNat =
      2 * (ahr.toNat % 2 ^ 31) + alr.toNat / 2 ^ 31 := by
    rw [BitVec.toNat_or, BitVec.toNat_shiftLeft, BitVec.toNat_ushiftRight,
      Nat.shiftRight_eq_div_pow, Nat.shiftLeft_eq, pow_one, hshift,
      ← Nat.two_pow_add_eq_or_of_lt hb, pow_one]
  have ha := ahr.isLt
  unfold complementIf at hlt ⊢
  rw [hor]
  split_ifs at hlt ⊢ <;> omega

/-- The word after `k` steps: the digits of the dividend still to come, above those of the
quotient. -/
def dividendWord (a q k : ℕ) : ℕ := a % 2 ^ (32 - k) * 2 ^ k + q

/-- The digit at the top of that word, and the word without it. -/
theorem dividendWord_top {a q k : ℕ} (hk : k < 32) (hq : q < 2 ^ k) :
    dividendWord a q k / 2 ^ 31 = digit 32 a k ∧
      2 * dividendWord a q k % 2 ^ 32 = dividendWord a (2 * q) (k + 1) := by
  have hpow : 2 ^ (31 - k) * 2 ^ k = 2 ^ 31 := by
    rw [← pow_add, Nat.sub_add_cancel (by omega : k ≤ 31)]
  have hexp : 32 - k = 31 - k + 1 := by omega
  have hdigit : digit 32 a k = a / 2 ^ (31 - k) % 2 := rfl
  have hlow : a % 2 ^ (31 - k) < 2 ^ (31 - k) := Nat.mod_lt _ (Nat.two_pow_pos _)
  have hsplit : a % 2 ^ (32 - k) = a % 2 ^ (31 - k) + 2 ^ (31 - k) * digit 32 a k := by
    rw [hexp, pow_succ, Nat.mod_mul, hdigit]
  have hrest : a % 2 ^ (31 - k) * 2 ^ k + q < 2 ^ 31 := by
    have h : (a % 2 ^ (31 - k) + 1) * 2 ^ k ≤ 2 ^ (31 - k) * 2 ^ k :=
      Nat.mul_le_mul_right _ hlow
    rw [Nat.add_mul, one_mul, hpow] at h
    omega
  have hword : dividendWord a q k = 2 ^ 31 * digit 32 a k + (a % 2 ^ (31 - k) * 2 ^ k + q) := by
    rw [dividendWord, hsplit, Nat.add_mul, Nat.mul_right_comm, hpow]
    omega
  have hnext : dividendWord a (2 * q) (k + 1) = 2 * (a % 2 ^ (31 - k) * 2 ^ k + q) := by
    have hexp' : 32 - (k + 1) = 31 - k := by omega
    rw [dividendWord, hexp', pow_succ]
    ring
  rw [hword, hnext]
  omega

/-- The digit is set in the bit the shift has cleared. -/
theorem toNat_shiftLeft_or_one (v : U32) : (v <<< 1 ||| 1).toNat = (v <<< 1).toNat + 1 := by
  have hshift : (v <<< 1).toNat = 2 ^ 1 * (v.toNat % 2 ^ 31) := by
    rw [BitVec.toNat_shiftLeft, Nat.shiftLeft_eq]
    omega
  rw [BitVec.toNat_or, hshift]
  exact (Nat.two_pow_add_eq_or_of_lt (by decide : 1 < 2 ^ 1) _).symm

/-! ### The loop -/

/-- **A division in progress**, after `k` steps from the state `s₀` with its sign flags set:
`AHR` holds the partial remainder and `ALR` the digits to come and the quotient so far. -/
structure Dividing (s₀ : ArithState) (rs : BitVec 4) (k : ℕ) (s : ArithState) : Prop where
  r : s.r = s₀.r
  n : s.n = s₀.n
  ds : s.ds = s₀.ds
  ahr : complementIf s₀.ds s.ahr =
    remainder 32 (complementIf s₀.ds s₀.alr) (magnitude s₀.n (s₀.r rs)) k
  alr : s.alr.toNat = dividendWord s₀.alr.toNat
    (quotient 32 (complementIf s₀.ds s₀.alr) (magnitude s₀.n (s₀.r rs)) k) k

/-- The digits of a dividend, complemented or not. -/
theorem digit_complementIf (neg : Bool) (a : U32) {k : ℕ} (hk : k < 32) :
    digit 32 (complementIf neg a) k =
      if neg then 1 - digit 32 a.toNat k else digit 32 a.toNat k := by
  unfold complementIf
  split_ifs
  · exact digit_complement a.isLt hk
  · rfl

namespace Machine

variable {D : Type} (io : IoSpace D) {m : Machine D} {i : Insn} {s₀ : ArithState}

/-- What `div1` leaves in the two words. -/
theorem hDiv1_arith (m : Machine D) (i : Insn) :
    (m.hDiv1 i).cpu.arith =
      let ahr := m.cpu.ahr <<< 1 ||| m.cpu.alr >>> 31
      let tried := tryDivisor m.cpu.psr.ds m.cpu.psr.n ahr (m.cpu.r i.rs)
      if tried.2 then
        { m.cpu.arith with ahr := tried.1, alr := m.cpu.alr <<< 1 ||| 1 }
      else { m.cpu.arith with ahr := ahr, alr := m.cpu.alr <<< 1 } := by
  have h : m.hDiv1 i =
      let ahr := m.cpu.ahr <<< 1 ||| m.cpu.alr >>> 31
      let tried := tryDivisor m.cpu.psr.ds m.cpu.psr.n ahr (m.cpu.r i.rs)
      if tried.2 then m.flushExt.mapCpu
        ({ · with ahr := tried.1, alr := m.cpu.alr <<< 1 ||| 1 })
      else m.flushExt.mapCpu ({ · with ahr := ahr, alr := m.cpu.alr <<< 1 }) := rfl
  rw [h]
  dsimp only
  split_ifs <;> rfl

/-- **One step brings down one digit.** -/
theorem hDiv1_dividing {k : ℕ} (h : Dividing s₀ i.rs k m.cpu.arith) (hk : k < 32)
    (hd : s₀.r i.rs ≠ 0) : Dividing s₀ i.rs (k + 1) (m.hDiv1 i).cpu.arith := by
  obtain ⟨hr, hn, hds, hahr, halr⟩ := h
  set u := complementIf s₀.ds s₀.alr
  set d := magnitude s₀.n (s₀.r i.rs)
  have hd0 : 0 < d := magnitude_pos _ hd
  have hu : u < 2 ^ 32 := complementIf_lt _ _
  have hr' : m.cpu.r i.rs = s₀.r i.rs := congrFun hr i.rs
  have hds' : m.cpu.psr.ds = s₀.ds := hds
  have hn' : m.cpu.psr.n = s₀.n := hn
  have hahr' : complementIf s₀.ds m.cpu.ahr = remainder 32 u d k := hahr
  have halr' : m.cpu.alr.toNat = dividendWord s₀.alr.toNat (quotient 32 u d k) k := halr
  obtain ⟨htop, hrest⟩ := dividendWord_top (a := s₀.alr.toNat) hk (quotient_lt_two_pow hu hk.le)
  -- the remainder with its new digit
  have hlow : complementIf s₀.ds m.cpu.ahr < 2 ^ 31 := by
    rw [hahr']
    exact (remainder_lt_two_pow hu hk.le).trans_le (Nat.pow_le_pow_right (by decide) (by omega))
  have hshift := @complementIf_shifted s₀.ds m.cpu.ahr m.cpu.alr hlow
  rw [halr', htop, ← digit_complementIf s₀.ds s₀.alr hk, hahr'] at hshift
  -- the word with its new digit clear
  have hword : (m.cpu.alr <<< 1).toNat =
      dividendWord s₀.alr.toNat (2 * quotient 32 u d k) (k + 1) := by
    rw [BitVec.toNat_shiftLeft, Nat.shiftLeft_eq, pow_one, Nat.mul_comm, halr', hrest]
  obtain ⟨hfits, hdiff⟩ := tryDivisor_spec s₀.ds s₀.n (m.cpu.ahr <<< 1 ||| m.cpu.alr >>> 31) hd
  rw [hshift] at hfits hdiff
  rw [hDiv1_arith, hds', hn', hr']
  dsimp only
  split_ifs with hq
  · have hfit := hfits.mp hq
    refine ⟨hr, hn, hds, ?_, ?_⟩
    · rw [remainder_succ hd0 hk, if_pos hfit]
      exact hdiff hfit
    · rw [quotient_succ hd0 hk, if_pos hfit]
      exact (toNat_shiftLeft_or_one _).trans (congrArg (· + 1) hword)
  · have hfit := mt hfits.mpr hq
    refine ⟨hr, hn, hds, ?_, ?_⟩
    · rw [remainder_succ hd0 hk, if_neg hfit]
      exact hshift
    · rw [quotient_succ hd0 hk, if_neg hfit]
      exact hword

/-- A division step opens no window. -/
theorem hDiv1_opens (m : Machine D) (i : Insn) :
    (m.hDiv1 i).cpu.pendingExtCount = 0 ∧
      (m.hDiv1 i).cpu.inDelaySlot = m.cpu.inDelaySlot :=
  ⟨hDiv1_pendingExtCount m i, by
    simp only [hDiv1, apply_ite Machine.cpu, apply_ite CpuState.inDelaySlot]
    exact ite_self _⟩

/-- **The loop brings down as many digits as it has turns.** -/
theorem steps_dividing {rs : BitVec 4} {is : List Insn} {k : ℕ}
    (his : ∀ i ∈ is, Handler.ofInsn i = .div1 ∧ i.rs = rs) (hx : m.Executes io is)
    (hw : m.inWindow = false) (h : Dividing s₀ rs k m.cpu.arith) (hk : k + is.length ≤ 32)
    (hd : s₀.r rs ≠ 0) :
    Dividing s₀ rs (k + is.length) ((step io)^[is.length] m).cpu.arith ∧
      ((step io)^[is.length] m).inWindow = false := by
  induction is generalizing m k with
  | nil => exact ⟨h, hw⟩
  | cons i is ih =>
    obtain ⟨hrun, hi, hrest⟩ := hx
    obtain ⟨hdiv, hrs⟩ := his i (List.mem_cons_self ..)
    have hlen : (i :: is).length = is.length + 1 := rfl
    have hrunDiv : m.handlerAtPc.run io m.insnAtPc m.fetched = m.fetched.hDiv1 i := by
      rw [handlerAtPc, hi, hdiv]
      rfl
    obtain ⟨harith, hwin⟩ := step_arith_of_boundary io hrun hw
    rw [hrunDiv] at harith hwin
    have hnext : Dividing s₀ rs (k + 1) (m.step io).cpu.arith := by
      rw [harith, ← hrs]
      exact hDiv1_dividing (m := m.fetched) (hrs ▸ h) (by omega) (hrs ▸ hd)
    have hwnext : (m.step io).inWindow = false := by
      obtain ⟨hpend, hslot⟩ := hDiv1_opens m.fetched i
      rw [hwin, inWindow_eq_false_iff]
      exact ⟨hpend, hslot.trans ((m.inWindow_eq_false_iff).mp hw).2⟩
    have := ih (fun j hj => his j (List.mem_cons_of_mem i hj)) hrest hwnext hnext (by omega)
    rw [hlen, Function.iterate_succ_apply, Nat.add_comm is.length, ← Nat.add_assoc]
    exact this

/-! ### The start -/

/-- Before the first step no digit has been brought down. -/
theorem dividing_zero {s : ArithState} {rs : BitVec 4} (hr : s.r = s₀.r) (hn : s.n = s₀.n)
    (hds : s.ds = s₀.ds) (halr : s.alr = s₀.alr) (hahr : complementIf s₀.ds s.ahr = 0) :
    Dividing s₀ rs 0 s := by
  refine ⟨hr, hn, hds, hahr.trans (remainder_zero (complementIf_lt _ _)).symm, ?_⟩
  rw [quotient_zero (complementIf_lt _ _), dividendWord, Nat.sub_zero, pow_zero, mul_one,
    Nat.add_zero, Nat.mod_eq_of_lt s₀.alr.isLt, halr]

/-- `div0u` begins the division of a number that is not negative by one that is not. -/
theorem hDiv0u_dividing {m : Machine D} {i : Insn} {s : ArithState} (hs : m.cpu.arith = s)
    (hd : s.r i.rs ≠ 0) :
    Dividing { s with n := false, ds := false } i.rs 0 (m.hDiv0u io i).cpu.arith ∧
      (m.hDiv0u io i).cpu.pendingExtCount = 0 ∧
      (m.hDiv0u io i).cpu.inDelaySlot = m.cpu.inDelaySlot := by
  subst hs
  have h : m.hDiv0u io i =
      m.flushExt.mapCpu fun s => { s with ahr := 0, psr := (s.psr.setDs false).setN false } :=
    if_neg hd
  rw [h]
  refine ⟨dividing_zero rfl ?_ ?_ rfl rfl, rfl, rfl⟩
  · exact Psr.flag_setFlag _ (by decide) false 0
  · refine (Psr.flag_setFlag _ (by decide) false 6).trans ?_
    exact Psr.flag_setFlag _ (by decide) false 6

/-- `div0s` begins the division with the signs of the dividend and the divisor. -/
theorem hDiv0s_dividing {m : Machine D} {i : Insn} {s : ArithState} (hs : m.cpu.arith = s)
    (hd : s.r i.rs ≠ 0) :
    Dividing { s with n := (s.r i.rs).msb, ds := s.alr.msb } i.rs 0
        (m.hDiv0s io i).cpu.arith ∧
      (m.hDiv0s io i).cpu.pendingExtCount = 0 ∧
      (m.hDiv0s io i).cpu.inDelaySlot = m.cpu.inDelaySlot := by
  subst hs
  have h : m.hDiv0s io i =
      m.flushExt.mapCpu fun s => { s with
        ahr := if m.cpu.alr.msb then 0xFFFFFFFF else 0
        psr := (s.psr.setDs m.cpu.alr.msb).setN (m.cpu.r i.rs).msb } :=
    if_neg hd
  rw [h]
  refine ⟨dividing_zero rfl ?_ ?_ rfl ?_, rfl, rfl⟩
  · exact Psr.flag_setFlag _ (by decide) _ 0
  · refine (Psr.flag_setFlag _ (by decide) _ 6).trans ?_
    exact Psr.flag_setFlag _ (by decide) _ 6
  · change complementIf m.cpu.alr.msb (if m.cpu.alr.msb then 0xFFFFFFFF else 0) = 0
    cases m.cpu.alr.msb <;> rfl

/-! ### The end -/

/-- What `div2s` leaves in the two words. -/
theorem hDiv2s_arith (m : Machine D) (i : Insn) :
    (m.hDiv2s i).cpu.arith =
      let tried := if m.cpu.psr.n then m.cpu.ahr - m.cpu.r i.rs else m.cpu.ahr + m.cpu.r i.rs
      if m.cpu.psr.ds = true ∧ tried = 0 then
        { m.cpu.arith with ahr := 0, alr := m.cpu.alr + 1 }
      else m.cpu.arith := by
  unfold hDiv2s
  dsimp only
  cases hds : m.cpu.psr.ds with
  | false =>
    have hds' : m.flushExt.cpu.psr.ds = false := hds
    rw [hds', Bool.not_false, if_pos rfl, if_neg fun h => Bool.false_ne_true h.1]
    rfl
  | true =>
    have hds' : m.flushExt.cpu.psr.ds = true := hds
    rw [hds', Bool.not_true, if_neg Bool.false_ne_true]
    simp only [true_and]
    split_ifs <;> first | rfl | contradiction

/-- What `div3s` leaves in the two words. -/
theorem hDiv3s_arith (m : Machine D) :
    m.hDiv3s.cpu.arith =
      if m.cpu.psr.ds = m.cpu.psr.n then m.cpu.arith
      else { m.cpu.arith with alr := 0 - m.cpu.alr } := by
  have h : m.hDiv3s =
      if m.cpu.psr.ds != m.cpu.psr.n then m.flushExt.mapCpu fun s => { s with alr := 0 - s.alr }
      else m.flushExt := rfl
  rw [h]
  by_cases heq : m.cpu.psr.ds = m.cpu.psr.n
  · rw [if_neg (by simp [heq]), if_pos heq]
    rfl
  · rw [if_pos (by simp [heq]), if_neg heq]
    rfl

end Machine

/-- **A division of magnitudes is done**: the remainder has the sign of the dividend, the
quotient has none yet. -/
structure Divided (a d : U32) (s : ArithState) : Prop where
  n : s.n = d.msb
  ds : s.ds = a.msb
  alr : s.alr.toNat = magnitude a.msb a / magnitude d.msb d
  ahr : s.ahr = if a.msb then 0 - BitVec.ofNat 32 (magnitude a.msb a % magnitude d.msb d)
    else BitVec.ofNat 32 (magnitude a.msb a % magnitude d.msb d)

namespace Machine

variable {D : Type} (io : IoSpace D) {m : Machine D} {i : Insn} {s₀ : ArithState}

/-- What `div2s` tries is zero when the remainder is the greatest possible. -/
theorem div2s_tried_eq_zero_iff (n : Bool) {ahr divisor : U32} (hd : divisor ≠ 0)
    (hlt : complementIf true ahr < magnitude n divisor) :
    (if n then ahr - divisor else ahr + divisor) = 0 ↔
      complementIf true ahr + 1 = magnitude n divisor := by
  have ha := ahr.isLt
  have hdlt := divisor.isLt
  have h0 : divisor.toNat ≠ 0 := fun h => hd (BitVec.eq_of_toNat_eq h)
  have hsub : (ahr - divisor).toNat = (2 ^ 32 - divisor.toNat + ahr.toNat) % 2 ^ 32 :=
    BitVec.toNat_sub ..
  have hadd : (ahr + divisor).toNat = (ahr.toNat + divisor.toNat) % 2 ^ 32 := BitVec.toNat_add ..
  have hzero (v : U32) : v = 0 ↔ v.toNat = 0 := ⟨fun h => h ▸ rfl, fun h => BitVec.eq_of_toNat_eq h⟩
  cases n
  · simp only [complementIf, magnitude, if_true, if_false, Bool.false_eq_true, hzero, hadd]
      at hlt ⊢
    omega
  · simp only [complementIf, magnitude, if_true, hzero, hsub] at hlt ⊢
    omega

/-- **The repair**: `div2s` spends a greatest remainder. -/
theorem hDiv2s_divided (h : Dividing s₀ i.rs 32 m.cpu.arith) (hd : s₀.r i.rs ≠ 0)
    (hn : s₀.n = (s₀.r i.rs).msb) (hds : s₀.ds = s₀.alr.msb) :
    Divided s₀.alr (s₀.r i.rs) (m.hDiv2s i).cpu.arith ∧ (m.hDiv2s i).cpu.arith.r = s₀.r := by
  obtain ⟨hr, hn', hds', hahr, halr⟩ := h
  rw [remainder_all] at hahr
  rw [quotient_all, dividendWord, Nat.sub_self, pow_zero, Nat.mod_one, Nat.zero_mul,
    Nat.zero_add] at halr
  rw [hn, hds] at hahr halr
  have hr' : m.cpu.r i.rs = s₀.r i.rs := congrFun hr i.rs
  have hds'' : m.cpu.psr.ds = s₀.alr.msb := hds'.trans hds
  have hn'' : m.cpu.psr.n = (s₀.r i.rs).msb := hn'.trans hn
  have hpos := magnitude_pos (s₀.r i.rs).msb hd
  have hlt : ∀ x, x % magnitude (s₀.r i.rs).msb (s₀.r i.rs) < 2 ^ 32 := fun x => by
    have hle : magnitude (s₀.r i.rs).msb (s₀.r i.rs) ≤ 2 ^ 32 := by
      unfold magnitude
      have := (s₀.r i.rs).isLt
      split_ifs <;> omega
    exact (Nat.mod_lt x hpos).trans_le hle
  have hofNat (x : ℕ) : (BitVec.ofNat 32 (x % magnitude (s₀.r i.rs).msb (s₀.r i.rs))).toNat =
      x % magnitude (s₀.r i.rs).msb (s₀.r i.rs) :=
    (BitVec.toNat_ofNat _ _).trans (Nat.mod_eq_of_lt (hlt x))
  rw [hDiv2s_arith, hds'', hn'', hr']
  dsimp only
  cases hneg : s₀.alr.msb with
  | false =>
    rw [hneg] at hahr halr
    rw [if_neg fun h => Bool.false_ne_true h.1]
    refine ⟨⟨hn'', hds'', by rw [hneg]; exact halr, ?_⟩, hr⟩
    rw [hneg]
    refine BitVec.eq_of_toNat_eq (hahr.trans (hofNat _).symm)
  | true =>
    rw [hneg] at hahr halr
    -- the magnitude of the dividend is the number after its complement
    have hnext : magnitude true s₀.alr = complementIf true s₀.alr + 1 := by
      have := s₀.alr.isLt
      simp only [magnitude, complementIf, if_true]
      omega
    obtain ⟨hdiv, hmod⟩ := succ_div_mod hpos (complementIf true s₀.alr)
    have hahr' : complementIf true m.cpu.ahr =
      complementIf true s₀.alr % magnitude (s₀.r i.rs).msb (s₀.r i.rs) := hahr
    have htried := div2s_tried_eq_zero_iff (s₀.r i.rs).msb hd (hahr' ▸ Nat.mod_lt _ hpos)
    rw [hahr'] at htried
    by_cases hlast : complementIf true s₀.alr % magnitude (s₀.r i.rs).msb (s₀.r i.rs) + 1 =
        magnitude (s₀.r i.rs).msb (s₀.r i.rs)
    · rw [if_pos ⟨rfl, htried.mpr hlast⟩]
      rw [if_pos hlast] at hdiv hmod
      refine ⟨⟨hn'', hds'', ?_, ?_⟩, hr⟩
      · rw [hneg, hnext, hdiv]
        have hle := Nat.div_le_self (complementIf true s₀.alr)
          (magnitude (s₀.r i.rs).msb (s₀.r i.rs))
        have hhalf : complementIf true s₀.alr < 2 ^ 31 := by
          have := BitVec.le_toNat_of_msb_true hneg
          simp only [complementIf, if_true]
          omega
        have halr' : m.cpu.alr.toNat = _ := halr
        change (m.cpu.alr + 1).toNat = _
        rw [BitVec.toNat_add_of_lt, halr']
        · rfl
        · rw [halr']
          change _ + 1 < _
          omega
      · rw [hneg, hnext, hmod]
        rfl
    · rw [if_neg fun h => hlast (htried.mp h.2)]
      rw [if_neg hlast] at hdiv hmod
      refine ⟨⟨hn'', hds'', ?_, ?_⟩, hr⟩
      · rw [hneg, hnext, hdiv]
        exact halr
      · rw [hneg, hnext, if_pos rfl]
        apply BitVec.eq_of_toNat_eq
        have ha := m.cpu.ahr.isLt
        have hmod' := hlt (complementIf true s₀.alr + 1)
        rw [BitVec.toNat_sub, hofNat, hmod]
        rw [hmod] at hmod'
        simp only [complementIf, if_true] at hahr' hmod' ⊢
        change m.cpu.ahr.toNat = (_ + 0) % _
        omega

end Machine

/-! ### Signed numbers -/

theorem toInt_eq_magnitude (v : U32) :
    v.toInt = if v.msb then -(magnitude v.msb v : ℤ) else (magnitude v.msb v : ℤ) := by
  have := v.isLt
  rw [BitVec.toInt_eq_msb_cond]
  cases v.msb <;> simp only [magnitude, if_true, if_false, Bool.false_eq_true]
  omega

/-- A magnitude is at most that of the least number. -/
theorem magnitude_msb_le (v : U32) : magnitude v.msb v ≤ 2 ^ 31 := by
  unfold magnitude
  cases hv : v.msb with
  | false =>
    have := (BitVec.msb_eq_false_iff_two_mul_lt).mp hv
    simp only [if_false, Bool.false_eq_true]
    omega
  | true =>
    have := BitVec.le_toNat_of_msb_true hv
    simp only [if_true]
    omega

variable {a d : U32} {s : ArithState}

/-- **The quotient under its sign**, modulo `2^32`. -/
theorem Divided.quotient_signed (h : Divided a d s) :
    (if s.ds = s.n then s.alr else 0 - s.alr) = BitVec.ofInt 32 (a.toInt.tdiv d.toInt) := by
  have halr : s.alr = BitVec.ofInt 32 ((magnitude a.msb a : ℤ).tdiv (magnitude d.msb d)) := by
    have hlt := s.alr.isLt
    rw [← Int.ofNat_tdiv, BitVec.ofInt_natCast, ← h.alr, BitVec.ofNat_toNat, BitVec.setWidth_eq]
  rw [h.ds, h.n, toInt_eq_magnitude a, toInt_eq_magnitude d, halr]
  cases a.msb <;> cases d.msb
  · rfl
  · exact (BitVec.zero_sub _).trans (by rw [if_pos rfl, Int.tdiv_neg, BitVec.ofInt_neg]; rfl)
  · exact (BitVec.zero_sub _).trans (by rw [if_pos rfl, Int.neg_tdiv, BitVec.ofInt_neg]; rfl)
  · exact congrArg (BitVec.ofInt 32) (Int.neg_tdiv_neg _ _).symm

/-- **The remainder has the sign of the dividend.** -/
theorem Divided.remainder_signed (h : Divided a d s) (hd : d ≠ 0) :
    s.ahr.toInt = a.toInt.tmod d.toInt := by
  have hpos := magnitude_pos d.msb hd
  have hlt := (Nat.mod_lt (magnitude a.msb a) hpos).trans_le (magnitude_msb_le d)
  obtain ⟨A, hA⟩ : ∃ A, magnitude a.msb a = A := ⟨_, rfl⟩
  obtain ⟨B, hB⟩ : ∃ B, magnitude d.msb d = B := ⟨_, rfl⟩
  have hahr := h.ahr
  rw [hA, hB] at hlt hahr
  have htmod : a.toInt.tmod d.toInt =
      if a.msb then -((A % B : ℕ) : ℤ) else ((A % B : ℕ) : ℤ) := by
    have hAB : (A : ℤ).tmod B = ((A % B : ℕ) : ℤ) := (Int.ofNat_tmod A B).symm
    rw [toInt_eq_magnitude a, toInt_eq_magnitude d, hA, hB]
    cases a.msb <;> cases d.msb
    · exact hAB
    · exact (Int.tmod_neg _ _).trans hAB
    · exact (Int.neg_tmod _ _).trans (congrArg Neg.neg hAB)
    · exact (Int.tmod_neg _ _).trans ((Int.neg_tmod _ _).trans (congrArg Neg.neg hAB))
  have hword : s.ahr = BitVec.ofInt 32 (a.toInt.tmod d.toInt) := by
    rw [hahr, htmod]
    cases a.msb
    · exact (BitVec.ofInt_natCast 32 (A % B)).symm
    · exact (BitVec.zero_sub _).trans (by rw [if_pos rfl, BitVec.ofInt_neg, BitVec.ofInt_natCast])
  rw [hword, BitVec.toInt_ofInt_eq_self (by decide)]
  · rw [htmod]
    split_ifs <;> omega
  · rw [htmod]
    split_ifs <;> omega

namespace Machine

variable {D : Type} (io : IoSpace D)

/-! ### The sequences -/

/-- The first step of a division, of either kind: the words are prepared, and no window is
left open. -/
theorem step_div0 {m : Machine D} {i : Insn} {h : Handler} {s₀ : ArithState}
    (hrun : m.running = true) (hi : m.insnAtPc = i) (hh : Handler.ofInsn i = h)
    (hgo : (m.step io).running = true)
    (hstart : ∀ m₁ : Machine D, m₁.cpu.arith = m.cpu.arith →
      Dividing s₀ i.rs 0 (h.run io i m₁).cpu.arith ∧ (h.run io i m₁).cpu.pendingExtCount = 0 ∧
        (h.run io i m₁).cpu.inDelaySlot = m₁.cpu.inDelaySlot) :
    Dividing s₀ i.rs 0 (m.step io).cpu.arith ∧ (m.step io).inWindow = false := by
  have hgo' := ((m.step io).running_iff.mp hgo).1
  have hrunDiv (m₁ : Machine D) : m.handlerAtPc.run io m.insnAtPc m₁ = h.run io i m₁ := by
    rw [handlerAtPc, hi, hh]
  obtain ⟨m₁, hcpu, harith⟩ := step_arith io hrun hgo'
  refine ⟨?_, step_inWindow io hrun hgo' fun m₁ hcpu => ?_⟩
  · rw [harith, hrunDiv]
    exact (hstart m₁ (congrArg CpuState.arith hcpu :)).1
  · rw [hrunDiv]
    obtain ⟨-, hpend, hslot⟩ := hstart m₁ (congrArg CpuState.arith hcpu :)
    exact ⟨hpend, hslot.trans (congrArg CpuState.inDelaySlot hcpu :)⟩

/-- **A zero divisor**: the two words stay, and at a boundary trap 4 is entered. -/
theorem step_div0_zero {m : Machine D}
    (hh : m.handlerAtPc = .div0u ∨ m.handlerAtPc = .div0s)
    (h0 : m.cpu.r m.insnAtPc.rs = 0) :
    (m.step io).cpu.alr = m.cpu.alr ∧ (m.step io).cpu.ahr = m.cpu.ahr ∧
      (m.running = true → m.inWindow = false →
        m.step io = (m.fetched.flushExt.enterTrap io 4 0).checkBusFault.fireDeferred io) := by
  have htrap (m₁ : Machine D) (hcpu : m₁.cpu = m.fetched.cpu) :
      m.handlerAtPc.run io m.insnAtPc m₁ = m₁.flushExt.doTrap io 4 0 := by
    have h0' : m₁.flushExt.cpu.r m.insnAtPc.rs = 0 := by
      change m₁.cpu.r m.insnAtPc.rs = 0
      rw [hcpu]
      exact h0
    rcases hh with hh | hh
    · rw [hh]
      exact if_pos h0'
    · rw [hh]
      exact if_pos h0'
  -- no kind of step touches the two words: there is only the trap
  have harith : (m.step io).cpu.arith = m.cpu.arith := by
    rcases m.stepCase io with ⟨-, heq⟩ | ⟨-, -, heq⟩ | ⟨-, hcpu⟩ | ⟨-, m₁, hcpu, -, heq⟩
    · rw [heq]
    · rw [heq]
      rfl
    · rw [hcpu]
      rfl
    · rw [heq, fireDeferred_arith]
      unfold retire
      rw [completeSlot_arith, checkBusFault_arith]
      change (m.handlerAtPc.run io m.insnAtPc m₁).cpu.arith = _
      rw [htrap m₁ hcpu, doTrap_arith]
      change m₁.cpu.arith = _
      rw [hcpu]
      rfl
  refine ⟨congrArg ArithState.alr harith, congrArg ArithState.ahr harith, fun hrun hw => ?_⟩
  obtain ⟨hext, hslot⟩ := m.inWindow_eq_false_iff.mp hw
  rw [step_outside_slot io hrun hslot (.inl hext), htrap m.fetched rfl]
  rcases m.fetched.flushExt.doTrap_cases io 4 0 with ⟨hgate, -⟩ | ⟨-, hwin, -⟩ | ⟨-, -, heq⟩
  · exact nomatch hgate
  · have hclosed : m.fetched.flushExt.inWindow = false :=
      (inWindow_eq_false_iff _).mpr ⟨rfl, hslot⟩
    exact absurd (hclosed.symm.trans hwin) (by decide)
  · rw [heq]

/-- The two last steps of a signed division. -/
theorem steps_divided {m : Machine D} {i₂ i₃ : Insn} {s₀ : ArithState} (hw : m.inWindow = false)
    (hx : m.Executes io [i₂, i₃]) (h2 : Handler.ofInsn i₂ = .div2s)
    (h3 : Handler.ofInsn i₃ = .div3s) (h : Dividing s₀ i₂.rs 32 m.cpu.arith)
    (hd : s₀.r i₂.rs ≠ 0) (hn : s₀.n = (s₀.r i₂.rs).msb) (hds : s₀.ds = s₀.alr.msb) :
    ((m.step io).step io).cpu.alr =
        BitVec.ofInt 32 (s₀.alr.toInt.tdiv (s₀.r i₂.rs).toInt) ∧
      ((m.step io).step io).cpu.ahr.toInt = s₀.alr.toInt.tmod (s₀.r i₂.rs).toInt := by
  obtain ⟨hrun2, hi2, hrun3, hi3, -⟩ := hx
  have hrunDiv2 : m.handlerAtPc.run io m.insnAtPc m.fetched = m.fetched.hDiv2s i₂ := by
    rw [handlerAtPc, hi2, h2]
    rfl
  have hrunDiv3 : (m.step io).handlerAtPc.run io (m.step io).insnAtPc (m.step io).fetched =
      (m.step io).fetched.hDiv3s := by
    rw [handlerAtPc, hi3, h3]
    rfl
  obtain ⟨harith2, hwin2⟩ := step_arith_of_boundary io hrun2 hw
  rw [hrunDiv2] at harith2 hwin2
  have hw2 : (m.step io).inWindow = false := by
    rw [hwin2, inWindow_eq_false_iff]
    refine ⟨hDiv2s_pendingExtCount m.fetched i₂, ?_⟩
    have hctl := Handler.run_ctl io (h := .div2s) rfl i₂ m.fetched
    exact (congrArg Ctl.inDelaySlot hctl).trans (m.inWindow_eq_false_iff.mp hw).2
  -- `div2s` has left the quotient, but for its sign, and the remainder
  have hdone : Divided s₀.alr (s₀.r i₂.rs) (m.step io).cpu.arith := by
    rw [harith2]
    exact (hDiv2s_divided (m := m.fetched) h hd hn hds).1
  obtain ⟨harith3, -⟩ := step_arith_of_boundary io hrun3 hw2
  rw [hrunDiv3, hDiv3s_arith] at harith3
  constructor
  · rw [← hdone.quotient_signed]
    refine (congrArg ArithState.alr harith3).trans ?_
    rw [apply_ite ArithState.alr]
    rfl
  · rw [← hdone.remainder_signed hd]
    refine congrArg BitVec.toInt ((congrArg ArithState.ahr harith3).trans ?_)
    rw [apply_ite ArithState.ahr]
    exact ite_self _

/-- **Step division is exact.** Let `div1` be executed 32 times with the divisor register of
the first instruction, which holds a number that is not zero.

* After `div0u`, `ALR` is the quotient and `AHR` the remainder, unsigned.
* After `div0s`, and with `div2s` and `div3s` at the end, `ALR` is the quotient truncated
  toward zero, modulo `2^32`, and `AHR` the remainder with the sign of the dividend.

With a zero divisor `div0u` and `div0s` change neither word; at an instruction boundary they
enter trap 4. -/
theorem division_exact (m : Machine D) (i₀ : Insn) (is : List Insn) (hlen : is.length = 32)
    (his : ∀ i ∈ is, Handler.ofInsn i = .div1 ∧ i.rs = i₀.rs) :
    (Handler.ofInsn i₀ = .div0u → m.cpu.r i₀.rs ≠ 0 → m.Executes io (i₀ :: is) →
      ((step io)^[33] m).cpu.alr.toNat = m.cpu.alr.toNat / (m.cpu.r i₀.rs).toNat ∧
        ((step io)^[33] m).cpu.ahr.toNat = m.cpu.alr.toNat % (m.cpu.r i₀.rs).toNat) ∧
    (∀ i₂ i₃ : Insn, Handler.ofInsn i₀ = .div0s → Handler.ofInsn i₂ = .div2s → i₂.rs = i₀.rs →
      Handler.ofInsn i₃ = .div3s → m.cpu.r i₀.rs ≠ 0 → m.Executes io (i₀ :: is ++ [i₂, i₃]) →
        ((step io)^[35] m).cpu.alr =
            BitVec.ofInt 32 (m.cpu.alr.toInt.tdiv (m.cpu.r i₀.rs).toInt) ∧
          ((step io)^[35] m).cpu.ahr.toInt = m.cpu.alr.toInt.tmod (m.cpu.r i₀.rs).toInt ∧
          m.cpu.alr.toInt = m.cpu.alr.toInt.tdiv (m.cpu.r i₀.rs).toInt * (m.cpu.r i₀.rs).toInt +
            ((step io)^[35] m).cpu.ahr.toInt ∧
          |((step io)^[35] m).cpu.ahr.toInt| < |(m.cpu.r i₀.rs).toInt|) ∧
    (Handler.ofInsn i₀ = .div0u ∨ Handler.ofInsn i₀ = .div0s → m.cpu.r i₀.rs = 0 →
      m.Executes io [i₀] →
        (m.step io).cpu.alr = m.cpu.alr ∧ (m.step io).cpu.ahr = m.cpu.ahr ∧
          (m.inWindow = false →
            m.step io = (m.fetched.flushExt.enterTrap io 4 0).checkBusFault.fireDeferred io)) := by
  have hgo {m' : Machine D} (hx : m'.Executes io is) : m'.running = true := by
    cases is with
    | nil => exact absurd hlen (by decide)
    | cons i is => exact hx.1
  refine ⟨fun h0 hd hx => ?_, fun i₂ i₃ h0 h2 hrs2 h3 hd hx => ?_, fun h0 hd hx => ?_⟩
  · obtain ⟨hrun, hi, hrest⟩ := hx
    -- 32 turns from what `div0u` leaves give the whole quotient and remainder
    obtain ⟨hstart, hw⟩ := step_div0 io hrun hi h0 (hgo hrest)
      fun m₁ harith => hDiv0u_dividing io harith hd
    obtain ⟨hend, -⟩ := steps_dividing io his hrest hw hstart (by omega) hd
    rw [hlen, Nat.zero_add] at hend
    rw [Function.iterate_succ_apply]
    refine ⟨hend.alr.trans ?_, hend.ahr.trans remainder_all⟩
    rw [quotient_all, dividendWord, Nat.sub_self, pow_zero, Nat.mod_one, Nat.zero_mul,
      Nat.zero_add]
    rfl
  · obtain ⟨hrun, hi, hrest⟩ := hx
    obtain ⟨hrest, hfin⟩ := (executes_append io is [i₂, i₃] (m.step io)).mp hrest
    obtain ⟨hstart, hw⟩ := step_div0 io hrun hi h0 (hgo hrest)
      fun m₁ harith => hDiv0s_dividing io harith hd
    obtain ⟨hend, hw⟩ := steps_dividing io his hrest hw hstart (by omega) hd
    rw [hlen] at hfin hw hend
    rw [Function.iterate_succ_apply, Function.iterate_succ_apply', Function.iterate_succ_apply']
    generalize (step io)^[32] (m.step io) = m₂ at hfin hw hend
    rw [← hrs2] at hend hd ⊢
    obtain ⟨halr, hahr⟩ := steps_divided io hw hfin h2 h3 hend hd rfl rfl
    refine ⟨halr, hahr, ?_, ?_⟩
    · rw [hahr]
      exact (Int.tdiv_mul_add_tmod _ _).symm
    · have hd0 : (m.cpu.r i₂.rs).toInt ≠ 0 := fun h => hd (BitVec.toInt_inj.mp h)
      rw [hahr, Int.abs_eq_natAbs, Int.abs_eq_natAbs, Int.natAbs_tmod]
      exact_mod_cast Nat.mod_lt _ (Int.natAbs_pos.mpr hd0)
  · obtain ⟨hrun, hi, -⟩ := hx
    have hh : m.handlerAtPc = .div0u ∨ m.handlerAtPc = .div0s := by
      rw [handlerAtPc, hi]
      exact h0
    obtain ⟨halr, hahr, htrap⟩ := step_div0_zero io hh (hi ▸ hd)
    exact ⟨halr, hahr, htrap hrun⟩

/-- A boot ROM with the division of -7 by `%r1` = 2, about to run. -/
def divisionRom : Machine Unit :=
  { ofRom (0x8B10 :: List.replicate 32 0x9310 ++ [0x9710, 0x9B00]) with
    cpu := { pc := 0xC00000, alr := -7, r := fun _ => 2 } }

set_option maxRecDepth 100000 in
theorem division_exact_divisionRom :
    ((step (IoSpace.empty Unit))^[35] divisionRom).cpu.alr = BitVec.ofInt 32 (-3) ∧
      ((step (IoSpace.empty Unit))^[35] divisionRom).cpu.ahr.toInt = -1 := by
  have h := (division_exact (IoSpace.empty Unit) divisionRom ⟨0x8B10⟩
    (List.replicate 32 ⟨0x9310⟩) rfl fun i hi => by
      rw [List.eq_of_mem_replicate hi]
      exact ⟨rfl, rfl⟩).2.1 ⟨0x9710⟩ ⟨0x9B00⟩ rfl rfl rfl rfl (by decide) (by decide +kernel)
  exact ⟨h.1, h.2.1⟩

end Machine
