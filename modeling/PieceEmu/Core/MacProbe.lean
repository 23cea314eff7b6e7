import PieceEmu.Core.MacPaths

/-!
# Probing the paths of `mac`

The converse of the two shortcuts (`MacLayout.paths_agree_iff`). A layout that is not
sound is told apart from the slow loop by one of two *probes*, machines without wait
states and with constant memories (`MacLayout.probe`):

| path | SRAM | other memories and registers | what gives a bad layout away |
|---|---|---|---|
| open bus | 0 | 0 | a product that is not 1, or a cycle charged |
| SRAM | 2 | open bus | a product that is not 4, or a pointer register |

An odd pointer is given away on both by the fault flag. The products of a run are
within 6 of the product the fast path assumes, so that the two 64-bit sums agree only
if every product does (`eq_of_sum_eq_mul`).
-/

/-! ### Lists of small differences -/

/-- A list and the differences of its elements to `c` sum to as many `c`. -/
theorem sum_add_sum_sub (c : U64) (xs : List U64) :
    xs.sum + BitVec.ofNat 64 (xs.map fun x => (c - x).toNat).sum =
      BitVec.ofNat 64 xs.length * c := by
  induction xs with
  | nil => simp
  | cons x xs ih =>
    rw [List.map_cons, List.sum_cons, List.sum_cons, List.length_cons, BitVec.ofNat_add,
      BitVec.ofNat_add, BitVec.add_mul, ← ih, BitVec.ofNat_toNat, BitVec.setWidth_eq,
      BitVec.one_mul, BitVec.add_assoc, ← BitVec.add_assoc xs.sum, BitVec.add_comm xs.sum,
      BitVec.add_assoc, ← BitVec.add_assoc x, BitVec.add_comm x, BitVec.sub_add_cancel,
      BitVec.add_comm c]

theorem sum_map_le {α : Type*} {f : α → ℕ} {n : ℕ} {xs : List α} (h : ∀ x ∈ xs, f x ≤ n) :
    (xs.map f).sum ≤ n * xs.length := by
  induction xs with
  | nil => exact Nat.le_refl 0
  | cons x xs ih =>
    have hx := h x List.mem_cons_self
    have hxs := ih fun y hy => h y (List.mem_cons_of_mem x hy)
    rw [List.map_cons, List.sum_cons, List.length_cons, Nat.mul_succ]
    omega

/-- A list of 64-bit numbers none of which is more than 6 below `c` sums to as many `c`
only if it consists of them. -/
theorem eq_of_sum_eq_mul {c : U64} {xs : List U64} (hsmall : ∀ x ∈ xs, (c - x).toNat ≤ 6)
    (hlen : xs.length < 2 ^ 32) (hsum : xs.sum = BitVec.ofNat 64 xs.length * c) {x : U64}
    (hx : x ∈ xs) : x = c := by
  -- the differences sum to a number too small to wrap, so it is zero
  have hle := sum_map_le hsmall
  have hdiff := sum_add_sum_sub c xs
  rw [← hsum, BitVec.add_right_eq_self] at hdiff
  have hzero : (xs.map fun x => (c - x).toNat).sum = 0 := by
    have h := congrArg BitVec.toNat hdiff
    rw [BitVec.toNat_ofNat, Nat.mod_eq_of_lt (by omega)] at h
    exact h
  have hxc : (c - x).toNat = 0 :=
    List.sum_eq_zero_iff_forall_eq_nat.mp hzero _ (List.mem_map_of_mem hx)
  have hc : c = 0 + x := BitVec.sub_eq_iff_eq_add.mp (BitVec.eq_of_toNat_eq hxc)
  exact (hc.trans (BitVec.zero_add x)).symm

namespace Bus

variable {D : Type} (io : IoSpace D)

/-! ### Misaligned walks -/

/-- A walk never lowers the fault flag. -/
theorem macWalk_faultPending (k : ℕ) (p1 p2 : U32) (b : Bus D) (h : b.faultPending = true) :
    (macWalk io k p1 p2 b).2.faultPending = true := by
  induction k generalizing p1 p2 b with
  | zero => exact h
  | succ k ih =>
    exact ih _ _ _ (read16_faultPending_of io _ (read16_faultPending_of io b h p1) p2)

/-- A walk from an odd pointer raises it. -/
theorem macWalk_odd {k : ℕ} (hk : 0 < k) (p1 p2 : U32) (b : Bus D)
    (h : p1 &&& 1 ≠ 0 ∨ p2 &&& 1 ≠ 0) : (macWalk io k p1 p2 b).2.faultPending = true := by
  obtain ⟨k, rfl⟩ := Nat.exists_eq_succ_of_ne_zero (Nat.ne_of_gt hk)
  refine macWalk_faultPending io k _ _ _ ?_
  rcases h with h | h
  · exact read16_faultPending_of io _ (read16_odd io b h) p2
  · exact read16_odd io _ h

end Bus

/-! ### Probing a layout -/

namespace MacLayout

variable (L : MacLayout)

/-- The bytes of a memory all of whose halfwords are `h`. -/
def constBytes (h : U16) (i : ℕ) : U8 := if i % 2 = 0 then h.setWidth 8 else (h >>> 8).setWidth 8

/-- A machine of a given layout without wait states: every halfword of SRAM is `x`,
every halfword of the other memories `y`. -/
def probe (x y : U16) : Machine Unit where
  cpu := { r := L.r }
  bus :=
    { iram := constBytes y, sram := constBytes x, sramSize := L.sramSize
      flash := .flat ⟨L.flashSize, constBytes y⟩, sramWait := 0, flashWait := 0, dev := () }

/-- What the halfword at an address reads as, and what the read costs, with the value
`x` in installed SRAM, `y` in the other memories, and nothing but open bus elsewhere. -/
def probeValue (x y : U16) (a : U32) : U16 :=
  match Bus.regionOf L.flashSize a with
  | .sram => if L.sramSize ≤ (Bus.mask28 a - Bus.sramBase).toNat then 0xFFFF else x
  | .none => 0xFFFF
  | _ => y

/-- The cost of that read without wait states. -/
def probeCost (a : U32) : ℕ :=
  match Bus.regionOf L.flashSize a with
  | .sram | .flash => 1
  | _ => 0

end MacLayout

/-- Register windows on which every halfword reads as `y`. -/
def IoSpace.constant (y : U16) : IoSpace Unit :=
  ⟨fun _ => some fun _ _ => (y, ()), fun _ => none, fun _ => none⟩

namespace Bus

/-- A halfword of the register windows has a handler slot. -/
theorem ioIndex_lt {flashSize : ℕ} {a : U32} (h : regionOf flashSize a = .io) :
    ((normalizeIo (mask28 a) - ioregBase) / 2).toNat < iohandlerSpan / 2 := by
  have hlt : mask28 a < semihostBase + semihostSize := by
    unfold regionOf at h
    dsimp only at h
    split_ifs at h with h1 h2 h3
    exact h3.2
  have hlt : (mask28 a).toNat < 0x80000 := hlt
  have hnorm : 0x40000 ≤ (normalizeIo (mask28 a)).toNat ∧
      (normalizeIo (mask28 a)).toNat < 2 ^ 19 := by
    unfold normalizeIo
    split_ifs with hs
    · rw [BitVec.toNat_or]
      refine ⟨Nat.left_le_or, Nat.or_lt_two_pow (by decide) ?_⟩
      have h16 := Words.toNat_and_low (mask28 a) 16
      rw [show ioregSize - 1 = BitVec.ofNat 32 (2 ^ 16 - 1) from rfl, h16]
      omega
    · have hs : ¬(mask28 a).toNat < 0x60000 := hs
      omega
  have hle : ioregBase ≤ normalizeIo (mask28 a) := hnorm.1
  rw [BitVec.toNat_udiv, BitVec.toNat_sub_of_le hle]
  change ((normalizeIo (mask28 a)).toNat - 0x40000) / 2 < 0x20000
  omega

variable (L : MacLayout) (x y : U16)

theorem le16_constBytes (h : U16) {i : ℕ} (hi : i % 2 = 0) :
    Words.le16 (MacLayout.constBytes h) i = h := by
  have hi1 : (i + 1) % 2 ≠ 0 := by omega
  exact Words.le16_of_bytes (if_pos hi) (if_neg hi1)

/-- **The reads of the probe.** -/
theorem read16_probe (n : ℤ) {a : U32} (he : a &&& 1 = 0) :
    ((L.probe x y).bus.charge n).read16 (IoSpace.constant y) a =
      (L.probeValue x y a, ((L.probe x y).bus.charge n).charge (L.probeCost a)) := by
  rw [read16_even_unwatched (IoSpace.constant y) ((L.probe x y).bus.charge n) rfl he]
  have hc : ((L.probe x y).bus.charge n).classify a = regionOf L.flashSize a := rfl
  have hm : (mask28 a).toNat % 2 = 0 := by
    rw [← and_one_eq_zero_iff, mask28_and_one, he]
  rw [hc, MacLayout.probeValue, MacLayout.probeCost]
  cases hr : regionOf L.flashSize a with
  | sram =>
    obtain ⟨hb, -⟩ := regionOf_eq_sram_iff.mp hr
    have hoff : (mask28 a - sramBase).toNat % 2 = 0 := by
      rw [BitVec.toNat_sub_of_le hb]
      change ((mask28 a).toNat - 0x100000) % 2 = 0
      omega
    refine Prod.ext ?_ rfl
    exact congrArg (fun v : U16 => if L.sramSize ≤ _ then 0xFFFF else v) (le16_constBytes x hoff)
  | flash =>
    obtain ⟨hb, -⟩ := regionOf_eq_flash_iff.mp hr
    have hoff : (mask28 a - flashBase).toNat % 2 = 0 := by
      rw [BitVec.toNat_sub_of_le hb]
      change ((mask28 a).toNat - 0xC00000) % 2 = 0
      omega
    exact Prod.ext (le16_constBytes y hoff) rfl
  | iram =>
    have hoff : iramIndex (mask28 a) % 2 = 0 := by
      have h := Words.toNat_and_low (mask28 a) 13
      rw [iramIndex, show BitVec.ofNat 32 (iramSize - 1) = BitVec.ofNat 32 (2 ^ 13 - 1) from rfl, h]
      omega
    exact Prod.ext (le16_constBytes y hoff) (charge_zero _).symm
  | io =>
    have h : ((L.probe x y).bus.charge n).ioRead (IoSpace.constant y) (mask28 a) =
        some (y, (L.probe x y).bus.charge n) := if_pos (ioIndex_lt hr)
    rw [h]
    exact Prod.ext rfl (charge_zero _).symm
  | none => exact Prod.ext rfl (charge_zero _).symm

end Bus

/-! ### What agreement on the probes says -/

namespace Machine

variable {D : Type} (io : IoSpace D) {m : Machine D} {insn : Insn}

theorem macTakesOpenBus_eq (hw : m.bus.watchpoints = []) (rsN : BitVec 4) :
    m.macTakesOpenBus rsN = m.macLayout.takesOpenBus rsN := by
  rw [macTakesOpenBus, Bus.hasWatchpoints, hw]
  exact Bool.and_true _

theorem macTakesSram_eq (hw : m.bus.watchpoints = []) (rsN : BitVec 4) :
    m.macTakesSram rsN = m.macLayout.takesSram rsN := by
  rw [macTakesSram, Bus.hasWatchpoints, hw]
  exact Bool.and_true _

/-- The path `mac` takes, by the layout. -/
theorem hMac_eq (hw : m.bus.watchpoints = []) :
    m.hMac io insn =
      if m.cpu.r insn.rs = 0 then m.flushExt
      else if m.macLayout.takesOpenBus insn.rs then m.flushExt.macOpenBus insn.rs
      else if m.macLayout.takesSram insn.rs then m.flushExt.macSram insn.rs
      else m.flushExt.macSlow io insn.rs := by
  unfold hMac
  dsimp only
  rw [macTakesOpenBus_eq (m := m.flushExt) hw, macTakesSram_eq (m := m.flushExt) hw]
  rfl

theorem hMac_of_takesOpenBus (hw : m.bus.watchpoints = []) (hc : m.cpu.r insn.rs ≠ 0)
    (ht : m.macLayout.takesOpenBus insn.rs = true) :
    m.hMac io insn = m.flushExt.macOpenBus insn.rs := by
  rw [hMac_eq io hw, if_neg hc, if_pos ht]

theorem hMac_of_takesSram (hw : m.bus.watchpoints = []) (hc : m.cpu.r insn.rs ≠ 0)
    (hA : ¬m.macLayout.takesOpenBus insn.rs = true) (hB : m.macLayout.takesSram insn.rs = true) :
    m.hMac io insn = m.flushExt.macSram insn.rs := by
  rw [hMac_eq io hw, if_neg hc, if_neg hA, if_pos hB]

theorem acc_setAcc (m : Machine D) (u : U64) : (m.setAcc u).acc = u := by
  change ((u >>> 32).setWidth 32).setWidth 64 <<< 32 ||| (u.setWidth 32).setWidth 64 = u
  apply BitVec.eq_of_getLsbD_eq
  intro j hj
  simp only [BitVec.getLsbD_or, BitVec.getLsbD_setWidth, BitVec.getLsbD_shiftLeft,
    BitVec.getLsbD_ushiftRight, hj, decide_true, Bool.true_and]
  rcases Nat.lt_or_ge j 32 with h | h
  · simp [h]
  · simp [Nat.not_lt.mpr h, Nat.add_sub_cancel' h, show j - 32 < 32 by omega,
      show j - 32 < 64 by omega]

theorem acc_macOpenBus (m : Machine D) (rsN : BitVec 4) :
    (m.macOpenBus rsN).acc = m.acc + (m.cpu.r rsN).setWidth 64 :=
  acc_setAcc (m.setPsr (macFlag m.cpu.psr m.acc ((m.cpu.r rsN).setWidth 64))) _

theorem macSram_r_add_one (m : Machine D) (rsN : BitVec 4) :
    (m.macSram rsN).cpu.r (rsN + 1) =
      Bus.sramBase + (Bus.mask28 (m.cpu.r (rsN + 1)) - Bus.sramBase + 2 * m.cpu.r rsN) := by
  change Function.update (Function.update (Function.update m.cpu.r _ _) _ _) _ _ _ = _
  rw [Function.update_of_ne (rsN_ne_add_one rsN).symm,
    Function.update_of_ne (add_one_ne_add_two rsN),
    Function.update_self]

theorem macSram_r_add_two (m : Machine D) (rsN : BitVec 4) :
    (m.macSram rsN).cpu.r (rsN + 2) =
      Bus.sramBase + (Bus.mask28 (m.cpu.r (rsN + 2)) - Bus.sramBase + 2 * m.cpu.r rsN) := by
  change Function.update (Function.update (Function.update m.cpu.r _ _) _ _) _ _ _ = _
  rw [Function.update_of_ne (rsN_ne_add_two rsN).symm, Function.update_self]

theorem macSlow_r (m : Machine D) (rsN : BitVec 4) :
    (m.macSlow io rsN).cpu.r = macAdvance rsN m.cpu.r (m.cpu.r rsN).toNat := by
  rw [macSlow_eq]
  rfl

theorem setAcc_acc (m : Machine D) : m.setAcc m.acc = m := by
  have h : (m.acc.setWidth 32 : U32) = m.cpu.alr ∧
      ((m.acc >>> 32).setWidth 32 : U32) = m.cpu.ahr := by
    constructor <;> apply BitVec.eq_of_getLsbD_eq <;> intro j hj
    · simp [acc, hj]
    · simp [acc, hj, show 32 + j < 64 by omega]
  rw [setAcc, h.1, h.2]
  rfl

end Machine

theorem MacAgree.of_eq {D : Type} {m m' : Machine D} (h : m = m') : MacAgree m m' :=
  h ▸ ⟨rfl, rfl, rfl, rfl, rfl, rfl⟩

theorem MacAgree.acc {D : Type} {m m' : Machine D} (h : MacAgree m m') : m.acc = m'.acc := by
  rw [Machine.acc, Machine.acc, h.alr, h.ahr]

namespace MacLayout

open Machine

variable (L : MacLayout) (rsN : BitVec 4) (x y : U16)

/-- The products of the slow loop on the probe. -/
def probeProducts : List U64 :=
  (List.range (L.r rsN).toNat).map fun j =>
    macProduct (L.probeValue x y (macOperand (L.r (rsN + 1)) j))
      (L.probeValue x y (macOperand (L.r (rsN + 2)) j))

/-- The cycles of the slow loop on the probe. -/
def probeCycles : ℕ :=
  ((List.range (L.r rsN).toNat).map fun j =>
    L.probeCost (macOperand (L.r (rsN + 1)) j) + L.probeCost (macOperand (L.r (rsN + 2)) j)).sum

variable {L} {rsN}

/-- **The slow loop on the probe**, from even pointers. -/
theorem macWalk_probe (h1 : L.r (rsN + 1) &&& 1 = 0) (h2 : L.r (rsN + 2) &&& 1 = 0) :
    Bus.macWalk (IoSpace.constant y) (L.r rsN).toNat (L.r (rsN + 1)) (L.r (rsN + 2))
        (L.probe x y).bus =
      (L.probeProducts rsN x y, (L.probe x y).bus.charge (L.probeCycles rsN)) := by
  rw [Bus.macWalk_eq (IoSpace.constant y) (L.probeValue x y) fun a => (L.probeCost a : ℤ)]
  · rw [probeProducts, probeCycles]
    refine Prod.ext rfl (congrArg (L.probe x y).bus.charge ?_)
    exact ((map_list_sum (Nat.castAddMonoidHom ℤ) _).trans (by rw [List.map_map]; rfl)).symm
  · intro n j _ p hp
    exact Bus.read16_probe L x y n (macOperand_even (hp.elim (· ▸ h1) (· ▸ h2)) j)

theorem acc_probe : (L.probe x y).acc = 0#64 := by
  change ((0#32).setWidth 64 <<< 32 ||| (0#32).setWidth 64 : U64) = 0#64
  decide

theorem acc_macSlow_probe (h1 : L.r (rsN + 1) &&& 1 = 0) (h2 : L.r (rsN + 2) &&& 1 = 0) :
    ((L.probe x y).macSlow (IoSpace.constant y) rsN).acc = (L.probeProducts rsN x y).sum := by
  rw [macSlow_eq]
  dsimp only
  rw [acc_setAcc, snd_foldl_macAccumulate]
  have hw := congrArg Prod.fst (macWalk_probe x y h1 h2)
  rw [acc_probe, BitVec.zero_add]
  exact congrArg List.sum hw

theorem cycles_macSlow_probe (h1 : L.r (rsN + 1) &&& 1 = 0) (h2 : L.r (rsN + 2) &&& 1 = 0) :
    ((L.probe x y).macSlow (IoSpace.constant y) rsN).bus.cycles =
      BitVec.ofInt 32 (L.probeCycles rsN) := by
  rw [macSlow_eq]
  have hw := congrArg Prod.snd (macWalk_probe x y h1 h2)
  exact (congrArg Bus.cycles hw).trans (BitVec.zero_add _)

theorem faultPending_macSlow_probe (hcount : L.r rsN ≠ 0)
    (h : L.r (rsN + 1) &&& 1 ≠ 0 ∨ L.r (rsN + 2) &&& 1 ≠ 0) :
    ((L.probe x y).macSlow (IoSpace.constant y) rsN).bus.faultPending = true := by
  rw [macSlow_eq]
  refine Bus.macWalk_odd (IoSpace.constant y) (Nat.pos_of_ne_zero fun h0 => hcount ?_) _ _ _ h
  exact BitVec.eq_of_toNat_eq h0

theorem length_probeProducts : (L.probeProducts rsN x y).length = (L.r rsN).toNat := by
  rw [probeProducts, List.length_map, List.length_range]

end MacLayout

/-! ### Soundness is necessary -/

namespace MacLayout

open Machine

variable {L : MacLayout} {insn : Insn}

/-- An even pointer is a whole turn of the address space, or less, away from address 0. -/
theorem exists_macOperand_zero {p : U32} (hp : p &&& 1 = 0) :
    ∃ j ≤ 2 ^ 27, Bus.mask28 (macOperand p j) = 0 := by
  rw [Bus.and_one_eq_zero_iff] at hp
  refine ⟨(2 ^ 28 - p.toNat % 2 ^ 28) / 2, by omega, BitVec.eq_of_toNat_eq ?_⟩
  rw [Bus.toNat_mask28, macOperand, BitVec.toNat_add, BitVec.toNat_ofNat]
  change _ = 0
  omega

/-- Address 0 is in internal RAM. -/
theorem probeValue_of_mask28_eq_zero {x y : U16} {a : U32} (h : Bus.mask28 a = 0) :
    L.probeValue x y a = y := by
  have hr : Bus.regionOf L.flashSize a = .iram := by
    unfold Bus.regionOf
    dsimp only
    rw [h, if_neg (by decide), if_neg, if_neg (by decide), if_pos (by decide)]
    rintro ⟨hle, -⟩
    exact absurd hle (by decide)
  rw [probeValue, hr]

theorem probeValue_zero (a : U32) : L.probeValue 0 0 a = 0 ∨ L.probeValue 0 0 a = 0xFFFF := by
  unfold probeValue
  split
  · split_ifs
    · exact .inr rfl
    · exact .inl rfl
  · exact .inr rfl
  · exact .inl rfl

/-- If the slow loop sees what fast path A assumes, every operand reads as open bus. -/
theorem probeValue_eq_of_sum (hsum : (L.probeProducts insn.rs 0 0).sum =
    BitVec.ofNat 64 (L.r insn.rs).toNat * 1) {j : ℕ} (hj : j < (L.r insn.rs).toNat) :
    L.probeValue 0 0 (macOperand (L.r (insn.rs + 1)) j) = 0xFFFF ∧
      L.probeValue 0 0 (macOperand (L.r (insn.rs + 2)) j) = 0xFFFF := by
  have hone {v w : U16} (hv : v = 0 ∨ v = 0xFFFF) (hw : w = 0 ∨ w = 0xFFFF) :
      (1 - macProduct v w).toNat ≤ 6 ∧ (macProduct v w = 1 → v = 0xFFFF ∧ w = 0xFFFF) := by
    rcases hv with rfl | rfl <;> rcases hw with rfl | rfl <;> decide
  rw [← @length_probeProducts L insn.rs 0 0] at hsum
  have hprod := eq_of_sum_eq_mul (c := 1) (fun x hx => ?_) ?_ hsum
    (List.mem_map_of_mem (List.mem_range.mpr hj))
  · exact (hone (probeValue_zero _) (probeValue_zero _)).2 hprod
  · obtain ⟨i, -, rfl⟩ := List.mem_map.mp hx
    exact (hone (probeValue_zero _) (probeValue_zero _)).1
  · rw [length_probeProducts]
    exact (L.r insn.rs).isLt

/-- **On the open-bus path, agreement makes both runs open.** -/
theorem openRun_of_agree (hcount : L.r insn.rs ≠ 0) (ht : L.takesOpenBus insn.rs = true)
    (h : (L.probe 0 0).MacPathsAgree (IoSpace.constant 0) insn) :
    L.OpenRun insn.rs (L.r (insn.rs + 1)) ∧ L.OpenRun insn.rs (L.r (insn.rs + 2)) := by
  rw [MacPathsAgree, hMac_of_takesOpenBus (m := L.probe 0 0) _ rfl hcount ht] at h
  have h : MacAgree ((L.probe 0 0).macOpenBus insn.rs)
      ((L.probe 0 0).macSlow (IoSpace.constant 0) insn.rs) := h
  -- an odd pointer faults on the slow path only
  have heven : L.r (insn.rs + 1) &&& 1 = 0 ∧ L.r (insn.rs + 2) &&& 1 = 0 := by
    by_contra hodd
    have hf := h.faultPending
    rw [faultPending_macSlow_probe 0 0 hcount (not_and_or.mp hodd)] at hf
    exact Bool.noConfusion (hf : false = true)
  obtain ⟨h1, h2⟩ := heven
  -- the sum of the fast path needs every operand to read as open bus
  have hsum : (L.probeProducts insn.rs 0 0).sum = BitVec.ofNat 64 (L.r insn.rs).toNat * 1 := by
    rw [← acc_macSlow_probe 0 0 h1 h2, ← h.acc, acc_macOpenBus, acc_probe, BitVec.zero_add,
      BitVec.ofNat_toNat]
    exact (BitVec.mul_one _).symm
  have hval {j : ℕ} (hj : j < (L.r insn.rs).toNat) := probeValue_eq_of_sum hsum hj
  -- so the run stays below address 0, and is too short for its cycles to wrap
  have hshort : (L.r insn.rs).toNat ≤ 2 ^ 27 := by
    obtain ⟨j, hj, h0⟩ := exists_macOperand_zero h1
    by_contra hlt
    have hv := (hval (j := j) (by omega)).1
    rw [probeValue_of_mask28_eq_zero h0] at hv
    exact absurd hv (by decide)
  have hcycles : L.probeCycles insn.rs = 0 := by
    have hle : L.probeCycles insn.rs ≤ 2 * (List.range (L.r insn.rs).toNat).length := by
      refine sum_map_le fun j _ => ?_
      have hcost (a : U32) : L.probeCost a ≤ 1 := by
        unfold probeCost
        split <;> decide
      exact Nat.add_le_add (hcost _) (hcost _)
    rw [List.length_range] at hle
    have hz := h.cycles
    rw [cycles_macSlow_probe 0 0 h1 h2, BitVec.ofInt_natCast] at hz
    have hz : (BitVec.ofNat 32 (L.probeCycles insn.rs)).toNat = 0 := congrArg BitVec.toNat hz.symm
    rw [BitVec.toNat_ofNat, Nat.mod_eq_of_lt (by omega)] at hz
    exact hz
  have hnone {a : U32} (hv : L.probeValue 0 0 a = 0xFFFF) (hc : L.probeCost a = 0) :
      Bus.regionOf L.flashSize a = .none := by
    unfold probeValue at hv
    unfold probeCost at hc
    cases hr : Bus.regionOf L.flashSize a with
    | none => rfl
    | sram | flash => rw [hr] at hc; exact absurd hc (by decide)
    | iram | io =>
      rw [hr] at hv
      have hv : (0 : U16) = 0xFFFF := hv
      exact absurd hv (by decide)
  have hcost {j : ℕ} (hj : j < (L.r insn.rs).toNat) :=
    List.sum_eq_zero_iff_forall_eq_nat.mp hcycles _ (List.mem_map_of_mem (List.mem_range.mpr hj))
  exact ⟨⟨h1, fun j hj => hnone (hval hj).1 (Nat.eq_zero_of_add_eq_zero_right (hcost hj))⟩,
    ⟨h2, fun j hj => hnone (hval hj).2 (Nat.eq_zero_of_add_eq_zero_left (hcost hj))⟩⟩

end MacLayout

namespace MacLayout

open Machine

variable {L : MacLayout} {insn : Insn}

theorem probeValue_two (a : U32) :
    L.probeValue 2 0xFFFF a = 2 ∨ L.probeValue 2 0xFFFF a = 0xFFFF := by
  unfold probeValue
  split
  · split_ifs
    · exact .inr rfl
    · exact .inl rfl
  · exact .inr rfl
  · exact .inr rfl

/-- Only installed SRAM reads as 2. -/
theorem installed_of_probeValue {a : U32} (h : L.probeValue 2 0xFFFF a = 2) :
    Bus.regionOf L.flashSize a = .sram ∧ (Bus.mask28 a - Bus.sramBase).toNat < L.sramSize := by
  unfold probeValue at h
  split at h
  · split_ifs at h with hs
    · exact absurd h (by decide)
    · exact ⟨‹_›, Nat.not_le.mp hs⟩
  · exact absurd h (by decide)
  · exact absurd h (by decide)

/-- If the slow loop sees what fast path B reads, every operand is in installed SRAM. -/
theorem probeValue_eq_two_of_sum (hsum : (L.probeProducts insn.rs 2 0xFFFF).sum =
    BitVec.ofNat 64 (L.r insn.rs).toNat * 4) {j : ℕ} (hj : j < (L.r insn.rs).toNat) :
    L.probeValue 2 0xFFFF (macOperand (L.r (insn.rs + 1)) j) = 2 ∧
      L.probeValue 2 0xFFFF (macOperand (L.r (insn.rs + 2)) j) = 2 := by
  have hfour {v w : U16} (hv : v = 2 ∨ v = 0xFFFF) (hw : w = 2 ∨ w = 0xFFFF) :
      (4 - macProduct v w).toNat ≤ 6 ∧ (macProduct v w = 4 → v = 2 ∧ w = 2) := by
    rcases hv with rfl | rfl <;> rcases hw with rfl | rfl <;> decide
  rw [← @length_probeProducts L insn.rs 2 0xFFFF] at hsum
  have hprod := eq_of_sum_eq_mul (c := 4) (fun x hx => ?_) ?_ hsum
    (List.mem_map_of_mem (List.mem_range.mpr hj))
  · exact (hfour (probeValue_two _) (probeValue_two _)).2 hprod
  · obtain ⟨i, -, rfl⟩ := List.mem_map.mp hx
    exact (hfour (probeValue_two _) (probeValue_two _)).1
  · rw [length_probeProducts]
    exact (L.r insn.rs).isLt

/-- The accumulator of fast path B on the probe: every product is 4. -/
theorem acc_macSram_probe (h1 : L.r (insn.rs + 1) &&& 1 = 0) (h2 : L.r (insn.rs + 2) &&& 1 = 0) :
    ((L.probe 2 0xFFFF).macSram insn.rs).acc = BitVec.ofNat 64 (L.r insn.rs).toNat * 4 := by
  have hval {p : U32} (hp : p &&& 1 = 0) (j : ℕ) :
      Words.le16 (L.probe 2 0xFFFF).bus.sram
        (Bus.mask28 p - Bus.sramBase + BitVec.ofNat 32 (2 * j)).toNat = 2 := by
    refine Bus.le16_constBytes 2 ?_
    have hm : (Bus.mask28 p).toNat % 2 = 0 := by
      rw [← Bus.and_one_eq_zero_iff, Bus.mask28_and_one, hp]
    rw [BitVec.toNat_add, BitVec.toNat_sub, BitVec.toNat_ofNat]
    change ((2 ^ 32 - 0x100000 + (Bus.mask28 p).toNat) % 2 ^ 32 + 2 * j % 2 ^ 32) % 2 ^ 32 % 2 = 0
    omega
  have hloop : (macSramLoop (L.probe 2 0xFFFF).bus.sram (L.r insn.rs).toNat
      (Bus.mask28 (L.r (insn.rs + 1)) - Bus.sramBase)
      (Bus.mask28 (L.r (insn.rs + 2)) - Bus.sramBase)
      (L.probe 2 0xFFFF).acc (L.probe 2 0xFFFF).cpu.psr).1 =
        BitVec.ofNat 64 (L.r insn.rs).toNat * 4 := by
    have hsum := sum_add_sum_sub 4 (List.replicate (L.r insn.rs).toNat 4)
    rw [List.map_replicate, BitVec.sub_self, BitVec.toNat_zero,
      List.sum_replicate (L.r insn.rs).toNat (0 : ℕ), nsmul_zero, BitVec.add_zero,
      List.length_replicate] at hsum
    rw [macSramLoop_eq, Prod.fst_swap, snd_foldl_macAccumulate, acc_probe, BitVec.zero_add, ← hsum]
    simp only [hval h1, hval h2]
    rw [List.map_const', List.length_range]
    rfl
  rw [← hloop]
  exact acc_setAcc (Machine.setPsr _ _) _

/-- A run that stays in the SRAM window does not leave it. -/
theorem sramRun_of_installed {rsN : BitVec 4} {p : U32} (hcount : L.r rsN ≠ 0)
    (hp : p &&& 1 = 0) (hm : Bus.mask28 p = p) (hw : macWithinSram L.sramSize (L.r rsN) p = true)
    (h : ∀ j < (L.r rsN).toNat, Bus.regionOf L.flashSize (macOperand p j) = .sram) :
    L.SramRun rsN p := by
  have hpos : 0 < (L.r rsN).toNat := Nat.pos_of_ne_zero fun h0 => hcount (BitVec.eq_of_toNat_eq h0)
  have hlt28 : p.toNat < 2 ^ 28 := by
    rw [← hm, Bus.toNat_mask28]
    omega
  have hin {a : U32} (ha : a.toNat < 2 ^ 28) (hr : Bus.regionOf L.flashSize a = .sram) :
      0x100000 ≤ a.toNat ∧ a.toNat < 0x200000 := by
    obtain ⟨h1, h2⟩ := Bus.regionOf_eq_sram_iff.mp hr
    have h1 : 0x100000 ≤ (Bus.mask28 a).toNat := h1
    have h2 : (Bus.mask28 a).toNat < 0x200000 := h2
    rw [Bus.toNat_mask28, Nat.mod_eq_of_lt ha] at h1 h2
    exact ⟨h1, h2⟩
  have hop {j : ℕ} (hj : p.toNat + 2 * j < 2 ^ 28) : (macOperand p j).toNat = p.toNat + 2 * j := by
    rw [macOperand, BitVec.toNat_add, BitVec.toNat_ofNat]
    omega
  -- by induction along the array: the halfword before is in SRAM, so the next does not wrap
  have hrun : ∀ j < (L.r rsN).toNat, p.toNat + 2 * j < 0x200000 := by
    intro j hj
    induction j with
    | zero =>
      have h0 := h 0 hj
      rw [Bus.macOperand_zero] at h0
      exact (hin hlt28 h0).2
    | succ j ih =>
      have := ih (Nat.lt_of_succ_lt hj)
      have hop := hop (j := j + 1) (by omega)
      have := (hin (by omega) (h (j + 1) hj)).2
      omega
  have hlast := hrun ((L.r rsN).toNat - 1) (by omega)
  have hb : Bus.sramBase ≤ p := by
    have h0 := h 0 hpos
    rw [Bus.macOperand_zero] at h0
    exact (hin hlt28 h0).1
  have hb' : 0x100000 ≤ p.toNat := hb
  have heven := (Bus.and_one_eq_zero_iff p).mp hp
  have hoff : (p - Bus.sramBase).toNat = p.toNat - 0x100000 := BitVec.toNat_sub_of_le hb
  have htwo : (L.r rsN * 2).toNat = 2 * (L.r rsN).toNat := by
    rw [BitVec.toNat_mul]
    change (L.r rsN).toNat * 2 % 2 ^ 32 = _
    omega
  have hw := of_decide_eq_true hw
  rw [hm, BitVec.toNat_add, hoff, htwo] at hw
  refine ⟨hp, hm, hb, ?_⟩
  rw [hoff, Nat.le_min]
  change _ ∧ _ ≤ 0x100000
  omega

theorem eq_of_add_sub_add_eq {a b c d : U32} (h : d + (a - d + c) = b + c) : a = b := by
  bv_omega

/-- From even pointers, the sum and the registers of the slow loop put both runs into
installed SRAM. -/
theorem sramRun_of_acc_r (hcount : L.r insn.rs ≠ 0) (hB : L.takesSram insn.rs = true)
    (h1 : L.r (insn.rs + 1) &&& 1 = 0) (h2 : L.r (insn.rs + 2) &&& 1 = 0)
    (hacc : ((L.probe 2 0xFFFF).macSram insn.rs).acc =
      ((L.probe 2 0xFFFF).macSlow (IoSpace.constant 0xFFFF) insn.rs).acc)
    (hr : ((L.probe 2 0xFFFF).macSram insn.rs).cpu.r =
      ((L.probe 2 0xFFFF).macSlow (IoSpace.constant 0xFFFF) insn.rs).cpu.r) :
    L.SramRun insn.rs (L.r (insn.rs + 1)) ∧ L.SramRun insn.rs (L.r (insn.rs + 2)) := by
  have hsum : (L.probeProducts insn.rs 2 0xFFFF).sum = BitVec.ofNat 64 (L.r insn.rs).toNat * 4 := by
    rw [← acc_macSlow_probe 2 0xFFFF h1 h2, ← hacc, acc_macSram_probe h1 h2]
  have hval {j : ℕ} (hj : j < (L.r insn.rs).toNat) := probeValue_eq_two_of_sum hsum hj
  -- the slow loop keeps the upper address bits of the pointers
  have hmask : Bus.mask28 (L.r (insn.rs + 1)) = L.r (insn.rs + 1) ∧
      Bus.mask28 (L.r (insn.rs + 2)) = L.r (insn.rs + 2) := by
    have hr1 := congrFun hr (insn.rs + 1)
    have hr2 := congrFun hr (insn.rs + 2)
    rw [macSram_r_add_one, macSlow_r, macAdvance_add_one] at hr1
    rw [macSram_r_add_two, macSlow_r, macAdvance_add_two] at hr2
    have htwo (c : U32) : BitVec.ofNat 32 (2 * c.toNat) = 2 * c := by
      rw [BitVec.ofNat_mul, BitVec.ofNat_toNat, BitVec.setWidth_eq]
      rfl
    rw [htwo] at hr1 hr2
    exact ⟨eq_of_add_sub_add_eq hr1, eq_of_add_sub_add_eq hr2⟩
  obtain ⟨hw1, hw2⟩ := Bool.and_eq_true_iff.mp hB
  exact ⟨sramRun_of_installed hcount h1 hmask.1 hw1
      fun j hj => (installed_of_probeValue (hval hj).1).1,
    sramRun_of_installed hcount h2 hmask.2 hw2 fun j hj => (installed_of_probeValue (hval hj).2).1⟩

/-- **On the SRAM path, agreement puts both runs into installed SRAM.** -/
theorem sramRun_of_agree (hcount : L.r insn.rs ≠ 0) (hA : ¬L.takesOpenBus insn.rs = true)
    (hB : L.takesSram insn.rs = true)
    (h : (L.probe 2 0xFFFF).MacPathsAgree (IoSpace.constant 0xFFFF) insn) :
    L.SramRun insn.rs (L.r (insn.rs + 1)) ∧ L.SramRun insn.rs (L.r (insn.rs + 2)) := by
  rw [MacPathsAgree, hMac_of_takesSram (m := L.probe 2 0xFFFF) _ rfl hcount hA hB] at h
  have h : MacAgree ((L.probe 2 0xFFFF).macSram insn.rs)
      ((L.probe 2 0xFFFF).macSlow (IoSpace.constant 0xFFFF) insn.rs) := h
  have heven : L.r (insn.rs + 1) &&& 1 = 0 ∧ L.r (insn.rs + 2) &&& 1 = 0 := by
    by_contra hodd
    have hf := h.faultPending
    rw [faultPending_macSlow_probe 2 0xFFFF hcount (not_and_or.mp hodd)] at hf
    exact Bool.noConfusion (hf : false = true)
  exact sramRun_of_acc_r hcount hB heven.1 heven.2 h.acc h.r

/-! ### The exact condition -/

/-- **Soundness is enough**: on a sound layout `mac` is its slow loop. -/
theorem hMac_eq_macSlow {D : Type} (io : IoSpace D) {m : Machine D}
    (hw : m.bus.watchpoints = []) (h : m.macLayout.Sound insn.rs) :
    m.hMac io insn = m.flushExt.macSlow io insn.rs := by
  rw [hMac_eq io hw]
  split_ifs with hc hA hB
  · have hc : (m.flushExt.cpu.r insn.rs).toNat = 0 := congrArg BitVec.toNat hc
    rw [macSlow, hc]
    exact (setAcc_acc m.flushExt).symm
  · have hc : m.macLayout.r insn.rs ≠ 0 := hc
    rw [Sound, if_neg hc, if_pos hA] at h
    exact macOpenBus_eq_macSlow (m := m.flushExt) io hw h.1 h.2
  · have hc : m.macLayout.r insn.rs ≠ 0 := hc
    rw [Sound, if_neg hc, if_neg hA, if_pos hB] at h
    exact macSram_eq_macSlow (m := m.flushExt) io hw h.1 h.2
  · rfl

variable (L) (insn)

/-- **The exact condition**: the path a layout selects agrees with the slow loop, for
every content of the machine, if and only if the layout is sound. -/
theorem paths_agree_iff :
    (∀ (D : Type) (io : IoSpace D) (m : Machine D), m.macLayout = L → m.bus.watchpoints = [] →
      m.MacPathsAgree io insn) ↔ L.Sound insn.rs := by
  constructor
  · intro h
    unfold Sound
    split_ifs with hc hA hB
    · exact openRun_of_agree hc hA (h Unit _ _ rfl rfl)
    · exact sramRun_of_agree hc hA hB (h Unit _ _ rfl rfl)
  · rintro hs D io m rfl hw
    exact MacAgree.of_eq (hMac_eq_macSlow io hw hs)

/-- A count of 1 in `%r0`, and odd pointers into SRAM in `%r1` and `%r2`. -/
def oddPointers : MacLayout := ⟨fun n => if n = 0 then 1 else 0x100001, 0x40000, 0x80000⟩

/-- **A disagreement**: on odd pointers `mac` takes fast path B and raises no fault, the
slow loop raises one. -/
theorem oddPointers_disagree :
    oddPointers.takesSram 0 = true ∧
      ¬(oddPointers.probe 0 0).MacPathsAgree (IoSpace.constant 0) ⟨0xB200⟩ := by
  refine ⟨by decide, fun h => ?_⟩
  exact Bool.noConfusion (h.faultPending : false = true)

end MacLayout
