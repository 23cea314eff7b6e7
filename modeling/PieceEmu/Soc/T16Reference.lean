import PieceEmu.Lib.CyclicCounter
import PieceEmu.Lib.Run
import PieceEmu.Soc.Timer16bit

/-!
# The 16-bit timer against its reference

The reference timer takes one count at a time: from `CRB` it goes to 0, from
anywhere else one up, and it raises a compare interrupt when the count it arrives at
is the compare value. `Timer16bit.tick` takes all counts that are due at once.

The counter itself is always right. What a tick raises is not, in two situations
(`Timer16bit.Exact`):

* it starts on `CRB` and does not come back to it: the match it starts on, which was
  raised when the counter arrived there, is counted again;
* it ends on `CRB` for the first time, from at or above `CRA`: the final count is
  taken for one that has wrapped and climbed past `CRA` again.

`Timer16bit.refines_iff` says that these are the only two.
-/

namespace Timer16bit

/-! ### The reference -/

/-- One count of the reference. -/
def refCount (crb tc : U16) : U16 := if tc = crb then 0 else tc + 1

variable (t : Timer16bit) (clk : ClockControl)

/-- The compare value of an interrupt, if it is enabled. -/
def compare : T16Irq → Option U16
  | .cra => if t.cra = 0 then none else some t.cra
  | .crb => some t.crb

/-- The reference raises an interrupt in one of the next `k` counts. -/
def RefRaises (irq : T16Irq) (k : ℕ) : Prop :=
  ∃ j, 1 ≤ j ∧ j ≤ k ∧ t.compare irq = some ((refCount t.crb)^[j] t.tc)

/-- The counts that are due at a cycle count. -/
def due (cpuCycles : U64) : ℕ :=
  Cyclic.due t.nextTickCycle.toNat (t.cpc clk).toNat cpuCycles.toNat

/-! ### The statement -/

/-- A running timer, with `CRB` set, the counter below it and its clock going. -/
structure Counting : Prop where
  prun : t.prun = true
  crb_ne : t.crb ≠ 0
  tc_le : t.tc ≤ t.crb
  cpc_ne : t.cpc clk ≠ 0

/-- The cycle count is not so close to its end that the timer's own sums wrap. -/
def NoWrap (cpuCycles : U64) : Prop :=
  t.tc.toNat + t.due clk cpuCycles < 2 ^ 64 ∧
    t.nextTickCycle.toNat + t.due clk cpuCycles * (t.cpc clk).toNat < 2 ^ 64

/-- A tick does what the reference does in the counts that are due. -/
def TickRefines (cpuCycles : U64) : Prop :=
  (t.tick clk cpuCycles).1.tc = (refCount t.crb)^[t.due clk cpuCycles] t.tc ∧
    ∀ irq, irq ∈ (t.tick clk cpuCycles).2 ↔ t.RefRaises irq (t.due clk cpuCycles)

/-- **The ticks whose closed form is right**: it neither starts on `CRB` without coming
back, nor ends on its first match of `CRB` from at or above `CRA`. -/
def Exact (cpuCycles : U64) : Prop :=
  let k := t.due clk cpuCycles
  k ≠ 0 → ¬(t.tc = t.crb ∧ k ≤ t.crb.toNat) ∧
    ¬(t.cra ≠ 0 ∧ t.cra ≤ t.tc ∧ t.tc.toNat + k = t.crb.toNat)

/-- The timer after a tick. -/
def ticked (cpuCycles : U64) : Timer16bit := (t.tick clk cpuCycles).1

/-- What a list of ticks raises. -/
def raisedBy (clk : ClockControl) : Timer16bit → List U64 → List T16Irq
  | _, [] => []
  | t, cpuCycles :: ts => (t.tick clk cpuCycles).2 ++ raisedBy clk (t.ticked clk cpuCycles) ts

/-- The counts that are due at the end of a list of ticks. -/
def dueAtEnd (ts : List U64) : ℕ := (ts.getLast?.map (t.due clk)).getD 0

/-- The ticks taken together do what the reference does in the counts due at the last
of them, however the span is split. -/
def SpanRefines (ts : List U64) : Prop :=
  (ActionRun.exec (ticked · clk) t ts).tc = (refCount t.crb)^[t.dueAtEnd clk ts] t.tc ∧
    ∀ irq, irq ∈ raisedBy clk t ts ↔ t.RefRaises irq (t.dueAtEnd clk ts)

/-- **The timer equals the counter it models** over a list of ticks: each tick does, and
so do all of them together. -/
def Refines (ts : List U64) : Prop :=
  ActionRun.Along (ticked · clk) (fun t cpu => t.TickRefines clk cpu) t ts ∧
    t.SpanRefines clk ts

/-! ### The reference as a cyclic counter -/

variable {t clk}

theorem toNat_refCount {crb tc : U16} (h : tc ≤ crb) :
    (refCount crb tc).toNat = Cyclic.next crb.toNat tc.toNat := by
  have hlt := crb.isLt
  have hle : tc.toNat ≤ crb.toNat := h
  unfold refCount Cyclic.next
  rcases eq_or_ne tc crb with rfl | hne
  · rw [if_pos rfl, if_pos rfl]
    rfl
  · have hn : tc.toNat ≠ crb.toNat := fun he => hne (BitVec.eq_of_toNat_eq he)
    rw [if_neg hne, if_neg hn, BitVec.toNat_add]
    change (tc.toNat + 1) % 2 ^ 16 = _
    omega

theorem toNat_iterate_refCount {crb tc : U16} (h : tc ≤ crb) (k : ℕ) :
    ((refCount crb)^[k] tc).toNat = (Cyclic.next crb.toNat)^[k] tc.toNat := by
  induction k with
  | zero => rfl
  | succ k ih =>
    have hle : (refCount crb)^[k] tc ≤ crb := by
      rw [BitVec.le_def, ih]
      exact Cyclic.iterate_next_le h k
    rw [Function.iterate_succ_apply', Function.iterate_succ_apply', toNat_refCount hle, ih]

theorem iterate_refCount_le {crb tc : U16} (h : tc ≤ crb) (k : ℕ) :
    (refCount crb)^[k] tc ≤ crb := by
  rw [BitVec.le_def, toNat_iterate_refCount h]
  exact Cyclic.iterate_next_le h k

theorem refRaises_iff (h : t.tc ≤ t.crb) {irq : T16Irq} {k : ℕ} :
    t.RefRaises irq k ↔
      ∃ c, t.compare irq = some c ∧ Cyclic.Meets t.crb.toNat t.tc.toNat k c.toNat := by
  constructor
  · rintro ⟨j, hj, hjk, hc⟩
    exact ⟨_, hc, j, hj, hjk, (toNat_iterate_refCount h j).symm⟩
  · rintro ⟨c, hc, j, hj, hjk, he⟩
    refine ⟨j, hj, hjk, hc.trans (congrArg some (BitVec.eq_of_toNat_eq ?_))⟩
    rw [toNat_iterate_refCount h, he]

/-- The reference raises `CRB` when it comes to it from below, or from itself once
around. -/
theorem refRaises_crb_iff (h : t.tc ≤ t.crb) {k : ℕ} :
    t.RefRaises .crb k ↔
      t.tc.toNat < t.crb.toNat ∧ t.crb.toNat ≤ t.tc.toNat + k ∨
        t.crb.toNat + 1 + t.crb.toNat ≤ t.tc.toNat + k := by
  rw [refRaises_iff h, ← Cyclic.meets_iff h (le_refl _)]
  constructor
  · rintro ⟨c, hc, hm⟩
    have hc : t.crb = c := Option.some.inj hc
    rw [← hc] at hm
    exact hm
  · exact fun hm => ⟨t.crb, rfl, hm⟩

theorem refRaises_cra_iff (h : t.tc ≤ t.crb) {k : ℕ} :
    t.RefRaises .cra k ↔ t.craPossible ∧
      (t.tc.toNat < t.cra.toNat ∧ t.cra.toNat ≤ t.tc.toNat + k ∨
        t.crb.toNat + 1 + t.cra.toNat ≤ t.tc.toNat + k) := by
  constructor
  · rintro ⟨j, hj, hjk, hc⟩
    unfold compare at hc
    dsimp only at hc
    split_ifs at hc with h0
    have hcra := Option.some.inj hc
    have hle : t.cra ≤ t.crb := hcra ▸ iterate_refCount_le h j
    refine ⟨⟨h0, hle⟩, (Cyclic.meets_iff h hle).mp ⟨j, hj, hjk, ?_⟩⟩
    rw [← toNat_iterate_refCount h, ← hcra]
  · rintro ⟨⟨h0, hle⟩, hm⟩
    exact (refRaises_iff h).mpr ⟨t.cra, if_neg h0, (Cyclic.meets_iff h hle).mpr hm⟩

/-! ### The closed form -/

section Closed

variable {n : U64} (hn : t.tc.toNat + n.toNat < 2 ^ 64)

include hn in
theorem toNat_vEnd : (t.vEnd n).toNat = t.tc.toNat + n.toNat := by
  have := t.tc.isLt
  unfold vEnd
  rw [BitVec.toNat_add, BitVec.toNat_setWidth]
  omega

theorem toNat_period : t.period.toNat = t.crb.toNat + 1 := by
  have := t.crb.isLt
  unfold period
  rw [BitVec.toNat_add, BitVec.toNat_setWidth]
  change (t.crb.toNat % 2 ^ 64 + 1) % 2 ^ 64 = _
  omega

include hn in
theorem toNat_finalTc : (t.finalTc n).toNat = (t.tc.toNat + n.toNat) % (t.crb.toNat + 1) := by
  have := t.crb.isLt
  have hlt : (t.tc.toNat + n.toNat) % (t.crb.toNat + 1) < t.crb.toNat + 1 :=
    Nat.mod_lt _ (Nat.succ_pos _)
  unfold finalTc
  rw [BitVec.toNat_setWidth, BitVec.toNat_umod, toNat_vEnd hn, toNat_period]
  exact Nat.mod_eq_of_lt (by omega)

include hn in
/-- The counter after `n` counts is the reference's. -/
theorem finalTc_eq (h : t.tc ≤ t.crb) : t.finalTc n = (refCount t.crb)^[n.toNat] t.tc := by
  apply BitVec.eq_of_toNat_eq
  rw [toNat_finalTc hn, toNat_iterate_refCount h, Cyclic.iterate_next h]

include hn in
theorem crb_le_vEnd_iff : t.crb.setWidth 64 ≤ t.vEnd n ↔ t.crb.toNat ≤ t.tc.toNat + n.toNat := by
  have := t.crb.isLt
  rw [BitVec.le_def, toNat_vEnd hn, BitVec.toNat_setWidth, Nat.mod_eq_of_lt (by omega)]

include hn in
theorem toNat_crbFires (hcrb : t.crb ≠ 0) :
    (t.crbFires n).toNat =
      if t.crb.toNat ≤ t.tc.toNat + n.toNat then
        (t.tc.toNat + n.toNat - t.crb.toNat) / (t.crb.toNat + 1) + 1
      else 0 := by
  have hcrb' : 1 ≤ t.crb.toNat := Nat.pos_of_ne_zero fun h => hcrb (BitVec.eq_of_toNat_eq h)
  have := t.crb.isLt
  have hle : (t.tc.toNat + n.toNat - t.crb.toNat) / (t.crb.toNat + 1) ≤
      (t.tc.toNat + n.toNat - t.crb.toNat) / 2 :=
    Nat.div_le_div_left (Nat.succ_le_succ hcrb') Nat.two_pos
  unfold crbFires
  simp only [crb_le_vEnd_iff hn]
  split_ifs with h
  · rw [BitVec.toNat_add, BitVec.toNat_udiv, toNat_period,
      BitVec.toNat_sub_of_le ((crb_le_vEnd_iff hn).mpr h), toNat_vEnd hn, BitVec.toNat_setWidth,
      Nat.mod_eq_of_lt (show t.crb.toNat < 2 ^ 64 by omega)]
    exact Nat.mod_eq_of_lt (show _ + 1 < 2 ^ 64 by omega)
  · rfl

include hn in
theorem crbFires_eq_zero_iff (hcrb : t.crb ≠ 0) :
    t.crbFires n = 0 ↔ t.tc.toNat + n.toNat < t.crb.toNat := by
  rw [← BitVec.toNat_inj, toNat_crbFires hn hcrb]
  split_ifs with h
  · exact ⟨fun h0 => absurd h0 (Nat.succ_ne_zero _), fun hlt => absurd h (Nat.not_le.mpr hlt)⟩
  · exact ⟨fun _ => Nat.not_le.mp h, fun _ => rfl⟩

include hn in
theorem two_le_crbFires_iff (hcrb : t.crb ≠ 0) :
    2 ≤ t.crbFires n ↔ t.crb.toNat + (t.crb.toNat + 1) ≤ t.tc.toNat + n.toNat := by
  rw [BitVec.le_def, toNat_crbFires hn hcrb]
  change 2 ≤ _ ↔ _
  split_ifs with h
  · rw [Nat.succ_le_succ_iff, Nat.one_le_div_iff t.crb.toNat.succ_pos]
    omega
  · omega

include hn in
/-- **`CRB` is raised** when the counter ends at or past its match, whatever it starts
on. -/
theorem crb_mem_advance_iff (hcrb : t.crb ≠ 0) :
    .crb ∈ (t.advance n).2 ↔ t.crb.toNat ≤ t.tc.toNat + n.toNat := by
  rw [← Nat.not_lt, ← crbFires_eq_zero_iff hn hcrb]
  unfold advance
  dsimp only
  split_ifs with h0
  · exact ⟨fun h => absurd h (by simp), fun h => absurd h0 h⟩
  · exact ⟨fun h => absurd h (by simp), fun h => absurd h0 h⟩
  · exact ⟨fun _ => h0, fun _ => List.mem_append_right _ (List.mem_singleton_self _)⟩
  · exact ⟨fun _ => h0, fun _ => List.mem_append_right _ (List.mem_singleton_self _)⟩

theorem craAhead_iff :
    t.craAhead n ↔ t.tc.toNat < t.cra.toNat ∧ t.cra.toNat ≤ t.tc.toNat + n.toNat := by
  have := t.tc.isLt
  have := t.cra.isLt
  have htc : (t.tc.setWidth 64 : U64).toNat = t.tc.toNat :=
    BitVec.toNat_setWidth_of_le (by decide)
  have hcra : (t.cra.setWidth 64 : U64).toNat = t.cra.toNat :=
    BitVec.toNat_setWidth_of_le (by decide)
  unfold craAhead
  refine and_congr_right fun hlt => ?_
  have hlt : t.tc.toNat < t.cra.toNat := hlt
  rw [BitVec.le_def, BitVec.toNat_sub_of_le (by rw [BitVec.le_def]; omega), htc, hcra]
  omega

include hn in
/-- The final count is at or above `CRA`: it has climbed there after a wrap, or it is the
first match of `CRB`. -/
theorem cra_le_finalTc_iff (hcra : t.cra ≤ t.crb)
    (h1 : t.crb.toNat ≤ t.tc.toNat + n.toNat)
    (h2 : t.tc.toNat + n.toNat < t.crb.toNat + (t.crb.toNat + 1)) :
    t.cra ≤ t.finalTc n ↔ t.crb.toNat + 1 + t.cra.toNat ≤ t.tc.toNat + n.toNat ∨
      t.tc.toNat + n.toNat = t.crb.toNat := by
  have hcra : t.cra.toNat ≤ t.crb.toNat := hcra
  rw [BitVec.le_def, toNat_finalTc hn]
  rcases Nat.eq_or_lt_of_le h1 with heq | hlt
  · rw [Nat.mod_eq_of_lt (by omega)]
    omega
  · rw [Nat.mod_eq_sub_mod (by omega), Nat.mod_eq_of_lt (by omega)]
    omega

include hn in
/-- **`CRA` is raised** when the reference raises it, and at the first match of `CRB`
from at or above it. -/
theorem cra_mem_advance_iff (hcrb : t.crb ≠ 0) (h : t.tc ≤ t.crb) :
    .cra ∈ (t.advance n).2 ↔ t.craPossible ∧
      (t.tc.toNat < t.cra.toNat ∧ t.cra.toNat ≤ t.tc.toNat + n.toNat ∨
        t.crb.toNat + 1 + t.cra.toNat ≤ t.tc.toNat + n.toNat ∨
        t.tc.toNat + n.toNat = t.crb.toNat) := by
  have h0 := crbFires_eq_zero_iff hn hcrb
  have h2 := two_le_crbFires_iff hn hcrb
  have htc : t.tc.toNat ≤ t.crb.toNat := h
  have hmem : .cra ∈ (t.advance n).2 ↔ t.craPossible ∧
      if t.crbFires n = 0 then t.craAhead n else t.craFires n := by
    unfold advance
    dsimp only
    split_ifs <;> simp_all
  rw [hmem]
  refine and_congr_right fun hcra => ?_
  have hle : t.cra.toNat ≤ t.crb.toNat := hcra.2
  split_ifs with hz
  · rw [craAhead_iff]
    rw [h0] at hz
    omega
  · rw [h0] at hz
    have hahead : t.tc < t.cra ∧ t.cra.setWidth 64 ≤ t.tc.setWidth 64 + n ↔
        t.tc.toNat < t.cra.toNat ∧ t.cra.toNat ≤ t.tc.toNat + n.toNat := by
      have := t.cra.isLt
      refine and_congr BitVec.lt_def ?_
      rw [BitVec.le_def, show t.tc.setWidth 64 + n = t.vEnd n from rfl, toNat_vEnd hn,
        BitVec.toNat_setWidth, Nat.mod_eq_of_lt (by omega)]
    unfold craFires
    rw [hahead, h2]
    by_cases hlt : t.tc.toNat + n.toNat < t.crb.toNat + (t.crb.toNat + 1)
    · rw [cra_le_finalTc_iff hn hcra.2 (by omega) hlt]
      omega
    · omega

end Closed

/-! ### One tick -/

@[simp] theorem refreshWake_tc : (t.refreshWake clk).tc = t.tc := by
  unfold refreshWake
  dsimp only
  split_ifs <;> rfl

@[simp] theorem refreshWake_crb : (t.refreshWake clk).crb = t.crb := by
  unfold refreshWake
  dsimp only
  split_ifs <;> rfl

@[simp] theorem refreshWake_cra : (t.refreshWake clk).cra = t.cra := by
  unfold refreshWake
  dsimp only
  split_ifs <;> rfl

@[simp] theorem refreshWake_prun : (t.refreshWake clk).prun = t.prun := by
  unfold refreshWake
  dsimp only
  split_ifs <;> rfl

@[simp] theorem refreshWake_nextTickCycle :
    (t.refreshWake clk).nextTickCycle = t.nextTickCycle := by
  unfold refreshWake
  dsimp only
  split_ifs <;> rfl

/-- A filled cache is what is read from it. -/
@[simp] theorem fillCpc_cpc : (t.fillCpc clk).cpc clk = t.cpc clk := by
  have h : (t.fillCpc clk).cpc clk = (t.fillCpc clk).cachedCpc := if_neg (not_not.mpr rfl)
  exact h

@[simp] theorem refreshWake_cpc : (t.refreshWake clk).cpc clk = t.cpc clk := by
  unfold refreshWake
  dsimp only
  split_ifs
  · rfl
  · exact fillCpc_cpc
  · exact fillCpc_cpc

/-- A tick whose time has come, of a counting timer. -/
theorem Counting.tick_due (h : t.Counting clk) {cpu : U64} (hdue : ¬cpu < t.nextTickCycle) :
    t.tick clk cpu =
      (({ t.fillCpc clk with
          nextTickCycle := t.nextTickCycle + t.counts clk cpu * t.cpc clk
          tc := t.finalTc (t.counts clk cpu) }).refreshWake clk,
        (t.advance (t.counts clk cpu)).2) := by
  unfold tick
  rw [h.prun, if_neg (by decide), if_neg hdue, if_neg h.cpc_ne]
  dsimp only
  rw [if_pos (show (t.fillCpc clk).crb ≠ 0 from h.crb_ne)]
  rfl

theorem due_eq_zero_iff {cpu : U64} : t.due clk cpu = 0 ↔ cpu < t.nextTickCycle :=
  Cyclic.due_eq_zero_iff.trans BitVec.lt_def.symm

/-- A tick whose time has not come. -/
theorem tick_early {cpu : U64} (hdue : cpu < t.nextTickCycle) : t.tick clk cpu = (t, []) := by
  unfold tick
  rw [if_pos hdue, ite_self]

theorem toNat_counts {cpu : U64} (hw : t.NoWrap clk cpu)
    (hdue : ¬cpu < t.nextTickCycle) : (t.counts clk cpu).toNat = t.due clk cpu :=
  Cyclic.toNat_due hdue ((Nat.le_add_left _ _).trans_lt hw.1)

/-- What a tick of a counting timer leaves. -/
structure TickLeaves (t : Timer16bit) (clk : ClockControl) (cpu : U64) (t' : Timer16bit) :
    Prop where
  prun : t'.prun = t.prun
  cra : t'.cra = t.cra
  crb : t'.crb = t.crb
  cpc : t'.cpc clk = t.cpc clk
  tc : t'.tc = (refCount t.crb)^[t.due clk cpu] t.tc
  nextTickCycle :
    t'.nextTickCycle.toNat = t.nextTickCycle.toNat + t.due clk cpu * (t.cpc clk).toNat

theorem Counting.tick_leaves (h : t.Counting clk) {cpu : U64} (hw : t.NoWrap clk cpu) :
    t.TickLeaves clk cpu (t.tick clk cpu).1 := by
  by_cases hdue : cpu < t.nextTickCycle
  · have h0 : t.due clk cpu = 0 := due_eq_zero_iff.mpr hdue
    rw [tick_early hdue]
    exact ⟨rfl, rfl, rfl, rfl, by rw [h0]; rfl, by rw [h0, Nat.zero_mul]; rfl⟩
  · have hn := toNat_counts hw hdue
    rw [h.tick_due hdue]
    refine ⟨refreshWake_prun, refreshWake_cra, refreshWake_crb, ?_, ?_, ?_⟩
    · exact refreshWake_cpc.trans fillCpc_cpc
    · rw [refreshWake_tc, ← hn]
      exact finalTc_eq (by rw [hn]; exact hw.1) h.tc_le
    · rw [refreshWake_nextTickCycle]
      have hpos : 0 < (t.cpc clk).toNat :=
        Nat.pos_of_ne_zero fun h0 => h.cpc_ne (BitVec.eq_of_toNat_eq h0)
      exact Cyclic.toNat_next_due hdue hpos hw.2

theorem TickLeaves.counting {cpu : U64} {t' : Timer16bit} (hl : t.TickLeaves clk cpu t')
    (h : t.Counting clk) : t'.Counting clk where
  prun := hl.prun.trans h.prun
  crb_ne := hl.crb ▸ h.crb_ne
  tc_le := by
    rw [hl.tc, hl.crb]
    exact iterate_refCount_le h.tc_le _
  cpc_ne := hl.cpc ▸ h.cpc_ne

/-- **A tick does what the reference does exactly if its closed form is right.** -/
theorem Counting.tickRefines_iff (h : t.Counting clk) {cpu : U64} (hw : t.NoWrap clk cpu) :
    t.TickRefines clk cpu ↔ t.Exact clk cpu := by
  have htc : t.tc.toNat ≤ t.crb.toNat := h.tc_le
  have hl := h.tick_leaves hw
  -- a tick before the next count does nothing; at or after it, it is the closed form
  by_cases hdue : cpu < t.nextTickCycle
  · have h0 : t.due clk cpu = 0 := due_eq_zero_iff.mpr hdue
    refine ⟨fun _ hne => absurd h0 hne, fun _ => ⟨hl.tc, fun irq => ?_⟩⟩
    rw [tick_early hdue, h0]
    exact ⟨nofun, fun ⟨j, hj, hj0, _⟩ => by omega⟩
  · have hn := toNat_counts hw hdue
    have hn' : t.tc.toNat + (t.counts clk cpu).toNat < 2 ^ 64 := by
      rw [hn]
      exact hw.1
    have hpos : t.due clk cpu ≠ 0 := fun h0 => hdue (due_eq_zero_iff.mp h0)
    have hcra := cra_mem_advance_iff hn' h.crb_ne h.tc_le
    have hcrb := crb_mem_advance_iff hn' h.crb_ne
    rw [hn] at hcra hcrb
    have htick : (t.tick clk cpu).2 = (t.advance (t.counts clk cpu)).2 := by rw [h.tick_due hdue]
    have heq : t.tc = t.crb ↔ t.tc.toNat = t.crb.toNat := (BitVec.toNat_inj).symm
    constructor
    · rintro ⟨-, hraise⟩ -
      constructor
      · rintro ⟨htop, hshort⟩
        have := (refRaises_crb_iff h.tc_le).mp
          ((hraise .crb).mp (by rw [htick, hcrb]; rw [heq] at htop; omega))
        rw [heq] at htop
        omega
      · rintro ⟨h0, hbelow, hend⟩
        have hbelow : t.cra.toNat ≤ t.tc.toNat := hbelow
        have hposs : t.craPossible := ⟨h0, BitVec.le_def.mpr (by omega)⟩
        have := ((refRaises_cra_iff h.tc_le).mp
          ((hraise .cra).mp (by rw [htick, hcra]; exact ⟨hposs, .inr (.inr hend)⟩))).2
        omega
    · intro hex
      obtain ⟨htop, hfirst⟩ := hex hpos
      refine ⟨hl.tc, fun irq => ?_⟩
      rw [htick]
      cases irq with
      | cra =>
        rw [hcra, refRaises_cra_iff h.tc_le]
        refine and_congr_right fun hposs => ?_
        have hbelow : t.tc.toNat + t.due clk cpu = t.crb.toNat → t.tc.toNat < t.cra.toNat :=
          fun hend => Nat.not_le.mp fun hle => hfirst ⟨hposs.1, hle, hend⟩
        have hle : t.cra.toNat ≤ t.crb.toNat := hposs.2
        omega
      | crb =>
        rw [hcrb, refRaises_crb_iff h.tc_le]
        rw [heq] at htop
        omega

/-! ### A list of ticks -/

/-- The counts due at a later cycle count are those taken by the tick, and those due to
the timer it leaves. -/
theorem TickLeaves.due_add {cpu later : U64} {t' : Timer16bit} (hl : t.TickLeaves clk cpu t')
    (h : t.Counting clk) (hle : cpu ≤ later) :
    t.due clk later = t.due clk cpu + t'.due clk later := by
  have hc : 0 < (t.cpc clk).toNat :=
    Nat.pos_of_ne_zero fun h0 => h.cpc_ne (BitVec.eq_of_toNat_eq h0)
  unfold due
  rw [hl.cpc, hl.nextTickCycle]
  exact Cyclic.due_add hc hle

theorem TickLeaves.refRaises_add {cpu : U64} {t' : Timer16bit} (hl : t.TickLeaves clk cpu t')
    (h : t.Counting clk) {irq : T16Irq} {l : ℕ} :
    t.RefRaises irq (t.due clk cpu + l) ↔
      t.RefRaises irq (t.due clk cpu) ∨ t'.RefRaises irq l := by
  have hcmp : t'.compare irq = t.compare irq := by
    cases irq <;> simp only [compare, hl.cra, hl.crb]
  rw [refRaises_iff h.tc_le, refRaises_iff h.tc_le, refRaises_iff (hl.counting h).tc_le, hcmp,
    hl.crb, hl.tc, toNat_iterate_refCount h.tc_le, ← exists_or]
  refine exists_congr fun c => ?_
  rw [Cyclic.meets_add, and_or_left]

theorem dueAtEnd_cons {cpu : U64} {ts : List U64} (h : t.Counting clk) (hw : t.NoWrap clk cpu)
    (hle : ∀ later ∈ ts, cpu ≤ later) :
    t.dueAtEnd clk (cpu :: ts) = t.due clk cpu + (t.ticked clk cpu).dueAtEnd clk ts := by
  cases hlast : ts.getLast? with
  | none =>
    rw [List.getLast?_eq_none_iff.mp hlast]
    rfl
  | some later =>
    have hcons : (cpu :: ts).getLast? = some later := by
      rw [List.getLast?_cons, hlast]
      rfl
    unfold dueAtEnd
    rw [hlast, hcons]
    exact (h.tick_leaves hw).due_add h (hle later (List.mem_of_getLast? hlast))

/-- **Ticks that do what the reference does add up.** -/
theorem Counting.spanRefines {ts : List U64} (h : t.Counting clk)
    (hmono : ts.Pairwise (· ≤ ·))
    (hw : ActionRun.Along (ticked · clk) (fun t cpu => t.NoWrap clk cpu) t ts)
    (href : ActionRun.Along (ticked · clk) (fun t cpu => t.TickRefines clk cpu) t ts) :
    t.SpanRefines clk ts := by
  induction ts generalizing t with
  | nil => exact ⟨rfl, fun irq => ⟨nofun, fun ⟨_, hj, hj0, _⟩ => absurd hj (Nat.not_lt.mpr hj0)⟩⟩
  | cons cpu ts ih =>
    obtain ⟨hle, hmono⟩ := List.pairwise_cons.mp hmono
    have hl := h.tick_leaves hw.1
    obtain ⟨htc, hraise⟩ := ih (hl.counting h) hmono hw.2 href.2
    have hend := dueAtEnd_cons h hw.1 hle
    constructor
    · rw [hl.crb, hl.tc, ← Function.iterate_add_apply, Nat.add_comm] at htc
      rw [hend]
      exact htc
    · intro irq
      rw [hend, hl.refRaises_add h, ← href.1.2 irq]
      exact List.mem_append.trans (or_congr_right (hraise irq))

/-- **The timer equals the counter it models exactly if the closed form of every tick is
right.** -/
theorem refines_iff (t : Timer16bit) (clk : ClockControl) (ts : List U64) (h : t.Counting clk)
    (hmono : ts.Pairwise (· ≤ ·))
    (hw : ActionRun.Along (ticked · clk) (fun t cpu => t.NoWrap clk cpu) t ts) :
    t.Refines clk ts ↔ ActionRun.Along (ticked · clk) (fun t cpu => t.Exact clk cpu) t ts := by
  have hsteps : ActionRun.Along (ticked · clk) (fun t cpu => t.TickRefines clk cpu) t ts ↔
      ActionRun.Along (ticked · clk) (fun t cpu => t.Exact clk cpu) t ts := by
    clear hmono
    induction ts generalizing t with
    | nil => exact Iff.rfl
    | cons cpu ts ih =>
      exact and_congr (h.tickRefines_iff hw.1) (ih _ ((h.tick_leaves hw.1).counting h) hw.2)
  rw [← hsteps]
  exact ⟨fun h => h.1, fun href => ⟨href, h.spanRefines hmono hw href⟩⟩

/-- A clock that counts every CPU cycle on channel 0. -/
def countingClock : ClockControl := { clkctlT16 := fun _ => 0x08 }

/-- A timer of period 4, on its match. -/
def onMatch : Timer16bit := { ch := 0, cra := 2, crb := 3, tc := 3, ctl := 1 }

theorem onMatch_counting : onMatch.Counting countingClock :=
  ⟨by decide, by decide, by decide, by decide⟩

/-- Ticks that take whole periods are right. -/
theorem refines_iff_onMatch :
    onMatch.Refines countingClock [3, 11] ↔
      ActionRun.Along (ticked · countingClock) (fun t cpu => t.Exact countingClock cpu)
        onMatch [3, 11] :=
  refines_iff onMatch countingClock [3, 11] onMatch_counting (by decide)
    ⟨⟨by decide, by decide⟩, ⟨by decide, by decide⟩, trivial⟩

/-- **The defect**: one count takes the timer from `CRB` to 0, and raises `CRB` again. -/
theorem onMatch_not_refines : ¬onMatch.Refines countingClock [0] := by
  rintro ⟨⟨⟨-, hraise⟩, -⟩, -⟩
  have hcrb := (refRaises_crb_iff (t := onMatch) (by decide)).mp ((hraise .crb).mp (by decide))
  exact absurd hcrb (by decide)

end Timer16bit
