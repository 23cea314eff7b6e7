import Mathlib.Order.Bounds.Defs
import PieceEmu.Soc.T16Channel

/-!
# The wake point of the 16-bit timer

`refresh_wake` computes the cycle at which a 16-bit timer is going to raise one of its
compare interrupts, and keeps it until the next write to one of the timer's registers, or
the next tick that counts.

It takes the count that matches to come as many periods after `next_tick_cycle_` as there
are counts left to it. But the first of these counts is due at `next_tick_cycle_` itself,
as `tick` has it (and as the 8-bit timer has it in its own wake point): the match comes one
period earlier. So the wake point of a timer that is going to raise anything is never
right: `T16Channel.wakeExact_iff`. Where it is not refreshed, after a write to the clock
control that starts the clock of a running timer, it does not even announce a match.
-/

namespace Timer16bit

variable (t : Timer16bit) (clk : ClockControl)

/-- **The wake point is right**: it stands for “never” if and only if no ticks, whenever
they come, raise an interrupt; and otherwise it is the first cycle a tick at which raises
one. -/
structure WakeExact : Prop where
  never : t.nextWakeCycle = Timer16bit.never ↔ ∀ ts, raisedBy clk t ts = []
  least : t.nextWakeCycle ≠ Timer16bit.never →
    IsLeast { cpu : U64 | (t.tick clk cpu).2 ≠ [] } t.nextWakeCycle

/-- A timer that is going to raise something: it runs, its clock is going, and one of the
compare values is set. -/
structure Armed : Prop where
  prun : t.prun = true
  cpc_ne : t.cpc clk ≠ 0
  compare : t.cra ≠ 0 ∨ t.crb ≠ 0

/-- The wake point is the one that would be computed now. -/
def Fresh : Prop := t.cachedWake = (t.refreshWake clk).cachedWake

/-! ### What a number of counts raises -/

/-- What a tick that takes `n` counts raises. -/
def raised (n : U64) : List T16Irq :=
  if t.crb ≠ 0 then (t.advance n).2 else if t.cra = 0 then [] else (freeRun n.toNat t).2

variable {t clk}

/-- The counts look at the counter and the compare value, and change the counter. -/
theorem freeRun_congr (n : ℕ) {t t' : Timer16bit} (htc : t'.tc = t.tc) (hcra : t'.cra = t.cra) :
    (freeRun n t').2 = (freeRun n t).2 := by
  induction n generalizing t t' with
  | zero => rfl
  | succ n ih =>
    have hrest : (freeRun n { t' with tc := t'.tc + 1 }).2 =
        (freeRun n { t with tc := t.tc + 1 }).2 := ih (congrArg (· + 1) htc) hcra
    unfold freeRun
    dsimp only
    rw [hrest, htc, hcra]

theorem tick_raised (hrun : t.prun = true) {cpu : U64} (hdue : ¬cpu < t.nextTickCycle)
    (hcpc : t.cpc clk ≠ 0) : (t.tick clk cpu).2 = t.raised (t.counts clk cpu) := by
  unfold tick raised
  rw [hrun, Bool.not_true, if_neg Bool.false_ne_true, if_neg hdue, if_neg hcpc]
  dsimp only
  have hcra : (t.fillCpc clk).cra = t.cra := rfl
  have hcrb : (t.fillCpc clk).crb = t.crb := rfl
  rw [hcra, hcrb]
  split_ifs
  · rfl
  · rfl
  · exact freeRun_congr _ rfl rfl

theorem freeRun_raises {n : ℕ} {t : Timer16bit} (hcra : t.cra ≠ 0) (hn : n ≠ 0)
    (hend : t.tc + BitVec.ofNat 16 n = t.cra) : (freeRun n t).2 ≠ [] := by
  induction n generalizing t with
  | zero => exact absurd rfl hn
  | succ n ih =>
    unfold freeRun
    dsimp only
    by_cases hnow : t.tc + 1 = t.cra
    · rw [if_pos ⟨hcra, hnow⟩]
      exact List.cons_ne_nil _ _
    · have hn' : n ≠ 0 := by
        rintro rfl
        exact hnow hend
      have hend' : t.tc + 1 + BitVec.ofNat 16 n = t.cra := by
        rw [← hend, Nat.add_comm, BitVec.ofNat_add, BitVec.add_assoc]
        rfl
      rw [if_neg fun h => hnow h.2, List.nil_append]
      exact ih (t := { t with tc := t.tc + 1 }) hcra hn' hend'

/-- With `CRB` set, a match of it is raised, and one of `CRA` on the way there. -/
theorem raised_ne_nil {n : U64} (hcrb : t.crb ≠ 0) (hn : t.tc.toNat + n.toNat < 2 ^ 64)
    (h : t.crb.toNat ≤ t.tc.toNat + n.toNat ∨ t.cra ≠ 0 ∧ t.tc.toNat < t.cra.toNat ∧
      t.cra.toNat ≤ t.tc.toNat + n.toNat) : t.raised n ≠ [] := by
  unfold raised
  rw [if_pos hcrb]
  by_cases hb : t.crb.toNat ≤ t.tc.toNat + n.toNat
  · exact List.ne_nil_of_mem ((crb_mem_advance_iff hn hcrb).mpr hb)
  · obtain ⟨h0, hlt, hle⟩ := h.resolve_left hb
    have hposs : t.craPossible := ⟨h0, BitVec.le_def.mpr (by omega)⟩
    have htc : t.tc ≤ t.crb := BitVec.le_def.mpr (by omega)
    exact List.ne_nil_of_mem ((cra_mem_advance_iff hn hcrb htc).mpr ⟨hposs, .inl ⟨hlt, hle⟩⟩)

/-- A number of counts that raise something, one of those the wake point goes by. -/
structure IsMatch (t : Timer16bit) (k : U64) : Prop where
  pos : 1 ≤ k.toNat
  lt : k.toNat < 2 ^ 18
  raises : t.raised k ≠ []

theorem toNat_wide (v : U16) : (v.setWidth 64 : U64).toNat = v.toNat :=
  BitVec.toNat_setWidth_of_le (by decide)

theorem crb_le_countsToCrb : t.crb.toNat ≤ t.tc.toNat + t.countsToCrb.toNat := by
  unfold countsToCrb
  split_ifs with hc
  · rw [BitVec.lt_def] at hc
    rw [BitVec.toNat_sub_of_le (by rw [BitVec.le_def, toNat_wide, toNat_wide]; omega),
      toNat_wide, toNat_wide]
    omega
  · rw [toNat_wide]
    omega

theorem isMatch_crb (hcrb : t.crb ≠ 0) : t.IsMatch t.countsToCrb := by
  obtain ⟨hpos, hlt⟩ := toNat_countsToCrb hcrb
  have := t.tc.isLt
  exact ⟨hpos, by omega, raised_ne_nil hcrb (by omega) (.inl crb_le_countsToCrb)⟩

/-- The counts to `CRA` lead up to it, or once around. -/
theorem toNat_countsToCra_of_lt (h : t.tc < t.cra) :
    t.tc.toNat + t.countsToCra.toNat = t.cra.toNat := by
  unfold countsToCra
  rw [if_pos h]
  rw [BitVec.lt_def] at h
  rw [BitVec.toNat_sub_of_le (by rw [BitVec.le_def, toNat_wide, toNat_wide]; omega),
    toNat_wide, toNat_wide]
  omega

theorem toNat_countsToCra_of_around (h : ¬t.tc < t.cra) (hb : ¬(t.crb ≠ 0 ∧ t.cra ≤ t.crb)) :
    t.tc.toNat + t.countsToCra.toNat = 2 ^ 16 + t.cra.toNat := by
  have htc := t.tc.isLt
  have hcra := t.cra.isLt
  have htop : (0x10000 : U64).toNat = 2 ^ 16 := rfl
  unfold countsToCra
  rw [if_neg h, if_neg hb, BitVec.toNat_add, BitVec.toNat_sub_of_le, toNat_wide, toNat_wide, htop]
  · omega
  · rw [BitVec.le_def, toNat_wide, htop]
    omega

theorem crb_le_countsToCra (h : ¬t.tc < t.cra) (hcrb : t.crb ≠ 0) :
    t.crb.toNat ≤ t.tc.toNat + t.countsToCra.toNat := by
  have hb := crb_le_countsToCrb (t := t)
  have hlt := (toNat_countsToCrb hcrb).2
  have hcra := t.cra.isLt
  by_cases hle : t.cra ≤ t.crb
  · unfold countsToCra
    rw [if_neg h, if_pos ⟨hcrb, hle⟩, BitVec.toNat_add, toNat_wide]
    omega
  · rw [BitVec.lt_def] at h
    rw [BitVec.le_def] at hle
    omega

theorem isMatch_cra (hcra : t.cra ≠ 0) : t.IsMatch t.countsToCra := by
  obtain ⟨hpos, hlt⟩ := toNat_countsToCra hcra
  have htc := t.tc.isLt
  refine ⟨hpos, hlt, ?_⟩
  by_cases hcrb : t.crb ≠ 0
  · refine raised_ne_nil hcrb (by omega) ?_
    by_cases hbelow : t.tc < t.cra
    · exact .inr ⟨hcra, hbelow, Nat.le_of_eq (toNat_countsToCra_of_lt hbelow).symm⟩
    · exact .inl (crb_le_countsToCra hbelow hcrb)
  · -- free running, modulo `2 ^ 16`
    have hmod : (t.tc.toNat + t.countsToCra.toNat) % 2 ^ 16 = t.cra.toNat := by
      have := t.cra.isLt
      by_cases hbelow : t.tc < t.cra
      · rw [toNat_countsToCra_of_lt hbelow]
        omega
      · rw [toNat_countsToCra_of_around hbelow fun h => hcrb h.1]
        omega
    unfold raised
    rw [if_neg hcrb, if_neg hcra]
    refine freeRun_raises hcra (Nat.ne_of_gt hpos) (BitVec.eq_of_toNat_eq ?_)
    rw [BitVec.toNat_add, BitVec.toNat_ofNat, Nat.add_mod_mod, hmod]

/-! ### A wake point that is refreshed -/

theorem stdMin_never_left (x : U64) : Words.stdMin never x = x := by
  rcases Words.stdMin_eq never x with h | h
  · have hle := Words.stdMin_le_right never x
    rw [h] at hle ⊢
    exact (BitVec.le_antisymm (BitVec.le_def.mpr (Nat.le_of_lt_succ x.isLt)) hle).symm
  · exact h

theorem stdMin_never_right (x : U64) : Words.stdMin x never = x := by
  unfold Words.stdMin
  exact if_neg (BitVec.not_lt.mpr (BitVec.le_def.mpr (Nat.le_of_lt_succ x.isLt)))

/-- It is computed from the counts to a match, one period too many. -/
theorem exists_isMatch (h : t.cra ≠ 0 ∨ t.crb ≠ 0) (cpc : U64) :
    ∃ k, t.IsMatch k ∧ t.nextMatch cpc = t.nextTickCycle + k * cpc := by
  unfold nextMatch
  by_cases hcra : t.cra ≠ 0
  · by_cases hcrb : t.crb ≠ 0
    · dsimp only
      rw [if_pos hcra, if_pos hcrb]
      rcases Words.stdMin_eq (t.nextTickCycle + t.countsToCrb * cpc)
        (t.nextTickCycle + t.countsToCra * cpc) with hmin | hmin
      · exact ⟨_, isMatch_crb hcrb, hmin⟩
      · exact ⟨_, isMatch_cra hcra, hmin⟩
    · dsimp only
      rw [if_pos hcra, if_neg hcrb, stdMin_never_left]
      exact ⟨_, isMatch_cra hcra, rfl⟩
  · have hcrb := h.resolve_left hcra
    dsimp only
    rw [if_neg hcra, if_pos hcrb, stdMin_never_right]
    exact ⟨_, isMatch_crb hcrb, rfl⟩

theorem Armed.refreshWake_cachedWake (h : t.Armed clk) :
    (t.refreshWake clk).cachedWake = t.nextMatch (t.cpc clk) := by
  have hfill : (t.fillCpc clk).cachedCpc = t.cpc clk := rfl
  unfold refreshWake
  dsimp only
  rw [h.prun, Bool.not_true, if_neg Bool.false_ne_true, hfill, if_neg h.cpc_ne]
  rfl

theorem refreshWake_of_not_armed (h : ¬t.Armed clk) : (t.refreshWake clk).cachedWake = never := by
  have hfill : (t.fillCpc clk).cachedCpc = t.cpc clk := rfl
  unfold refreshWake
  dsimp only
  rw [hfill]
  split_ifs with hrun hcpc
  · rfl
  · rfl
  · have hcmp : ¬(t.cra ≠ 0 ∨ t.crb ≠ 0) := fun hc => h ⟨by simpa using hrun, hcpc, hc⟩
    have hcra : ¬(t.fillCpc clk).cra ≠ 0 := fun hne => hcmp (.inl hne)
    have hcrb : ¬(t.fillCpc clk).crb ≠ 0 := fun hne => hcmp (.inr hne)
    unfold nextMatch
    dsimp only
    rw [if_neg hcra, if_neg hcrb, stdMin_never_left]

theorem armed_refreshWake : (t.refreshWake clk).Armed clk ↔ t.Armed clk := by
  constructor
  · rintro ⟨hrun, hcpc, hcmp⟩
    rw [refreshWake_prun] at hrun
    rw [refreshWake_cpc] at hcpc
    rw [refreshWake_cra, refreshWake_crb] at hcmp
    exact ⟨hrun, hcpc, hcmp⟩
  · rintro ⟨hrun, hcpc, hcmp⟩
    refine ⟨?_, ?_, ?_⟩
    · rw [refreshWake_prun]
      exact hrun
    · rw [refreshWake_cpc]
      exact hcpc
    · rw [refreshWake_cra, refreshWake_crb]
      exact hcmp

theorem nextMatch_refreshWake (cpc : U64) :
    (t.refreshWake clk).nextMatch cpc = t.nextMatch cpc := by
  unfold refreshWake
  dsimp only
  split_ifs <;> rfl

theorem fresh_refreshWake : (t.refreshWake clk).Fresh clk := by
  unfold Fresh
  by_cases h : t.Armed clk
  · rw [h.refreshWake_cachedWake, (armed_refreshWake.mpr h).refreshWake_cachedWake,
      nextMatch_refreshWake, refreshWake_cpc]
  · rw [refreshWake_of_not_armed h, refreshWake_of_not_armed (mt armed_refreshWake.mp h)]

theorem cachedCpc_refreshWake_lt (h : t.cachedCpc.toNat < 2 ^ 32) :
    (t.refreshWake clk).cachedCpc.toNat < 2 ^ 32 := by
  unfold refreshWake
  dsimp only
  split_ifs
  · exact h
  · exact cpc_lt h
  · exact cpc_lt h

theorem Armed.cpc_pos (h : t.Armed clk) : 0 < (t.cpc clk).toNat :=
  Nat.pos_of_ne_zero fun h0 => h.cpc_ne (BitVec.eq_of_toNat_eq h0)

/-- **The first count is due at once**: the match comes one period before the wake point
that is computed from it. -/
theorem Armed.raises (h : t.Armed clk) {k cpu : U64} (hk : t.IsMatch k)
    (hcpu : cpu.toNat = t.nextTickCycle.toNat + (k.toNat - 1) * (t.cpc clk).toNat) :
    (t.tick clk cpu).2 ≠ [] := by
  have hle : t.nextTickCycle ≤ cpu := by
    rw [BitVec.le_def, hcpu]
    exact Nat.le_add_right _ _
  have hone : (1 : U64).toNat = 1 := rfl
  have hcounts : t.counts clk cpu = k := by
    apply BitVec.eq_of_toNat_eq
    unfold counts
    rw [BitVec.toNat_add, BitVec.toNat_udiv, BitVec.toNat_sub_of_le hle, hcpu,
      Nat.add_sub_cancel_left, Nat.mul_div_cancel _ h.cpc_pos, hone, Nat.sub_add_cancel hk.pos]
    exact Nat.mod_eq_of_lt k.isLt
  rw [tick_raised h.prun (BitVec.not_lt.mpr hle) h.cpc_ne, hcounts]
  exact hk.raises

theorem IsMatch.mul_lt {k : U64} (hk : t.IsMatch k) (hcpc : (t.cpc clk).toNat < 2 ^ 32) :
    k.toNat * (t.cpc clk).toNat < 2 ^ 50 :=
  (Nat.mul_lt_mul'' hk.lt hcpc).trans_eq (by decide)

/-- **A refreshed wake point is not right** where there is something to raise. -/
theorem Armed.not_wakeExact (h : t.Armed clk) (hcpc : (t.cpc clk).toNat < 2 ^ 32)
    (hfresh : t.Fresh clk) (hne : t.cachedWake ≠ never) : ¬t.WakeExact clk := by
  intro hexact
  obtain ⟨hraises, hleast⟩ := hexact.least hne
  obtain ⟨k, hk, hmatch⟩ := exists_isMatch h.compare (t.cpc clk)
  have hwake : t.nextWakeCycle = t.nextTickCycle + k * t.cpc clk :=
    hfresh.trans (h.refreshWake_cachedWake.trans hmatch)
  have hmul := hk.mul_lt hcpc
  have hpos := h.cpc_pos
  have hge : ¬t.nextWakeCycle < t.nextTickCycle := by
    intro hlt
    exact hraises (congrArg Prod.snd (tick_early hlt))
  -- it lies behind the next count, so that it has not wrapped
  have htoNat : t.nextWakeCycle.toNat =
      t.nextTickCycle.toNat + k.toNat * (t.cpc clk).toNat := by
    rw [BitVec.lt_def, hwake, BitVec.toNat_add, BitVec.toNat_mul] at hge
    rw [hwake, BitVec.toNat_add, BitVec.toNat_mul]
    omega
  have hsub : (t.nextWakeCycle - t.cpc clk).toNat =
      t.nextTickCycle.toNat + (k.toNat - 1) * (t.cpc clk).toNat := by
    have hle : (t.cpc clk).toNat ≤ k.toNat * (t.cpc clk).toNat :=
      Nat.le_mul_of_pos_left _ hk.pos
    rw [BitVec.toNat_sub_of_le (by rw [BitVec.le_def, htoNat]; omega), htoNat, Nat.sub_mul,
      Nat.one_mul, Nat.add_sub_assoc hle]
  have hearlier := hleast (h.raises hk hsub)
  rw [BitVec.le_def, hsub, htoNat, Nat.sub_mul, Nat.one_mul] at hearlier
  have hle : (t.cpc clk).toNat ≤ k.toNat * (t.cpc clk).toNat := Nat.le_mul_of_pos_left _ hk.pos
  omega

/-! ### A timer that is going to raise something -/

/-- A tick of an armed timer whose time has come leaves it armed. -/
theorem Armed.ticked (h : t.Armed clk) {cpu : U64} (hdue : ¬cpu < t.nextTickCycle) :
    (t.ticked clk cpu).Armed clk ∧ (t.ticked clk cpu).cpc clk = t.cpc clk ∧
      (t.ticked clk cpu).nextTickCycle =
        t.nextTickCycle + t.counts clk cpu * t.cpc clk := by
  obtain ⟨tc, htick⟩ := tick_counted h.prun hdue h.cpc_ne
  have hcpc : (t.ticked clk cpu).cpc clk = t.cpc clk := by
    unfold Timer16bit.ticked
    rw [htick, refreshWake_cpc]
    exact fillCpc_cpc
  refine ⟨⟨?_, hcpc ▸ h.cpc_ne, ?_⟩, hcpc, ?_⟩
  · unfold Timer16bit.ticked
    rw [htick, refreshWake_prun]
    exact h.prun
  · unfold Timer16bit.ticked
    rw [htick, refreshWake_cra, refreshWake_crb]
    exact h.compare
  · unfold Timer16bit.ticked
    rw [htick, refreshWake_nextTickCycle]

/-- A tick in the last cycle of the clock moves the next count to its beginning. -/
theorem Armed.ticked_never (h : t.Armed clk) (hcpc : (t.cpc clk).toNat < 2 ^ 32)
    (hnext : 2 ^ 64 - 2 ^ 50 ≤ t.nextTickCycle.toNat) :
    (t.ticked clk never).nextTickCycle.toNat < 2 ^ 32 := by
  have hlast : never.toNat = 2 ^ 64 - 1 := rfl
  have hle : t.nextTickCycle.toNat ≤ never.toNat := Nat.le_of_lt_succ t.nextTickCycle.isLt
  have hdue : ¬never < t.nextTickCycle := BitVec.not_lt.mpr hle
  have hd : Cyclic.due t.nextTickCycle.toNat (t.cpc clk).toNat never.toNat =
      (never.toNat - t.nextTickCycle.toNat) / (t.cpc clk).toNat + 1 := if_neg (Nat.not_lt.mpr hle)
  have hlow : never.toNat < t.nextTickCycle.toNat + _ * (t.cpc clk).toNat :=
    Cyclic.lt_next_due h.cpc_pos
  have hhigh : t.nextTickCycle.toNat + _ * (t.cpc clk).toNat ≤ _ := Cyclic.next_due_le hle
  rw [hd] at hlow hhigh
  have hdiv : (never.toNat - t.nextTickCycle.toNat) / (t.cpc clk).toNat ≤
      never.toNat - t.nextTickCycle.toNat := Nat.div_le_self ..
  have hone : (1 : U64).toNat = 1 := rfl
  have hcounts : (t.counts clk never).toNat =
      (never.toNat - t.nextTickCycle.toNat) / (t.cpc clk).toNat + 1 := by
    unfold counts
    rw [BitVec.toNat_add, BitVec.toNat_udiv, BitVec.toNat_sub_of_le hle, hone]
    exact Nat.mod_eq_of_lt (show _ + 1 < 2 ^ 64 by omega)
  rw [(h.ticked hdue).2.2, BitVec.toNat_add, BitVec.toNat_mul, hcounts]
  omega

/-- Some ticks make an armed timer raise an interrupt. -/
theorem Armed.exists_raisedBy (h : t.Armed clk) (hcpc : (t.cpc clk).toNat < 2 ^ 32) :
    ∃ ts, raisedBy clk t ts ≠ [] := by
  -- one tick will do, as long as its cycle count fits into the clock
  have hone (t : Timer16bit) (h : t.Armed clk) (hcpc : (t.cpc clk).toNat < 2 ^ 32)
      (hnext : t.nextTickCycle.toNat < 2 ^ 64 - 2 ^ 50) : ∃ ts, raisedBy clk t ts ≠ [] := by
    obtain ⟨k, hk, -⟩ := exists_isMatch h.compare 0
    have hmul := hk.mul_lt hcpc
    have hle : (k.toNat - 1) * (t.cpc clk).toNat ≤ k.toNat * (t.cpc clk).toNat :=
      Nat.mul_le_mul_right _ (Nat.sub_le _ _)
    refine ⟨[BitVec.ofNat 64 (t.nextTickCycle.toNat + (k.toNat - 1) * (t.cpc clk).toNat)], ?_⟩
    rw [raisedBy, raisedBy, List.append_nil]
    refine h.raises hk ?_
    rw [BitVec.toNat_ofNat]
    exact Nat.mod_eq_of_lt (by omega)
  by_cases hnext : t.nextTickCycle.toNat < 2 ^ 64 - 2 ^ 50
  · exact hone t h hcpc hnext
  -- else the last cycle of the clock moves the next count to its beginning
  by_cases hlast : (t.tick clk never).2 = []
  · have hdue : ¬never < t.nextTickCycle :=
      BitVec.not_lt.mpr (BitVec.le_def.mpr (Nat.le_of_lt_succ t.nextTickCycle.isLt))
    obtain ⟨harmed, hcpc', -⟩ := h.ticked hdue
    obtain ⟨ts, hts⟩ := hone (t.ticked clk never) harmed (hcpc' ▸ hcpc)
      ((h.ticked_never hcpc (Nat.not_lt.mp hnext)).trans (by decide))
    refine ⟨never :: ts, ?_⟩
    rw [raisedBy, hlast, List.nil_append]
    exact hts
  · refine ⟨[never], ?_⟩
    rw [raisedBy, raisedBy, List.append_nil]
    exact hlast

/-- **“Never” is wrong** of a timer that is going to raise something. -/
theorem Armed.not_wakeExact_never (h : t.Armed clk) (hcpc : (t.cpc clk).toNat < 2 ^ 32)
    (hnever : t.cachedWake = never) : ¬t.WakeExact clk := by
  intro hexact
  obtain ⟨ts, hts⟩ := h.exists_raisedBy hcpc
  exact hts (hexact.never.mp hnever ts)

/-! ### A timer with nothing to raise -/

theorem tick_of_not_armed (h : ¬t.Armed clk) (cpu : U64) :
    (t.tick clk cpu).2 = [] ∧ ¬(t.ticked clk cpu).Armed clk := by
  by_cases hcount : t.prun = true ∧ ¬cpu < t.nextTickCycle ∧ t.cpc clk ≠ 0
  · obtain ⟨hrun, hdue, hcpc⟩ := hcount
    have hcmp : ¬(t.cra ≠ 0 ∨ t.crb ≠ 0) := fun hc => h ⟨hrun, hcpc, hc⟩
    constructor
    · rw [tick_raised hrun hdue hcpc]
      unfold raised
      rw [if_neg fun hne => hcmp (.inr hne), if_pos (not_not.mp fun hne => hcmp (.inl hne))]
    · obtain ⟨tc, htick⟩ := tick_counted hrun hdue hcpc
      intro harmed
      have hcmp' := harmed.compare
      unfold ticked at hcmp'
      rw [htick, refreshWake_cra, refreshWake_crb] at hcmp'
      exact hcmp hcmp'
  · unfold ticked
    rcases tick_of_not_counted hcount with heq | heq
    · rw [heq]
      exact ⟨rfl, h⟩
    · rw [heq]
      exact ⟨rfl, fun ha => h ⟨ha.prun, fillCpc_cpc ▸ ha.cpc_ne, ha.compare⟩⟩

theorem raisedBy_of_not_armed (h : ¬t.Armed clk) (ts : List U64) : raisedBy clk t ts = [] := by
  induction ts generalizing t with
  | nil => rfl
  | cons cpu ts ih =>
    obtain ⟨hnil, h'⟩ := tick_of_not_armed h cpu
    rw [raisedBy, hnil, ih h', List.append_nil]

theorem wakeExact_of_not_armed (h : ¬t.Armed clk) (hnever : t.cachedWake = never) :
    t.WakeExact clk :=
  ⟨iff_of_true hnever (raisedBy_of_not_armed h), fun hne => absurd hnever hne⟩

end Timer16bit

/-! ### Runs -/

namespace T16Channel

open Timer16bit

/-- The steps that leave the channel with nothing to raise: stopped, without a clock, or
with neither of the compare values set. -/
def Disarms (s : T16Channel) (op : Op) : Prop := ¬(s.step op).timer.Armed (s.step op).clk

/-- What the channel keeps as long as it has nothing to raise. -/
structure Idle (s : T16Channel) : Prop where
  not_armed : ¬s.timer.Armed s.clk
  never : s.timer.cachedWake = Timer16bit.never
  cachedCpc : s.timer.cachedCpc.toNat < 2 ^ 32

/-- A step of an idle channel refreshes its wake point, or leaves it at “never”. -/
structure Refreshed (s : T16Channel) : Prop where
  wake : s.timer.cachedWake = Timer16bit.never ∨ s.timer.Fresh s.clk
  cachedCpc : s.timer.cachedCpc.toNat < 2 ^ 32

theorem refreshed_refreshWake {t : Timer16bit} {clk : ClockControl}
    (hcpc : t.cachedCpc.toNat < 2 ^ 32) :
    ({ timer := t.refreshWake clk, clk := clk } : T16Channel).Refreshed :=
  ⟨.inr fresh_refreshWake, cachedCpc_refreshWake_lt hcpc⟩

theorem Idle.step {s : T16Channel} (h : s.Idle) (op : Op) : (s.step op).Refreshed := by
  have hcached := h.cachedCpc
  cases op with
  | writeCra v => exact refreshed_refreshWake hcached
  | writeCrb v => exact refreshed_refreshWake hcached
  | writeTc v => exact refreshed_refreshWake hcached
  | writeCtl v =>
    change ({ s with timer := s.timer.writeCtl s.clk v } : T16Channel).Refreshed
    unfold Timer16bit.writeCtl
    refine refreshed_refreshWake ?_
    dsimp only
    split_ifs <;> exact hcached
  | writeClk addr val => exact ⟨.inl h.never, hcached⟩
  | setP07 slow => exact ⟨.inl h.never, hcached⟩
  | reset => exact ⟨.inl rfl, Nat.two_pow_pos 32⟩
  | resetClk => exact ⟨.inl h.never, hcached⟩
  | tick cpu =>
    change ({ s with timer := (s.timer.tick s.clk cpu).1 } : T16Channel).Refreshed
    rcases tick_cases s.timer s.clk cpu with heq | heq | ⟨tc, next, heq⟩
    · rw [heq]
      exact ⟨.inl h.never, hcached⟩
    · rw [heq]
      exact ⟨.inl h.never, cpc_lt hcached⟩
    · rw [heq]
      exact refreshed_refreshWake (cpc_lt hcached)

theorem Refreshed.idle {s : T16Channel} (h : s.Refreshed) (hdis : ¬s.timer.Armed s.clk) :
    s.Idle := by
  refine ⟨hdis, ?_, h.cachedCpc⟩
  rcases h.wake with hnever | hfresh
  · exact hnever
  · exact hfresh.trans (refreshWake_of_not_armed hdis)

theorem Idle.wakeExact_timer {s : T16Channel} (h : s.Idle) : s.timer.WakeExact s.clk :=
  wakeExact_of_not_armed h.not_armed h.never

theorem wakeExact_step_iff {s : T16Channel} (h : s.Idle) (op : Op) :
    (s.step op).timer.WakeExact (s.step op).clk ↔ s.Disarms op := by
  have ⟨hwake, hcached⟩ := h.step op
  constructor
  · intro hexact harmed
    by_cases hnever : (s.step op).timer.cachedWake = Timer16bit.never
    · exact harmed.not_wakeExact_never (cpc_lt hcached) hnever hexact
    · exact harmed.not_wakeExact (cpc_lt hcached) (hwake.resolve_left hnever) hnever hexact
  · intro hdis
    exact ((h.step op).idle hdis).wakeExact_timer

/-- **The wake point is right** all along a run if and only if the channel never has
anything to raise. -/
theorem wakeExact_iff (ch : Fin 6) (ops : List Op) :
    (∀ run, run <+: ops → (ActionRun.exec step (powerOn ch) run).timer.WakeExact
        (ActionRun.exec step (powerOn ch) run).clk) ↔
      ActionRun.Along step Disarms (powerOn ch) ops :=
  ActionRun.along_iff_forall_prefix_of (I := Idle) (P := fun s => s.timer.WakeExact s.clk)
    (fun _ h => h.wakeExact_timer) (fun _ op h => wakeExact_step_iff h op)
    (fun _ op h hdis => (h.step op).idle hdis)
    ⟨fun h => Bool.false_ne_true ((BitVec.getLsbD_zero (w := 8)).symm.trans h.prun), rfl,
      Nat.two_pow_pos 32⟩

/-- **The defect**: a counter at 0 that counts every cycle comes to 30 with the count that
is due at cycle 29, and its wake point is 30. -/
theorem not_wakeExact_crb :
    let s := ActionRun.exec step (powerOn 0) [.writeClk 0x040147 0x08, .writeCrb 30, .writeCtl 1]
    ¬s.timer.WakeExact s.clk := by
  intro s hexact
  have hleast := (hexact.least (by decide +kernel)).2
  have hraises : (s.timer.tick s.clk 29).2 ≠ [] := by decide +kernel
  exact absurd (hleast hraises) (by decide +kernel)

end T16Channel
