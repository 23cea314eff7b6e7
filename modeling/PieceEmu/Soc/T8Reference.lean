import PieceEmu.Lib.CyclicCounter
import PieceEmu.Lib.Run
import PieceEmu.Soc.WakePoints

/-!
# The 8-bit timer against its reference

The reference timer takes one count at a time: from 0 it goes to its reload value and
raises the interrupt, from anywhere else one down. `Timer8bit.tick` takes all counts that
are due at once, and does with them what the reference does, wherever the counter stands
against the reload value (`Timer8bit.Counting.tickRefines`). Ticks add up, so a span may
be split into ticks in any way (`Timer8bit.refines`).

The point at which the timer says it will raise the interrupt next is right too
(`Timer8bit.wakeExact`): no tick before it raises, and a tick at it does, whatever ticks
came in between.

Both hold up to the end of the 64-bit clock, where the time of the next count, or the
wake point, does not fit any more; and the last value of the clock stands for “never”, so
that it cannot be a wake point.
-/

namespace Timer8bit

/-! ### The reference -/

/-- One count of the reference. -/
def refCount (rld ptd : U8) : U8 := if ptd = 0 then rld else ptd - 1

variable (t : Timer8bit) (clk : ClockControl)

/-- The reference raises the interrupt in one of the next `k` counts. -/
def RefRaises (k : ℕ) : Prop := ∃ j < k, (refCount t.rld)^[j] t.ptd = 0

/-- The counts that are due at a cycle count. -/
def due (cpuCycles : U64) : ℕ :=
  Cyclic.due t.nextTickCycle.toNat (t.cpc clk).toNat cpuCycles.toNat

/-! ### The statement -/

/-- A running timer whose clock is going. -/
structure Counting : Prop where
  ptrun : t.ptrun = true
  cpc_ne : t.cpc clk ≠ 0

/-- The time of the count after those that are due fits into 64 bits. -/
def NoWrap (clk : ClockControl) (t : Timer8bit) (cpuCycles : U64) : Prop :=
  t.nextTickCycle.toNat + t.due clk cpuCycles * (t.cpc clk).toNat < 2 ^ 64

instance (cpuCycles : U64) : Decidable (NoWrap clk t cpuCycles) := Nat.decLt _ _

/-- A tick does what the reference does in the counts that are due. -/
def TickRefines (clk : ClockControl) (t : Timer8bit) (cpuCycles : U64) : Prop :=
  (t.tick clk cpuCycles).1.ptd = (refCount t.rld)^[t.due clk cpuCycles] t.ptd ∧
    ((t.tick clk cpuCycles).2 = true ↔ t.RefRaises (t.due clk cpuCycles))

/-- The timer after a tick. -/
def ticked (clk : ClockControl) (t : Timer8bit) (cpuCycles : U64) : Timer8bit :=
  (t.tick clk cpuCycles).1

/-- One of a list of ticks raises the interrupt. -/
def raisedBy (clk : ClockControl) : Timer8bit → List U64 → Bool
  | _, [] => false
  | t, cpuCycles :: ts => (t.tick clk cpuCycles).2 || raisedBy clk (t.ticked clk cpuCycles) ts

/-- The counts that are due at the end of a list of ticks. -/
def dueAtEnd (ts : List U64) : ℕ := (ts.getLast?.map (t.due clk)).getD 0

/-- The ticks taken together do what the reference does in the counts due at the last
of them, however the span is split. -/
def SpanRefines (ts : List U64) : Prop :=
  (ActionRun.exec (ticked clk) t ts).ptd = (refCount t.rld)^[t.dueAtEnd clk ts] t.ptd ∧
    (raisedBy clk t ts = true ↔ t.RefRaises (t.dueAtEnd clk ts))

/-- **The timer equals the counter it models** over a list of ticks: each tick does, and
so do all of them together. -/
def Refines (ts : List U64) : Prop :=
  ActionRun.Along (ticked clk) (TickRefines clk) t ts ∧
    t.SpanRefines clk ts

/-- **The wake point is right**: it stands for “never” if and only if no ticks, whenever
they come, raise the interrupt; and otherwise no tick before it raises, while a tick at
it does, whatever ticks have come before it. -/
structure WakeExact : Prop where
  never : t.nextWakeCycle clk = Words.uint64Max ↔ ∀ ts, raisedBy clk t ts = false
  least : t.nextWakeCycle clk ≠ Words.uint64Max →
    ∀ ts : List U64, (∀ cpu ∈ ts, cpu < t.nextWakeCycle clk) →
      raisedBy clk t ts = false ∧
        ((ActionRun.exec (ticked clk) t ts).tick clk (t.nextWakeCycle clk)).2 = true

/-- The wake point of a counting timer fits into the clock, and is not its last value,
which stands for “never”. -/
def WakeFits : Prop :=
  t.Counting clk →
    t.nextTickCycle.toNat + t.ptd.toNat * (t.cpc clk).toNat < Words.uint64Max.toNat

/-! ### The reference as a counter that runs down -/

variable {t clk}

theorem toNat_refCount (rld ptd : U8) :
    (refCount rld ptd).toNat = Cyclic.prev rld.toNat ptd.toNat := by
  unfold refCount Cyclic.prev
  rcases eq_or_ne ptd 0 with rfl | hne
  · exact (if_pos rfl).symm
  · have hn : ptd.toNat ≠ 0 := fun he => hne (BitVec.eq_of_toNat_eq he)
    have hle : (1 : U8) ≤ ptd := by
      rw [BitVec.le_def]
      exact Nat.pos_of_ne_zero hn
    rw [if_neg hne, if_neg hn, BitVec.toNat_sub_of_le hle]
    rfl

theorem toNat_iterate_refCount (rld ptd : U8) (k : ℕ) :
    ((refCount rld)^[k] ptd).toNat = (Cyclic.prev rld.toNat)^[k] ptd.toNat := by
  induction k with
  | zero => rfl
  | succ k ih =>
    rw [Function.iterate_succ_apply', Function.iterate_succ_apply', toNat_refCount, ih]

theorem refRaises_iff {k : ℕ} : t.RefRaises k ↔ Cyclic.RunsOut t.rld.toNat t.ptd.toNat k := by
  refine exists_congr fun j => and_congr_right fun _ => ?_
  rw [← toNat_iterate_refCount]
  exact (BitVec.toNat_inj (y := (0 : U8))).symm

/-! ### The closed form -/

theorem toNat_wide (v : U8) : (v.setWidth 64).toNat = v.toNat :=
  BitVec.toNat_setWidth_of_le (by decide)

theorem le_ptd64_iff {n : U64} : n ≤ t.ptd.setWidth 64 ↔ n.toNat ≤ t.ptd.toNat := by
  rw [BitVec.le_def, toNat_wide]

/-- **A batch of counts** is as many counts of the reference. -/
theorem advance_ptd (t : Timer8bit) (n : U64) :
    (t.advance n).1.ptd = (refCount t.rld)^[n.toNat] t.ptd := by
  have hptd := t.ptd.isLt
  have hrld := t.rld.isLt
  apply BitVec.eq_of_toNat_eq
  rw [toNat_iterate_refCount, advance]
  by_cases hle : n ≤ t.ptd.setWidth 64
  · have hn := le_ptd64_iff.mp hle
    have hn8 : (n.setWidth 8).toNat = n.toNat := by
      rw [BitVec.toNat_setWidth]
      exact Nat.mod_eq_of_lt (by omega)
    rw [if_pos hle, Cyclic.iterate_prev_of_le hn]
    dsimp only
    rw [BitVec.toNat_sub_of_le (by rw [BitVec.le_def, hn8]; exact hn), hn8]
  · have hlt : t.ptd.toNat < n.toNat := Nat.lt_of_not_le fun h => hle (le_ptd64_iff.mpr h)
    obtain ⟨k, hk⟩ : ∃ k, n.toNat = t.ptd.toNat + 1 + k := ⟨n.toNat - t.ptd.toNat - 1, by omega⟩
    have hone : (1 : U64).toNat = 1 := rfl
    have hrest : (n - t.ptd.setWidth 64 - 1).toNat = k := by
      rw [BitVec.toNat_sub_of_le, BitVec.toNat_sub_of_le, toNat_wide, hone]
      · omega
      · exact Nat.le_of_lt (by rw [toNat_wide]; exact hlt)
      · rw [BitVec.le_def, BitVec.toNat_sub_of_le, toNat_wide, hone]
        · omega
        · exact Nat.le_of_lt (by rw [toNat_wide]; exact hlt)
    have hperiod : (t.rld.setWidth 64 + 1 : U64).toNat = t.rld.toNat + 1 := by
      rw [BitVec.toNat_add, toNat_wide, hone]
      exact Nat.mod_eq_of_lt (by omega)
    have hmod := Nat.mod_lt k (Nat.succ_pos t.rld.toNat)
    rw [if_neg hle, hk, Cyclic.iterate_prev_add]
    dsimp only
    rw [BitVec.toNat_setWidth, BitVec.toNat_sub_of_le, BitVec.toNat_umod, hrest, hperiod,
      toNat_wide]
    · exact Nat.mod_eq_of_lt (by omega)
    · rw [BitVec.le_def, BitVec.toNat_umod, hrest, hperiod, toNat_wide]
      exact Nat.le_of_lt_succ hmod

/-- **It raises** when there are more counts than the counter stands at. -/
theorem advance_raises_iff (t : Timer8bit) (n : U64) :
    (t.advance n).2 = true ↔ t.ptd.toNat < n.toNat := by
  rw [advance]
  by_cases hle : n ≤ t.ptd.setWidth 64
  · rw [if_pos hle]
    exact iff_of_false Bool.false_ne_true (Nat.not_lt.mpr (le_ptd64_iff.mp hle))
  · rw [if_neg hle]
    exact iff_of_true rfl (Nat.lt_of_not_le fun h => hle (le_ptd64_iff.mpr h))

/-- The counts look at the counter and its reload value, and change the counter. -/
theorem advance_congr (t' t : Timer8bit) (hrld : t'.rld = t.rld) (hptd : t'.ptd = t.ptd)
    (n : U64) : t'.advance n = ({ t' with ptd := (t.advance n).1.ptd }, (t.advance n).2) := by
  rw [advance, advance, hrld, hptd]
  by_cases hle : n ≤ t.ptd.setWidth 64
  · rw [if_pos hle, if_pos hle]
  · rw [if_neg hle, if_neg hle]

/-! ### One tick -/

theorem due_eq_zero_iff {cpu : U64} : t.due clk cpu = 0 ↔ cpu < t.nextTickCycle :=
  Cyclic.due_eq_zero_iff.trans BitVec.lt_def.symm

theorem tick_early {cpu : U64} (hdue : cpu < t.nextTickCycle) : t.tick clk cpu = (t, false) := by
  unfold tick
  rw [if_pos hdue, ite_self]

theorem Counting.cpc_pos (h : t.Counting clk) : 0 < (t.cpc clk).toNat :=
  Nat.pos_of_ne_zero fun h0 => h.cpc_ne (BitVec.eq_of_toNat_eq h0)

theorem toNat_counts {cpu : U64} (hw : t.due clk cpu < 2 ^ 64) (hdue : ¬cpu < t.nextTickCycle) :
    (t.counts clk cpu).toNat = t.due clk cpu :=
  Cyclic.toNat_due hdue hw

theorem Counting.due_lt (h : t.Counting clk) {cpu : U64} (hw : t.NoWrap clk cpu) :
    t.due clk cpu < 2 ^ 64 := by
  refine (Nat.le_mul_of_pos_right _ h.cpc_pos).trans_lt ?_
  exact (Nat.le_add_left _ _).trans_lt hw

/-- What a tick of a counting timer leaves. -/
structure TickLeaves (t : Timer8bit) (clk : ClockControl) (cpu : U64) (t' : Timer8bit) :
    Prop where
  ptrun : t'.ptrun = t.ptrun
  rld : t'.rld = t.rld
  cpc : t'.cpc clk = t.cpc clk
  ptd : t'.ptd = (refCount t.rld)^[t.due clk cpu] t.ptd
  nextTickCycle :
    t'.nextTickCycle.toNat = t.nextTickCycle.toNat + t.due clk cpu * (t.cpc clk).toNat

/-- A tick whose time has come. -/
theorem Counting.tick_due (h : t.Counting clk) {cpu : U64} (hdue : ¬cpu < t.nextTickCycle) :
    t.tick clk cpu =
      ({ t.fillCpc clk with
          nextTickCycle := t.nextTickCycle + t.counts clk cpu * t.cpc clk
          ptd := (t.advance (t.counts clk cpu)).1.ptd },
        (t.advance (t.counts clk cpu)).2) := by
  unfold tick
  rw [h.ptrun, Bool.not_true, if_neg Bool.false_ne_true, if_neg hdue, if_neg h.cpc_ne]
  dsimp only
  refine advance_congr _ t ?_ ?_ _
  · rfl
  · rfl

/-- **A tick does what the reference does**: the counts that are due, and nothing else. -/
theorem Counting.tick_spec (h : t.Counting clk) {cpu : U64} (hw : t.NoWrap clk cpu) :
    t.TickLeaves clk cpu (t.tick clk cpu).1 ∧
      ((t.tick clk cpu).2 = true ↔ t.RefRaises (t.due clk cpu)) := by
  rw [refRaises_iff, Cyclic.runsOut_iff]
  by_cases hdue : cpu < t.nextTickCycle
  · have h0 : t.due clk cpu = 0 := due_eq_zero_iff.mpr hdue
    rw [tick_early hdue, h0]
    refine ⟨⟨rfl, rfl, rfl, by rw [h0]; rfl, by rw [h0, Nat.zero_mul]; rfl⟩, ?_⟩
    exact iff_of_false Bool.false_ne_true (Nat.not_lt_zero _)
  · have hn := toNat_counts (h.due_lt hw) hdue
    rw [h.tick_due hdue]
    refine ⟨⟨rfl, rfl, fillCpc_cpc, ?_, ?_⟩, ?_⟩
    · rw [← hn]
      exact advance_ptd t _
    · exact Cyclic.toNat_next_due hdue h.cpc_pos hw
    · rw [advance_raises_iff, hn]

theorem TickLeaves.counting {cpu : U64} {t' : Timer8bit} (hl : t.TickLeaves clk cpu t')
    (h : t.Counting clk) : t'.Counting clk :=
  ⟨hl.ptrun.trans h.ptrun, hl.cpc ▸ h.cpc_ne⟩

/-! ### A list of ticks -/

theorem TickLeaves.due_add {cpu later : U64} {t' : Timer8bit} (hl : t.TickLeaves clk cpu t')
    (h : t.Counting clk) (hle : cpu ≤ later) :
    t.due clk later = t.due clk cpu + t'.due clk later := by
  unfold due
  rw [hl.cpc, hl.nextTickCycle]
  exact Cyclic.due_add h.cpc_pos hle

theorem dueAtEnd_cons {cpu : U64} {ts : List U64} (h : t.Counting clk) (hw : t.NoWrap clk cpu)
    (hle : ∀ later ∈ ts, cpu ≤ later) :
    t.dueAtEnd clk (cpu :: ts) = t.due clk cpu + (t.ticked clk cpu).dueAtEnd clk ts := by
  cases hlast : ts.getLast? with
  | none =>
    rw [List.getLast?_eq_none_iff.mp hlast]
    rfl
  | some later =>
    have hcons : (cpu :: ts).getLast? = some later := by
      rw [List.getLast?_cons, hlast]
      rfl
    unfold dueAtEnd
    rw [hlast, hcons]
    exact (h.tick_spec hw).1.due_add h (hle later (List.mem_of_getLast? hlast))

/-- Ticks add up. -/
theorem Counting.spanRefines {ts : List U64} (h : t.Counting clk) (hmono : ts.Pairwise (· ≤ ·))
    (hw : ActionRun.Along (ticked clk) (NoWrap clk) t ts) :
    t.SpanRefines clk ts := by
  induction ts generalizing t with
  | nil => exact ⟨rfl, iff_of_false Bool.false_ne_true fun ⟨_, hj, _⟩ => Nat.not_lt_zero _ hj⟩
  | cons cpu ts ih =>
    obtain ⟨hle, hmono⟩ := List.pairwise_cons.mp hmono
    obtain ⟨hl, hraise⟩ := h.tick_spec hw.1
    have hspan : (t.ticked clk cpu).SpanRefines clk ts := ih (hl.counting h) hmono hw.2
    have hend := dueAtEnd_cons h hw.1 hle
    have hrld : (t.ticked clk cpu).rld = t.rld := hl.rld
    have hptd : (t.ticked clk cpu).ptd = (refCount t.rld)^[t.due clk cpu] t.ptd := hl.ptd
    constructor
    · rw [hend, Nat.add_comm, Function.iterate_add_apply, ← hptd, ← hrld]
      exact hspan.1
    · rw [hend, refRaises_iff, Cyclic.runsOut_add, ← toNat_iterate_refCount, ← hptd,
        ← hrld, ← refRaises_iff, raisedBy, Bool.or_eq_true, hraise, hspan.2, hrld, refRaises_iff]

/-- **The timer equals the counter it models**, as long as the time of the next count
fits into the clock. -/
theorem refines (t : Timer8bit) (clk : ClockControl) (ts : List U64) (h : t.Counting clk)
    (hmono : ts.Pairwise (· ≤ ·))
    (hw : ActionRun.Along (ticked clk) (NoWrap clk) t ts) :
    t.Refines clk ts := by
  refine ⟨?_, h.spanRefines hmono hw⟩
  clear hmono
  induction ts generalizing t with
  | nil => trivial
  | cons cpu ts ih =>
    obtain ⟨hl, hraise⟩ := h.tick_spec hw.1
    exact ⟨⟨hl.ptd, hraise⟩, ih _ (hl.counting h) hw.2⟩

/-- A clock at two cycles a count. -/
def halfClock : ClockControl := { clkctlT8 := fun _ => 0x09 }

theorem refines_halfClock :
    ({ ch := 0, ctl := 1, rld := 2, ptd := 1 } : Timer8bit).Refines halfClock [3, 10] :=
  refines _ _ _ ⟨by decide, by decide⟩ (by decide) ⟨by decide +kernel, by decide +kernel, trivial⟩

/-- The first of two ticks at the end of the clock takes the one count that is due, and
leaves the next one behind the end. The second takes this for the past, and raises the
interrupt of a counter that stands at 4. -/
theorem not_refines_uint64Max :
    let t : Timer8bit :=
      { ch := 0, ctl := 1, rld := 2, ptd := 5, nextTickCycle := Words.uint64Max }
    let ts := [Words.uint64Max, Words.uint64Max]
    t.Counting halfClock ∧ ts.Pairwise (· ≤ ·) ∧ ¬t.Refines halfClock ts := by
  refine ⟨⟨by decide, by decide⟩, by decide, fun h => ?_⟩
  have hraised := refRaises_iff.mp (h.2.2.mp (by decide +kernel))
  rw [Cyclic.runsOut_iff] at hraised
  exact absurd hraised (by decide +kernel)

/-! ### The wake point -/

/-- A tick of a timer that does not count at most asks for the cycles of a count. -/
theorem tick_of_not_counting (h : ¬t.Counting clk) (cpu : U64) :
    t.tick clk cpu = (t, false) ∨ t.tick clk cpu = (t.fillCpc clk, false) := by
  unfold tick
  split_ifs with hrun hdue hcpc
  · exact .inl rfl
  · exact .inl rfl
  · exact .inr rfl
  · exact absurd ⟨by simpa using hrun, hcpc⟩ h

/-- A tick does not start a timer, nor its clock. -/
theorem not_counting_ticked (h : ¬t.Counting clk) (cpu : U64) :
    ¬(t.ticked clk cpu).Counting clk := by
  unfold ticked
  rcases tick_of_not_counting h cpu with heq | heq
  · rw [heq]
    exact h
  · rw [heq]
    exact fun hc => h ⟨hc.ptrun, fillCpc_cpc ▸ hc.cpc_ne⟩

theorem raisedBy_of_not_counting (h : ¬t.Counting clk) (ts : List U64) :
    raisedBy clk t ts = false := by
  induction ts generalizing t with
  | nil => rfl
  | cons cpu ts ih =>
    have htick : (t.tick clk cpu).2 = false := by
      rcases tick_of_not_counting h cpu with heq | heq
      · rw [heq]
      · rw [heq]
    rw [raisedBy, htick, Bool.false_or]
    exact ih (not_counting_ticked h cpu)

theorem nextWakeCycle_of_not_counting (h : ¬t.Counting clk) :
    t.nextWakeCycle clk = Words.uint64Max := by
  unfold nextWakeCycle
  split_ifs with hrun hcpc
  · rfl
  · rfl
  · exact absurd ⟨by simpa using hrun, hcpc⟩ h

/-- A timer that counts, with the time at which it is going to raise the interrupt. -/
structure Awaits (t : Timer8bit) (clk : ClockControl) (w : U64) : Prop where
  counting : t.Counting clk
  wake : t.nextTickCycle.toNat + t.ptd.toNat * (t.cpc clk).toNat = w.toNat

theorem Counting.awaits (h : t.Counting clk) (hfits : t.WakeFits clk) :
    t.Awaits clk (t.nextWakeCycle clk) := by
  have hlt := hfits h
  refine ⟨h, ?_⟩
  unfold nextWakeCycle
  rw [h.ptrun, Bool.not_true, if_neg Bool.false_ne_true, if_neg h.cpc_ne, BitVec.toNat_add,
    BitVec.toNat_mul, toNat_wide, Nat.mod_eq_of_lt (a := t.ptd.toNat * (t.cpc clk).toNat),
    Nat.mod_eq_of_lt]
  · exact Nat.lt_trans hlt (by decide)
  · exact ((Nat.le_add_left _ _).trans_lt hlt).trans (by decide)

/-- The counts due before that time leave the counter above 0. -/
theorem Awaits.due_le_ptd_iff {w : U64} (h : t.Awaits clk w) {cpu : U64} :
    t.due clk cpu ≤ t.ptd.toNat ↔ cpu < w := by
  have hpos := h.counting.cpc_pos
  rw [BitVec.lt_def, ← h.wake]
  by_cases hdue : cpu < t.nextTickCycle
  · rw [due_eq_zero_iff.mpr hdue]
    rw [BitVec.lt_def] at hdue
    exact iff_of_true (Nat.zero_le _) (by omega)
  · have hd : t.due clk cpu =
        (cpu.toNat - t.nextTickCycle.toNat) / (t.cpc clk).toNat + 1 := if_neg hdue
    rw [BitVec.lt_def] at hdue
    rw [hd, Nat.add_one_le_iff, Nat.div_lt_iff_lt_mul hpos]
    omega

/-- **A tick before that time** raises nothing, and the time stays where it is. -/
theorem Awaits.tick {w : U64} (h : t.Awaits clk w) {cpu : U64} (hlt : cpu < w) :
    (t.tick clk cpu).2 = false ∧ (t.ticked clk cpu).Awaits clk w := by
  have hle : t.due clk cpu ≤ t.ptd.toNat := h.due_le_ptd_iff.mpr hlt
  have hmul : t.due clk cpu * (t.cpc clk).toNat ≤ t.ptd.toNat * (t.cpc clk).toNat :=
    Nat.mul_le_mul_right _ hle
  have hw : t.NoWrap clk cpu := by
    have hwake := h.wake
    have := w.isLt
    unfold NoWrap
    omega
  obtain ⟨hl, hraise⟩ := h.counting.tick_spec hw
  rw [refRaises_iff, Cyclic.runsOut_iff] at hraise
  refine ⟨Bool.eq_false_iff.mpr fun hr => Nat.not_lt.mpr hle (hraise.mp hr),
    hl.counting h.counting, ?_⟩
  have hptd : (t.ticked clk cpu).ptd.toNat = t.ptd.toNat - t.due clk cpu := by
    rw [← Cyclic.iterate_prev_of_le hle, ← toNat_iterate_refCount]
    exact congrArg BitVec.toNat hl.ptd
  rw [hptd, show (t.ticked clk cpu).cpc clk = t.cpc clk from hl.cpc,
    show (t.ticked clk cpu).nextTickCycle.toNat = _ from hl.nextTickCycle, Nat.sub_mul, ← h.wake]
  omega

/-- One count more than the counter stands at is due at that time. -/
theorem Awaits.due_self {w : U64} (h : t.Awaits clk w) : t.due clk w = t.ptd.toNat + 1 := by
  have hle : t.nextTickCycle.toNat ≤ w.toNat := by
    rw [← h.wake]
    exact Nat.le_add_right _ _
  have hsub : w.toNat - t.nextTickCycle.toNat = t.ptd.toNat * (t.cpc clk).toNat := by
    rw [← h.wake, Nat.add_sub_cancel_left]
  rw [due, Cyclic.due, if_neg (Nat.not_lt.mpr hle), hsub, Nat.mul_div_cancel _ h.counting.cpc_pos]

/-- **A tick at that time** raises the interrupt. -/
theorem Awaits.tick_self {w : U64} (h : t.Awaits clk w) : (t.tick clk w).2 = true := by
  have hptd := t.ptd.isLt
  have hdue : ¬w < t.nextTickCycle := by
    rw [← due_eq_zero_iff, h.due_self]
    exact Nat.succ_ne_zero _
  rw [h.counting.tick_due hdue, advance_raises_iff, toNat_counts _ hdue, h.due_self]
  · exact Nat.lt_succ_self _
  · rw [h.due_self]
    omega

theorem Awaits.ticks {w : U64} (h : t.Awaits clk w) {ts : List U64} (hts : ∀ cpu ∈ ts, cpu < w) :
    raisedBy clk t ts = false ∧ (ActionRun.exec (ticked clk) t ts).Awaits clk w := by
  induction ts generalizing t with
  | nil => exact ⟨rfl, h⟩
  | cons cpu ts ih =>
    obtain ⟨htick, h'⟩ := h.tick (hts cpu List.mem_cons_self)
    obtain ⟨hraised, hend⟩ := ih h' fun later hl => hts later (List.mem_cons_of_mem _ hl)
    rw [raisedBy, htick, hraised]
    exact ⟨rfl, hend⟩

/-- **The wake point is right** wherever it fits. -/
theorem wakeExact (t : Timer8bit) (clk : ClockControl) (h : t.WakeFits clk) :
    t.WakeExact clk := by
  by_cases hcount : t.Counting clk
  · have ha := hcount.awaits h
    have hne : t.nextWakeCycle clk ≠ Words.uint64Max := by
      intro heq
      have hlt := h hcount
      rw [ha.wake, heq] at hlt
      exact Nat.lt_irrefl _ hlt
    refine ⟨iff_of_false hne fun hnever => ?_, fun _ ts hts => ?_⟩
    · have hself := hnever [t.nextWakeCycle clk]
      rw [raisedBy, ha.tick_self] at hself
      exact Bool.noConfusion hself
    · obtain ⟨hraised, hend⟩ := ha.ticks hts
      exact ⟨hraised, hend.tick_self⟩
  · have hwake := nextWakeCycle_of_not_counting hcount
    exact ⟨iff_of_true hwake (raisedBy_of_not_counting hcount), fun hne => absurd hwake hne⟩

theorem wakeExact_halfClock :
    ({ ch := 0, ctl := 1, rld := 2, ptd := 1 } : Timer8bit).WakeExact halfClock :=
  wakeExact _ _ fun _ => by decide +kernel

/-- A counter at 0 whose next count is due in the last cycle of the clock raises the
interrupt there, but its wake point says “never”. -/
theorem not_wakeExact_uint64Max :
    ¬({ ch := 0, ctl := 1, nextTickCycle := Words.uint64Max } : Timer8bit).WakeExact
      halfClock := by
  intro h
  have hself := h.never.mp (by decide) [Words.uint64Max]
  exact absurd hself (by decide +kernel)

end Timer8bit
