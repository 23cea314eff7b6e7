import PieceEmu.Lib.Run
import PieceEmu.System.DisplayDma

/-!
# The two copies of a DMA channel

Channels 0 and 1 of the DMA are kept twice: as the raw registers a program reads back, in
which a counter and an address share their words with control bits, and as the state the
transfers work on, which is the counter and the address alone. Every register handler
latches the second from the first. A transfer and a completion go the other way, and write
back what has no control bits over what has some; and the address a transfer ends at may
not fit in its 28 bits.

`DmaHistory.faithful_iff` says exactly when the copies agree all along a run and the
control bits stay as the program has written them. What the program has written is kept
beside the channels, as the registers would be if there were no transfers. The bytes of a
transfer are left out there, as they do not matter to the DMA; where a transfer reads the
bus, the DMA goes through the same states (`DmaHistory.hsdma_exec_onBus`).
-/

namespace Hsdma

/-- `do_ch0_inline`, as far as the DMA is concerned: what is read and sent does not matter
to it. -/
def inlineCh0 (h : Hsdma) : Hsdma :=
  if h.ch0.en = true ∧ 0 < h.ch0.cnt then inlineCh0 (DisplayPeripherals.advanceCh0 h.ch0 h)
  else h
termination_by h.ch0.cnt.toNat
decreasing_by
  rename_i h'
  rw [DisplayPeripherals.ch0_advanceCh0]
  have hpos : 0 < h.ch0.cnt.toNat := h'.2
  bv_omega

end Hsdma

/-- What can happen to the DMA: a halfword of a channel is written, a byte to the display
starts an inline transfer, the sound completes its buffer, or the board is reset. -/
inductive DmaAct
  | write (ch : Fin 4) (r : DmaReg) (v : U16)
  | inlineCh0
  | finishCh1
  | reset

/-- The DMA, and what the program has written to it. -/
structure DmaHistory where
  hsdma : Hsdma := {}
  /-- The DMA as it would be if there were no transfers and no completions. -/
  program : Hsdma := {}

/-- The state transfers work on, as the handlers latch it from the raw registers. -/
structure ChanRegs.Latched (raw : ChanRegs) (live : ChanLive) : Prop where
  en : live.en = raw.en.getLsbD 0
  cnt : live.cnt = raw.cnt &&& 0x00FFFFFF
  sadr : live.sadr = raw.sadr &&& 0x0FFFFFFF

/-- **What a transfer may change** of the registers a program has written: the counter in
`rCNT`, the address in `rSADR` and the enable bit. -/
structure ChanRegs.Counted (written raw : ChanRegs) : Prop where
  cnt : raw.cnt >>> 24 = written.cnt >>> 24
  sadr : raw.sadr >>> 28 = written.sadr >>> 28
  dadr : raw.dadr = written.dadr
  en : raw.en &&& ~~~1 = written.en &&& ~~~1
  tf : raw.tf = written.tf

namespace DmaHistory

open ChanRegs

variable (s : DmaHistory)

/-- One action. -/
def step : DmaAct → DmaHistory
  | .write ch r v => ⟨r.write ch v s.hsdma, r.write ch v s.program⟩
  | .inlineCh0 => { s with hsdma := s.hsdma.inlineCh0 }
  | .finishCh1 => { s with hsdma := s.hsdma.finishCh1 }
  | .reset => ⟨s.hsdma.reset, s.program.reset⟩

/-- **The copies agree**, and differ from what the program has written in counted bits
only. -/
structure Faithful : Prop where
  ch0 : (s.hsdma.chan 0).Latched s.hsdma.ch0
  ch1 : (s.hsdma.chan 1).Latched s.hsdma.ch1
  counted : ∀ ch, (s.program.chan ch).Counted (s.hsdma.chan ch)

/-- **The condition on an action**: a transfer of channel 0 finds no control bits in
`rCNT` and `rSADR` and ends below the end of the address space, and a completion of channel
1 finds no control bits in `rCNT`. -/
def Spares : DmaAct → Prop
  | .inlineCh0 => s.hsdma.ch0.en = true → 0 < s.hsdma.ch0.cnt →
    (s.hsdma.chan 0).cnt >>> 24 = 0 ∧ (s.hsdma.chan 0).sadr >>> 28 = 0 ∧
      s.hsdma.ch0.sadr + s.hsdma.ch0.cnt < 0x10000000
  | .finishCh1 => (s.hsdma.chan 1).cnt >>> 24 = 0
  | .write .. | .reset => True

end DmaHistory

/-! ### The loop of the transfer -/

namespace Hsdma

open DisplayPeripherals

/-- **The whole transfer at once**, by induction on what is left to count. -/
theorem inlineCh0_eq (h : Hsdma) :
    h.inlineCh0 = if h.ch0.en = true ∧ 0 < h.ch0.cnt then finishCh0 h else h := by
  induction h using inlineCh0.induct with
  | case1 h hlive ih =>
    rw [inlineCh0, if_pos hlive, if_pos hlive, ih, ch0_advanceCh0]
    by_cases hone : h.ch0.cnt = 1
    · rw [hone, if_neg (fun h => absurd h.2 (show ¬(0 : U32) < 1 - 1 by decide)),
        advanceCh0_last hone]
    · have hne : h.ch0.cnt - 1 ≠ 0 := by bv_omega
      have hpos : 0 < h.ch0.cnt - 1 := by bv_omega
      rw [hlive.1, decide_eq_true hne, if_pos ⟨rfl, hpos⟩, finishCh0_advanceCh0 hone]
  | case2 h hidle => rw [inlineCh0, if_neg hidle, if_neg hidle]

end Hsdma

namespace DisplayPeripherals

variable {io : IoSpace DisplayPeripherals}

/-- No read handler touches the registers of the DMA. -/
def QuietReads (io : IoSpace DisplayPeripherals) : Prop :=
  ∀ i handler, io.read i = some handler → ∀ addr b, (handler addr b).2.hsdma = b.dev.hsdma

theorem hsdma_read8 (hio : QuietReads io) (b : Bus DisplayPeripherals) (addr : U32) :
    (b.read8 io addr).2.dev.hsdma = b.dev.hsdma := by
  unfold Bus.read8
  dsimp only
  split
  · rfl
  · unfold Bus.noteSramRead
    split_ifs <;> rfl
  · rfl
  · split
    case h_1 hw b' hread =>
      unfold Bus.ioRead at hread
      dsimp only at hread
      split_ifs at hread
      obtain ⟨handler, hhandler, heq⟩ := Option.map_eq_some_iff.mp hread
      rw [← (Prod.mk.inj heq).2]
      exact hio _ handler hhandler _ b
    case h_2 => rfl
  · rfl

theorem hsdma_ch0Pass (hio : QuietReads io) (b : Bus DisplayPeripherals) :
    (ch0Pass io b).dev.hsdma = advanceCh0 b.dev.hsdma.ch0 b.dev.hsdma :=
  congrArg (advanceCh0 b.dev.hsdma.ch0) (hsdma_read8 hio b b.dev.hsdma.ch0.sadr)

theorem hsdma_ch0Loop (hio : QuietReads io) (completed : Bool) (b : Bus DisplayPeripherals) :
    (ch0Loop io completed b).1.dev.hsdma = b.dev.hsdma.inlineCh0 := by
  induction completed, b using ch0Loop.induct io with
  | case1 completed b hlive ih =>
    rw [ch0Loop, if_pos hlive, ih, hsdma_ch0Pass hio, Hsdma.inlineCh0.eq_def b.dev.hsdma,
      if_pos hlive]
  | case2 completed b hidle =>
    rw [ch0Loop_stop io b completed hidle, Hsdma.inlineCh0, if_neg hidle]

/-- **A transfer that reads the bus** does to the DMA what `inlineCh0` does. -/
theorem hsdma_doCh0Inline (hio : QuietReads io) (b : Bus DisplayPeripherals) :
    (doCh0Inline io b).dev.hsdma = b.dev.hsdma.inlineCh0 := by
  rw [← hsdma_ch0Loop hio false b, doCh0Inline]
  dsimp only
  split_ifs <;> rfl

end DisplayPeripherals

/-! ### Bits of a register -/

theorem setLowHalf_ushiftRight (w : U32) (v : U16) {k : ℕ} (hk : 16 ≤ k) :
    setLowHalf w v >>> k = w >>> k := by
  unfold setLowHalf
  rw [BitVec.ushiftRight_or_distrib, BitVec.ushiftRight_and_distrib]
  apply BitVec.eq_of_getLsbD_eq
  intro i hi
  simp only [BitVec.getLsbD_or, BitVec.getLsbD_and, BitVec.getLsbD_ushiftRight,
    BitVec.getLsbD_setWidth]
  rw [BitVec.getLsbD_of_ge v _ (by omega), Bool.and_false, Bool.or_false]
  rcases Nat.lt_or_ge (k + i) 32 with h | h
  · have hmask : ∀ j, 16 ≤ j → j < 32 → (0xFFFF0000 : U32).getLsbD j = true := by decide
    rw [hmask _ (by omega) h, Bool.and_true]
  · rw [BitVec.getLsbD_of_ge w _ h, Bool.false_and]

theorem setHighHalf_ushiftRight (w w' : U32) (v : U16) {k : ℕ} (hk : 16 ≤ k) :
    setHighHalf w v >>> k = setHighHalf w' v >>> k := by
  have hmask : ((0x0000FFFF : ℕ) : U32) >>> k = 0#32 := by
    apply BitVec.eq_of_toNat_eq
    rw [BitVec.toNat_ushiftRight, Nat.shiftRight_eq_div_pow]
    exact Nat.div_eq_of_lt (Nat.lt_of_lt_of_le (by decide : 0x0000FFFF < 2 ^ 16)
      (Nat.pow_le_pow_right (by decide) hk))
  unfold setHighHalf
  rw [BitVec.ushiftRight_or_distrib, BitVec.ushiftRight_or_distrib,
    BitVec.ushiftRight_and_distrib, BitVec.ushiftRight_and_distrib, hmask, BitVec.and_zero,
    BitVec.and_zero]

/-! ### Writes -/

namespace Hsdma

open ChanRegs

/-- Both copies of channel 0 and of channel 1. -/
structure Latched (h : Hsdma) : Prop where
  ch0 : (h.chan 0).Latched h.ch0
  ch1 : (h.chan 1).Latched h.ch1

variable {h : Hsdma}

/-- A handler that changes a channel and latches what it has changed. -/
theorem Latched.set (hl : h.Latched) (ch : Fin 4) {raw : ChanRegs → ChanRegs}
    {live : ChanLive → ChanLive}
    (hset : ∀ c, (h.chan ch).Latched c → (raw (h.chan ch)).Latched (live c)) :
    ((h.setChan ch raw).setLive ch live).Latched := by
  obtain ⟨hl0, hl1⟩ := hl
  have hother {i : Fin 4} (hi : i ≠ ch) : (h.setChan ch raw).chan i = h.chan i :=
    Function.update_of_ne hi ..
  constructor
  · rw [chan_setLive]
    unfold setLive
    by_cases h0 : ch = 0
    · subst h0
      rw [if_pos rfl, chan_setChan]
      exact hset _ hl0
    · rw [if_neg h0, hother (Ne.symm h0)]
      split_ifs <;> exact hl0
  · rw [chan_setLive]
    unfold setLive
    by_cases h1 : ch = 1
    · subst h1
      rw [if_neg (by decide), if_pos rfl, chan_setChan]
      exact hset _ hl1
    · rw [if_neg h1, hother (Ne.symm h1)]
      split_ifs <;> exact hl1

/-- A change of registers that are not latched. -/
theorem Latched.setChan (hl : h.Latched) (ch : Fin 4) (raw : ChanRegs → ChanRegs)
    (hset : ∀ c, (raw c).en = c.en ∧ (raw c).cnt = c.cnt ∧ (raw c).sadr = c.sadr) :
    (h.setChan ch raw).Latched := by
  have hsame : (h.setChan ch raw).setLive ch id = h.setChan ch raw := by
    unfold setLive
    split_ifs <;> rfl
  rw [← hsame]
  refine hl.set ch fun c hc => ?_
  obtain ⟨hen, hcnt, hsadr⟩ := hset (h.chan ch)
  exact ⟨hen ▸ hc.en, hcnt ▸ hc.cnt, hsadr ▸ hc.sadr⟩

/-- **Every handler keeps the copies in step.** -/
theorem Latched.write (hl : h.Latched) (ch : Fin 4) (v : U16) (r : DmaReg) :
    (r.write ch v h).Latched := by
  have hcnt (f : U32 → U32) : (h.writeCnt ch f).Latched := by
    unfold writeCnt
    refine hl.set ch fun c hc => ⟨hc.en, ?_, hc.sadr⟩
    rw [liveCnt, chan_setChan]
  have hsadr (f : U32 → U32) : (h.writeSadr ch f).Latched := by
    unfold writeSadr
    refine hl.set ch fun c hc => ⟨hc.en, hc.cnt, ?_⟩
    rw [liveSadr, chan_setChan]
  cases r with
  | cntLo => exact hcnt (setLowHalf · v)
  | cntHi => exact hcnt (setHighHalf · v)
  | sadrLo => exact hsadr (setLowHalf · v)
  | sadrHi => exact hsadr (setHighHalf · v)
  | dadrLo => exact hl.setChan ch (fun c => { c with dadr := setLowHalf c.dadr v }) fun _ =>
      ⟨rfl, rfl, rfl⟩
  | dadrHi => exact hl.setChan ch (fun c => { c with dadr := setHighHalf c.dadr v }) fun _ =>
      ⟨rfl, rfl, rfl⟩
  | tf => exact hl.setChan ch (fun c => { c with tf := c.tf &&& ~~~v }) fun _ => ⟨rfl, rfl, rfl⟩
  | en =>
    have hset : ((h.setChan ch ({ · with en := v })).setLive ch fun _ =>
        ⟨v.getLsbD 0, (h.setChan ch ({ · with en := v })).liveCnt ch,
          (h.setChan ch ({ · with en := v })).liveSadr ch⟩).Latched := by
      refine hl.set ch fun c _ => ⟨rfl, ?_, ?_⟩
      · rw [liveCnt, chan_setChan]
      · rw [liveSadr, chan_setChan]
    change (h.onEnWrite ch v).Latched
    unfold onEnWrite
    dsimp only
    split_ifs
    · exact ⟨hset.ch0, hset.ch1⟩
    · exact hset

end Hsdma

namespace DmaReg

/-- What a handler does to the registers of its channel. -/
def putRegs (v : U16) (c : ChanRegs) : DmaReg → ChanRegs
  | cntLo => { c with cnt := setLowHalf c.cnt v }
  | cntHi => { c with cnt := setHighHalf c.cnt v }
  | sadrLo => { c with sadr := setLowHalf c.sadr v }
  | sadrHi => { c with sadr := setHighHalf c.sadr v }
  | dadrLo => { c with dadr := setLowHalf c.dadr v }
  | dadrHi => { c with dadr := setHighHalf c.dadr v }
  | en => { c with en := v }
  | tf => { c with tf := c.tf &&& ~~~v }

theorem chan_write (r : DmaReg) (ch : Fin 4) (v : U16) (h : Hsdma) :
    (r.write ch v h).chan = Function.update h.chan ch (r.putRegs v (h.chan ch)) := by
  cases r with
  | en =>
    change (h.onEnWrite ch v).chan = _
    unfold Hsdma.onEnWrite
    dsimp only
    split_ifs <;> exact Hsdma.chan_setLive ..
  | dadrLo | dadrHi | tf => rfl
  | _ => exact Hsdma.chan_setLive ..

/-- **A write leaves the difference where it was**: what it writes of the control bits does
not depend on the counted ones. -/
theorem counted_putRegs {written raw : ChanRegs} (h : written.Counted raw) (v : U16)
    (r : DmaReg) : (r.putRegs v written).Counted (r.putRegs v raw) := by
  obtain ⟨hcnt, hsadr, hdadr, hen, htf⟩ := h
  cases r with
  | cntLo =>
    refine ⟨?_, hsadr, hdadr, hen, htf⟩
    change setLowHalf raw.cnt v >>> 24 = setLowHalf written.cnt v >>> 24
    rw [setLowHalf_ushiftRight _ _ (by decide), setLowHalf_ushiftRight _ _ (by decide), hcnt]
  | cntHi => exact ⟨setHighHalf_ushiftRight _ _ v (by decide), hsadr, hdadr, hen, htf⟩
  | sadrLo =>
    refine ⟨hcnt, ?_, hdadr, hen, htf⟩
    change setLowHalf raw.sadr v >>> 28 = setLowHalf written.sadr v >>> 28
    rw [setLowHalf_ushiftRight _ _ (by decide), setLowHalf_ushiftRight _ _ (by decide), hsadr]
  | sadrHi => exact ⟨hcnt, setHighHalf_ushiftRight _ _ v (by decide), hdadr, hen, htf⟩
  | dadrLo => exact ⟨hcnt, hsadr, congrArg (setLowHalf · v) hdadr, hen, htf⟩
  | dadrHi => exact ⟨hcnt, hsadr, congrArg (setHighHalf · v) hdadr, hen, htf⟩
  | en => exact ⟨hcnt, hsadr, hdadr, rfl, htf⟩
  | tf => exact ⟨hcnt, hsadr, hdadr, hen, congrArg (· &&& ~~~v) htf⟩

end DmaReg

/-! ### Transfers and completions -/

/-- A word below `2 ^ 28` has no bits from 28 on, and only such a word. -/
theorem eq_and_sadrMask_iff (x : U32) : x = x &&& 0x0FFFFFFF ↔ x < 0x10000000 := by
  have hmask := Words.toNat_and_low x 28
  rw [BitVec.lt_def, ← BitVec.toNat_inj]
  change x.toNat = (x &&& BitVec.ofNat 32 (2 ^ 28 - 1)).toNat ↔ x.toNat < 2 ^ 28
  rw [hmask]
  omega

theorem ushiftRight_eq_zero_of_lt {x : U32} (h : x < 0x10000000) : x >>> 28 = 0 := by
  apply BitVec.eq_of_toNat_eq
  rw [BitVec.toNat_ushiftRight, Nat.shiftRight_eq_div_pow]
  exact Nat.div_eq_of_lt (BitVec.lt_def.mp h)

namespace ChanRegs

variable {written raw : ChanRegs}

/-- The registers of a channel that has counted to the end. -/
def ended (raw : ChanRegs) (sadr : U32) : ChanRegs :=
  { raw with cnt := 0, sadr, en := raw.en &&& ~~~1 }

/-- **What an end leaves faithful**: registers without control bits to lose, at an address
that fits in its bits. -/
theorem ended_iff (h : written.Counted raw) (sadr live : U32) :
    (raw.ended sadr).Latched ⟨false, 0, live⟩ ∧ written.Counted (raw.ended sadr) ↔
      raw.cnt >>> 24 = 0 ∧ sadr >>> 28 = raw.sadr >>> 28 ∧ live = sadr &&& 0x0FFFFFFF := by
  have hzero : (0 : U32) >>> 24 = 0 := by decide
  constructor
  · rintro ⟨hlatched, hcounted⟩
    have hcnt : (0 : U32) >>> 24 = written.cnt >>> 24 := hcounted.cnt
    refine ⟨?_, ?_, hlatched.sadr⟩
    · rw [h.cnt, ← hcnt, hzero]
    · rw [h.sadr]
      exact hcounted.sadr
  · rintro ⟨hcnt, hsadr, hlive⟩
    constructor
    · constructor
      · change false = (raw.en &&& ~~~1).getLsbD 0
        rw [BitVec.getLsbD_and]
        exact (Bool.and_false _).symm
      · exact show (0 : U32) = 0 &&& 0x00FFFFFF by decide
      · exact hlive
    · constructor
      · rw [← h.cnt, hcnt]
        exact hzero
      · rw [← h.sadr]
        exact hsadr
      · exact h.dadr
      · rw [← h.en]
        change raw.en &&& ~~~1 &&& ~~~1 = _
        rw [BitVec.and_assoc, BitVec.and_self]
      · exact h.tf

end ChanRegs

namespace DmaHistory

open ChanRegs

variable {s : DmaHistory}

theorem Faithful.write (h : s.Faithful) (ch : Fin 4) (r : DmaReg) (v : U16) :
    (s.step (.write ch r v)).Faithful := by
  have hl : s.hsdma.Latched := ⟨h.ch0, h.ch1⟩
  refine ⟨(hl.write ch v r).ch0, (hl.write ch v r).ch1, fun i => ?_⟩
  change ((r.write ch v s.program).chan i).Counted ((r.write ch v s.hsdma).chan i)
  rw [DmaReg.chan_write, DmaReg.chan_write]
  by_cases hi : i = ch
  · subst hi
    rw [Function.update_self, Function.update_self]
    exact DmaReg.counted_putRegs (h.counted i) v r
  · rw [Function.update_of_ne hi, Function.update_of_ne hi]
    exact h.counted i

/-- **A transfer writes back the counter and the address alone**, so the copies are
faithful after it if and only if there was nothing else to write back. -/
theorem faithful_inlineCh0_iff (h : s.Faithful) :
    (s.step .inlineCh0).Faithful ↔ s.Spares .inlineCh0 := by
  by_cases hlive : s.hsdma.ch0.en = true ∧ 0 < s.hsdma.ch0.cnt
  · let sadr := s.hsdma.ch0.sadr + s.hsdma.ch0.cnt
    have hstep : s.step .inlineCh0 = { s with hsdma := DisplayPeripherals.finishCh0 s.hsdma } := by
      rw [step, Hsdma.inlineCh0_eq, if_pos hlive]
    have hself : (DisplayPeripherals.finishCh0 s.hsdma).chan 0 = (s.hsdma.chan 0).ended sadr :=
      DisplayPeripherals.chan_finishCh0 s.hsdma
    have hother {i : Fin 4} (hi : i ≠ 0) :
        (DisplayPeripherals.finishCh0 s.hsdma).chan i = s.hsdma.chan i :=
      Function.update_of_ne hi ..
    have hiff : (s.step .inlineCh0).Faithful ↔
        ((s.hsdma.chan 0).ended sadr).Latched ⟨false, 0, sadr⟩ ∧
          (s.program.chan 0).Counted ((s.hsdma.chan 0).ended sadr) := by
      rw [hstep, ← hself]
      constructor
      · exact fun hafter => ⟨hafter.ch0, hafter.counted 0⟩
      · rintro ⟨hlatched, hcounted⟩
        refine ⟨hlatched, ?_, fun i => ?_⟩
        · rw [hother (by decide)]
          exact h.ch1
        · by_cases hi : i = 0
          · subst hi
            exact hcounted
          · rw [hother hi]
            exact h.counted i
    rw [hiff, ended_iff (h.counted 0), eq_and_sadrMask_iff]
    constructor
    · rintro ⟨hcnt, hsadr, hlt⟩ _ _
      exact ⟨hcnt, hsadr.symm.trans (ushiftRight_eq_zero_of_lt hlt), hlt⟩
    · intro hspares
      obtain ⟨hcnt, hsadr, hlt⟩ := hspares hlive.1 hlive.2
      exact ⟨hcnt, (ushiftRight_eq_zero_of_lt hlt).trans hsadr.symm, hlt⟩
  · have hstep : s.step .inlineCh0 = s := by rw [step, Hsdma.inlineCh0_eq, if_neg hlive]
    rw [hstep]
    exact iff_of_true h fun hen hpos => absurd ⟨hen, hpos⟩ hlive

/-- **A completion clears the whole of `rCNT`.** -/
theorem faithful_finishCh1_iff (h : s.Faithful) :
    (s.step .finishCh1).Faithful ↔ s.Spares .finishCh1 := by
  have hself : s.hsdma.finishCh1.chan 1 = (s.hsdma.chan 1).ended (s.hsdma.chan 1).sadr :=
    s.hsdma.chan_setChan 1 fun c => { c with en := c.en &&& ~~~1, cnt := 0 }
  have hother {i : Fin 4} (hi : i ≠ 1) : s.hsdma.finishCh1.chan i = s.hsdma.chan i :=
    Function.update_of_ne hi ..
  have hiff : (s.step .finishCh1).Faithful ↔
      ((s.hsdma.chan 1).ended (s.hsdma.chan 1).sadr).Latched ⟨false, 0, s.hsdma.ch1.sadr⟩ ∧
        (s.program.chan 1).Counted ((s.hsdma.chan 1).ended (s.hsdma.chan 1).sadr) := by
    rw [← hself]
    constructor
    · exact fun hafter => ⟨hafter.ch1, hafter.counted 1⟩
    · rintro ⟨hlatched, hcounted⟩
      refine ⟨?_, hlatched, fun i => ?_⟩
      · change (s.hsdma.finishCh1.chan 0).Latched s.hsdma.ch0
        rw [hother (by decide)]
        exact h.ch0
      · change (s.program.chan i).Counted (s.hsdma.finishCh1.chan i)
        by_cases hi : i = 1
        · subst hi
          exact hcounted
        · rw [hother hi]
          exact h.counted i
  rw [hiff, ended_iff (h.counted 1)]
  exact ⟨fun h => h.1, fun hcnt => ⟨hcnt, rfl, h.ch1.sadr⟩⟩

/-! ### Runs -/

theorem faithful_init : ({} : DmaHistory).Faithful :=
  ⟨⟨rfl, rfl, rfl⟩, ⟨rfl, rfl, rfl⟩, fun _ => ⟨rfl, rfl, rfl, rfl, rfl⟩⟩

/-- An action keeps the copies faithful if and only if it meets the condition. -/
theorem faithful_step_iff (h : s.Faithful) (a : DmaAct) :
    (s.step a).Faithful ↔ s.Spares a := by
  cases a with
  | write ch r v => exact iff_of_true (h.write ch r v) trivial
  | inlineCh0 => exact faithful_inlineCh0_iff h
  | finishCh1 => exact faithful_finishCh1_iff h
  | reset =>
    refine iff_of_true ?_ trivial
    exact ⟨faithful_init.ch0, faithful_init.ch1, faithful_init.counted⟩

/-- **The copies of the DMA agree** in every state of a run of writes, transfers and
completions, with the control bits as the program has written them, if and only if no
transfer and no completion of the run finds control bits to lose or an address to carry
out of its bits. -/
theorem faithful_iff (acts : List DmaAct) :
    (∀ bs, bs <+: acts → (ActionRun.exec step {} bs).Faithful) ↔
      ActionRun.Along step Spares {} acts :=
  ActionRun.along_iff_forall_prefix (fun (s : DmaHistory) a h => faithful_step_iff (s := s) h a)
    faithful_init

/-! ### The bus -/

/-- One action where the transfers read the bus. -/
def onBus (io : IoSpace DisplayPeripherals) (b : Bus DisplayPeripherals) (a : DmaAct) :
    Bus DisplayPeripherals :=
  let set (h : Hsdma) : Bus DisplayPeripherals := { b with dev := { b.dev with hsdma := h } }
  match a with
  | .write ch r v => set (r.write ch v b.dev.hsdma)
  | .inlineCh0 => DisplayPeripherals.doCh0Inline io b
  | .finishCh1 => set b.dev.hsdma.finishCh1
  | .reset => set b.dev.hsdma.reset

/-- **A run on the bus** makes of the DMA what the same run makes of the DMA alone. -/
theorem hsdma_exec_onBus {io : IoSpace DisplayPeripherals}
    (hio : DisplayPeripherals.QuietReads io) {b : Bus DisplayPeripherals}
    (h : b.dev.hsdma = s.hsdma) (acts : List DmaAct) :
    (ActionRun.exec (onBus io) b acts).dev.hsdma = (ActionRun.exec step s acts).hsdma := by
  induction acts generalizing b s with
  | nil => exact h
  | cons a acts ih =>
    refine ih ?_
    cases a with
    | write ch r v => exact congrArg (r.write ch v) h
    | inlineCh0 =>
      exact (DisplayPeripherals.hsdma_doCh0Inline hio b).trans (congrArg Hsdma.inlineCh0 h)
    | finishCh1 => exact congrArg Hsdma.finishCh1 h
    | reset => exact congrArg Hsdma.reset h

/-! ### Bits that are lost -/

/-- The program sets a control bit of channel 0 and has it send one byte. -/
def dualAddress : List DmaAct :=
  [.write 0 .cntHi 0x8000, .write 0 .cntLo 1, .write 0 .en 1, .inlineCh0]

/-- The program has channel 0 send the last byte of the address space. -/
def lastByte : List DmaAct :=
  [.write 0 .sadrHi 0x0FFF, .write 0 .sadrLo 0xFFFF, .write 0 .cntLo 1, .write 0 .en 1, .inlineCh0]

/-- **A control bit that is lost**: `rCNT` reads 0 after a transfer of channel 0, and after
a completion of channel 1. The last byte leaves an address that is not the low 28 bits of
`rSADR`. -/
theorem dualAddress_not_faithful :
    ((ActionRun.exec step {} dualAddress).program.chan 0).cnt = 0x80000001 ∧
      ((ActionRun.exec step {} dualAddress).hsdma.chan 0).cnt = 0 ∧
      ¬(ActionRun.exec step {} dualAddress).Faithful ∧
      ¬(ActionRun.exec step {} [.write 1 .cntHi 0x8000, .finishCh1]).Faithful ∧
      ¬(ActionRun.exec step {} lastByte).Faithful := by
  have hdual : (ActionRun.exec step {} dualAddress).hsdma = DisplayPeripherals.finishCh0
      (ActionRun.exec step {} (dualAddress.take 3)).hsdma :=
    (Hsdma.inlineCh0_eq _).trans (if_pos (by decide))
  have hlast : (ActionRun.exec step {} lastByte).hsdma = DisplayPeripherals.finishCh0
      (ActionRun.exec step {} (lastByte.take 4)).hsdma :=
    (Hsdma.inlineCh0_eq _).trans (if_pos (by decide))
  have hread : ((ActionRun.exec step {} dualAddress).hsdma.chan 0).cnt = 0 := by
    rw [hdual]
    rfl
  refine ⟨rfl, hread, fun h => ?_, fun h => ?_, fun h => ?_⟩
  · have hcnt := (h.counted 0).cnt
    rw [hread] at hcnt
    exact absurd hcnt (by decide)
  · exact absurd (h.counted 1).cnt (by decide)
  · have hsadr := h.ch0.sadr
    rw [hlast] at hsadr
    exact absurd hsadr (by decide)

end DmaHistory
