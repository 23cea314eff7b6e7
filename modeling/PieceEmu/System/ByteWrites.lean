import PieceEmu.Soc.T16Reference
import PieceEmu.System.RegisterAccess

/-!
# Bytes written to the registers

A halfword of the register windows holds two byte registers, or one and a dummy, or one
register of its own width or half of a wider one. A byte that is written to it should touch
that byte alone: the other one is to read as before and to keep what is derived from it
(`RegSlot.TouchesOneByte`).

The halfwords of byte registers have a handler for bytes, or look at the parity of the
address. The others have neither, and their handlers take the byte for a halfword that is
extended with zeros: it clears a high byte, and a byte meant for the high half goes to the
low one (`RegSlot.touchesOneByte_iff`).
-/

namespace RegSlot

open Words (lane withLane)
open InterruptController (writeReg_regs writeReg_levelOverride)

/-! ### The statement -/

/-- What a read of the halfword returns. -/
def value (p : PiecePeripherals) : RegSlot → U16
  | intc i => p.intc.ioRead (2 * i)
  | clk r => r.read p.clk
  | t8 ch .ctl => (p.t8 ch).readCtl
  | t8 ch .ptd => (p.t8 ch).readPtd
  | t16 ch r => r.read (p.t16 ch)
  | port r => r.read p.portctrl
  | bcu r => r.read p.bcuArea
  | wdt => p.wdt.read
  | hsdma ch r => r.read (p.hsdma.chan ch)

/-- A register whose bits are cleared by writing them. -/
def ClearedByOnes : RegSlot → Prop
  | hsdma _ .tf => True
  | _ => False

/-- What a write has made of the state that is derived from the byte next to the one that
is written: it is as it was. Where both bytes are one register, it is that of the register
with the byte in place, as the halfword write `merged` leaves it. -/
def DerivedKept (odd : Bool) (b : Bus PiecePeripherals)
    (out merged : Bus PiecePeripherals × CpuRequest) : RegSlot → Prop
  -- the levels that go with the status bits
  | intc i => ∀ src, (srcTable src).isrByte = 2 * i + (if odd then 0 else 1) →
      out.1.dev.intc.levelOverride src = b.dev.intc.levelOverride src
  -- the frequency of the CPU
  | clk r => (r = .pwrctl → odd = true) →
      out.1.dev.clk.cpuClockHz = b.dev.clk.cpuClockHz ∧ out.1.busClockDiv = b.busClockDiv ∧
        out.1.dev.clockChanges = b.dev.clockChanges
  -- the counter, which a preset loads, and the active bit
  | t8 ch _ => odd = true →
      (out.1.dev.t8 ch).ptd = (b.dev.t8 ch).ptd ∧
        (out.1.dev.t8 ch).active = (b.dev.t8 ch).active
  | hsdma _ .tf | wdt => True
  | t16 _ _ | port _ | bcu _ | hsdma _ _ => out = merged

/-- **A byte write touches one byte**: the other byte of the halfword reads as before, and
what is derived from it is as before; and the byte that is written reads as after any
halfword write with this byte in its place. -/
structure TouchesOneByte (io : IoSpace PiecePeripherals) (s : RegSlot) (odd : Bool) (addr : U32)
    (v : U8) (b : Bus PiecePeripherals) : Prop where
  other : ((b.write8 io addr v).1.read8 io (s.byteAddr !odd)).1 =
    (b.read8 io (s.byteAddr !odd)).1
  derived : s.DerivedKept odd b (b.write8 io addr v)
    (b.write16 io s.addr (withLane odd v (s.value b.dev)))
  written : ¬s.ClearedByOnes → ∀ w, lane odd w = v →
    ((b.write8 io addr v).1.read8 io addr).1 = ((b.write16 io s.addr w).1.read8 io addr).1

/-- The byte writes that touch one byte. -/
def Spares (odd : Bool) (v : U8) (p : PiecePeripherals) : RegSlot → Prop
  | intc _ | clk _ | t8 _ _ | wdt | port _ | bcu .tbrp | bcu .ga | bcu .bclksel => True
  -- the control register, written through its dummy, has to be what it is
  | t16 ch .ctl => odd = true → v &&& ~~~2 = (p.t16 ch).ctl ∧
      (v.getLsbD 1 = true → (p.t16 ch).tc = 0 ∧ (p.t16 ch).nextTickCycle = 0)
  -- no bit of the low byte may be cleared from the high one
  | hsdma ch .tf => odd = true → lane false (p.hsdma.chan ch).tf &&& v = 0
  -- what the zeros replace is zero, and so is what goes to the wrong byte
  | s => if odd then v = 0 ∧ lane false (s.value p) = 0 else lane true (s.value p) = 0

/-! ### In terms of the handlers -/

variable {s : RegSlot} {fe : Frontend} {odd : Bool} {v : U8} {b : Bus PiecePeripherals}

theorem names_byteAddr (s : RegSlot) (odd : Bool) :
    Bus.Names (s.byteAddr odd) (s.byteAddr odd) := by
  have hall : ∀ s ∈ all, ∀ odd, Bus.Names (s.byteAddr odd) (s.byteAddr odd) := by
    decide +kernel
  exact hall s s.mem_all odd

theorem aligned_addr (s : RegSlot) :
    Bus.down 1 s.addr = s.addr ∧ Bus.misaligned 1 s.addr = false := by
  have hall : ∀ s ∈ all, Bus.down 1 s.addr = s.addr ∧ Bus.misaligned 1 s.addr = false := by
    decide +kernel
  exact hall s s.mem_all

theorem handler_read (s : RegSlot) (addr : U32) :
    ((s.handler fe).read addr b).1 = s.value b.dev := by
  cases s with
  | t8 ch r => cases r <;> rfl
  | _ => rfl

/-- What the handlers make of a byte. -/
def put (fe : Frontend) (odd : Bool) (v : U8) (b : Bus PiecePeripherals) (s : RegSlot) :
    Bus PiecePeripherals × CpuRequest :=
  match (s.handler fe).writeByte with
  | some f => f (s.byteAddr odd) v b
  | none => (s.handler fe).write (s.byteAddr odd) (v.setWidth 16) b

/-- What they make of a halfword. -/
def putHalf (fe : Frontend) (w : U16) (b : Bus PiecePeripherals) (s : RegSlot) :
    Bus PiecePeripherals × CpuRequest :=
  (s.handler fe).write s.addr w b

/-- What it says of the handlers of a slot that a byte write touches one byte. -/
structure HandlerTouches (fe : Frontend) (s : RegSlot) (odd : Bool) (v : U8)
    (b : Bus PiecePeripherals) : Prop where
  other : lane (!odd) (s.value (s.put fe odd v b).1.dev) = lane (!odd) (s.value b.dev)
  derived : s.DerivedKept odd b (s.put fe odd v b)
    (s.putHalf fe (withLane odd v (s.value b.dev)) b)
  written : ¬s.ClearedByOnes → ∀ w, lane odd w = v →
    lane odd (s.value (s.put fe odd v b).1.dev) = lane odd (s.value (s.putHalf fe w b).1.dev)

theorem write16_addr (o : OtherDevices) (s : RegSlot) (w : U16) :
    b.write16 (o.attach fe) s.addr w = s.putHalf fe w b := by
  have hnames : Bus.Names s.addr (s.byteAddr false) := by
    have h := names_byteAddr s false
    rwa [byteAddr_even] at h ⊢
  have hflag : b.flagged false = b := by
    unfold Bus.flagged
    rw [Bool.or_false]
  obtain ⟨hdown, haligned⟩ := s.aligned_addr
  rw [o.write16_slot fe s b hnames, hdown, haligned, hflag]
  rfl

/-- **Through the bus**, a byte write touches one byte if it does by its handlers. -/
theorem touchesOneByte_iff_handler (o : OtherDevices) {addr : U32}
    (h : Bus.Names addr (s.byteAddr odd)) :
    TouchesOneByte (o.attach fe) s odd addr v b ↔ s.HandlerTouches fe odd v b := by
  have hout : b.write8 (o.attach fe) addr v = s.put fe odd v b := o.write8_slot fe s b h v
  have hother (b' : Bus PiecePeripherals) :
      (b'.read8 (o.attach fe) (s.byteAddr !odd)).1 = lane (!odd) (s.value b'.dev) := by
    rw [o.read8_slot fe s b' (s.names_byteAddr !odd), handler_read]
  have hself (b' : Bus PiecePeripherals) :
      (b'.read8 (o.attach fe) addr).1 = lane odd (s.value b'.dev) := by
    rw [o.read8_slot fe s b' h, handler_read]
  constructor
  · rintro ⟨hother', hderived, hwritten⟩
    rw [hout, hother, hother] at hother'
    rw [hout, write16_addr] at hderived
    refine ⟨hother', hderived, fun hs w hw => ?_⟩
    have h' := hwritten hs w hw
    rwa [hout, write16_addr, hself, hself] at h'
  · rintro ⟨hother', hderived, hwritten⟩
    refine ⟨?_, ?_, fun hs w hw => ?_⟩
    · rw [hout, hother, hother]
      exact hother'
    · rw [hout, write16_addr]
      exact hderived
    · rw [hout, write16_addr, hself, hself]
      exact hwritten hs w hw

/-! ### The byte registers -/

theorem getLsbD_byteAddr (s : RegSlot) (odd : Bool) : (s.byteAddr odd).getLsbD 0 = odd :=
  (s.byteAddr_facts odd).2.2.2

theorem ioWriteByte_regs (c : InterruptController) (off : ℕ) (addr : U32) (val : U8) :
    (c.ioWriteByte off addr val).regs =
        (c.writeReg c.rstonly (off + if addr.getLsbD 0 then 1 else 0) val).regs ∧
      (c.ioWriteByte off addr val).levelOverride =
        (c.writeReg c.rstonly (off + if addr.getLsbD 0 then 1 else 0) val).levelOverride := by
  unfold InterruptController.ioWriteByte
  dsimp only
  split_ifs <;> exact ⟨rfl, rfl⟩

theorem lane_ioRead (c : InterruptController) (off : ℕ) (odd : Bool) :
    lane odd (c.ioRead off) = c.regs (off + if odd then 1 else 0) := by
  cases odd with
  | false => exact Words.lane_pair false _ _
  | true => exact Words.lane_pair true _ _

theorem ioWrite_regs (c : InterruptController) (off : ℕ) {addr : U32} (val : U16)
    (haddr : addr.getLsbD 0 = false) :
    (c.ioWrite off addr val).regs =
      ((c.writeReg c.rstonly off (lane false val)).writeReg c.rstonly (off + 1)
        (lane true val)).regs := by
  unfold InterruptController.ioWrite
  rw [haddr]
  dsimp only
  rw [if_neg Bool.false_ne_true]
  split_ifs <;> rfl

theorem intc_touches (i : Fin 32) : (intc i).HandlerTouches fe odd v b := by
  obtain ⟨hregs, hlevel⟩ :=
    ioWriteByte_regs b.dev.intc (2 * i) ((intc i).byteAddr odd) v
  rw [getLsbD_byteAddr] at hregs hlevel
  have hne : 2 * i.val + (if odd then 1 else 0) ≠ 2 * i + if !odd then 1 else 0 := by
    cases odd <;> simp
  constructor
  · change lane (!odd) ((b.dev.intc.ioWriteByte (2 * i) _ v).ioRead (2 * i)) =
      lane (!odd) (b.dev.intc.ioRead (2 * i))
    rw [lane_ioRead, lane_ioRead, hregs, writeReg_regs, Function.update_of_ne hne.symm]
  · intro src hsrc
    change (b.dev.intc.ioWriteByte (2 * i) _ v).levelOverride src = _
    rw [hlevel, writeReg_levelOverride]
    rw [hsrc]
    cases odd <;> simp
  · intro _ w hw
    change lane odd ((b.dev.intc.ioWriteByte (2 * i) _ v).ioRead (2 * i)) =
      lane odd ((b.dev.intc.ioWrite (2 * i) _ w).ioRead (2 * i))
    rw [lane_ioRead, lane_ioRead, hregs, writeReg_regs, Function.update_self,
      ioWrite_regs _ _ _ (getLsbD_addr _), writeReg_regs, writeReg_regs]
    cases odd with
    | false =>
      rw [if_neg Bool.false_ne_true, Function.update_of_ne (by omega), Nat.add_zero,
        Function.update_self, hw]
    | true =>
      rw [if_pos rfl, Function.update_self, Function.update_of_ne (by omega), hw]

theorem t8_touches (ch : Fin 4) (r : T8Reg) : (t8 ch r).HandlerTouches fe odd v b := by
  cases r with
  | ptd => exact ⟨rfl, fun _ => ⟨rfl, rfl⟩, fun _ _ _ => rfl⟩
  | ctl =>
    have hput : ((t8 ch .ctl).put fe odd v b).1.dev.t8 ch =
        (b.dev.t8 ch).writeCtlByte ((t8 ch .ctl).byteAddr odd) v := Function.update_self ..
    have hhalf (w : U16) : ((t8 ch .ctl).putHalf fe w b).1.dev.t8 ch =
        (b.dev.t8 ch).writeCtl w := Function.update_self ..
    have hlane (odd : Bool) (t : Timer8bit) :
        lane odd t.readCtl = if odd then t.rld else t.ctl := Words.lane_pair ..
    unfold Timer8bit.writeCtlByte at hput
    rw [getLsbD_byteAddr] at hput
    constructor
    · change lane (!odd) (Timer8bit.readCtl _) = lane (!odd) (Timer8bit.readCtl _)
      rw [hput, hlane, hlane]
      cases odd <;> rfl
    · rintro rfl
      rw [hput]
      exact ⟨rfl, rfl⟩
    · rintro - w rfl
      change lane odd (Timer8bit.readCtl _) = lane odd (Timer8bit.readCtl _)
      rw [hput, hhalf, hlane, hlane]
      cases odd <;> rfl

theorem wdt_touches : wdt.HandlerTouches fe odd v b := by
  have hput : (wdt.put fe odd v b).1.dev.wdt =
      b.dev.wdt.writeByte (wdt.byteAddr odd) v := rfl
  have hlane (odd : Bool) (w : WatchdogTimer) :
      lane odd w.read = if odd then w.ewd else w.wrwd := Words.lane_pair ..
  unfold WatchdogTimer.writeByte at hput
  rw [getLsbD_byteAddr] at hput
  constructor
  · change lane (!odd) (WatchdogTimer.read _) = lane (!odd) (WatchdogTimer.read _)
    rw [hput, hlane, hlane]
    cases odd <;> rfl
  · exact trivial
  · rintro - w rfl
    change lane odd (WatchdogTimer.read _) = lane odd (WatchdogTimer.read _)
    rw [hput, hlane, hlane]
    cases odd <;> rfl

/-! The clock control. -/

end RegSlot

namespace ClkReg

/-- The byte register in a byte of a halfword: 0 where there is none. -/
def byte (c : ClockControl) : ClkReg → Bool → U8
  | clkselT8_45, false => c.clkselT8_45
  | clkctlT8_45, true => c.clkctlT8 2
  | clkselT8, false => c.clkselT8
  | clkselT8, true => c.clkctlT16 0
  | clkctlT16_1, false => c.clkctlT16 1
  | clkctlT16_1, true => c.clkctlT16 2
  | clkctlT16_3, false => c.clkctlT16 3
  | clkctlT16_3, true => c.clkctlT16 4
  | clkctlT16_5, false => c.clkctlT16 5
  | clkctlT16_5, true => c.clkctlT8 0
  | clkctlT8_23, false => c.clkctlT8 1
  | pwrctl, false => c.pwrctl
  | _, _ => 0

/-- There is one. -/
def holds : ClkReg → Bool → Bool
  | clkselT8_45, odd | clkctlT8_23, odd | pwrctl, odd => !odd
  | clkctlT8_45, odd => odd
  | clkselT8, _ | clkctlT16_1, _ | clkctlT16_3, _ | clkctlT16_5, _ => true

variable (c : ClockControl) (r : ClkReg) (odd : Bool)

theorem lane_read : Words.lane odd (r.read c) = r.byte c odd := by
  have hlow (x : U8) : Words.lane odd (x.setWidth 16) = if odd then 0 else x := by
    rw [Words.setWidth_eq_pair, Words.lane_pair]
  cases r with
  | clkselT8_45 | clkctlT8_23 | pwrctl =>
    refine (hlow _).trans ?_
    cases odd <;> rfl
  | clkctlT8_45 =>
    have hhigh : (c.clkctlT8 2).setWidth 16 <<< 8 = Words.pair 0 (c.clkctlT8 2) :=
      (BitVec.zero_or).symm
    rw [ClkReg.read, hhigh, Words.lane_pair]
    cases odd <;> rfl
  | clkselT8 | clkctlT16_1 | clkctlT16_3 | clkctlT16_5 =>
    refine (Words.lane_pair odd _ _).trans ?_
    cases odd <;> rfl

theorem byte_of_not_holds (h : ¬r.holds odd = true) : r.byte c odd = 0 := by
  cases r <;> cases odd <;> first | rfl | exact absurd rfl h

/-- A register write changes its byte and leaves the other one of the halfword. -/
theorem byte_writeSingle (v : U8) (h : r.holds odd = true) :
    let c' := (c.writeSingle ((RegSlot.clk r).byteAddr odd) v).1
    r.byte c' odd = v ∧ r.byte c' (!odd) = r.byte c (!odd) := by
  cases r <;> cases odd <;> first | exact absurd h Bool.false_ne_true | exact ⟨rfl, rfl⟩

end ClkReg

namespace RegSlot

open Words (lane withLane)

variable {s : RegSlot} {fe : Frontend} {odd : Bool} {v : U8} {b : Bus PiecePeripherals}

/-- **A byte for the clock control** is written to the register there is, or absorbed. -/
theorem put_clk (r : ClkReg) :
    ((clk r).put fe odd v b).1 =
      if r.holds odd then fe.clkWrite (·.writeSingle ((clk r).byteAddr odd) v) b else b := by
  have hlow (reg : U32) {addr : U32} (haddr : addr.getLsbD 0 = false) :
      ClkReg.writeLow fe reg addr (v.setWidth 16) b = fe.clkWrite (·.writeSingle reg v) b := by
    have hback : (v.setWidth 16 : U16).setWidth 8 = v := by
      ext i hi
      simp
    unfold ClkReg.writeLow
    rw [haddr, if_neg Bool.false_ne_true, hback]
  have hbit := getLsbD_byteAddr (clk r) odd
  cases r with
  | clkselT8 | clkctlT16_1 | clkctlT16_3 | clkctlT16_5 => rfl
  | clkctlT8_45 => cases odd <;> rfl
  | clkselT8_45 =>
    cases odd with
    | true => rfl
    | false => exact hlow 0x040140 hbit
  | clkctlT8_23 =>
    cases odd with
    | true => rfl
    | false => exact hlow 0x04014E hbit
  | pwrctl =>
    cases odd with
    | true => rfl
    | false => exact hlow 0x040180 hbit

/-- What a halfword for the clock control leaves in its bytes. -/
theorem putHalf_clk (r : ClkReg) (w : U16) :
    r.byte ((clk r).putHalf fe w b).1.dev.clk odd = if r.holds odd then lane odd w else 0 := by
  have hlow (reg : U32) {addr : U32} (haddr : addr.getLsbD 0 = false) :
      (ClkReg.writeLow fe reg addr w b).dev.clk =
        (b.dev.clk.writeSingle reg (lane false w)).1 := by
    unfold ClkReg.writeLow
    rw [haddr, if_neg Bool.false_ne_true, Frontend.clkWrite_clk]
    rfl
  have hpair (reg : U32) : (ClkReg.write.writePair fe w b reg).dev.clk =
      ((b.dev.clk.writeSingle reg (lane false w)).1.writeSingle (reg + 1) (lane true w)).1 := by
    unfold ClkReg.write.writePair
    rw [Frontend.clkWrite_clk, Frontend.clkWrite_clk]
    rfl
  have hbit : (clk r).addr.getLsbD 0 = false := getLsbD_addr (clk r)
  cases r with
  | clkselT8 =>
    refine (congrArg (ClkReg.byte · .clkselT8 odd) (hpair 0x040146)).trans ?_
    cases odd <;> rfl
  | clkctlT16_1 =>
    refine (congrArg (ClkReg.byte · .clkctlT16_1 odd) (hpair 0x040148)).trans ?_
    cases odd <;> rfl
  | clkctlT16_3 =>
    refine (congrArg (ClkReg.byte · .clkctlT16_3 odd) (hpair 0x04014A)).trans ?_
    cases odd <;> rfl
  | clkctlT16_5 =>
    refine (congrArg (ClkReg.byte · .clkctlT16_5 odd) (hpair 0x04014C)).trans ?_
    cases odd <;> rfl
  | clkctlT8_45 =>
    refine (congrArg (ClkReg.byte · .clkctlT8_45 odd) (Frontend.clkWrite_clk fe b _)).trans ?_
    cases odd <;> rfl
  | clkselT8_45 =>
    refine (congrArg (ClkReg.byte · .clkselT8_45 odd) (hlow 0x040140 hbit)).trans ?_
    cases odd <;> rfl
  | clkctlT8_23 =>
    refine (congrArg (ClkReg.byte · .clkctlT8_23 odd) (hlow 0x04014E hbit)).trans ?_
    cases odd <;> rfl
  | pwrctl =>
    refine (congrArg (ClkReg.byte · .pwrctl odd) (hlow 0x040180 hbit)).trans ?_
    cases odd <;> rfl

theorem clk_touches (r : ClkReg) : (clk r).HandlerTouches fe odd v b := by
  have hput : ((clk r).put fe odd v b).1 =
      if r.holds odd then fe.clkWrite (·.writeSingle ((clk r).byteAddr odd) v) b else b :=
    put_clk r
  constructor
  · change lane (!odd) (r.read ((clk r).put fe odd v b).1.dev.clk) = lane (!odd) (r.read b.dev.clk)
    rw [ClkReg.lane_read, ClkReg.lane_read, hput]
    split_ifs with h
    · rw [Frontend.clkWrite_clk]
      exact (ClkReg.byte_writeSingle b.dev.clk r odd v h).2
    · rfl
  · intro hpwr
    rw [hput]
    split_ifs with h
    · have hreg : (clk r).byteAddr odd ≠ 0x040180 := by
        cases r with
        | pwrctl => exact absurd ((congrArg (!·) (hpwr rfl)).symm.trans h) Bool.false_ne_true
        | _ => cases odd <;> decide
      obtain ⟨huntold, hpwrctl, hp07⟩ := b.dev.clk.keepsFrequency_writeSingle hreg v
      unfold Frontend.clkWrite
      dsimp only
      rw [huntold]
      refine ⟨?_, rfl, rfl⟩
      unfold ClockControl.cpuClockHz ClockControl.osc3Hz
      rw [hpwrctl, hp07]
    · exact ⟨rfl, rfl, rfl⟩
  · rintro - w rfl
    change lane odd (r.read _) = lane odd (r.read ((clk r).putHalf fe w b).1.dev.clk)
    rw [ClkReg.lane_read, ClkReg.lane_read, putHalf_clk, hput]
    split_ifs with h
    · rw [Frontend.clkWrite_clk]
      exact (ClkReg.byte_writeSingle b.dev.clk r odd _ h).1
    · exact ClkReg.byte_of_not_holds b.dev.clk r odd h

/-! ### The registers as wide as the halfword -/

/-- **A register that takes the byte for a halfword**: it is spared where the zeros are. -/
theorem wide_touches_iff (hput : s.put fe odd v b = s.putHalf fe (v.setWidth 16) b)
    (hvalue : ∀ w, s.value (s.putHalf fe w b).1.dev = w)
    (hderived : ∀ out merged, s.DerivedKept odd b out merged ↔ out = merged)
    (hones : ¬s.ClearedByOnes) :
    s.HandlerTouches fe odd v b ↔
      if odd then v = 0 ∧ lane false (s.value b.dev) = 0 else lane true (s.value b.dev) = 0 := by
  have hlane (odd : Bool) : lane odd (v.setWidth 16) = if odd then 0 else v := by
    rw [Words.setWidth_eq_pair, Words.lane_pair]
  constructor
  · rintro ⟨hother, -, hwritten⟩
    have hself := hwritten hones (withLane odd v 0) (Words.lane_withLane odd v 0)
    rw [hput, hvalue, hlane] at hother hself
    rw [hvalue, Words.lane_withLane] at hself
    cases odd with
    | false => exact hother.symm
    | true => exact ⟨hself.symm, hother.symm.trans hself.symm⟩
  · intro h
    have hself : lane odd (v.setWidth 16) = v := by
      rw [hlane]
      cases odd with
      | false => rfl
      | true => exact h.1.symm
    have hother : lane (!odd) (v.setWidth 16) = lane (!odd) (s.value b.dev) := by
      rw [hlane]
      cases odd with
      | false => exact h.symm
      | true => exact h.1.trans h.2.symm
    refine ⟨?_, (hderived _ _).mpr ?_, fun _ w hw => ?_⟩
    · rw [hput, hvalue, hother]
    · rw [hput, Words.eq_withLane_iff.mpr ⟨hself, hother⟩]
    · rw [hput, hvalue, hvalue, hself, hw]

theorem value_putHalf_t16 (ch : Fin 6) {r : T16Reg} (hr : r ≠ .ctl) (w : U16) :
    (t16 ch r).value ((t16 ch r).putHalf fe w b).1.dev = w := by
  have hself : ((t16 ch r).putHalf fe w b).1.dev.t16 ch = r.write b.dev.clk w (b.dev.t16 ch) :=
    Function.update_self ..
  change r.read _ = w
  rw [hself]
  cases r with
  | ctl => exact absurd rfl hr
  | cra => exact Timer16bit.refreshWake_cra
  | crb => exact Timer16bit.refreshWake_crb
  | tc => exact Timer16bit.refreshWake_tc

/-! A register that is half of a word. -/

theorem setWidth_setLowHalf (x : U32) (w : U16) : (setLowHalf x w).setWidth 16 = w := by
  have hmask : (0xFFFF0000 : U32).setWidth 16 = 0#16 := by decide
  unfold setLowHalf
  rw [BitVec.setWidth_or, BitVec.setWidth_and, hmask, BitVec.and_zero, BitVec.zero_or]
  ext i hi
  simp

theorem setWidth_setHighHalf (x : U32) (w : U16) :
    (setHighHalf x w >>> 16).setWidth 16 = w := by
  have hmask : ((0x0000FFFF : ℕ) : U32) >>> 16 = 0#32 := by decide
  unfold setHighHalf
  rw [BitVec.ushiftRight_or_distrib, BitVec.ushiftRight_and_distrib, hmask, BitVec.and_zero,
    BitVec.zero_or]
  ext i hi
  simp [show 16 + i < 32 by omega, show i < 32 by omega, show ¬16 + i < 16 by omega,
    BitVec.getLsbD_eq_getElem hi]

theorem value_putHalf_bcu (r : BcuReg) (hr : r ≠ .tbrp ∧ r ≠ .ga ∧ r ≠ .bclksel) (w : U16) :
    (bcu r).value ((bcu r).putHalf fe w b).1.dev = w := by
  cases r with
  | tbrp => exact absurd rfl hr.1
  | ga => exact absurd rfl hr.2.1
  | bclksel => exact absurd rfl hr.2.2
  | ttbrLo => exact setWidth_setLowHalf _ w
  | ttbrHi => exact setWidth_setHighHalf _ w
  | _ => rfl

theorem writeCnt_chan (h : Hsdma) (ch : Fin 4) (f : U32 → U32) :
    ((h.writeCnt ch f).chan ch).cnt = f (h.chan ch).cnt := by
  unfold Hsdma.writeCnt
  dsimp only
  rw [Hsdma.chan_setLive, Hsdma.chan_setChan]

theorem writeSadr_chan (h : Hsdma) (ch : Fin 4) (f : U32 → U32) :
    ((h.writeSadr ch f).chan ch).sadr = f (h.chan ch).sadr := by
  unfold Hsdma.writeSadr
  dsimp only
  rw [Hsdma.chan_setLive, Hsdma.chan_setChan]

theorem writeDadr_chan (h : Hsdma) (ch : Fin 4) (f : U32 → U32) :
    ((h.writeDadr ch f).chan ch).dadr = f (h.chan ch).dadr := by
  unfold Hsdma.writeDadr
  rw [Hsdma.chan_setChan]

theorem onEnWrite_chan (h : Hsdma) (ch : Fin 4) (w : U16) :
    ((h.onEnWrite ch w).chan ch).en = w := by
  have hlive (f : ChanLive → ChanLive) :
      (((h.setChan ch ({ · with en := w })).setLive ch f).chan ch).en = w := by
    rw [Hsdma.chan_setLive, Hsdma.chan_setChan]
  unfold Hsdma.onEnWrite
  dsimp only
  split_ifs
  · exact hlive _
  · exact hlive _

theorem value_putHalf_hsdma (ch : Fin 4) {r : DmaReg} (hr : r ≠ .tf) (w : U16) :
    (hsdma ch r).value ((hsdma ch r).putHalf fe w b).1.dev = w := by
  change r.read ((r.write ch w b.dev.hsdma).chan ch) = w
  unfold DmaReg.read DmaReg.write
  cases r with
  | tf => exact absurd rfl hr
  | cntLo =>
    dsimp only
    rw [writeCnt_chan, setWidth_setLowHalf]
  | sadrLo =>
    dsimp only
    rw [writeSadr_chan, setWidth_setLowHalf]
  | dadrLo =>
    dsimp only
    rw [writeDadr_chan, setWidth_setLowHalf]
  | cntHi =>
    dsimp only
    rw [writeCnt_chan, setWidth_setHighHalf]
  | sadrHi =>
    dsimp only
    rw [writeSadr_chan, setWidth_setHighHalf]
  | dadrHi =>
    dsimp only
    rw [writeDadr_chan, setWidth_setHighHalf]
  | en => exact onEnWrite_chan ..

/-! ### The others -/

theorem refreshWake_ctl (t : Timer16bit) (clk : ClockControl) :
    (t.refreshWake clk).ctl = t.ctl := by
  unfold Timer16bit.refreshWake Timer16bit.fillCpc
  dsimp only
  split_ifs <;> rfl

/-- What a write to the control register leaves of the counter. -/
theorem writeCtl_fields (t : Timer16bit) (clk : ClockControl) (w : U16) :
    (t.writeCtl clk w).ctl = lane false w &&& ~~~2 ∧
      (t.writeCtl clk w).tc = (if (lane false w).getLsbD 1 then 0 else t.tc) ∧
      (t.writeCtl clk w).nextTickCycle =
        if (lane false w).getLsbD 1 then 0 else t.nextTickCycle := by
  change _ ∧ _ = (if (w.setWidth 8 : U8).getLsbD 1 then 0 else t.tc) ∧
    _ = (if (w.setWidth 8 : U8).getLsbD 1 then 0 else t.nextTickCycle)
  unfold Timer16bit.writeCtl
  dsimp only
  rw [refreshWake_ctl, Timer16bit.refreshWake_tc, Timer16bit.refreshWake_nextTickCycle]
  refine ⟨rfl, ?_, ?_⟩ <;> split_ifs <;> rfl

/-- A preset that changes nothing need not be made. -/
theorem writeCtl_of_preset {t : Timer16bit} (clk : ClockControl) {w : U16}
    (h : (lane false w).getLsbD 1 = true → t.tc = 0 ∧ t.nextTickCycle = 0) :
    t.writeCtl clk w = t.writeCtl clk ((lane false w &&& ~~~2).setWidth 16) := by
  have hpreset : (if (w.setWidth 8 : U8).getLsbD 1 then t.preset else t) = t := by
    split_ifs with hbit
    · obtain ⟨htc, hnext⟩ := h hbit
      unfold Timer16bit.preset
      rw [← htc, ← hnext]
    · rfl
  have hval : ((lane false w &&& ~~~2).setWidth 16 : U16).setWidth 8 = lane false w &&& ~~~2 := by
    ext i hi
    simp
  have hbit : (lane false w &&& ~~~2).getLsbD 1 = false := by
    rw [BitVec.getLsbD_and]
    exact Bool.and_false _
  have htwice : (lane false w &&& ~~~2) &&& ~~~2 = lane false w &&& ~~~2 := by
    rw [BitVec.and_assoc, BitVec.and_self]
  unfold Timer16bit.writeCtl
  dsimp only
  rw [hpreset, hval, hbit, if_neg Bool.false_ne_true, htwice]
  rfl

/-- Two writes to the control register, the second of which rewrites it: they come to the
same unless the first presets. -/
theorem writeCtl_eq_iff {t : Timer16bit} (clk : ClockControl) {w w' : U16}
    (hctl : lane false w &&& ~~~2 = t.ctl) (hsame : lane false w' = t.ctl) :
    t.writeCtl clk w = t.writeCtl clk w' ↔
      ((lane false w).getLsbD 1 = true → t.tc = 0 ∧ t.nextTickCycle = 0) := by
  have hbit : t.ctl.getLsbD 1 = false := by
    rw [← hctl, BitVec.getLsbD_and]
    exact Bool.and_false _
  have htwice : t.ctl &&& ~~~2 = t.ctl := by
    rw [← hctl, BitVec.and_assoc, BitVec.and_self]
  constructor
  · intro heq hpreset
    refine ⟨?_, ?_⟩
    · have h := congrArg Timer16bit.tc heq
      rw [(writeCtl_fields ..).2.1, (writeCtl_fields ..).2.1, hsame, hpreset, hbit, if_pos rfl,
        if_neg Bool.false_ne_true] at h
      exact h.symm
    · have h := congrArg Timer16bit.nextTickCycle heq
      rw [(writeCtl_fields ..).2.2, (writeCtl_fields ..).2.2, hsame, hpreset, hbit, if_pos rfl,
        if_neg Bool.false_ne_true] at h
      exact h.symm
  · intro h
    have hno : (lane false w').getLsbD 1 = true → t.tc = 0 ∧ t.nextTickCycle = 0 := by
      rw [hsame, hbit]
      exact fun h => absurd h Bool.false_ne_true
    rw [writeCtl_of_preset clk h, writeCtl_of_preset clk hno, hctl, hsame, htwice]

/-- The control register of a 16-bit timer, for which the dummy next to it is taken. -/
theorem t16Ctl_touches_iff (ch : Fin 6) :
    (t16 ch .ctl).HandlerTouches fe odd v b ↔ (t16 ch .ctl).Spares odd v b.dev := by
  have hput : (t16 ch .ctl).put fe odd v b = (t16 ch .ctl).putHalf fe (v.setWidth 16) b := rfl
  have hbus (w : U16) : (t16 ch .ctl).putHalf fe w b =
      ({ b with dev := b.dev.mapT16 ch fun _ => (b.dev.t16 ch).writeCtl b.dev.clk w }, {}) := rfl
  have hhalf (w : U16) : ((t16 ch .ctl).putHalf fe w b).1.dev.t16 ch =
      (b.dev.t16 ch).writeCtl b.dev.clk w := Function.update_self ..
  have hlane (odd : Bool) (c : U8) : lane odd (c.setWidth 16) = if odd then 0 else c := by
    rw [Words.setWidth_eq_pair, Words.lane_pair]
  have hvalue (p : PiecePeripherals) : (t16 ch .ctl).value p = (p.t16 ch).ctl.setWidth 16 := rfl
  cases odd with
  | false =>
    refine iff_of_true ⟨?_, ?_, fun _ w hw => ?_⟩ fun h => absurd h Bool.false_ne_true
    · rw [hvalue, hvalue, hlane, hlane]
      rfl
    · -- the dummy reads as 0, so that the byte alone is the whole halfword
      have hmerged : v.setWidth 16 = withLane false v ((t16 ch .ctl).value b.dev) :=
        Words.eq_withLane_iff.mpr
          ⟨hlane false v, (hlane true v).trans (hlane true (b.dev.t16 ch).ctl).symm⟩
      exact hput.trans (congrArg (putHalf fe · b (t16 ch .ctl)) hmerged)
    · rw [hput, hvalue, hvalue, hlane, hlane, hhalf, hhalf, (writeCtl_fields ..).1,
        (writeCtl_fields ..).1, hw, hlane]
      rfl
  | true =>
    -- a byte for the dummy is written to the register, which it spares only if it changes nothing
    have hself : lane false (v.setWidth 16) = v := hlane false v
    have hsame : lane false (withLane true v ((t16 ch .ctl).value b.dev)) =
        (b.dev.t16 ch).ctl := (Words.lane_not_withLane true v _).trans (hlane false _)
    have hother : lane false ((t16 ch .ctl).value ((t16 ch .ctl).put fe true v b).1.dev) =
        v &&& ~~~2 := by
      rw [hput, hvalue, hlane, hhalf, (writeCtl_fields ..).1, hself]
      rfl
    have hread : lane false ((t16 ch .ctl).value b.dev) = (b.dev.t16 ch).ctl := hlane false _
    constructor
    · rintro ⟨hkept, hderived, -⟩ -
      have hctl : v &&& ~~~2 = (b.dev.t16 ch).ctl := hother.symm.trans (hkept.trans hread)
      have htimer : (b.dev.t16 ch).writeCtl b.dev.clk (v.setWidth 16) =
          (b.dev.t16 ch).writeCtl b.dev.clk (withLane true v ((t16 ch .ctl).value b.dev)) := by
        rw [← hhalf, ← hhalf, ← hput]
        exact congrArg (fun out : Bus PiecePeripherals × CpuRequest => out.1.dev.t16 ch) hderived
      have hpreset := (writeCtl_eq_iff b.dev.clk (by rw [hself, hctl]) hsame).mp htimer
      rw [hself] at hpreset
      exact ⟨hctl, hpreset⟩
    · intro h
      obtain ⟨hctl, hpreset⟩ := h rfl
      refine ⟨hother.trans (hctl.trans hread.symm), ?_, fun _ w hw => ?_⟩
      · change _ = _
        rw [hput, hbus, hbus, (writeCtl_eq_iff b.dev.clk (by rw [hself, hctl]) hsame).mpr]
        rw [hself]
        exact hpreset
      · rw [hvalue, hvalue, hlane, hlane]
        rfl

theorem and_not_eq_self_iff {x y : U8} : x &&& ~~~y = x ↔ x &&& y = 0 := by
  constructor
  · intro h
    rw [← h, BitVec.and_assoc, BitVec.and_comm (~~~y)]
    ext i hi
    simp
  · intro h
    apply BitVec.eq_of_getLsbD_eq
    intro i hi
    have hbit := congrArg (BitVec.getLsbD · i) h
    cases hx : x.getLsbD i
    · simp [hx]
    · simpa [hx, hi] using hbit

/-- A register whose bits are cleared by writing them: those of the low byte, also by a byte
for the high one. -/
theorem tf_touches_iff (ch : Fin 4) :
    (hsdma ch .tf).HandlerTouches fe odd v b ↔ (hsdma ch .tf).Spares odd v b.dev := by
  have hvalue : (hsdma ch .tf).value ((hsdma ch .tf).put fe odd v b).1.dev =
      (b.dev.hsdma.chan ch).tf &&& ~~~v.setWidth 16 := by
    change ((b.dev.hsdma.writeTf ch (v.setWidth 16)).chan ch).tf = _
    unfold Hsdma.writeTf
    rw [Hsdma.chan_setChan]
  have hones : (hsdma ch .tf).ClearedByOnes := trivial
  cases odd with
  | false =>
    refine iff_of_true ⟨?_, trivial, fun h => absurd hones h⟩ fun h => absurd h Bool.false_ne_true
    rw [hvalue]
    change lane true _ = lane true (b.dev.hsdma.chan ch).tf
    ext i hi
    simp [lane, show 8 + i < 16 by omega]
  | true =>
    have hlow : lane false ((b.dev.hsdma.chan ch).tf &&& ~~~v.setWidth 16) =
        lane false (b.dev.hsdma.chan ch).tf &&& ~~~v := by
      ext i hi
      simp [lane]
    have hother : lane false ((hsdma ch .tf).value ((hsdma ch .tf).put fe true v b).1.dev) =
        lane false ((hsdma ch .tf).value b.dev) ↔
          lane false (b.dev.hsdma.chan ch).tf &&& v = 0 := by
      rw [hvalue, hlow]
      exact and_not_eq_self_iff
    exact ⟨fun h _ => hother.mp h.other, fun h => ⟨hother.mpr (h rfl), trivial,
      fun h => absurd hones h⟩⟩

/-- A register that is absorbed. -/
theorem absorbed_touches {r : BcuReg} (hr : r = .tbrp ∨ r = .ga ∨ r = .bclksel) :
    (bcu r).HandlerTouches fe odd v b := by
  rcases hr with rfl | rfl | rfl
  · exact ⟨rfl, rfl, fun _ _ _ => rfl⟩
  · exact ⟨rfl, rfl, fun _ _ _ => rfl⟩
  · exact ⟨rfl, rfl, fun _ _ _ => rfl⟩

/-! ### All slots -/

theorem handlerTouches_iff (hs : ∀ r, s ≠ .port r) :
    s.HandlerTouches fe odd v b ↔ s.Spares odd v b.dev := by
  cases s with
  | port r => exact absurd rfl (hs r)
  | intc i => exact iff_of_true (intc_touches i) trivial
  | clk r => exact iff_of_true (clk_touches r) trivial
  | t8 ch r => exact iff_of_true (t8_touches ch r) trivial
  | wdt => exact iff_of_true wdt_touches trivial
  | t16 ch r =>
    cases r with
    | ctl => exact t16Ctl_touches_iff ch
    | cra | crb | tc =>
      exact wide_touches_iff rfl (value_putHalf_t16 ch (by decide)) (fun _ _ => Iff.rfl) id
  | bcu r =>
    cases r with
    | tbrp | ga | bclksel => exact iff_of_true (absorbed_touches (by decide)) trivial
    | _ => exact wide_touches_iff rfl (value_putHalf_bcu _ (by decide)) (fun _ _ => Iff.rfl) id
  | hsdma ch r =>
    cases r with
    | tf => exact tf_touches_iff ch
    | _ => exact wide_touches_iff rfl (value_putHalf_hsdma ch (by decide)) (fun _ _ => Iff.rfl) id

/-- **A byte write touches one byte** of a halfword if and only if the zeros around it hit
nothing: always, where the halfword has a handler for bytes or is absorbed; and elsewhere, as
`RegSlot.Spares` has it. -/
theorem touchesOneByte_iff (o : OtherDevices) (fe : Frontend) (s : RegSlot)
    (hs : ∀ r, s ≠ .port r) (odd : Bool) (v : U8) (b : Bus PiecePeripherals) {addr : U32}
    (h : Bus.Names addr (s.byteAddr odd)) :
    TouchesOneByte (o.attach fe) s odd addr v b ↔ s.Spares odd v b.dev :=
  (touchesOneByte_iff_handler o h).trans (handlerTouches_iff hs)

/-- The board with `CRB` of the first 16-bit timer at `0x0100`. -/
def crbSet : Bus PiecePeripherals :=
  let b := (Machine.boardOfRom []).bus
  { b with dev := b.dev.mapT16 0 ({ · with crb := 0x0100 }) }

theorem touchesOneByte_iff_crb :
    TouchesOneByte (OtherDevices.absent.attach .cpuRunner) (t16 0 .crb) false 0x048182 0x10
      crbSet ↔ (t16 0 .crb).Spares false 0x10 crbSet.dev :=
  touchesOneByte_iff .absent .cpuRunner (t16 0 .crb) (fun _ => by simp) false 0x10 crbSet
    (by decide +kernel)

/-- **The defect**: a byte written to `CRB` clears its other byte. -/
theorem not_touchesOneByte_crb :
    ¬TouchesOneByte (OtherDevices.absent.attach .cpuRunner) (t16 0 .crb) false 0x048182 0x10
      crbSet := by
  intro h
  have hnames : Bus.Names 0x048182 ((t16 0 .crb).byteAddr false) := by decide +kernel
  have hhandler := (touchesOneByte_iff_handler OtherDevices.absent hnames).mp h
  have hzero : lane true ((t16 0 .crb).value crbSet.dev) = 0 :=
    (handlerTouches_iff fun _ => by simp).mp hhandler
  exact absurd hzero (by decide +kernel)

end RegSlot
