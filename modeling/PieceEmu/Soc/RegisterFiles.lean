import PieceEmu.Soc.Intc

/-!
# Peripherals without a clock

The area registers of the bus control unit (`BcuAreaCtrl`), the channels of the
high-speed DMA (`Hsdma`), and the port controller (`PortCtrl`) with the buttons. A
register of one of the first two is a halfword or one half of a word; a handler of a
half replaces its half and, where there is one, the state derived from it. The ports
are byte registers, with handlers for halfwords and for bytes.
-/

/-- A word with its low half replaced. -/
def setLowHalf (w : U32) (v : U16) : U32 := (w &&& 0xFFFF0000) ||| v.setWidth 32

/-- A word with its high half replaced. -/
def setHighHalf (w : U32) (v : U16) : U32 := (w &&& 0x0000FFFF) ||| v.setWidth 32 <<< 16

/-! ### The area registers -/

/-- `BcuAreaCtrl`. -/
structure BcuAreaCtrl where
  a18_15 : U16 := 0x7777
  a14_13 : U16 := 0x7777
  a12_11 : U16 := 0x7777
  a10_9 : U16 := 0x7777
  a8_7 : U16 := 0x7777
  a6_4 : U16 := 0x7777
  /-- `bus_ctl_`. -/
  busCtl : U16 := 0
  dram : U16 := 0
  access : U16 := 0
  ttbr : U32 := 0x0C0000
  /-- How often `on_ttbr_write` has been called so far. -/
  ttbrWrites : ℕ := 0

namespace BcuAreaCtrl

/-- The wait states an area register sets. -/
def wait (val : U16) : ℤ := (val &&& 0x07).toNat

/-- `on_ttbr_write`, on the registers. -/
def onTtbrWrite (c : BcuAreaCtrl) (val : U32) : BcuAreaCtrl :=
  { c with ttbr := val, ttbrWrites := c.ttbrWrites + 1 }

/-- `reset`. -/
def reset (c : BcuAreaCtrl) : BcuAreaCtrl := { ttbrWrites := c.ttbrWrites }

end BcuAreaCtrl

/-! ### The DMA channels -/

/-- `Hsdma::ChanRegs`. -/
structure ChanRegs where
  cnt : U32 := 0
  sadr : U32 := 0
  dadr : U32 := 0
  en : U16 := 0
  tf : U16 := 0

/-- What the first two channels derive from their registers: `ch0_en`, `ch0_cnt`,
`ch0_sadr`, and the same of channel 1. -/
structure ChanLive where
  en : Bool := false
  cnt : U32 := 0
  sadr : U32 := 0

/-- `Hsdma`. -/
structure Hsdma where
  chan : Fin 4 → ChanRegs := fun _ => {}
  ch0 : ChanLive := {}
  ch1 : ChanLive := {}
  /-- The calls of `on_ch1_start` so far. -/
  ch1Starts : List (U32 × U32) := []

namespace Hsdma

variable (h : Hsdma) (ch : Fin 4)

/-- The registers of a channel, changed. -/
def setChan (f : ChanRegs → ChanRegs) : Hsdma :=
  { h with chan := Function.update h.chan ch (f (h.chan ch)) }

/-- The transfer counter: bits 23–0. -/
def liveCnt : U32 := (h.chan ch).cnt &&& 0x00FFFFFF

/-- The source address: bits 27–0. -/
def liveSadr : U32 := (h.chan ch).sadr &&& 0x0FFFFFFF

/-- The derived state of a channel, changed, where it has one. -/
def setLive (f : ChanLive → ChanLive) : Hsdma :=
  if ch = 0 then { h with ch0 := f h.ch0 }
  else if ch = 1 then { h with ch1 := f h.ch1 }
  else h

@[simp] theorem chan_setChan (f : ChanRegs → ChanRegs) :
    (h.setChan ch f).chan ch = f (h.chan ch) := Function.update_self ..

@[simp] theorem chan_setLive (f : ChanLive → ChanLive) : (h.setLive ch f).chan = h.chan := by
  unfold setLive
  split_ifs <;> rfl

@[simp] theorem ch1Starts_setLive (f : ChanLive → ChanLive) :
    (h.setLive ch f).ch1Starts = h.ch1Starts := by
  unfold setLive
  split_ifs <;> rfl

/-- A handler of `rCNT`. -/
def writeCnt (f : U32 → U32) : Hsdma :=
  let h := h.setChan ch fun c => { c with cnt := f c.cnt }
  h.setLive ch ({ · with cnt := h.liveCnt ch })

/-- A handler of `rSADR`. -/
def writeSadr (f : U32 → U32) : Hsdma :=
  let h := h.setChan ch fun c => { c with sadr := f c.sadr }
  h.setLive ch ({ · with sadr := h.liveSadr ch })

/-- A handler of `rDADR`. -/
def writeDadr (f : U32 → U32) : Hsdma := h.setChan ch fun c => { c with dadr := f c.dadr }

/-- `on_en_write`. -/
def onEnWrite (val : U16) : Hsdma :=
  let newEn := val.getLsbD 0
  let oldEn := (h.chan ch).en.getLsbD 0
  let h := h.setChan ch ({ · with en := val })
  let h := h.setLive ch fun _ => ⟨newEn, h.liveCnt ch, h.liveSadr ch⟩
  if ch = 1 ∧ !oldEn ∧ newEn then
    { h with ch1Starts := h.ch1Starts ++ [(h.ch1.sadr, h.ch1.cnt)] }
  else h

/-- The write handler of `rTF`: a bit that is written is cleared. -/
def writeTf (v : U16) : Hsdma := h.setChan ch fun c => { c with tf := c.tf &&& ~~~v }

/-- `finish_ch1`. -/
def finishCh1 : Hsdma :=
  { h.setChan 1 fun c => { c with en := c.en &&& ~~~1, cnt := 0 } with
    ch1 := { h.ch1 with en := false, cnt := 0 } }

/-- `reset`. -/
def reset : Hsdma := { ch1Starts := h.ch1Starts }

end Hsdma

/-! ### The ports -/

/-- `PortCtrl`. -/
structure PortCtrl where
  cfk5 : U8 := 0
  k5d : U8 := 0xFF
  cfk6 : U8 := 0
  k6d : U8 := 0xFF
  /-- `pint_`. -/
  pint : ℕ → U8 := fun _ => 0
  /-- `pport_`: the data register of port 0, at 1, starts with `P07` set. -/
  pport : ℕ → U8 := Function.update (fun _ => 0) 1 0x80

namespace PortCtrl

variable (p : PortCtrl)

/-- A key interrupt whose inputs, as far as they are not masked, are what they are
compared with. -/
def keyMatch (select : U8) (scpk smpk : ℕ) : Bool :=
  let mask := p.pint smpk
  let act :=
    if select = 0 then p.k5d &&& ~~~mask else if select = 1 then p.k6d &&& ~~~mask else 0
  act = p.pint scpk &&& ~~~mask

/-- `check_key_irq`, with the sources it raises. -/
def checkKeyIrq : List IrqSource :=
  (if p.keyMatch (p.pint 4 &&& 0x03) 6 8 then [IrqSource.key0] else []) ++
    if p.keyMatch ((p.pint 4 >>> 2) &&& 0x03) 7 9 then [IrqSource.key1] else []

/-- `set_k5`, with the sources it raises. -/
def setK5 (bits : U8) : PortCtrl × List IrqSource :=
  ({ p with k5d := bits }, { p with k5d := bits }.checkKeyIrq)

/-- `set_k6`, with the sources it raises. -/
def setK6 (bits : U8) : PortCtrl × List IrqSource :=
  ({ p with k6d := bits }, { p with k6d := bits }.checkKeyIrq)

/-- `pd`: the data register of a port. -/
def pd (port : ℕ) : U8 := p.pport (port * 4 + 1)

/-- `P07`, which selects the frequency of the oscillator. -/
def p07 : Bool := (p.pd 0).getLsbD 7

/-- Two byte registers, read as a halfword. -/
def readPair (lo hi : U8) : U16 := lo.setWidth 16 ||| hi.setWidth 16 <<< 8

/-- A halfword of an array of byte registers, written. -/
def setPair (a : ℕ → U8) (i : ℕ) (v : U16) : ℕ → U8 :=
  Function.update (Function.update a (i * 2) (v.setWidth 8)) (i * 2 + 1) ((v >>> 8).setWidth 8)

/-- One byte of a halfword of an array of byte registers, written. -/
def setPairByte (a : ℕ → U8) (i : ℕ) (addr : U32) (v : U8) : ℕ → U8 :=
  if addr.getLsbD 0 then Function.update a (i * 2 + 1) v else Function.update a (i * 2) v

/-- The write handler of `rCFK5` and `rK5D`, the second of which is an input. -/
def writeK5 (addr : U32) (v : U16) : PortCtrl :=
  if addr.getLsbD 0 then p else { p with cfk5 := v.setWidth 8 }

/-- The halfword handler of `rCFK6`. -/
def writeK6Func (v : U16) : PortCtrl := { p with cfk6 := (v >>> 8).setWidth 8 }

/-- The byte handler of `rCFK6`. -/
def writeK6FuncByte (addr : U32) (v : U8) : PortCtrl :=
  if addr.getLsbD 0 then { p with cfk6 := v } else p

/-- The halfword handler of a pair of interrupt registers. -/
def writePint (i : ℕ) (v : U16) : PortCtrl := { p with pint := setPair p.pint i v }

/-- The byte handler of a pair of interrupt registers. -/
def writePintByte (i : ℕ) (addr : U32) (v : U8) : PortCtrl :=
  { p with pint := setPairByte p.pint i addr v }

/-- The halfword handler of a pair of port registers. -/
def writePport (i : ℕ) (v : U16) : PortCtrl := { p with pport := setPair p.pport i v }

/-- The byte handler of a pair of port registers. -/
def writePportByte (i : ℕ) (addr : U32) (v : U8) : PortCtrl :=
  { p with pport := setPairByte p.pport i addr v }

/-- `reset`. -/
def reset : PortCtrl := {}

end PortCtrl
