import PieceEmu.Core.DeviceInvariant
import PieceEmu.System.PiecePeripherals

/-!
# The registers of the board

What the peripherals register on the bus: a handler for each halfword of their
registers (`IoHandler`), in the order in which `PiecePeripherals::attach` registers
them (`registerIo`). A halfword that holds two byte registers has a handler for bytes of
its own, or its halfword handler looks at the parity of the address; a halfword that
holds half of a word replaces its half.

Three kinds of writes reach beyond the device they are made to. The clock control calls
`on_clock_change` when the frequency of the CPU may have changed, which is bound to the
loop of the CPU thread or to the libretro core (`Frontend`); the port controller tells the
clock control of a change of `P07`; and the area registers set the wait states of the
bus and the trap table base of the CPU.

The calendar of the clock timer, the serial interface with the display behind it and
semihosting are the parameter `OtherDevices`: they have their own registers, and no
access to the clock control, the ports and the area registers.
-/

/-! ### Handlers -/

/-- `IoHandler`: the callbacks of one halfword. -/
structure IoHandler (D : Type) where
  read : U32 → Bus D → U16 × D
  write : U32 → U16 → Bus D → Bus D × CpuRequest
  /-- `write_byte`. -/
  writeByte : Option (U32 → U8 → Bus D → Bus D × CpuRequest) := none

/-- The index of the handler of an address. -/
def Bus.ioIndex (addr : U32) : ℕ := ((normalizeIo addr - ioregBase) / 2).toNat

/-- `register_io`. Every address it is called with here passes its check. -/
def IoSpace.registerIo {D : Type} (io : IoSpace D) (addr : U32) (h : IoHandler D) : IoSpace D where
  read := Function.update io.read (Bus.ioIndex addr) (some h.read)
  write := Function.update io.write (Bus.ioIndex addr) (some h.write)
  writeByte := Function.update io.writeByte (Bus.ioIndex addr) h.writeByte

namespace PiecePeripherals

/-- A read handler that looks at the peripherals and leaves them alone. -/
def reading (f : PiecePeripherals → U16) (_ : U32) (b : Bus PiecePeripherals) :
    U16 × PiecePeripherals :=
  (f b.dev, b.dev)

/-- A write handler that changes the peripherals alone. -/
def writing {V : Type} (f : U32 → V → PiecePeripherals → PiecePeripherals) (addr : U32) (v : V)
    (b : Bus PiecePeripherals) : Bus PiecePeripherals × CpuRequest :=
  ({ b with dev := f addr v b.dev }, {})

/-- A write handler that has no effect on the CPU. -/
def onBus {V : Type} (f : U32 → V → Bus PiecePeripherals → Bus PiecePeripherals) (addr : U32)
    (v : V) (b : Bus PiecePeripherals) : Bus PiecePeripherals × CpuRequest :=
  (f addr v b, {})

end PiecePeripherals

open PiecePeripherals (reading writing onBus)

/-! ### The clock control -/

/-- What `on_clock_change` is bound to. -/
inductive Frontend
  /-- The loop of the CPU thread. -/
  | cpuRunner
  /-- The libretro core, which only notes the frequency. -/
  | libretro
  deriving DecidableEq

/-- `PIECE_BCLK_HZ`. -/
def Bus.pieceBclkHz : U32 := 24000000

/-- `on_clock_change`. What it changes in the loop of the CPU thread is answered there. -/
def Frontend.onClockChange (newHz : U32) (b : Bus PiecePeripherals) :
    Frontend → Bus PiecePeripherals
  | .cpuRunner =>
    { b.setBusClockDiv (newHz / Bus.pieceBclkHz).toNat with
      dev := { b.dev.askedWake with
        clockChanges := b.dev.clockChanges ++ [⟨newHz, b.dev.nextWakeCycle⟩] } }
  | .libretro => b

/-- A register write of the clock control, with the call of `on_clock_change` it makes. -/
def Frontend.clkWrite (fe : Frontend) (f : ClockControl → ClockControl × Option U32)
    (b : Bus PiecePeripherals) : Bus PiecePeripherals :=
  let c := f b.dev.clk
  let b := { b with dev := { b.dev with clk := c.1 } }
  match c.2 with
  | none => b
  | some newHz => fe.onClockChange newHz b

/-- The halfwords of the clock control. -/
inductive ClkReg
  /-- `0x040140`: `c_CLKSEL_T8_45`, and a dummy. -/
  | clkselT8_45
  /-- `0x040144`: a dummy, and `c_CLKCTL_T8_45`. -/
  | clkctlT8_45
  /-- `0x040146`: `c_CLKSEL_T8` and `c_CLKCTL_T16_0`. -/
  | clkselT8
  /-- `0x040148`: `c_CLKCTL_T16_1` and `c_CLKCTL_T16_2`. -/
  | clkctlT16_1
  /-- `0x04014A`: `c_CLKCTL_T16_3` and `c_CLKCTL_T16_4`. -/
  | clkctlT16_3
  /-- `0x04014C`: `c_CLKCTL_T16_5` and `c_CLKCTL_T8_01`. -/
  | clkctlT16_5
  /-- `0x04014E`: `c_CLKCTL_T8_23`, and the clock of the A/D converter, absorbed. -/
  | clkctlT8_23
  /-- `0x040180`: `rPWRCTL`, and `rCLKSEL`, absorbed. -/
  | pwrctl
  deriving DecidableEq

namespace ClkReg

/-- Where the register is. -/
def addr : ClkReg → U32
  | clkselT8_45 => 0x040140
  | clkctlT8_45 => 0x040144
  | clkselT8 => 0x040146
  | clkctlT16_1 => 0x040148
  | clkctlT16_3 => 0x04014A
  | clkctlT16_5 => 0x04014C
  | clkctlT8_23 => 0x04014E
  | pwrctl => 0x040180

/-- The read handler. -/
def read (c : ClockControl) : ClkReg → U16
  | clkselT8_45 => c.clkselT8_45.setWidth 16
  | clkctlT8_45 => (c.clkctlT8 2).setWidth 16 <<< 8
  | clkselT8 => c.clkselT8.setWidth 16 ||| (c.clkctlT16 0).setWidth 16 <<< 8
  | clkctlT16_1 => (c.clkctlT16 1).setWidth 16 ||| (c.clkctlT16 2).setWidth 16 <<< 8
  | clkctlT16_3 => (c.clkctlT16 3).setWidth 16 ||| (c.clkctlT16 4).setWidth 16 <<< 8
  | clkctlT16_5 => (c.clkctlT16 5).setWidth 16 ||| (c.clkctlT8 0).setWidth 16 <<< 8
  | clkctlT8_23 => (c.clkctlT8 1).setWidth 16
  | pwrctl => c.pwrctl.setWidth 16

/-- A halfword whose low byte is the one register in it: a byte written to the other is
absorbed. -/
def writeLow (fe : Frontend) (reg : U32) (addr : U32) (v : U16) (b : Bus PiecePeripherals) :
    Bus PiecePeripherals :=
  if addr.getLsbD 0 then b else fe.clkWrite (·.writeSingle reg (v.setWidth 8)) b

/-- The halfword handler. -/
def write (fe : Frontend) (addr : U32) (v : U16) (b : Bus PiecePeripherals) :
    ClkReg → Bus PiecePeripherals
  | clkselT8_45 => writeLow fe 0x040140 addr v b
  | clkctlT8_45 => fe.clkWrite (·.writeSingle 0x040145 ((v >>> 8).setWidth 8)) b
  | clkselT8 => writePair 0x040146
  | clkctlT16_1 => writePair 0x040148
  | clkctlT16_3 => writePair 0x04014A
  | clkctlT16_5 => writePair 0x04014C
  | clkctlT8_23 => writeLow fe 0x04014E addr v b
  | pwrctl => writeLow fe 0x040180 addr v b
where
  /-- Two byte registers, the low one first. -/
  writePair (reg : U32) : Bus PiecePeripherals :=
    fe.clkWrite (·.writeSingle (reg + 1) ((v >>> 8).setWidth 8))
      (fe.clkWrite (·.writeSingle reg (v.setWidth 8)) b)

/-- The byte handler, where there is one. -/
def writeByte (fe : Frontend) :
    ClkReg → Option (U32 → U8 → Bus PiecePeripherals → Bus PiecePeripherals)
  | clkctlT8_45 => some fun addr v b =>
    if addr.getLsbD 0 then fe.clkWrite (·.writeSingle 0x040145 v) b else b
  | clkselT8 | clkctlT16_1 | clkctlT16_3 | clkctlT16_5 => some fun addr v b =>
    fe.clkWrite (·.writeSingle addr v) b
  | clkselT8_45 | clkctlT8_23 | pwrctl => none

end ClkReg

/-! ### The timers -/

/-- The halfwords of an 8-bit timer. -/
inductive T8Reg
  /-- `rT8CTL` and `rRLD`. -/
  | ctl
  /-- `rPTD`, which is read only, and a dummy. -/
  | ptd
  deriving DecidableEq

/-- A change of one 8-bit timer. -/
def PiecePeripherals.mapT8 (ch : Fin 4) (f : Timer8bit → Timer8bit) (p : PiecePeripherals) :
    PiecePeripherals :=
  { p with t8 := Function.update p.t8 ch (f (p.t8 ch)) }

/-- A change of one 16-bit timer. -/
def PiecePeripherals.mapT16 (ch : Fin 6) (f : Timer16bit → Timer16bit) (p : PiecePeripherals) :
    PiecePeripherals :=
  { p with t16 := Function.update p.t16 ch (f (p.t16 ch)) }

/-- The handlers of a halfword of an 8-bit timer. -/
def T8Reg.handler (ch : Fin 4) : T8Reg → IoHandler PiecePeripherals
  | ctl =>
    { read := reading fun p => (p.t8 ch).readCtl
      write := writing fun _ v p => p.mapT8 ch (·.writeCtl v)
      writeByte := some <| writing fun addr v p => p.mapT8 ch (·.writeCtlByte addr v) }
  | ptd =>
    { read := reading fun p => (p.t8 ch).readPtd
      write := writing fun _ _ p => p }

/-- The halfwords of a 16-bit timer. -/
inductive T16Reg
  | cra
  | crb
  | tc
  /-- `rT16CTL`, and a dummy. -/
  | ctl
  deriving DecidableEq

/-- The offset of a halfword in its channel. -/
def T16Reg.offset : T16Reg → U32
  | cra => 0
  | crb => 2
  | tc => 4
  | ctl => 6

/-- The read handler of a halfword of a 16-bit timer. -/
def T16Reg.read (t : Timer16bit) : T16Reg → U16
  | cra => t.cra
  | crb => t.crb
  | tc => t.tc
  | ctl => t.ctl.setWidth 16

/-- The write handler. -/
def T16Reg.write (clk : ClockControl) (v : U16) (t : Timer16bit) : T16Reg → Timer16bit
  | cra => t.writeCra clk v
  | crb => t.writeCrb clk v
  | tc => t.writeTc clk v
  | ctl => t.writeCtl clk v

/-! ### The ports -/

/-- The halfwords of the port controller. -/
inductive PortReg
  /-- `0x0402C0`: `rCFK5` and `rK5D`. -/
  | k5
  /-- `0x0402C2`: a dummy, and `rCFK6`. -/
  | k6Func
  /-- `0x0402C4`: `rK6D`, and a dummy. -/
  | k6
  /-- `0x0402C6` – `0x0402CF`: the interrupts of the inputs. -/
  | pint (i : Fin 5)
  /-- `0x0402D0` – `0x0402DF`: the four ports. -/
  | pport (i : Fin 8)
  deriving DecidableEq

namespace PortReg

/-- Where the register is. -/
def addr : PortReg → U32
  | k5 => 0x0402C0
  | k6Func => 0x0402C2
  | k6 => 0x0402C4
  | pint i => 0x0402C6 + 2 * BitVec.ofNat 32 i
  | pport i => 0x0402D0 + 2 * BitVec.ofNat 32 i

/-- The read handler. -/
def read (p : PortCtrl) : PortReg → U16
  | k5 => PortCtrl.readPair p.cfk5 p.k5d
  | k6Func => p.cfk6.setWidth 16 <<< 8
  | k6 => p.k6d.setWidth 16
  | pint i => PortCtrl.readPair (p.pint (i * 2)) (p.pint (i * 2 + 1))
  | pport i => PortCtrl.readPair (p.pport (i * 2)) (p.pport (i * 2 + 1))

/-- The halfword handler, on the ports. -/
def write (addr : U32) (v : U16) (p : PortCtrl) : PortReg → PortCtrl
  | k5 => p.writeK5 addr v
  | k6Func => p.writeK6Func v
  | k6 => p
  | pint i => p.writePint i v
  | pport i => p.writePport i v

/-- The byte handler, on the ports, where there is one. -/
def writeByte : PortReg → Option (U32 → U8 → PortCtrl → PortCtrl)
  | k6Func => some fun addr v p => p.writeK6FuncByte addr v
  | pint i => some fun addr v p => p.writePintByte i addr v
  | pport i => some fun addr v p => p.writePportByte i addr v
  | k5 | k6 => none

/-- `p07_notify`. -/
def p07Notify (fe : Frontend) (oldHi : U8) (b : Bus PiecePeripherals) : Bus PiecePeripherals :=
  let newHi := b.dev.portctrl.pport 1
  if (oldHi ^^^ newHi) &&& 0x80 ≠ 0 then fe.clkWrite (·.setP07 (newHi &&& 0x80 ≠ 0)) b else b

/-- A write to the ports: the clock control is told of `P07` by the halfword that holds
it. -/
def notifying (fe : Frontend) (f : PortCtrl → PortCtrl) (b : Bus PiecePeripherals)
    (r : PortReg) : Bus PiecePeripherals :=
  let b' := { b with dev := { b.dev with portctrl := f b.dev.portctrl } }
  if r = pport 0 then p07Notify fe (b.dev.portctrl.pport 1) b' else b'

end PortReg

/-! ### The area registers -/

/-- The halfwords of the area registers. -/
inductive BcuReg
  | a18_15
  | a14_13
  | a12_11
  /-- `rA10_9`: the wait states of the flash. -/
  | a10_9
  | a8_7
  /-- `rA6_4`: the wait states of the SRAM. -/
  | a6_4
  /-- A dummy, and `rTBRP`, absorbed. -/
  | tbrp
  | busCtl
  | dram
  | access
  /-- The low halfword of `rTTBR`. -/
  | ttbrLo
  /-- The high halfword of `rTTBR`. -/
  | ttbrHi
  /-- `rGA`, absorbed. -/
  | ga
  /-- `rBCLKSEL`, absorbed. -/
  | bclksel
  deriving DecidableEq

namespace BcuReg

/-- The offset from `BCU_BASE`. -/
def offset : BcuReg → U32
  | a18_15 => 0x00
  | a14_13 => 0x02
  | a12_11 => 0x04
  | a10_9 => 0x06
  | a8_7 => 0x08
  | a6_4 => 0x0A
  | tbrp => 0x0C
  | busCtl => 0x0E
  | dram => 0x10
  | access => 0x12
  | ttbrLo => 0x14
  | ttbrHi => 0x16
  | ga => 0x18
  | bclksel => 0x1A

/-- The read handler. -/
def read (c : BcuAreaCtrl) : BcuReg → U16
  | a18_15 => c.a18_15
  | a14_13 => c.a14_13
  | a12_11 => c.a12_11
  | a10_9 => c.a10_9
  | a8_7 => c.a8_7
  | a6_4 => c.a6_4
  | tbrp | ga | bclksel => 0
  | busCtl => c.busCtl
  | dram => c.dram
  | access => c.access
  | ttbrLo => c.ttbr.setWidth 16
  | ttbrHi => (c.ttbr >>> 16).setWidth 16

/-- The write handler, on the registers. -/
def store (v : U16) (c : BcuAreaCtrl) : BcuReg → BcuAreaCtrl
  | a18_15 => { c with a18_15 := v }
  | a14_13 => { c with a14_13 := v }
  | a12_11 => { c with a12_11 := v }
  | a10_9 => { c with a10_9 := v }
  | a8_7 => { c with a8_7 := v }
  | a6_4 => { c with a6_4 := v }
  | tbrp | ga | bclksel => c
  | busCtl => { c with busCtl := v }
  | dram => { c with dram := v }
  | access => { c with access := v }
  | ttbrLo => c.onTtbrWrite (setLowHalf c.ttbr v)
  | ttbrHi => c.onTtbrWrite (setHighHalf c.ttbr v)

/-- The write handler, with what it derives: the wait states on the bus
(`on_a10_9_write`, `on_a6_4_write`), and the trap table base of the CPU
(`on_ttbr_write`). -/
def write (v : U16) (b : Bus PiecePeripherals) (r : BcuReg) :
    Bus PiecePeripherals × CpuRequest :=
  let c := r.store v b.dev.bcuArea
  let b := { b with dev := { b.dev with bcuArea := c } }
  match r with
  | a10_9 => ({ b with flashWait := BcuAreaCtrl.wait v }, {})
  | a6_4 => ({ b with sramWait := BcuAreaCtrl.wait v }, {})
  | ttbrLo | ttbrHi => (b, { ttbr := some c.ttbr })
  | _ => (b, {})

end BcuReg

/-! ### The DMA channels -/

/-- The halfwords of a channel of the high-speed DMA. -/
inductive DmaReg
  | cntLo
  | cntHi
  | sadrLo
  | sadrHi
  | dadrLo
  | dadrHi
  /-- `rHSEN`. -/
  | en
  /-- `rTF`. -/
  | tf
  deriving DecidableEq

namespace DmaReg

/-- The offset of a halfword in its channel. -/
def offset : DmaReg → U32
  | cntLo => 0x0
  | cntHi => 0x2
  | sadrLo => 0x4
  | sadrHi => 0x6
  | dadrLo => 0x8
  | dadrHi => 0xA
  | en => 0xC
  | tf => 0xE

/-- The read handler. -/
def read (c : ChanRegs) : DmaReg → U16
  | cntLo => c.cnt.setWidth 16
  | cntHi => (c.cnt >>> 16).setWidth 16
  | sadrLo => c.sadr.setWidth 16
  | sadrHi => (c.sadr >>> 16).setWidth 16
  | dadrLo => c.dadr.setWidth 16
  | dadrHi => (c.dadr >>> 16).setWidth 16
  | en => c.en
  | tf => c.tf

/-- The write handler. -/
def write (ch : Fin 4) (v : U16) (h : Hsdma) : DmaReg → Hsdma
  | cntLo => h.writeCnt ch (setLowHalf · v)
  | cntHi => h.writeCnt ch (setHighHalf · v)
  | sadrLo => h.writeSadr ch (setLowHalf · v)
  | sadrHi => h.writeSadr ch (setHighHalf · v)
  | dadrLo => h.writeDadr ch (setLowHalf · v)
  | dadrHi => h.writeDadr ch (setHighHalf · v)
  | en => h.onEnWrite ch v
  | tf => h.writeTf ch v

end DmaReg

/-! ### All registers -/

/-- A halfword of the register windows, by what is registered there. -/
inductive RegSlot
  | intc (i : Fin 32)
  | clk (r : ClkReg)
  | t8 (ch : Fin 4) (r : T8Reg)
  | t16 (ch : Fin 6) (r : T16Reg)
  | port (r : PortReg)
  | bcu (r : BcuReg)
  /-- `0x040170`: `rWRWD` and `rEWD`. -/
  | wdt
  | hsdma (ch : Fin 4) (r : DmaReg)
  deriving DecidableEq

namespace RegSlot

/-- The address a handler is registered at. -/
def addr : RegSlot → U32
  | intc i => 0x040260 + 2 * BitVec.ofNat 32 i
  | clk r => r.addr
  | t8 ch .ctl => 0x040160 + 4 * BitVec.ofNat 32 ch
  | t8 ch .ptd => 0x040160 + 4 * BitVec.ofNat 32 ch + 2
  | t16 ch r => 0x048180 + 8 * BitVec.ofNat 32 ch + r.offset
  | port r => r.addr
  | bcu r => 0x048120 + r.offset
  | wdt => 0x040170
  | hsdma ch r => 0x048220 + 0x10 * BitVec.ofNat 32 ch + r.offset

/-- What is registered there. -/
def handler (fe : Frontend) : RegSlot → IoHandler PiecePeripherals
  | intc i =>
    { read := reading fun p => p.intc.ioRead (2 * i)
      write := writing fun addr v p => { p with intc := p.intc.ioWrite (2 * i) addr v }
      writeByte := some <| writing fun addr v p =>
        { p with intc := p.intc.ioWriteByte (2 * i) addr v } }
  | clk r =>
    { read := reading fun p => r.read p.clk
      write := onBus fun addr v b => r.write fe addr v b
      writeByte := (r.writeByte fe).map onBus }
  | t8 ch r => r.handler ch
  | t16 ch r =>
    { read := reading fun p => r.read (p.t16 ch)
      write := writing fun _ v p => p.mapT16 ch (r.write p.clk v) }
  | port r =>
    { read := reading fun p => r.read p.portctrl
      write := onBus fun addr v b => r.notifying fe (r.write addr v) b
      writeByte := r.writeByte.map fun f => onBus fun addr v b => r.notifying fe (f addr v) b }
  | bcu r =>
    { read := reading fun p => r.read p.bcuArea
      write := fun _ v b => r.write v b }
  | wdt =>
    { read := reading fun p => p.wdt.read
      write := writing fun _ v p => { p with wdt := p.wdt.write v }
      writeByte := some <| writing fun addr v p => { p with wdt := p.wdt.writeByte addr v } }
  | hsdma ch r =>
    { read := reading fun p => r.read (p.hsdma.chan ch)
      write := writing fun _ v p => { p with hsdma := r.write ch v p.hsdma } }

/-- All of them, in the order in which `PiecePeripherals::attach` registers them. -/
def all : List RegSlot :=
  (List.finRange 32).map intc ++
  [.clkselT8_45, .clkctlT8_45, .clkselT8, .clkctlT16_1, .clkctlT16_3, .clkctlT16_5,
    .clkctlT8_23, .pwrctl].map clk ++
  (List.finRange 4).flatMap (fun ch => [t8 ch .ctl, t8 ch .ptd]) ++
  (List.finRange 6).flatMap (fun ch => [.cra, .crb, .tc, .ctl].map (t16 ch)) ++
  ([PortReg.k5, .k6Func, .k6] ++ (List.finRange 5).map PortReg.pint ++
    (List.finRange 8).map PortReg.pport).map port ++
  [.a18_15, .a14_13, .a12_11, .a10_9, .a8_7, .a6_4, .tbrp, .busCtl, .dram, .access, .ttbrLo,
    .ttbrHi, .ga, .bclksel].map bcu ++
  [wdt] ++
  (List.finRange 4).flatMap fun ch =>
    [.cntLo, .cntHi, .sadrLo, .sadrHi, .dadrLo, .dadrHi, .en, .tf].map (hsdma ch)

end RegSlot

/-! ### The other devices -/

/-- Two states of the bus with the same clock control, port registers, area registers and
divisor of the bus clock. -/
structure Bus.SameControl (b b' : Bus PiecePeripherals) : Prop where
  clk : b'.dev.clk = b.dev.clk
  pport : b'.dev.portctrl.pport = b.dev.portctrl.pport
  bcuArea : b'.dev.bcuArea = b.dev.bcuArea
  busClockDiv : b'.busClockDiv = b.busClockDiv

/-- The handlers of the devices that are not modelled here: the calendar of the clock
timer, the serial interface with the display behind it, and semihosting. -/
structure OtherDevices where
  io : IoSpace PiecePeripherals
  read : ∀ {idx h}, io.read idx = some h → ∀ addr (b : Bus PiecePeripherals),
    b.SameControl { b with dev := (h addr b).2 }
  write : ∀ {idx h}, io.write idx = some h → ∀ addr v (b : Bus PiecePeripherals),
    b.SameControl (h addr v b).1 ∧ (h addr v b).2.ttbr = none
  writeByte : ∀ {idx h}, io.writeByte idx = some h → ∀ addr v (b : Bus PiecePeripherals),
    b.SameControl (h addr v b).1 ∧ (h addr v b).2.ttbr = none

/-- No other devices. -/
def OtherDevices.absent : OtherDevices where
  io := .empty PiecePeripherals
  read h := by cases h
  write h := by cases h
  writeByte h := by cases h

/-- The registers of the board, over those of the other devices. -/
def OtherDevices.attach (o : OtherDevices) (fe : Frontend) : IoSpace PiecePeripherals :=
  RegSlot.all.foldl (fun io s => io.registerIo s.addr (s.handler fe)) o.io

/-- The board as it is put together, with the halfwords of a ROM. -/
def Machine.boardOfRom (rom : List U16) : Machine PiecePeripherals where
  cpu := {}
  bus := { (Machine.ofRom rom).bus with dev := ({} : PiecePeripherals).attach }
