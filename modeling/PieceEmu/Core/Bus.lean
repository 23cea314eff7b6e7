import PieceEmu.Board.Sst39vf

/-!
# The bus

The bus control unit: it maps the 28-bit address space onto internal RAM,
external SRAM, the flash device and the register windows, charges the cycles an
external access costs, and rounds a misaligned address down after raising a fault.

| region | addresses | access |
|---|---|---|
| internal RAM | `0x0000` – `0x1FFF`, mirrored at `0x2000` | free |
| registers | `0x030000` – `0x07FFFF` | the handler of the halfword |
| SRAM | a window of 1 MB at `0x100000` | open bus past the installed size |
| flash | from `0xC00000`, as far as the device goes | the device |

The register handlers belong to the peripherals and are a parameter here
(`IoSpace`): a read handler returns a halfword and may change the peripherals'
state `D`; a write handler may change anything on the bus and, through the
reference it holds, the few parts of the CPU collected in `CpuRequest`. Memories
are functions on all indices; the sizes say how far they are installed. What the
bus only reports to the outside (watchpoint calls, dirty callbacks) is kept as a
list of the calls made.
-/

/-! ### The flash device -/

/-- `FlatFlashRom`: the read-only image. -/
structure FlatFlashRom where
  /-- `mem_.size()`. -/
  memSize : ℕ
  /-- `mem_`. -/
  mem : ℕ → U8

/-- `FlatFlashRom::read16`. -/
def FlatFlashRom.read16 (f : FlatFlashRom) (offset : U32) : U16 :=
  Words.le16 f.mem (offset &&& BitVec.ofInt 32 (f.memSize - 1) &&& ~~~1#32).toNat

/-- The device behind the flash window. -/
inductive FlashDevice
  | flat (rom : FlatFlashRom)
  | sst39vf (chip : Sst39vf)

namespace FlashDevice

/-- `size`. -/
def size : FlashDevice → ℕ
  | flat rom => rom.memSize
  | sst39vf chip => chip.memSize

/-- `mem_ptr`. -/
def mem : FlashDevice → ℕ → U8
  | flat rom => rom.mem
  | sst39vf chip => chip.mem

/-- `in_read_mode`. -/
def inReadMode : FlashDevice → Bool
  | flat _ => true
  | sst39vf chip => chip.inReadMode

/-- `read16`. -/
def read16 : FlashDevice → U32 → U16
  | flat rom, offset => rom.read16 offset
  | sst39vf chip, offset => chip.read16 offset

/-- `read8`: a byte of the halfword at the even offset. -/
def read8 (f : FlashDevice) (offset : U32) : U8 :=
  let hw := f.read16 (offset &&& ~~~1#32)
  if offset &&& 1#32 ≠ 0 then (hw >>> 8).setWidth 8 else hw.setWidth 8

/-- `write16`, with the calls of the dirty callback. A ROM drops the write. -/
def write16 : FlashDevice → U32 → U16 → FlashDevice × List ℕ
  | flat rom, _, _ => (flat rom, [])
  | sst39vf chip, offset, value =>
    let (chip, calls) := chip.write16 offset value
    (sst39vf chip, calls)

end FlashDevice

/-! ### The state of the bus -/

/-- Which accesses a watchpoint watches. -/
inductive WpType
  | write
  | read
  | rw
  deriving DecidableEq, Repr

/-- `Watchpoint`. -/
structure Watchpoint where
  addr : U32
  size : U32 := 4
  type : WpType := .write
  deriving DecidableEq

/-- One call of the watchpoint callback. -/
structure WpCall where
  wp : Watchpoint
  addr : U32
  val : U32
  width : ℕ
  isWrite : Bool
  /-- Not an argument: what memory holds at the place of the access during the call. -/
  held : U32
  deriving DecidableEq

/-- The bus, with the state `dev` of the peripherals behind its register windows. -/
structure Bus (D : Type) where
  /-- `iram_`, 8 KB. -/
  iram : ℕ → U8
  /-- `sram_`. -/
  sram : ℕ → U8
  /-- `sram_.size()`. -/
  sramSize : ℕ
  /-- `flash_device_`. -/
  flash : FlashDevice
  sramWait : ℤ := 2
  flashWait : ℤ := 2
  busClockDiv : ℤ := 1
  cycles : U32 := 0
  debugPc : U32 := 0
  /-- `fault_pending_`. -/
  faultPending : Bool := false
  /-- `shadow_sram_`: the writer of each SRAM byte. -/
  shadowSram : ℕ → U32 := fun _ => 0xFFFFFFFF
  /-- `watchpoints_`. -/
  watchpoints : List Watchpoint := []
  /-- The calls of the watchpoint callback so far. -/
  wpCalls : List WpCall := []
  /-- The calls of the flash device's dirty callback so far. -/
  dirtyCalls : List ℕ := []
  dev : D

/-- What a register write may change in the CPU: the trap table base (the BCU area
controller), the halt flag (the semihosting exit port) and the breakpoints (the
semihosting breakpoint ports). -/
structure CpuRequest where
  ttbr : Option U32 := none
  halt : Bool := false
  breakpoints : (U32 → Bool) → U32 → Bool := id

/-- One request after another. -/
def CpuRequest.andThen (q q' : CpuRequest) : CpuRequest where
  ttbr := q'.ttbr.or q.ttbr
  halt := q.halt || q'.halt
  breakpoints := q'.breakpoints ∘ q.breakpoints

/-- `IoHandler`, one for each halfword of the register windows: the callbacks the
peripherals installed there. -/
structure IoSpace (D : Type) where
  read : ℕ → Option (U32 → Bus D → U16 × D)
  write : ℕ → Option (U32 → U16 → Bus D → Bus D × CpuRequest)
  writeByte : ℕ → Option (U32 → U8 → Bus D → Bus D × CpuRequest)

/-- Register windows with no handler installed. -/
def IoSpace.empty (D : Type) : IoSpace D := ⟨fun _ => none, fun _ => none, fun _ => none⟩

namespace Bus

/-! ### The memory map -/

/-- `IRAM_SIZE`. -/
def iramSize : ℕ := 0x2000
/-- `SRAM_BASE`. -/
def sramBase : U32 := 0x100000
/-- `SRAM_WINDOW`. -/
def sramWindow : U32 := 0x100000
/-- `FLASH_BASE`. -/
def flashBase : U32 := 0xC00000
/-- `AREA1_BASE`. -/
def area1Base : U32 := 0x030000
/-- `IOREG_BASE`. -/
def ioregBase : U32 := 0x040000
/-- `IOREG_SIZE`. -/
def ioregSize : U32 := 0x010000
/-- `SEMIHOST_BASE`. -/
def semihostBase : U32 := 0x060000
/-- `SEMIHOST_SIZE`. -/
def semihostSize : U32 := 0x020000
/-- `IOHANDLER_SPAN`. -/
def iohandlerSpan : ℕ := 0x040000

/-- `normalize_io`: the mirrors of the register window folded onto it. -/
def normalizeIo (addr : U32) : U32 :=
  if addr < semihostBase then ioregBase ||| (addr &&& (ioregSize - 1)) else addr

/-- `Region`. -/
inductive Region
  | iram
  | sram
  | flash
  | io
  | none
  deriving DecidableEq, Repr

/-- The low 28 bits of an address, all the bus decodes. -/
def mask28 (addr : U32) : U32 := addr &&& 0x0FFFFFFF

/-- The region of an address, with a flash device of the given size. -/
def regionOf (flashSize : ℕ) (addr : U32) : Region :=
  let addr := mask28 addr
  if sramBase ≤ addr ∧ addr < sramBase + sramWindow then .sram
  else if flashBase ≤ addr ∧ addr.toNat < flashBase.toNat + flashSize then .flash
  else if area1Base ≤ addr ∧ addr < semihostBase + semihostSize then .io
  else if addr.toNat < iramSize then .iram
  else if 0x002000 ≤ addr ∧ addr < 0x003000 then .iram
  else .none

variable {D : Type}

/-- `classify`. -/
def classify (b : Bus D) (addr : U32) : Region := regionOf b.flash.size addr

/-- The index of an address in the internal RAM, whose mirror is folded onto it. -/
def iramIndex (addr : U32) : ℕ := (addr &&& BitVec.ofNat 32 (iramSize - 1)).toNat

/-- `ext_read_cycles`. -/
def extReadCycles (b : Bus D) (wait : ℤ) : ℤ := (wait + 1) * b.busClockDiv

/-- `ext_write_cycles`. -/
def extWriteCycles (b : Bus D) (wait : ℤ) : ℤ := (wait + 2) * b.busClockDiv

/-- `set_bus_clock_div`. -/
def setBusClockDiv (b : Bus D) (div : ℤ) : Bus D :=
  { b with busClockDiv := if div < 1 then 1 else div }

/-- `cycles += n`, in 32 bits. -/
def charge (b : Bus D) (n : ℤ) : Bus D := { b with cycles := b.cycles + BitVec.ofInt 32 n }

/-- The check that opens a halfword or word access: a misaligned address raises a
fault and is rounded down. -/
def alignTo (b : Bus D) (low addr : U32) : U32 × Bus D :=
  if addr &&& low ≠ 0 then (addr &&& ~~~low, { b with faultPending := true }) else (addr, b)

/-- `take_fault`: the flag, which it clears. -/
def takeFault (b : Bus D) : Bool × Bus D := (b.faultPending, { b with faultPending := false })

/-! ### Watchpoints and the shadow of SRAM -/

/-- `has_watchpoints`. -/
def hasWatchpoints (b : Bus D) : Bool := !b.watchpoints.isEmpty

/-- The condition under which `fire_wp` calls back: the access is of the watched
kind and overlaps the watched range. -/
def Watchpoint.fires (wp : Watchpoint) (addr : U32) (width : ℕ) (isWrite : Bool) : Bool :=
  (wp.type == .rw || isWrite && wp.type == .write || !isWrite && wp.type == .read) &&
    (addr < wp.addr + wp.size && wp.addr < addr + BitVec.ofNat 32 width)

/-- What the SRAM holds at an address, as a number of the given width. -/
def sramHeld (b : Bus D) (addr : U32) (width : ℕ) : U32 :=
  let off := (addr - sramBase).toNat
  match width with
  | 1 => (b.sram off).setWidth 32
  | 2 => (Words.le16 b.sram off).setWidth 32
  | _ => Words.le32 b.sram off

/-- `fire_wp`: one call for each watchpoint the access meets, in their order. -/
def fireWp (b : Bus D) (addr val : U32) (width : ℕ) (isWrite : Bool) : Bus D :=
  { b with
    wpCalls := b.wpCalls ++
      (b.watchpoints.filter fun wp => Watchpoint.fires wp addr width isWrite).map
      fun wp => { wp, addr, val, width, isWrite, held := b.sramHeld addr width } }

/-- `update_shadow`. -/
def updateShadow (b : Bus D) (sramOff width : ℕ) : Bus D :=
  { b with
    shadowSram := fun i =>
      if sramOff ≤ i ∧ i < min (sramOff + width) b.sramSize then b.debugPc else b.shadowSram i }

/-- `shadow_last_writer`. -/
def shadowLastWriter (b : Bus D) (addr : U32) : U32 :=
  let addr := mask28 addr
  if sramBase ≤ addr ∧ addr.toNat < sramBase.toNat + b.sramSize then
    b.shadowSram (addr - sramBase).toNat
  else 0xFFFFFFFF

/-- The calls a write to SRAM makes before it stores. -/
def noteSramWrite (b : Bus D) (addr val : U32) (width : ℕ) : Bus D :=
  if b.hasWatchpoints then
    (b.fireWp addr val width true).updateShadow (addr - sramBase).toNat width
  else b

/-- The calls a read of SRAM makes after it loaded. -/
def noteSramRead (b : Bus D) (addr val : U32) (width : ℕ) : Bus D :=
  if b.hasWatchpoints then b.fireWp addr val width false else b

/-! ### Reading -/

variable (io : IoSpace D)

/-- The halfword the read handler of an address returns, if one is installed. -/
def ioRead (b : Bus D) (addr : U32) : Option (U16 × Bus D) :=
  let idx := ((normalizeIo addr - ioregBase) / 2).toNat
  if idx < iohandlerSpan / 2 then
    (io.read idx).map fun h =>
      let (hw, dev) := h addr b
      (hw, { b with dev })
  else none

/-- `read8`. -/
def read8 (b : Bus D) (addr : U32) : U8 × Bus D :=
  let addr := mask28 addr
  match b.classify addr with
  | .iram => (b.iram (iramIndex addr), b)
  | .sram =>
    let b := b.charge (b.extReadCycles b.sramWait)
    if b.sramSize ≤ (addr - sramBase).toNat then (0xFF, b)
    else
      let v := b.sram (addr - sramBase).toNat
      (v, b.noteSramRead addr (v.setWidth 32) 1)
  | .flash =>
    let b := b.charge (b.extReadCycles b.flashWait)
    (b.flash.read8 (addr - flashBase), b)
  | .io =>
    match b.ioRead io (normalizeIo addr &&& ~~~1#32) with
    | some (hw, b) => (if addr &&& 1 ≠ 0 then (hw >>> 8).setWidth 8 else hw.setWidth 8, b)
    | none => (0xFF, b)
  | .none => (0xFF, b)

/-- `read16`. -/
def read16 (b : Bus D) (addr : U32) : U16 × Bus D :=
  let (addr, b) := b.alignTo 1 (mask28 addr)
  -- fast path 1: SRAM
  let off := addr - sramBase
  if off < sramWindow then
    let b := b.charge (b.extReadCycles b.sramWait)
    if b.sramSize ≤ off.toNat then (0xFFFF, b)
    else
      let v := Words.le16 b.sram off.toNat
      (v, b.noteSramRead addr (v.setWidth 32) 2)
  -- fast path 2: flash and what lies above it
  else if flashBase ≤ addr then
    if addr.toNat < flashBase.toNat + b.flash.size then
      let b := b.charge (b.extReadCycles b.flashWait)
      if b.flash.inReadMode then (Words.le16 b.flash.mem (addr - flashBase).toNat, b)
      else (b.flash.read16 (addr - flashBase), b)
    else (0xFFFF, b)
  else
    match b.classify addr with
    | .iram => (Words.le16 b.iram (iramIndex addr), b)
    | .io => (b.ioRead io addr).getD (0xFFFF, b)
    -- the two external regions were taken by the fast paths
    | .sram | .flash | .none => (0xFFFF, b)

/-- `read32`. -/
def read32 (b : Bus D) (addr : U32) : U32 × Bus D :=
  let (addr, b) := b.alignTo 3 (mask28 addr)
  match b.classify addr with
  | .iram => (Words.le32 b.iram (iramIndex addr), b)
  | .sram =>
    let b := b.charge (b.extReadCycles b.sramWait * 2)
    if b.sramSize ≤ (addr - sramBase).toNat then (0xFFFFFFFF, b)
    else
      let v := Words.le32 b.sram (addr - sramBase).toNat
      (v, b.noteSramRead addr v 4)
  | .flash =>
    let b := b.charge (b.extReadCycles b.flashWait * 2)
    if b.flash.inReadMode then (Words.le32 b.flash.mem (addr - flashBase).toNat, b)
    else
      let lo := b.flash.read16 (addr - flashBase)
      let hi := b.flash.read16 (addr + 2 - flashBase)
      (lo.setWidth 32 ||| hi.setWidth 32 <<< 16, b)
  | .io =>
    let (lo, b) := b.read16 io addr
    let (hi, b) := b.read16 io (addr + 2)
    (lo.setWidth 32 ||| hi.setWidth 32 <<< 16, b)
  | .none => (0xFFFFFFFF, b)

/-! ### Writing -/

/-- A write to the flash device, whose dirty callback is called. -/
def flashWrite16 (b : Bus D) (offset : U32) (val : U16) : Bus D :=
  let (flash, calls) := b.flash.write16 offset val
  { b with flash, dirtyCalls := b.dirtyCalls ++ calls }

/-- `write8`. -/
def write8 (b : Bus D) (addr : U32) (val : U8) : Bus D × CpuRequest :=
  let addr := mask28 addr
  match b.classify addr with
  | .iram => ({ b with iram := Function.update b.iram (iramIndex addr) val }, {})
  | .sram =>
    let b := b.charge (b.extWriteCycles b.sramWait)
    if (addr - sramBase).toNat < b.sramSize then
      let b := b.noteSramWrite addr (val.setWidth 32) 1
      ({ b with sram := Function.update b.sram (addr - sramBase).toNat val }, {})
    else (b, {})
  | .flash =>
    let b := b.charge (b.extWriteCycles b.flashWait)
    (b.flashWrite16 (addr - flashBase) (val.setWidth 16 ||| val.setWidth 16 <<< 8), {})
  | .io =>
    let norm := normalizeIo addr
    let idx := ((norm - ioregBase) / 2).toNat
    if idx < iohandlerSpan / 2 then
      match io.writeByte idx, io.write idx with
      | some h, _ => h norm val b
      | none, some h => h norm (val.setWidth 16) b
      | none, none => (b, {})
    else (b, {})
  | .none => (b, {})

/-- `write16`. -/
def write16 (b : Bus D) (addr : U32) (val : U16) : Bus D × CpuRequest :=
  let (addr, b) := b.alignTo 1 (mask28 addr)
  match b.classify addr with
  | .iram => ({ b with iram := Words.putLe16 b.iram (iramIndex addr) val }, {})
  | .sram =>
    let b := b.charge (b.extWriteCycles b.sramWait)
    if (addr - sramBase).toNat < b.sramSize then
      let b := b.noteSramWrite addr (val.setWidth 32) 2
      ({ b with sram := Words.putLe16 b.sram (addr - sramBase).toNat val }, {})
    else (b, {})
  | .flash =>
    let b := b.charge (b.extWriteCycles b.flashWait)
    (b.flashWrite16 (addr - flashBase) val, {})
  | .io =>
    let idx := ((normalizeIo addr - ioregBase) / 2).toNat
    if idx < iohandlerSpan / 2 then
      match io.write idx with
      | some h => h addr val b
      | none => (b, {})
    else (b, {})
  | .none => (b, {})

/-- `write32`. -/
def write32 (b : Bus D) (addr : U32) (val : U32) : Bus D × CpuRequest :=
  let (addr, b) := b.alignTo 3 (mask28 addr)
  match b.classify addr with
  | .iram => ({ b with iram := Words.putLe32 b.iram (iramIndex addr) val }, {})
  | .sram =>
    let b := b.charge (b.extWriteCycles b.sramWait * 2)
    if (addr - sramBase).toNat < b.sramSize then
      let b := b.noteSramWrite addr val 4
      ({ b with sram := Words.putLe32 b.sram (addr - sramBase).toNat val }, {})
    else (b, {})
  | .flash =>
    -- the chip is x16: two halfword cycles
    let b := b.charge (b.extWriteCycles b.flashWait * 2)
    let b := b.flashWrite16 (addr - flashBase) (val.setWidth 16)
    (b.flashWrite16 (addr + 2 - flashBase) ((val >>> 16).setWidth 16), {})
  | .io =>
    let (b, q) := b.write16 io addr (val.setWidth 16)
    let (b, q') := b.write16 io (addr + 2) ((val >>> 16).setWidth 16)
    (b, q.andThen q')
  | .none => (b, {})

/-! ### Fetching -/

/-- `fetch16`: memory only, raw flash whatever its command state. -/
def fetch16 (b : Bus D) (addr : U32) : U16 × Bus D :=
  let addr := mask28 addr &&& ~~~1#32
  if flashBase ≤ addr ∧ addr.toNat < flashBase.toNat + b.flash.size then
    (Words.le16 b.flash.mem (addr - flashBase).toNat, b.charge (b.extReadCycles b.flashWait))
  else if addr.toNat < iramSize then (Words.le16 b.iram addr.toNat, b.charge 1)
  else if 0x002000 ≤ addr ∧ addr < 0x003000 then (Words.le16 b.iram (iramIndex addr), b.charge 1)
  else if sramBase ≤ addr ∧ addr < sramBase + sramWindow then
    let off := (addr - sramBase).toNat
    (if off < b.sramSize then Words.le16 b.sram off else 0xFFFF,
      b.charge (b.extReadCycles b.sramWait))
  else (0xFFFF, b.charge 1)

/-! ### What an access leaves alone -/

/-- Two states of the bus with the same memories. -/
structure MemoryKept (b b' : Bus D) : Prop where
  iram : b'.iram = b.iram
  sram : b'.sram = b.sram
  sramSize : b'.sramSize = b.sramSize
  flash : b'.flash = b.flash

theorem MemoryKept.refl (b : Bus D) : b.MemoryKept b := ⟨rfl, rfl, rfl, rfl⟩

theorem MemoryKept.charge (b : Bus D) (n : ℤ) : b.MemoryKept (b.charge n) :=
  ⟨rfl, rfl, rfl, rfl⟩

theorem MemoryKept.noteSramWrite {b b' : Bus D} (h : b.MemoryKept b') (addr v : U32)
    (n : ℕ) : b.MemoryKept (b'.noteSramWrite addr v n) := by
  unfold Bus.noteSramWrite
  split_ifs
  · exact ⟨h.iram, h.sram, h.sramSize, h.flash⟩
  · exact h

/-- A read handler returns a new state of the devices, and no more. -/
theorem ioRead_kept {b : Bus D} {addr : U32} {r : U16 × Bus D} (h : b.ioRead io addr = some r) :
    b.MemoryKept r.2 ∧ r.2.watchpoints = b.watchpoints := by
  unfold ioRead at h
  dsimp only at h
  split_ifs at h
  obtain ⟨f, -, rfl⟩ := Option.map_eq_some_iff.mp h
  exact ⟨⟨rfl, rfl, rfl, rfl⟩, rfl⟩

/-- **A byte read** from a memory, from a register or from nowhere: the memories keep their
bytes, and the watchpoints stay. -/
theorem read8_kept (b : Bus D) (addr : U32) :
    b.MemoryKept (b.read8 io addr).2 ∧ (b.read8 io addr).2.watchpoints = b.watchpoints := by
  unfold read8
  dsimp only
  split
  · exact ⟨.refl b, rfl⟩
  · split_ifs
    · exact ⟨.charge b _, rfl⟩
    · unfold noteSramRead
      split_ifs <;> exact ⟨⟨rfl, rfl, rfl, rfl⟩, rfl⟩
  · exact ⟨.charge b _, rfl⟩
  · split
    next hw b' hread => exact ioRead_kept io hread
    next => exact ⟨.refl b, rfl⟩
  · exact ⟨.refl b, rfl⟩

end Bus
