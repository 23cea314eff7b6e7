import PieceEmu.Core.FlatView
import PieceEmu.Core.DeviceInvariant
import PieceEmu.Lib.Run
import PieceEmu.System.RegisterAccess

/-!
# The semihosting ports

A bare-metal program talks to the emulator through halfword ports at `0x060000`. What takes
more than a halfword goes through latches: the low half of an address is kept until the
high half arrives, and a read of the lowest quarter of the cycle counter keeps the whole
counter for the reads that follow. Between the halves anything may happen – an interrupt
handler may access the bus, and the counter goes on – and the latches are shared.

| port | offset | latch | theorem |
|---|---|---|---|
| `CYCLE_COUNT` | `0x0C` to `0x12` | the counter | `SemiDevices.cycle_snapshot` |
| `BKPT_SET`, `BKPT_CLR` | `0x1C` to `0x22` | the low half | `SemiDevices.breakpoints_last` |
| `CONSOLE_STR` | `0x02`, `0x04` | the low half | `SemiDevices.console_str` |

The three differ in what has to be kept out of the gap. A word store writes both halves
itself, so nothing can come between the halves of a breakpoint address. The address of a
string cannot be stored as a word, since its halves straddle two words.
-/

/-! ### The state -/

/-- A line the ports print on standard error. -/
inductive SemiMessage
  /-- `[PASS]` -/
  | pass
  /-- `[FAIL] code=…` -/
  | fail (code : U16)
  /-- `[BKPT] set breakpoint at …` -/
  | bkptSet (addr : U32)
  /-- `[BKPT] cleared breakpoint at …` -/
  | bkptCleared (addr : U32)
  deriving DecidableEq

/-- `SemiState`, without the callbacks. -/
structure SemiState where
  strAddrLo : U16 := 0
  bkptSetLo : U16 := 0
  bkptClrLo : U16 := 0
  latchedCycles : U64 := 0
  latchedTime : U64 := 0
  testResult : Option U16 := none

/-- What the callbacks of the bare-metal front end reach, the host clock, and what has been
printed. -/
structure SemiHost where
  totalCycles : U64 := 0
  /-- The milliseconds of `steady_clock`. -/
  nowMs : U64 := 0
  useGdb : Bool := false
  trace : Bool := false
  stopRequested : Bool := false
  /-- How often `snapshot_regs` has been called. -/
  snapshots : ℕ := 0
  stdout : List U8 := []
  stderr : List SemiMessage := []

/-- The semihosting ports beside other devices. -/
structure SemiDevices (E : Type) where
  semi : SemiState := {}
  host : SemiHost := {}
  other : E

/-- The halfwords of the ports. -/
inductive SemiPort
  | consoleChar
  | strLo
  | strHi
  | testResult
  /-- The quarter `i` of `CYCLE_COUNT`. -/
  | cycles (i : Fin 4)
  | regSnapshot
  | traceCtl
  | bkptSetLo
  | bkptSetHi
  | bkptClrLo
  | bkptClrHi
  | timeLo
  | timeHi
  /-- A halfword that absorbs writes: the one at `0x06`, or the high half of a word port. -/
  | pad (i : Fin 4)
  deriving DecidableEq

namespace SemiPort

/-- The ports, in the order of their registration. -/
def all : List SemiPort :=
  [consoleChar, strLo, strHi, pad 0, testResult, pad 1, cycles 0, cycles 1, cycles 2, cycles 3,
    regSnapshot, pad 2, traceCtl, pad 3, bkptSetLo, bkptSetHi, bkptClrLo, bkptClrHi, timeLo,
    timeHi]

/-- The offset of a port from `SEMI_BASE`. -/
def offset : SemiPort → ℕ
  | consoleChar => 0x00
  | strLo => 0x02
  | strHi => 0x04
  | testResult => 0x08
  | cycles i => 0x0C + 2 * i
  | regSnapshot => 0x14
  | traceCtl => 0x18
  | bkptSetLo => 0x1C
  | bkptSetHi => 0x1E
  | bkptClrLo => 0x20
  | bkptClrHi => 0x22
  | timeLo => 0x24
  | timeHi => 0x26
  | pad 0 => 0x06
  | pad 1 => 0x0A
  | pad 2 => 0x16
  | pad 3 => 0x1A

/-- The address of a port. -/
def addr (p : SemiPort) : U32 := 0x060000 + BitVec.ofNat 32 p.offset

end SemiPort

namespace SemiDevices

variable {E : Type}

/-! ### The handlers -/

/-- The read handlers. -/
def readPort (p : SemiPort) (_ : U32) (b : Bus (SemiDevices E)) : U16 × SemiDevices E :=
  let d := b.dev
  match p with
  | .cycles 0 =>
    let d := { d with semi := { d.semi with latchedCycles := d.host.totalCycles } }
    (d.semi.latchedCycles.setWidth 16, d)
  | .cycles i => ((d.semi.latchedCycles >>> (16 * i.val)).setWidth 16, d)
  | .timeLo =>
    let d := { d with semi := { d.semi with latchedTime := d.host.nowMs } }
    (d.host.nowMs.setWidth 16, d)
  | .timeHi => ((d.semi.latchedTime >>> 16).setWidth 16, d)
  | _ => (0, d)

/-- A change of the latches. -/
def mapSemi (f : SemiState → SemiState) (b : Bus (SemiDevices E)) : Bus (SemiDevices E) :=
  { b with dev := { b.dev with semi := f b.dev.semi } }

/-- A change of the front end. -/
def mapHost (f : SemiHost → SemiHost) (b : Bus (SemiDevices E)) : Bus (SemiDevices E) :=
  { b with dev := { b.dev with host := f b.dev.host } }

/-- `putchar`. -/
def putchar (c : U8) : Bus (SemiDevices E) → Bus (SemiDevices E) :=
  mapHost fun h => { h with stdout := h.stdout ++ [c] }

/-- A line on standard error. -/
def print (msg : SemiMessage) : Bus (SemiDevices E) → Bus (SemiDevices E) :=
  mapHost fun h => { h with stderr := h.stderr ++ [msg] }

/-- The loop of `CONSOLE_STR`, with `n` turns left. -/
def printStr (io : IoSpace (SemiDevices E)) : ℕ → U32 → Bus (SemiDevices E) → Bus (SemiDevices E)
  | 0, _, b => b
  | n + 1, addr, b =>
    let (c, b) := b.read8 io addr
    if c = 0 then b else printStr io n (addr + 1) (putchar c b)

/-- An address from its two halves. -/
def address (hi lo : U16) : U32 := hi ++ lo

/-- The write handlers; a string is read from a bus with the handlers `io`. -/
def writePort (io : IoSpace (SemiDevices E)) (p : SemiPort) (_ : U32) (v : U16)
    (b : Bus (SemiDevices E)) : Bus (SemiDevices E) × CpuRequest :=
  match p with
  | .consoleChar => (putchar (v.setWidth 8) b, {})
  | .strLo => (mapSemi ({ · with strAddrLo := v }) b, {})
  | .strHi => (printStr io 4096 (address v b.dev.semi.strAddrLo) b, {})
  | .testResult =>
    let b := mapSemi ({ · with testResult := some v }) b
    let b := if b.dev.host.useGdb then b else mapHost ({ · with stopRequested := true }) b
    (print (if v = 0 then .pass else .fail v) b, { halt := true })
  | .regSnapshot => (mapHost (fun h => { h with snapshots := h.snapshots + 1 }) b, {})
  | .traceCtl => (mapHost ({ · with trace := v ≠ 0 }) b, {})
  | .bkptSetLo => (mapSemi ({ · with bkptSetLo := v }) b, {})
  | .bkptSetHi =>
    let addr := address v b.dev.semi.bkptSetLo
    (print (.bkptSet addr) b, { breakpoints := fun s => Function.update s addr true })
  | .bkptClrLo => (mapSemi ({ · with bkptClrLo := v }) b, {})
  | .bkptClrHi =>
    let addr := address v b.dev.semi.bkptClrLo
    (print (.bkptCleared addr) b, { breakpoints := fun s => Function.update s addr false })
  | .cycles _ | .timeLo | .timeHi | .pad _ => (b, {})

/-- The callbacks of a port. -/
def handler (io : IoSpace (SemiDevices E)) (p : SemiPort) : IoHandler (SemiDevices E) where
  read := readPort p
  write := writePort io p

/-- The registration of the ports, whose strings are read from a bus with the handlers `inner`. -/
def register (inner io : IoSpace (SemiDevices E)) : IoSpace (SemiDevices E) :=
  SemiPort.all.foldl (fun io p => io.registerIo p.addr (handler inner p)) io

/-- `semihosting_init`, over the handlers of the other devices. A string is read through the
handlers of all ports; reading does not look at the write handlers. -/
def semihostingInit (o : IoSpace (SemiDevices E)) : IoSpace (SemiDevices E) :=
  register (register o o) o

end SemiDevices

/-! ### Registered handlers -/

namespace IoSpace

variable {D ι : Type} {addr : ι → U32} {h : ι → IoHandler D}

/-- A family of handlers leaves the other halfwords as they were. -/
theorem foldl_register_of_ne (l : List ι) (io : IoSpace D) {i : ℕ}
    (hi : ∀ x ∈ l, i ≠ Bus.ioIndex (addr x)) :
    let io' := l.foldl (fun io x => io.registerIo (addr x) (h x)) io
    io'.read i = io.read i ∧ io'.write i = io.write i ∧ io'.writeByte i = io.writeByte i := by
  induction l generalizing io with
  | nil => exact ⟨rfl, rfl, rfl⟩
  | cons x l ih =>
    obtain ⟨hr, hw, hb⟩ := ih (io.registerIo (addr x) (h x))
      fun y hy => hi y (List.mem_cons_of_mem x hy)
    obtain ⟨hr', hw', hb'⟩ := io.registerIo_of_ne (addr x) (h x) (hi x List.mem_cons_self)
    exact ⟨hr.trans hr', hw.trans hw', hb.trans hb'⟩

/-- A family of handlers at different halfwords is installed. -/
theorem foldl_register_of_mem (l : List ι) (io : IoSpace D)
    (hl : (l.map fun x => Bus.ioIndex (addr x)).Nodup) {x : ι} (hx : x ∈ l) :
    let io' := l.foldl (fun io x => io.registerIo (addr x) (h x)) io
    io'.read (Bus.ioIndex (addr x)) = some (h x).read ∧
      io'.write (Bus.ioIndex (addr x)) = some (h x).write ∧
      io'.writeByte (Bus.ioIndex (addr x)) = (h x).writeByte := by
  induction l generalizing io with
  | nil => cases hx
  | cons y l ih =>
    rw [List.map_cons, List.nodup_cons] at hl
    rcases List.mem_cons.mp hx with rfl | hmem
    · obtain ⟨hr, hw, hb⟩ := foldl_register_of_ne (h := h) l (io.registerIo (addr x) (h x))
        fun z hz he => hl.1 (List.mem_map.mpr ⟨z, hz, he.symm⟩)
      obtain ⟨hr', hw', hb'⟩ := io.registerIo_self (addr x) (h x)
      exact ⟨hr.trans hr', hw.trans hw', hb.trans hb'⟩
    · exact ih _ hl.2 hmem

/-- The windows with the read handler of a halfword removed. -/
def withoutRead (io : IoSpace D) (i : ℕ) : IoSpace D :=
  { io with read := Function.update io.read i none }

/-- The windows with the write handler of a halfword removed. -/
def withoutWrite (io : IoSpace D) (i : ℕ) : IoSpace D :=
  { io with write := Function.update io.write i none }

theorem withoutRead_read {io : IoSpace D} {i j : ℕ} {f : U32 → Bus D → U16 × D}
    (h : (io.withoutRead i).read j = some f) : j ≠ i ∧ io.read j = some f := by
  have hne : j ≠ i := by
    rintro rfl
    have hnone : (io.withoutRead j).read j = none := Function.update_self ..
    exact Option.some_ne_none f (h.symm.trans hnone)
  exact ⟨hne, (Function.update_of_ne hne _ _).symm.trans h⟩

theorem withoutWrite_write {io : IoSpace D} {i j : ℕ}
    {f : U32 → U16 → Bus D → Bus D × CpuRequest}
    (h : (io.withoutWrite i).write j = some f) : j ≠ i ∧ io.write j = some f := by
  have hne : j ≠ i := by
    rintro rfl
    have hnone : (io.withoutWrite j).write j = none := Function.update_self ..
    exact Option.some_ne_none f (h.symm.trans hnone)
  exact ⟨hne, (Function.update_of_ne hne _ _).symm.trans h⟩

end IoSpace

namespace SemiPort

/-- The index of the handlers of a port. -/
def index (p : SemiPort) : ℕ := Bus.ioIndex p.addr

theorem mem_all (p : SemiPort) : p ∈ all := by
  cases p with
  | cycles i | pad i =>
    revert i
    decide
  | _ => decide

theorem index_nodup : (all.map fun p => Bus.ioIndex p.addr).Nodup := by decide +kernel

/-- Where a port is: the address, and the index of its handlers. -/
theorem index_eq (p : SemiPort) : p.addr.toNat = 0x60000 + p.offset ∧
    p.index = 0x10000 + p.offset / 2 ∧ p.offset % 2 = 0 ∧ p.offset < 0x28 := by
  have hall : ∀ p ∈ all, p.addr.toNat = 0x60000 + p.offset ∧
      p.index = 0x10000 + p.offset / 2 ∧ p.offset % 2 = 0 ∧ p.offset < 0x28 := by decide +kernel
  exact hall p p.mem_all

end SemiPort

/-! ### Accesses of a port -/

namespace MemOp

/-- The access reads a port, whatever its width. -/
def Reads (op : MemOp) (p : SemiPort) : Prop :=
  match op with
  | read8 a | read16 a => Bus.down 1 a = p.addr
  | read32 a => Bus.down 2 a = Bus.down 2 p.addr
  | _ => False

/-- The access writes a port, whatever its width. -/
def Writes (op : MemOp) (p : SemiPort) : Prop :=
  match op with
  | write8 a _ | write16 a _ => Bus.down 1 a = p.addr
  | write32 a _ => Bus.down 2 a = Bus.down 2 p.addr
  | _ => False

instance (op : MemOp) (p : SemiPort) : Decidable (op.Reads p) := by
  unfold Reads
  split <;> infer_instance

instance (op : MemOp) (p : SemiPort) : Decidable (op.Writes p) := by
  unfold Writes
  split <;> infer_instance

end MemOp

namespace Bus

variable {D : Type} (io : IoSpace D) (b : Bus D)

theorem toNat_normalizeIo (a : U32) : (normalizeIo a).toNat =
    if a.toNat < 0x60000 then 0x40000 + a.toNat % 0x10000 else a.toNat := by
  have hmask : (ioregBase ||| (a &&& (ioregSize - 1))).toNat = 0x40000 + a.toNat % 0x10000 := by
    have hlow : (a &&& (ioregSize - 1)).toNat = a.toNat % 2 ^ 16 :=
      Words.toNat_and_low a 16
    rw [BitVec.toNat_or, hlow, show ioregBase.toNat = 4 <<< 16 from rfl,
      ← Nat.shiftLeft_add_eq_or_of_lt (Nat.mod_lt _ (by decide))]
    rfl
  unfold normalizeIo
  rw [apply_ite BitVec.toNat, hmask]
  rfl

/-- The halfword of an address in the windows is a port exactly if its address is the port's. -/
theorem ioIndex_eq_index {a : U32} (ha : a.toNat < 0x80000) {p : SemiPort}
    (h : ioIndex a = p.index) : a.toNat / 2 = p.addr.toNat / 2 := by
  obtain ⟨haddr, hindex, hmod, hlt⟩ := p.index_eq
  have hnat := toNat_normalizeIo a
  have hle : ioregBase ≤ normalizeIo a := by
    change 0x40000 ≤ (normalizeIo a).toNat
    rw [hnat]
    split_ifs <;> omega
  have hidx : ioIndex a = ((normalizeIo a).toNat - 0x40000) / 2 := by
    unfold ioIndex
    rw [BitVec.toNat_udiv, toNat_sub_base hle]
    rfl
  rw [hidx, hindex, hnat] at h
  split_ifs at h <;> omega

theorem down_one_ne {addr : U32} {p : SemiPort} (h : down 1 addr ≠ p.addr) :
    (mask28 addr).toNat / 2 ≠ p.addr.toNat / 2 := by
  obtain ⟨haddr, -, hmod, -⟩ := p.index_eq
  intro heq
  refine h (BitVec.eq_of_toNat_eq ?_)
  rw [toNat_down]
  omega

/-- The two halfwords of a word that is not the word of a port are not the port. -/
theorem down_two_ne {addr : U32} {p : SemiPort} (h : down 2 addr ≠ down 2 p.addr) :
    down 1 (down 2 addr) ≠ p.addr ∧ down 1 (down 2 addr + 2) ≠ p.addr := by
  obtain ⟨haddr, -, hmod, hlt⟩ := p.index_eq
  have h28 := mask28_lt addr
  have hp : (mask28 p.addr).toNat = p.addr.toNat := by
    rw [toNat_mask28]
    exact Nat.mod_eq_of_lt (by omega)
  have hd : (down 2 addr).toNat = (mask28 addr).toNat / 4 * 4 := toNat_down 2 addr
  have hd2 : (down 2 addr + 2).toNat = (mask28 addr).toNat / 4 * 4 + 2 := by
    rw [BitVec.toNat_add, hd]
    exact Nat.mod_eq_of_lt (by change _ + 2 < _; omega)
  have hne : (mask28 addr).toNat / 4 ≠ p.addr.toNat / 4 := by
    intro heq
    refine h (BitVec.eq_of_toNat_eq ?_)
    rw [toNat_down, toNat_down, hp]
    exact congrArg (· * 4) heq
  constructor
  · intro heq
    have heq := congrArg BitVec.toNat heq
    rw [toNat_down, mask28_down, hd] at heq
    omega
  · intro heq
    have heq := congrArg BitVec.toNat heq
    rw [toNat_down, toNat_mask28, hd2] at heq
    omega

section Untouched

variable {p : SemiPort} {addr : U32}

theorem ioRead_withoutRead (ha : addr.toNat < 0x80000) (h : addr.toNat / 2 ≠ p.addr.toNat / 2) :
    b.ioRead (io.withoutRead p.index) addr = b.ioRead io addr := by
  have hne : ((normalizeIo addr - ioregBase) / 2).toNat ≠ p.index :=
    fun heq => h (ioIndex_eq_index ha heq)
  unfold ioRead
  dsimp only
  rw [show (io.withoutRead p.index).read ((normalizeIo addr - ioregBase) / 2).toNat =
    io.read ((normalizeIo addr - ioregBase) / 2).toNat from Function.update_of_ne hne _ _]

theorem read8_withoutRead (h : down 1 addr ≠ p.addr) :
    b.read8 (io.withoutRead p.index) addr = b.read8 io addr := by
  have hne := down_one_ne h
  have hio (hc : b.classify addr = .io) :
      b.ioRead (io.withoutRead p.index) (normalizeIo (mask28 addr) &&& ~~~1#32) =
        b.ioRead io (normalizeIo (mask28 addr) &&& ~~~1#32) := by
    have hwin := toNat_of_io b hc
    obtain ⟨haddr, -, -, hlt⟩ := p.index_eq
    have hnat : (normalizeIo (mask28 addr) &&& ~~~1#32).toNat =
        (normalizeIo (mask28 addr)).toNat / 2 * 2 := Words.toNat_and_not_low _ 1
    have hnorm := toNat_normalizeIo (mask28 addr)
    refine ioRead_withoutRead io b ?_ ?_
    · rw [hnat, hnorm]
      split_ifs <;> omega
    · rw [hnat, hnorm]
      split_ifs <;> omega
  unfold read8
  dsimp only
  rw [show b.classify (mask28 addr) = b.classify addr from regionOf_mask28 _]
  cases hc : b.classify addr with
  | io => rw [hio hc]
  | iram | sram | flash | none => rfl

theorem read16_withoutRead (h : down 1 addr ≠ p.addr) :
    b.read16 (io.withoutRead p.index) addr = b.read16 io addr := by
  rw [read16_align, read16_align io, read16_even _ _ (down_even addr),
    read16_even _ _ (down_even addr)]
  cases hc : (b.flagged (misaligned 1 addr)).classify (down 1 addr) with
  | io =>
    have hwin := toNat_of_io _ hc
    have hne := down_one_ne h
    have hd := toNat_down 1 addr
    rw [mask28_down] at hwin ⊢
    dsimp only
    rw [ioRead_withoutRead io _ (by omega) (by omega)]
  | iram | sram | flash | none => rfl

theorem read32_withoutRead (h : down 2 addr ≠ down 2 p.addr) :
    b.read32 (io.withoutRead p.index) addr = b.read32 io addr := by
  obtain ⟨hlo, hhi⟩ := down_two_ne h
  rw [read32_align, read32_align io, read32_aligned _ _ (down_mod_four addr),
    read32_aligned _ _ (down_mod_four addr), mask28_down]
  cases hc : (b.flagged (misaligned 2 addr)).classify (down 2 addr) with
  | io =>
    dsimp only
    rw [read16_withoutRead io _ hlo, read16_withoutRead io _ hhi]
  | iram | sram | flash | none => rfl

theorem write8_withoutWrite (h : down 1 addr ≠ p.addr) (v : U8) :
    b.write8 (io.withoutWrite p.index) addr v = b.write8 io addr v := by
  have hne := down_one_ne h
  unfold write8
  dsimp only
  rw [show b.classify (mask28 addr) = b.classify addr from regionOf_mask28 _]
  cases hc : b.classify addr with
  | io =>
    have hwin := toNat_of_io b hc
    have hidx : ((normalizeIo (mask28 addr) - ioregBase) / 2).toNat ≠ p.index :=
      fun heq => hne (ioIndex_eq_index (by omega) heq)
    rw [show (io.withoutWrite p.index).write _ = io.write _ from Function.update_of_ne hidx _ _]
    rfl
  | iram | sram | flash | none => rfl

theorem write16_withoutWrite (h : down 1 addr ≠ p.addr) (v : U16) :
    b.write16 (io.withoutWrite p.index) addr v = b.write16 io addr v := by
  have hne := down_one_ne h
  have hd := toNat_down 1 addr
  rw [write16_align, write16_align io]
  generalize b.flagged (misaligned 1 addr) = b
  unfold write16
  rw [show (1 : U32) = BitVec.ofNat 32 (2 ^ 1 - 1) from rfl, alignTo_down]
  dsimp only
  cases hc : b.classify (down 1 addr) with
  | io =>
    have hwin := toNat_of_io _ hc
    rw [mask28_down] at hwin
    have hidx : ((normalizeIo (down 1 addr) - ioregBase) / 2).toNat ≠ p.index :=
      fun heq => by
        have := ioIndex_eq_index (by omega) heq
        omega
    rw [show (io.withoutWrite p.index).write _ = io.write _ from Function.update_of_ne hidx _ _]
  | iram | sram | flash | none => rfl

theorem write32_withoutWrite (h : down 2 addr ≠ down 2 p.addr) (v : U32) :
    b.write32 (io.withoutWrite p.index) addr v = b.write32 io addr v := by
  obtain ⟨hlo, hhi⟩ := down_two_ne h
  rw [write32_align, write32_align io, write32_aligned _ _ (down_mod_four addr),
    write32_aligned _ _ (down_mod_four addr), mask28_down]
  cases hc : (b.flagged (misaligned 2 addr)).classify (down 2 addr) with
  | io =>
    dsimp only
    rw [write16_withoutWrite io _ hlo, write16_withoutWrite io _ hhi]
  | iram | sram | flash | none => rfl

/-- **An access that reads no port** does not see its read handler. -/
theorem access_withoutRead {op : MemOp} (h : ¬op.Reads p) :
    b.access (io.withoutRead p.index) op = b.access io op := by
  cases op with
  | read8 a => rw [access, read8_withoutRead io b h]; rfl
  | read16 a => rw [access, read16_withoutRead io b h]; rfl
  | read32 a => exact read32_withoutRead io b h
  | fetch16 | write8 | write16 | write32 => rfl

/-- **An access that writes no port** does not see its write handler. -/
theorem access_withoutWrite {op : MemOp} (h : ¬op.Writes p) :
    b.access (io.withoutWrite p.index) op = b.access io op := by
  cases op with
  | write8 a v => rw [access, write8_withoutWrite io b h]; rfl
  | write16 a v => rw [access, write16_withoutWrite io b h]; rfl
  | write32 a v => rw [access, write32_withoutWrite io b h]; rfl
  | fetch16 | read8 | read16 | read32 => rfl

end Untouched

section Touched

variable {p : SemiPort} {addr : U32}

theorem classify_port (p : SemiPort) : b.classify p.addr = .io := by
  obtain ⟨haddr, -, -, hlt⟩ := p.index_eq
  have hmask : (mask28 p.addr).toNat = 0x60000 + p.offset := by
    rw [toNat_mask28, haddr]
    exact Nat.mod_eq_of_lt (by omega)
  unfold classify
  rw [regionOf_eq, hmask, if_neg (by omega), if_neg (by omega), if_pos (by omega)]

theorem ioIndex_port (p : SemiPort) :
    ((normalizeIo p.addr - ioregBase) / 2).toNat = p.index ∧ p.index < iohandlerSpan / 2 := by
  obtain ⟨-, hindex, -, hlt⟩ := p.index_eq
  refine ⟨rfl, ?_⟩
  change p.index < 0x20000
  omega

/-- **A halfword read from a port** is what its read handler returns. -/
theorem read16_port (h : down 1 addr = p.addr) {f : U32 → Bus D → U16 × D}
    (hf : io.read p.index = some f) : b.read16 io addr =
      ((f p.addr (b.flagged (misaligned 1 addr))).1,
        { b.flagged (misaligned 1 addr) with
          dev := (f p.addr (b.flagged (misaligned 1 addr))).2 }) := by
  obtain ⟨hidx, hlt⟩ := ioIndex_port p
  rw [read16_align, read16_even _ _ (down_even addr), ← mask28_down 1 addr, mask28_mask28,
    mask28_down, h, classify_port]
  dsimp only
  unfold ioRead
  dsimp only
  rw [hidx, if_pos hlt, hf]
  rfl

/-- **A halfword written to a port** goes to its write handler. -/
theorem write16_port (h : down 1 addr = p.addr) {f : U32 → U16 → Bus D → Bus D × CpuRequest}
    (hf : io.write p.index = some f) (v : U16) :
    b.write16 io addr v = f p.addr v (b.flagged (misaligned 1 addr)) := by
  obtain ⟨hidx, hlt⟩ := ioIndex_port p
  rw [write16_align]
  generalize b.flagged (misaligned 1 addr) = b
  unfold write16
  rw [show (1 : U32) = BitVec.ofNat 32 (2 ^ 1 - 1) from rfl, alignTo_down, h]
  dsimp only
  rw [classify_port, hidx, if_pos hlt, hf]

theorem down_port (p : SemiPort) : down 1 p.addr = p.addr ∧ misaligned 1 p.addr = false := by
  obtain ⟨haddr, -, hmod, hlt⟩ := p.index_eq
  have hmask : (mask28 p.addr).toNat = 0x60000 + p.offset := by
    rw [toNat_mask28, haddr]
    exact Nat.mod_eq_of_lt (by omega)
  refine ⟨BitVec.eq_of_toNat_eq ?_, ?_⟩
  · rw [toNat_down, hmask, haddr]
    omega
  · rw [misaligned_eq, hmask]
    exact decide_eq_false (by omega)

/-- **A word read from two ports** is what their read handlers return, one after the other. -/
theorem read32_ports {q : SemiPort} (h : down 2 addr = p.addr) (hq : q.addr = p.addr + 2)
    {f g : U32 → Bus D → U16 × D} (hf : io.read p.index = some f) (hg : io.read q.index = some g) :
    let b₁ := b.flagged (misaligned 2 addr)
    let b₂ := { b₁ with dev := (f p.addr b₁).2 }
    b.read32 io addr = ((f p.addr b₁).1.setWidth 32 ||| (g q.addr b₂).1.setWidth 32 <<< 16,
      { b₂ with dev := (g q.addr b₂).2 }) := by
  intro b₁ b₂
  have hread (b : Bus D) (p : SemiPort) {f : U32 → Bus D → U16 × D}
      (hf : io.read p.index = some f) :
      b.read16 io p.addr = ((f p.addr b).1, { b with dev := (f p.addr b).2 }) := by
    have hport := read16_port io b (down_port p).1 hf
    rwa [(down_port p).2, show b.flagged false = b from
      congrArg (fun x => { b with faultPending := x }) (Bool.or_false _)] at hport
  rw [read32_align, read32_aligned _ _ (down_mod_four addr), mask28_down, h, classify_port]
  dsimp only
  rw [hread b₁ p hf, ← hq, hread b₂ q hg]

/-- **A word written to two ports** goes to their write handlers, one after the other. -/
theorem write32_ports {q : SemiPort} (h : down 2 addr = p.addr) (hq : q.addr = p.addr + 2)
    {f g : U32 → U16 → Bus D → Bus D × CpuRequest} (hf : io.write p.index = some f)
    (hg : io.write q.index = some g) (v : U32) :
    let r := f p.addr (v.setWidth 16) (b.flagged (misaligned 2 addr))
    let r' := g q.addr ((v >>> 16).setWidth 16) r.1
    b.write32 io addr v = (r'.1, r.2.andThen r'.2) := by
  intro r r'
  have hwrite (b : Bus D) (p : SemiPort) {f : U32 → U16 → Bus D → Bus D × CpuRequest}
      (hf : io.write p.index = some f) (v : U16) : b.write16 io p.addr v = f p.addr v b := by
    have hport := write16_port io b (down_port p).1 hf v
    rwa [(down_port p).2, show b.flagged false = b from
      congrArg (fun x => { b with faultPending := x }) (Bool.or_false _)] at hport
  rw [write32_align, write32_aligned _ _ (down_mod_four addr), mask28_down, h, classify_port]
  dsimp only
  rw [hwrite _ p hf, ← hq, hwrite _ q hg]

end Touched

end Bus

namespace SemiDevices

variable {E : Type} (inner o : IoSpace (SemiDevices E)) (b : Bus (SemiDevices E))

/-- The handlers of a port are the ones registered for it. -/
theorem register_port (p : SemiPort) : (register inner o).read p.index = some (readPort p) ∧
    (register inner o).write p.index = some (writePort inner p) ∧
    (register inner o).writeByte p.index = none :=
  IoSpace.foldl_register_of_mem SemiPort.all o SemiPort.index_nodup p.mem_all

/-- What is registered at a halfword: the handlers of a port, or those of another device. -/
theorem register_cases (i : ℕ) :
    (∃ p : SemiPort, i = p.index) ∨
    ((register inner o).read i = o.read i ∧ (register inner o).write i = o.write i ∧
      (register inner o).writeByte i = o.writeByte i) := by
  by_cases h : ∃ p : SemiPort, i = p.index
  · exact .inl h
  · exact .inr (IoSpace.foldl_register_of_ne SemiPort.all o fun p _ he => h ⟨p, he⟩)

/-- The handlers of the other devices do not touch the latches, and set no breakpoints. -/
structure LeavesSemi : Prop where
  read : ∀ {i h}, o.read i = some h → ∀ a b, (h a b).2.semi = b.dev.semi
  write : ∀ {i h}, o.write i = some h → ∀ a v b,
    (h a v b).1.dev.semi = b.dev.semi ∧ (h a v b).2.breakpoints = id
  writeByte : ∀ {i h}, o.writeByte i = some h → ∀ a v b,
    (h a v b).1.dev.semi = b.dev.semi ∧ (h a v b).2.breakpoints = id

/-! ### What keeps the latches -/

section Keeping

variable {inner o} {P : SemiState → Prop} {io : IoSpace (SemiDevices E)}

/-- What the reads of a bus keep, when its read handlers do. -/
theorem read8_keeps
    (hread : ∀ {i h}, io.read i = some h → ∀ a b, P b.dev.semi → P (h a b).2.semi)
    {b : Bus (SemiDevices E)} (h : P b.dev.semi) (addr : U32) : P (b.read8 io addr).2.dev.semi := by
  have hinv : DeviceInvariant ⟨io.read, fun _ => none, fun _ => none⟩
      fun (b : Bus (SemiDevices E)) _ => P b.dev.semi :=
    { congr := fun hb hdev _ _ => by
        rw [hdev]
        exact hb
      flashWrite := fun hb _ _ => hb
      read := fun hi a b _ hb => hread hi a b hb
      write := fun hi => absurd hi (Option.some_ne_none _).symm
      writeByte := fun hi => absurd hi (Option.some_ne_none _).symm }
  exact hinv.read8 (t := 0) h addr

/-- Printing a string keeps what the read handlers keep. -/
theorem printStr_keeps
    (hread : ∀ {i h}, io.read i = some h → ∀ a b, P b.dev.semi → P (h a b).2.semi)
    (n : ℕ) (addr : U32) {b : Bus (SemiDevices E)} (h : P b.dev.semi) :
    P (printStr io n addr b).dev.semi := by
  induction n generalizing addr b with
  | zero => exact h
  | succ n ih =>
    have hb := read8_keeps hread h addr
    unfold printStr
    dsimp only
    split_ifs
    · exact hb
    · exact ih _ hb

/-- A property of the latches that the handlers keep is kept by every access. -/
theorem access_keeps
    (hread : ∀ {i h}, io.read i = some h → ∀ a b, P b.dev.semi → P (h a b).2.semi)
    (hwrite : ∀ {i h}, io.write i = some h → ∀ a v b, P b.dev.semi → P (h a v b).1.dev.semi)
    (hbyte : ∀ {i h}, io.writeByte i = some h → ∀ a v b, P b.dev.semi → P (h a v b).1.dev.semi)
    {b : Bus (SemiDevices E)} (h : P b.dev.semi) (op : MemOp) : P (b.access io op).2.dev.semi := by
  have hinv : DeviceInvariant io fun (b : Bus (SemiDevices E)) _ => P b.dev.semi :=
    { congr := fun hb hdev _ _ => by
        rw [hdev]
        exact hb
      flashWrite := fun hb _ _ => hb
      read := fun hi a b _ hb => hread hi a b hb
      write := fun hi a v b _ hb => hwrite hi a v b hb
      writeByte := fun hi a v b _ hb => hbyte hi a v b hb }
  cases op with
  | read8 a => exact hinv.read8 (t := 0) h a
  | read16 a => exact hinv.read16 (t := 0) h a
  | read32 a => exact hinv.read32 (t := 0) h a
  | fetch16 a => exact hinv.fetch16 (t := 0) h a
  | write8 a v => exact hinv.write8 (t := 0) h a v
  | write16 a v => exact hinv.write16 (t := 0) h a v
  | write32 a v => exact hinv.write32 (t := 0) h a v

end Keeping

/-! ### The snapshot of the cycle counter -/

/-- What happens on the bus between two accesses of a program: other accesses, and the clocks
of the front end move. -/
inductive SemiAction
  | access (op : MemOp)
  | tick (totalCycles nowMs : U64)

/-- Nobody else starts to read the counter, and no string is printed. -/
def SemiAction.LeavesCounter : SemiAction → Prop
  | access op => ¬op.Reads (.cycles 0) ∧ ¬op.Writes .strHi
  | tick _ _ => True

/-- Nobody writes the low half of a string address. -/
def SemiAction.LeavesString : SemiAction → Prop
  | access op => ¬op.Writes .strLo
  | tick _ _ => True

/-- One of these. -/
def SemiAction.act (io : IoSpace (SemiDevices E)) (b : Bus (SemiDevices E)) :
    SemiAction → Bus (SemiDevices E)
  | access op => (b.access io op).2
  | tick totalCycles nowMs => mapHost ({ · with totalCycles, nowMs }) b

variable {inner o b}

/-- Only the lowest quarter of the counter latches it. -/
theorem readPort_latchedCycles {p : SemiPort} (hp : p ≠ .cycles 0) (a : U32) :
    (readPort p a b).2.semi.latchedCycles = b.dev.semi.latchedCycles := by
  unfold readPort
  dsimp only
  split
  · exact absurd rfl hp
  · rfl
  · rfl
  · rfl
  · rfl

/-- A port that prints no string leaves the latched counter alone. -/
theorem writePort_latchedCycles {p : SemiPort} (hp : p ≠ .strHi) (a : U32) (v : U16) :
    (writePort inner p a v b).1.dev.semi.latchedCycles = b.dev.semi.latchedCycles := by
  cases p with
  | strHi => exact absurd rfl hp
  | testResult =>
    dsimp only [writePort]
    split_ifs <;> rfl
  | _ => rfl

/-- The accesses that print no string, and do not read the lowest quarter of the counter, keep
the latched counter. -/
theorem access_latchedCycles (ho : LeavesSemi o) {op : MemOp} (hr : ¬op.Reads (.cycles 0))
    (hw : ¬op.Writes .strHi) : (b.access (register inner o) op).2.dev.semi.latchedCycles =
      b.dev.semi.latchedCycles := by
  rw [← Bus.access_withoutWrite _ b hw, ← Bus.access_withoutRead _ b hr]
  refine access_keeps (P := (·.latchedCycles = b.dev.semi.latchedCycles))
    (fun {i h} hi a b' hb => ?_) (fun {i h} hi a v b' hb => ?_)
    (fun {i h} hi a v b' hb => ?_) rfl op
  · obtain ⟨hne, hi⟩ := IoSpace.withoutRead_read hi
    rcases register_cases inner o i with ⟨p, rfl⟩ | ⟨hother, -, -⟩
    · obtain rfl := Option.some.inj ((register_port inner o p).1.symm.trans hi)
      exact (readPort_latchedCycles (fun heq => hne (heq ▸ rfl)) a).trans hb
    · rw [ho.read (hother.symm.trans hi) a b']
      exact hb
  · obtain ⟨hne, hi⟩ := IoSpace.withoutWrite_write hi
    rcases register_cases inner o i with ⟨p, rfl⟩ | ⟨-, hother, -⟩
    · obtain rfl := Option.some.inj ((register_port inner o p).2.1.symm.trans hi)
      exact (writePort_latchedCycles (fun heq => hne (heq ▸ rfl)) a v).trans hb
    · rw [(ho.write (hother.symm.trans hi) a v b').1]
      exact hb
  · rcases register_cases inner o i with ⟨p, rfl⟩ | ⟨-, -, hother⟩
    · exact absurd ((register_port inner o p).2.2.symm.trans hi) (Option.some_ne_none h).symm
    · rw [(ho.writeByte (hother.symm.trans hi) a v b').1]
      exact hb

/-- Two halves of a word, put together. -/
theorem or_shiftLeft_eq (lo hi : U16) :
    (lo.setWidth 32 ||| hi.setWidth 32 <<< 16 : U32) = hi ++ lo := by
  ext i hi'
  simp only [BitVec.getElem_or, BitVec.getElem_shiftLeft, BitVec.getElem_setWidth]
  grind

/-- The four quarters of a counter, put together. -/
theorem quarters_eq (t : U64) : (((t >>> 48).setWidth 16 ++ (t >>> 32).setWidth 16 : U32) ++
    ((t >>> 16).setWidth 16 ++ t.setWidth 16 : U32) : U64) = t := by
  ext i hi
  simp only [BitVec.getElem_append, BitVec.getElem_setWidth, BitVec.getLsbD_ushiftRight]
  grind

/-- **The cycle counter is read whole.** The two words of `CYCLE_COUNT`, read one after the
other, are the 64 bits the counter had at the first read, whatever the bus and the counter do
in between, as long as nobody else starts to read the counter and no string is printed. -/
theorem cycle_snapshot (ho : LeavesSemi o) {lo hi : U32} (hlo : Bus.down 2 lo = 0x6000C)
    (hhi : Bus.down 2 hi = 0x60010) (as : List SemiAction) (hgap : ∀ a ∈ as, a.LeavesCounter) :
    let io := semihostingInit o
    let first := b.read32 io lo
    let second := (ActionRun.exec (SemiAction.act io) first.2 as).read32 io hi
    second.1 ++ first.1 = b.dev.host.totalCycles := by
  intro io first second
  have hports (p : SemiPort) := (register_port (register o o) o p).1
  have hfirst :=
    Bus.read32_ports io b (q := .cycles 1) (p := .cycles 0) hlo rfl (hports _) (hports _)
  have hlatched : first.2.dev.semi.latchedCycles = b.dev.host.totalCycles :=
    congrArg (fun r : U32 × Bus (SemiDevices E) => r.2.dev.semi.latchedCycles) hfirst
  have hkept : (ActionRun.exec (SemiAction.act io) first.2 as).dev.semi.latchedCycles =
      b.dev.host.totalCycles := by
    refine ActionRun.exec_invariant (C := fun _ a => SemiAction.LeavesCounter a)
      (I := fun b' : Bus (SemiDevices E) => b'.dev.semi.latchedCycles = b.dev.host.totalCycles)
      (fun b' a hb ha => ?_) hlatched (ActionRun.along_of_mem hgap _)
    cases a with
    | access op => exact (access_latchedCycles ho ha.1 ha.2).trans hb
    | tick totalCycles nowMs => exact hb
  have hsecond := Bus.read32_ports io (ActionRun.exec (SemiAction.act io) first.2 as)
    (q := .cycles 3) (p := .cycles 2) hhi rfl (hports _) (hports _)
  have hlow : first.1 = ((b.dev.host.totalCycles >>> 16).setWidth 16 ++
      b.dev.host.totalCycles.setWidth 16 : U32) :=
    (congrArg Prod.fst hfirst).trans (or_shiftLeft_eq ..)
  have hhigh : second.1 = ((b.dev.host.totalCycles >>> 48).setWidth 16 ++
      (b.dev.host.totalCycles >>> 32).setWidth 16 : U32) := by
    rw [← hkept]
    exact (congrArg Prod.fst hsecond).trans (or_shiftLeft_eq ..)
  rw [hlow, hhigh, quarters_eq]

/-- No other devices. -/
theorem leavesSemi_empty : LeavesSemi (IoSpace.empty (SemiDevices E)) :=
  ⟨fun h => absurd h (Option.some_ne_none _).symm, fun h => absurd h (Option.some_ne_none _).symm,
    fun h => absurd h (Option.some_ne_none _).symm⟩

/-- A board whose counter stands just below a carry into its high word. -/
def carryBoard : Bus (SemiDevices Unit) where
  iram := fun i => if i < 3 then 0x41 else 0
  sram := fun _ => 0
  sramSize := 0x40000
  flash := .flat { memSize := 0x80000, mem := fun _ => 0xFF }
  dev := { host := { totalCycles := 0xFFFFFFFF }, other := () }

/-- A carry between the two reads, and a read of another quarter, do not tear the counter. -/
theorem cycle_snapshot_carry :
    let io := semihostingInit (IoSpace.empty (SemiDevices Unit))
    let first := carryBoard.read32 io 0x6000C
    let second := (ActionRun.exec (SemiAction.act io) first.2
      [.tick 0x100000005 0, .access (.read16 0x60012)]).read32 io 0x60010
    second.1 ++ first.1 = 0xFFFFFFFF#64 := by
  refine cycle_snapshot leavesSemi_empty (by decide) (by decide) _ fun a ha => ?_
  rcases List.mem_cons.mp ha with rfl | ha
  · exact trivial
  · obtain rfl := List.mem_singleton.mp ha
    exact ⟨by decide, by decide⟩

/-! ### The breakpoints -/

/-- The request an access makes of the CPU. -/
def request (io : IoSpace (SemiDevices E)) (b : Bus (SemiDevices E)) : MemOp → CpuRequest
  | .write8 a v => (b.write8 io a v).2
  | .write16 a v => (b.write16 io a v).2
  | .write32 a v => (b.write32 io a v).2
  | _ => {}

/-- An access of the bus, with the breakpoints of the CPU. -/
def perform (io : IoSpace (SemiDevices E)) (s : Bus (SemiDevices E) × (U32 → Bool)) (op : MemOp) :
    Bus (SemiDevices E) × (U32 → Bool) :=
  ((s.1.access io op).2, (request io s.1 op).breakpoints s.2)

/-- What a word store to the breakpoint ports asks for. -/
def storeBkpt (s : U32 → Bool) (op : MemOp) : U32 → Bool :=
  match op with
  | .write32 a v =>
    if Bus.down 2 a = 0x6001C then Function.update s v true
    else if Bus.down 2 a = 0x60020 then Function.update s v false
    else s
  | _ => s

/-- An access that writes the high halves of the breakpoint ports as words only. -/
def WholeBkpt : MemOp → Prop
  | .write32 _ _ => True
  | op => ¬op.Writes .bkptSetHi ∧ ¬op.Writes .bkptClrHi

/-- Handlers that set no breakpoints make accesses that set none. -/
theorem request_breakpoints {io : IoSpace (SemiDevices E)}
    (hwrite : ∀ {i h}, io.write i = some h → ∀ a v b, (h a v b).2.breakpoints = id)
    (hbyte : ∀ {i h}, io.writeByte i = some h → ∀ a v b, (h a v b).2.breakpoints = id)
    (b : Bus (SemiDevices E)) (op : MemOp) : (request io b op).breakpoints = id := by
  -- a word is written as two halfwords where it is written to handlers
  have h16 (b : Bus (SemiDevices E)) (a : U32) (v : U16) :
      (b.write16 io a v).2.breakpoints = id := by
    unfold Bus.write16
    dsimp only
    split
    · rfl
    · split_ifs <;> rfl
    · rfl
    · split_ifs
      · split
        next h hi => exact hwrite hi _ _ _
        next => rfl
      · rfl
    · rfl
  cases op with
  | write8 a v =>
    change (b.write8 io a v).2.breakpoints = id
    unfold Bus.write8
    dsimp only
    split
    · rfl
    · split_ifs <;> rfl
    · rfl
    · split_ifs
      · split
        next h hi => exact hbyte hi _ _ _
        next h hi => exact hwrite hi _ _ _
        next => rfl
      · rfl
    · rfl
  | write16 a v => exact h16 b a v
  | write32 a v =>
    change (b.write32 io a v).2.breakpoints = id
    unfold Bus.write32
    dsimp only
    split
    · rfl
    · split_ifs <;> rfl
    · rfl
    · unfold CpuRequest.andThen
      rw [h16, h16]
      rfl
    · rfl
  | read8 | read16 | read32 | fetch16 => rfl

/-- An access that writes no high half sets no breakpoint. -/
theorem request_of_not_writes (ho : LeavesSemi o) {op : MemOp} (hset : ¬op.Writes .bkptSetHi)
    (hclr : ¬op.Writes .bkptClrHi) : (request (register inner o) b op).breakpoints = id := by
  have hwithout (io : IoSpace (SemiDevices E)) {p : SemiPort} (h : ¬op.Writes p) :
      request (io.withoutWrite p.index) b op = request io b op := by
    cases op with
    | write8 a v => exact congrArg Prod.snd (Bus.write8_withoutWrite io b h v)
    | write16 a v => exact congrArg Prod.snd (Bus.write16_withoutWrite io b h v)
    | write32 a v => exact congrArg Prod.snd (Bus.write32_withoutWrite io b h v)
    | read8 | read16 | read32 | fetch16 => rfl
  rw [← hwithout _ hset, ← hwithout _ hclr]
  refine request_breakpoints (fun {i h} hi a v b' => ?_) (fun {i h} hi a v b' => ?_) b op
  · obtain ⟨hne, hi⟩ := IoSpace.withoutWrite_write hi
    obtain ⟨hne', hi⟩ := IoSpace.withoutWrite_write hi
    rcases register_cases inner o i with ⟨p, rfl⟩ | ⟨-, hother, -⟩
    · obtain rfl := Option.some.inj ((register_port inner o p).2.1.symm.trans hi)
      cases p with
      | bkptSetHi => exact absurd rfl hne'
      | bkptClrHi => exact absurd rfl hne
      | _ => rfl
    · exact (ho.write (hother.symm.trans hi) a v b').2
  · rcases register_cases inner o i with ⟨p, rfl⟩ | ⟨-, -, hother⟩
    · exact absurd ((register_port inner o p).2.2.symm.trans hi) (Option.some_ne_none h).symm
    · exact (ho.writeByte (hother.symm.trans hi) a v b').2

/-- The two halves of a word are the word. -/
theorem address_halves (v : U32) : address ((v >>> 16).setWidth 16) (v.setWidth 16) = v := by
  unfold address
  ext i hi
  simp only [BitVec.getElem_append, BitVec.getElem_setWidth, BitVec.getLsbD_ushiftRight]
  grind

/-- **A word store to the breakpoint ports** sets or clears the breakpoint it names. -/
theorem request_word (ho : LeavesSemi o) (a v : U32) (s : U32 → Bool) :
    (request (register inner o) b (.write32 a v)).breakpoints s = storeBkpt s (.write32 a v) := by
  have hports (p : SemiPort) := (register_port inner o p).2.1
  have hset : Bus.down 2 SemiPort.bkptSetHi.addr = 0x6001C := by decide
  have hclr : Bus.down 2 SemiPort.bkptClrHi.addr = 0x60020 := by decide
  unfold storeBkpt
  dsimp only
  split_ifs with h1 h2
  · have h := Bus.write32_ports (register inner o) b (p := .bkptSetLo) (q := .bkptSetHi) h1 rfl
      (hports _) (hports _) v
    change ((b.write32 (register inner o) a v).2).breakpoints s = _
    rw [h]
    change Function.update s (address ((v >>> 16).setWidth 16) (v.setWidth 16)) true = _
    rw [address_halves]
  · have h := Bus.write32_ports (register inner o) b (p := .bkptClrLo) (q := .bkptClrHi) h2 rfl
      (hports _) (hports _) v
    change ((b.write32 (register inner o) a v).2).breakpoints s = _
    rw [h]
    change Function.update s (address ((v >>> 16).setWidth 16) (v.setWidth 16)) false = _
    rw [address_halves]
  · have hset' : ¬(MemOp.write32 a v).Writes .bkptSetHi := fun h => h1 (Eq.trans h hset)
    have hclr' : ¬(MemOp.write32 a v).Writes .bkptClrHi := fun h => h2 (Eq.trans h hclr)
    rw [request_of_not_writes ho hset' hclr']
    rfl

/-- **The breakpoints are those the word stores left**, in any run of accesses that writes the
high halves of the two ports as words: whatever is left in the latches never gets into an
address. -/
theorem breakpoints_last (ho : LeavesSemi o) (ops : List MemOp) (hops : ∀ op ∈ ops, WholeBkpt op)
    (s : U32 → Bool) :
    (ActionRun.exec (perform (semihostingInit o)) (b, s) ops).2 = ops.foldl storeBkpt s := by
  induction ops generalizing b s with
  | nil => rfl
  | cons op ops ih =>
    have hstep : (request (semihostingInit o) b op).breakpoints s = storeBkpt s op := by
      have hop := hops op List.mem_cons_self
      cases op with
      | write32 a v => exact request_word ho a v s
      | write8 | write16 => rw [semihostingInit, request_of_not_writes ho hop.1 hop.2]; rfl
      | read8 | read16 | read32 | fetch16 => rfl
    rw [ActionRun.exec_cons, List.foldl_cons, ← hstep]
    exact ih (fun op' h => hops op' (List.mem_cons_of_mem op h)) _

/-- Setting two breakpoints and clearing the first, with a stray halfword in a latch. -/
theorem breakpoints_last_two :
    (ActionRun.exec (perform (semihostingInit (IoSpace.empty (SemiDevices Unit))))
        (carryBoard, fun _ => false)
        [.write32 0x6001C 0x100010, .write32 0x6001C 0x100020, .write16 0x6001C 0xBEEF,
          .write32 0x60020 0x100010]).2 =
      [MemOp.write32 0x6001C 0x100010, .write32 0x6001C 0x100020, .write16 0x6001C 0xBEEF,
        .write32 0x60020 0x100010].foldl storeBkpt fun _ => false := by
  refine breakpoints_last leavesSemi_empty _ (fun op hop => ?_) _
  simp only [List.mem_cons, List.not_mem_nil, or_false] at hop
  rcases hop with rfl | rfl | rfl | rfl
  · exact trivial
  · exact trivial
  · exact ⟨by decide, by decide⟩
  · exact trivial

/-! ### The console -/

/-- The accesses that do not write the low half of a string address keep it. -/
theorem access_strAddrLo (hi : LeavesSemi inner) (ho : LeavesSemi o) {op : MemOp}
    (hw : ¬op.Writes .strLo) :
    (b.access (register (register inner inner) o) op).2.dev.semi.strAddrLo =
      b.dev.semi.strAddrLo := by
  have hport (p : SemiPort) (a : U32) (b : Bus (SemiDevices E)) :
      (readPort p a b).2.semi.strAddrLo = b.dev.semi.strAddrLo := by
    unfold readPort
    dsimp only
    split <;> rfl
  have hread {io o' : IoSpace (SemiDevices E)} (ho' : LeavesSemi o') {i : ℕ}
      {h : U32 → Bus (SemiDevices E) → U16 × SemiDevices E}
      (hi : (register io o').read i = some h) (a : U32) (b' : Bus (SemiDevices E))
      (hb : b'.dev.semi.strAddrLo = b.dev.semi.strAddrLo) :
      (h a b').2.semi.strAddrLo = b.dev.semi.strAddrLo := by
    rcases register_cases io o' i with ⟨p, rfl⟩ | ⟨hother, -, -⟩
    · obtain rfl := Option.some.inj ((register_port io o' p).1.symm.trans hi)
      exact (hport p a b').trans hb
    · rw [ho'.read (hother.symm.trans hi) a b']
      exact hb
  -- without the one handler that writes it, every handler keeps the half
  rw [← Bus.access_withoutWrite _ b hw]
  refine access_keeps (P := (·.strAddrLo = b.dev.semi.strAddrLo))
    (fun {i h} hi' a b' hb => ?_) (fun {i h} hi' a v b' hb => ?_)
    (fun {i h} hi' a v b' hb => ?_) rfl op
  · have hi' : (register (register inner inner) o).read i = some h := hi'
    exact hread ho hi' a b' hb
  · obtain ⟨hne, hi'⟩ := IoSpace.withoutWrite_write hi'
    rcases register_cases (register inner inner) o i with ⟨p, rfl⟩ | ⟨-, hother, -⟩
    · obtain rfl := Option.some.inj ((register_port (register inner inner) o p).2.1.symm.trans hi')
      cases p with
      | strLo => exact absurd rfl hne
      | strHi =>
        rw [show writePort (register inner inner) .strHi a v b' = (printStr (register inner inner)
          4096 (address v b'.dev.semi.strAddrLo) b', {}) from rfl]
        exact printStr_keeps (P := (·.strAddrLo = b.dev.semi.strAddrLo))
          (fun {i h} hr a b' hb => hread hi hr a b' hb) 4096 _ hb
      | testResult =>
        dsimp only [writePort]
        split_ifs <;> exact hb
      | _ => exact hb
    · rw [(ho.write (hother.symm.trans hi') a v b').1]
      exact hb
  · rcases register_cases (register inner inner) o i with ⟨p, rfl⟩ | ⟨-, -, hother⟩
    · exact absurd ((register_port (register inner inner) o p).2.2.symm.trans hi')
        (Option.some_ne_none h).symm
    · rw [(ho.writeByte (hother.symm.trans hi') a v b').1]
      exact hb

/-- A byte read from memory calls no handler. -/
theorem read8_mapped_dev {D : Type} (io : IoSpace D) {b : Bus D} {addr : U32} (h : b.Mapped addr) :
    (b.read8 io addr).2.dev = b.dev := by
  unfold Bus.read8
  dsimp only
  rw [show b.classify (Bus.mask28 addr) = b.classify addr from Bus.regionOf_mask28 _]
  rcases h with h | h | h
  · rw [h]
  · rw [h]
    dsimp only
    split_ifs
    · rfl
    · unfold Bus.noteSramRead
      split_ifs <;> rfl
  · rw [h]
    rfl

/-- The string at an address: its characters up to the first `NUL`, and no more than `n`. -/
def stringAt {D : Type} (b : Bus D) (addr : U32) (n : ℕ) : List U8 :=
  ((List.range n).map fun i => b.flatByte (Bus.flatIndex (addr + BitVec.ofNat 32 i))).takeWhile
    (· ≠ 0)

theorem stringAt_succ {D : Type} (b : Bus D) (addr : U32) (n : ℕ) :
    stringAt b addr (n + 1) = if b.flatByte (Bus.flatIndex addr) = 0 then []
      else b.flatByte (Bus.flatIndex addr) :: stringAt b (addr + 1) n := by
  have hshift (i : ℕ) : addr + BitVec.ofNat 32 (i + 1) = addr + 1 + BitVec.ofNat 32 i := by
    rw [BitVec.ofNat_add, BitVec.add_comm (BitVec.ofNat 32 i), BitVec.add_assoc]
    rfl
  have hzero : addr + BitVec.ofNat 32 0 = addr := BitVec.add_zero addr
  unfold stringAt
  rw [List.range_succ_eq_map, List.map_cons, List.map_map, List.takeWhile_cons, hzero]
  by_cases h : b.flatByte (Bus.flatIndex addr) = 0
  · rw [if_pos h, if_neg (by simp [h])]
  · rw [if_neg h, if_pos (decide_eq_true h)]
    simp only [Function.comp_def, Nat.succ_eq_add_one, hshift]

/-- **The loop of `CONSOLE_STR`** prints the string, if its characters are in memory. -/
theorem printStr_eq {io : IoSpace (SemiDevices E)} (n : ℕ) (addr : U32)
    (b : Bus (SemiDevices E))
    (hmem : ∀ i ≤ (stringAt b addr n).length, i < n → b.Mapped (addr + BitVec.ofNat 32 i)) :
    (printStr io n addr b).dev.host.stdout = b.dev.host.stdout ++ stringAt b addr n ∧
      (printStr io n addr b).flat = b.flat := by
  induction n generalizing addr b with
  | zero => exact ⟨(List.append_nil _).symm, rfl⟩
  | succ n ih =>
    have hmapped : b.Mapped addr := by
      have h := hmem 0 (Nat.zero_le _) (Nat.succ_pos n)
      rwa [show addr + BitVec.ofNat 32 0 = addr from BitVec.add_zero addr] at h
    obtain ⟨hval, hflat, -, hflash⟩ := Bus.read8_mapped io b hmapped
    have hdev := read8_mapped_dev io hmapped
    unfold printStr
    dsimp only
    rw [hval]
    rw [stringAt_succ] at hmem ⊢
    split_ifs at hmem ⊢ with h0
    · exact ⟨by rw [hdev, List.append_nil], hflat⟩
    · set b₁ := putchar (b.flatByte (Bus.flatIndex addr)) (b.read8 io addr).2
      have hbyte : b₁.flatByte = b.flatByte := congrArg FlatMemory.bytes hflat
      have hstr : stringAt b₁ (addr + 1) n = stringAt b (addr + 1) n := by
        unfold stringAt
        rw [hbyte]
      have hflash₁ : b₁.flash = b.flash := hflash
      obtain ⟨hout, hflat₁⟩ := ih (addr + 1) b₁ fun i hi hin => by
        rw [hstr] at hi
        have h := hmem (i + 1) (Nat.succ_le_succ hi) (Nat.succ_lt_succ hin)
        rw [BitVec.ofNat_add, BitVec.add_comm (BitVec.ofNat 32 i), ← BitVec.add_assoc] at h
        unfold Bus.Mapped Bus.classify at h ⊢
        rwa [hflash₁]
      refine ⟨?_, hflat₁.trans hflat⟩
      rw [hout, hstr]
      change (b.read8 io addr).2.dev.host.stdout ++ [_] ++ _ = _
      rw [hdev, List.append_assoc]
      rfl

/-- **A string is printed as it is in memory**: a program that writes the two halves of its
address, with anything in between that does not start on another string, gets its
characters up to the first `NUL` on the console, and nothing in memory changes. -/
theorem console_str (ho : LeavesSemi o) {lo hi : U32} (hlo : Bus.down 1 lo = 0x60002)
    (hhi : Bus.down 1 hi = 0x60004) (str : U32) (as : List SemiAction)
    (hgap : ∀ a ∈ as, a.LeavesString) :
    let io := semihostingInit o
    let b₁ := ActionRun.exec (SemiAction.act io) (b.write16 io lo (str.setWidth 16)).1 as
    let b₂ := (b₁.write16 io hi ((str >>> 16).setWidth 16)).1
    (∀ i ≤ (stringAt b₁ str 4096).length, i < 4096 → b₁.Mapped (str + BitVec.ofNat 32 i)) →
    b₂.dev.host.stdout = b₁.dev.host.stdout ++ stringAt b₁ str 4096 ∧
      b₂.flatByte = b₁.flatByte := by
  intro io b₁ b₂ hmem
  have hports (p : SemiPort) := (register_port (register o o) o p).2.1
  have hlatched : (b.write16 io lo (str.setWidth 16)).1.dev.semi.strAddrLo = str.setWidth 16 := by
    rw [Bus.write16_port io b (p := .strLo) hlo (hports _)]
    rfl
  have hkept : b₁.dev.semi.strAddrLo = str.setWidth 16 := by
    refine ActionRun.exec_invariant (C := fun _ a => SemiAction.LeavesString a)
      (I := fun b' : Bus (SemiDevices E) => b'.dev.semi.strAddrLo = str.setWidth 16)
      (fun b' a hb ha => ?_) hlatched (ActionRun.along_of_mem hgap _)
    cases a with
    | access op => exact (access_strAddrLo ho ho ha).trans hb
    | tick totalCycles nowMs => exact hb
  have hprint : b₂ = printStr (register o o) 4096 str (b₁.flagged (Bus.misaligned 1 hi)) := by
    have h := congrArg Prod.fst
      (Bus.write16_port io b₁ (p := .strHi) hhi (hports _) ((str >>> 16).setWidth 16))
    refine h.trans ?_
    change printStr _ _ (address _ b₁.dev.semi.strAddrLo) _ = _
    rw [hkept, address_halves]
  rw [hprint]
  obtain ⟨hout, hflat⟩ := printStr_eq 4096 str (b₁.flagged (Bus.misaligned 1 hi)) hmem
  exact ⟨hout, congrArg FlatMemory.bytes hflat⟩

/-- The three letters at the start of the internal RAM. -/
theorem console_str_letters :
    let io := semihostingInit (IoSpace.empty (SemiDevices Unit))
    let b₁ := ActionRun.exec (SemiAction.act io) (carryBoard.write16 io 0x60002 0x0000).1
      [.tick 7 0, .access (.write16 0x60000 0x42)]
    let b₂ := (b₁.write16 io 0x60004 0x0000).1
    b₂.dev.host.stdout = b₁.dev.host.stdout ++ stringAt b₁ 0 4096 ∧
      b₂.flatByte = b₁.flatByte := by
  refine console_str (b := carryBoard) leavesSemi_empty (by decide) (by decide) 0 _ (fun a ha => ?_)
    (fun i hi hlt => ?_)
  · rcases List.mem_cons.mp ha with rfl | ha
    · exact trivial
    · obtain rfl := List.mem_singleton.mp ha
      exact (by decide : ¬(MemOp.write16 0x60000 0x42).Writes .strLo)
  · left
    have hmask : (Bus.mask28 (0 + BitVec.ofNat 32 i)).toNat = i := by
      rw [show (0 : U32) + BitVec.ofNat 32 i = BitVec.ofNat 32 i from BitVec.zero_add _,
        Bus.toNat_mask28, BitVec.toNat_ofNat]
      omega
    unfold Bus.classify
    rw [Bus.regionOf_eq, hmask, if_neg (by omega), if_neg (by omega), if_neg (by omega),
      if_pos (by omega)]

end SemiDevices
