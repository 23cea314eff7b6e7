import PieceEmu.Core.BusFacts
import PieceEmu.Core.BusImage

/-!
# Loading an ELF file

`elf_load` reads the program headers of a bare-metal ELF32 file, copies the bytes of
each `PT_LOAD` segment into the memory its physical address lies in, and writes zeroes
behind them, byte by byte through the bus, up to the size in memory.

It computes with the fields of the headers as the file has them, in 32 bits, and
copies through pointers. A copy that would leave the file, or the memory it goes to, has
no defined effect: the model ends there (`ElfStop`). An exception leaves the memories
as the segments before have left them, so the loader returns the bus besides the result,
and what the writes behind a segment have asked of the CPU.
-/

/-! ### The format -/

/-- `Elf32_Ehdr`: the fields the loader uses. -/
structure Elf32Ehdr where
  entry : U32
  phoff : U32
  phentsize : U16
  phnum : U16
  deriving DecidableEq, Repr

/-- `Elf32_Phdr`: the fields the loader uses. -/
structure Elf32Phdr where
  type : U32
  offset : U32
  paddr : U32
  filesz : U32
  memsz : U32
  deriving DecidableEq, Repr

/-- What `elf_load` throws. -/
inductive ElfError
  /-- “File too small to be ELF”. -/
  | tooSmall
  /-- “Not an ELF file”. -/
  | notElf
  /-- “Not a 32-bit ELF”. -/
  | not32Bit
  /-- “Not a little-endian ELF”. -/
  | notLittleEndian
  /-- “ELF has no program headers”. -/
  | noProgramHeaders
  /-- “Program header out of bounds”. -/
  | phdrOutOfBounds
  /-- “PT_LOAD segment at … extends past file end”. -/
  | pastFileEnd (paddr : U32)
  /-- “PT_LOAD segment overflows internal RAM”. -/
  | iramOverflow
  /-- What `load_flash` and `load_sram` throw. -/
  | bus (what : String)
  deriving DecidableEq, Repr

/-- How a run of the loader ends early. -/
inductive ElfStop
  /-- With an exception. -/
  | throws (e : ElfError)
  /-- In a copy from these indices, which are not all in the file. -/
  | readsOutside (offset len : ℕ)
  /-- In a copy to these indices, which are not all in the memory it goes to. -/
  | copiesOutside (start len : ℕ)
  deriving DecidableEq, Repr

namespace Elf32Ehdr

/-- `sizeof(Elf32_Ehdr)`. -/
def bytes : ℕ := 52

/-- The header of a file, after the checks that open `elf_load`. -/
def read (data : List U8) : Except ElfError Elf32Ehdr :=
  let mem : ℕ → U8 := fun i => data.getD i 0
  if data.length < bytes then .error .tooSmall
  else if mem 0 ≠ 0x7F ∨ mem 1 ≠ 0x45 ∨ mem 2 ≠ 0x4C ∨ mem 3 ≠ 0x46 then .error .notElf
  else if mem 4 ≠ 1 then .error .not32Bit
  else if mem 5 ≠ 1 then .error .notLittleEndian
  else
    let h : Elf32Ehdr :=
      { entry := Words.le32 mem 24
        phoff := Words.le32 mem 28
        phentsize := Words.le16 mem 42
        phnum := Words.le16 mem 44 }
    if h.phnum = 0 then .error .noProgramHeaders else .ok h

/-- `phdr_off`. The sum is one of 32-bit numbers. -/
def phdrOff (h : Elf32Ehdr) (i : ℕ) : ℕ :=
  (h.phoff + BitVec.ofNat 32 (i * h.phentsize.toNat)).toNat

end Elf32Ehdr

namespace Elf32Phdr

/-- `sizeof(Elf32_Phdr)`. -/
def bytes : ℕ := 32

/-- `PT_LOAD`. -/
def ptLoad : U32 := 1

/-- The program header at an index of the file. -/
def ofBytes (data : List U8) (off : ℕ) : Elf32Phdr :=
  let mem : ℕ → U8 := fun i => data.getD i 0
  { type := Words.le32 mem off
    offset := Words.le32 mem (off + 4)
    paddr := Words.le32 mem (off + 12)
    filesz := Words.le32 mem (off + 16)
    memsz := Words.le32 mem (off + 20) }

/-- The bytes of the segment: those of the file from `p_offset` on, and anything behind
the end of the file. -/
def segment (ph : Elf32Phdr) (data : List U8) : List U8 :=
  (List.range ph.filesz.toNat).map fun j => data.getD (ph.offset.toNat + j) 0

theorem length_segment (ph : Elf32Phdr) (data : List U8) :
    (ph.segment data).length = ph.filesz.toNat := by
  rw [segment, List.length_map, List.length_range]

end Elf32Phdr

/-! ### Where a segment goes -/

/-- The memories a segment can be loaded into. -/
inductive LoadRegion
  | flash
  | sram
  | iram
  deriving DecidableEq, Repr

/-- The sizes of the memories on the bus. -/
structure MemorySizes where
  flash : ℕ
  sram : ℕ

namespace MemorySizes

/-- The region `elf_load` chooses for a physical address. -/
def regionFor (z : MemorySizes) (paddr : U32) : Option LoadRegion :=
  if Bus.flashBase ≤ paddr ∧ paddr.toNat < Bus.flashBase.toNat + z.flash then some .flash
  else if Bus.sramBase ≤ paddr ∧ paddr.toNat < Bus.sramBase.toNat + z.sram then some .sram
  else if paddr.toNat < Bus.iramSize then some .iram
  else none

/-- The size of a region. -/
def capacity (z : MemorySizes) : LoadRegion → ℕ
  | .flash => z.flash
  | .sram => z.sram
  | .iram => Bus.iramSize

end MemorySizes

/-- The address of the first byte of a region. -/
def LoadRegion.base : LoadRegion → U32
  | flash => Bus.flashBase
  | sram => Bus.sramBase
  | iram => 0

variable {D : Type}

/-- The sizes of the memories. -/
def Bus.sizes (b : Bus D) : MemorySizes where
  flash := b.flash.size
  sram := b.sramSize

/-- The contents of a region. -/
def Bus.contents (b : Bus D) : LoadRegion → ℕ → U8
  | .flash => b.flash.mem
  | .sram => b.sram
  | .iram => b.iram

/-! ### The loader -/

namespace Elf32Phdr

/-- Whether a copy of the bytes of the segment, to the indices from `start` on of a memory
of `capacity` bytes, stays inside the file and inside that memory. -/
def checkCopy (ph : Elf32Phdr) (data : List U8) (start capacity : ℕ) : Except ElfStop Unit :=
  if data.length < ph.offset.toNat + ph.filesz.toNat then
    .error (.readsOutside ph.offset.toNat ph.filesz.toNat)
  else if capacity < start + ph.filesz.toNat then .error (.copiesOutside start ph.filesz.toNat)
  else .ok ()

/-- The copy of the bytes of a segment, into its region. -/
def copySegment (ph : Elf32Phdr) (data : List U8) (b : Bus D) :
    LoadRegion → Except ElfStop (Bus D)
  | .flash =>
    match b.loadFlash (ph.paddr - Bus.flashBase) (ph.segment data) with
    | .error what => .error (.throws (.bus what))
    | .ok b' =>
      (ph.checkCopy data (ph.paddr - Bus.flashBase).toNat b.flash.size).map fun _ => b'
  | .sram =>
    match b.loadSram (ph.paddr - Bus.sramBase) (ph.segment data) with
    | .error what => .error (.throws (.bus what))
    | .ok b' => (ph.checkCopy data (ph.paddr - Bus.sramBase).toNat b.sramSize).map fun _ => b'
  | .iram =>
    -- the sum is one of 32-bit numbers
    if Bus.iramSize < (ph.paddr + ph.filesz).toNat then .error (.throws .iramOverflow)
    else
      (ph.checkCopy data ph.paddr.toNat Bus.iramSize).map fun _ =>
        { b with iram := blit b.iram ph.paddr.toNat (ph.segment data) }

end Elf32Phdr

namespace ElfLoader

variable (io : IoSpace D)

/-- The loop that zeroes what lies behind the bytes of a segment, with `n` rounds to
go. -/
def zeroFill : ℕ → U32 → Bus D × CpuRequest → Bus D × CpuRequest
  | 0, _, s => s
  | n + 1, addr, (b, q) =>
    let (b, q') := b.write8 io addr 0
    zeroFill n (addr + 1) (b, q.andThen q')

/-- The body of the loop over the program headers. -/
def loadSegment (data : List U8) (ph : Elf32Phdr) (s : Bus D × CpuRequest) :
    Except ElfStop (Bus D × CpuRequest) :=
  if ph.type ≠ Elf32Phdr.ptLoad then .ok s
  else if ph.filesz = 0 ∧ ph.memsz = 0 then .ok s
  -- the sum is one of 32-bit numbers
  else if data.length < (ph.offset + ph.filesz).toNat then
    .error (.throws (.pastFileEnd ph.paddr))
  else
    match s.1.sizes.regionFor ph.paddr with
    -- a warning, and the segment is skipped
    | none => .ok s
    | some r =>
      match if ph.filesz = 0 then .ok s.1 else ph.copySegment data s.1 r with
      | .error e => .error e
      | .ok b =>
        if ph.filesz < ph.memsz then
          .ok (zeroFill io (ph.memsz - ph.filesz).toNat (ph.paddr + ph.filesz) (b, s.2))
        else .ok (b, s.2)

/-- The loop over the program headers, from the `i`th on, with `n` to go. -/
def loadPhdrs (data : List U8) (h : Elf32Ehdr) :
    ℕ → ℕ → Bus D × CpuRequest → Except ElfStop Unit × (Bus D × CpuRequest)
  | 0, _, s => (.ok (), s)
  | n + 1, i, s =>
    if data.length < h.phdrOff i + Elf32Phdr.bytes then
      (.error (.throws .phdrOutOfBounds), s)
    else
      match loadSegment io data (.ofBytes data (h.phdrOff i)) s with
      | .error e => (.error e, s)
      | .ok s => loadPhdrs data h n (i + 1) s

/-- `elf_load`, of a file with these bytes: the entry point, or how it ends early. -/
def elfLoad (data : List U8) (b : Bus D) : Except ElfStop U32 × (Bus D × CpuRequest) :=
  match Elf32Ehdr.read data with
  | .error e => (.error (.throws e), (b, {}))
  | .ok h =>
    match loadPhdrs io data h h.phnum.toNat 0 (b, {}) with
    | (.error e, s) => (.error e, s)
    | (.ok _, s) => (.ok h.entry, s)

end ElfLoader
