import PieceEmu.Lib.LinkedCells
import PieceEmu.Lib.Words

/-!
# The P/ECE flash file system

`pffs.c`: the file system inside a flash image. Its master block is one sector that
holds a directory of `MAXDIR` entries and a file allocation table of `MAXFAT`
links; a file is a directory entry, and a chain of sectors that starts in the entry
and runs through the table.

The functions that change an image work on a copy of the master block and write the
copy back when everything has gone well. The model keeps the copy and the original
apart in the same way: each function names the image it leaves.

Names are C strings in byte arrays: a list of bytes stands for the bytes from the
pointer on, with a NUL behind the last one. What the host file system does enters as
data: `Disk` is what the two calls of `fopen` on the file find.
-/

namespace Pffs

/-- `MAXDIR`. -/
def maxDir : ℕ := 96
/-- `MAXFAT`. -/
def maxFat : ℕ := 496
/-- `FAT_FREE`. -/
def fatFree : U16 := 0xFFFF
/-- `FAT_END`. -/
def fatEnd : U16 := 0xEEEE

/-! ### The data -/

/-- `DIRECTORY`. -/
structure Directory where
  /-- `name[24]`. -/
  name : List U8
  name_length : name.length = 24
  attr : U8
  resv : U8
  chain : U16
  size : U32

/-- The links of a master block, each in its place: the `chain` of a directory entry,
or of a sector. `AllocateSectors` holds a pointer to either kind. -/
inductive Cell
  /-- `dir[i].chain`. -/
  | dir (i : ℕ)
  /-- `fat[s].chain`. -/
  | fat (s : ℕ)
  deriving DecidableEq

/-- `pffsMASTERBLOCK`: the directory and the table. -/
structure MasterBlock where
  dir : ℕ → Directory
  fat : ℕ → U16

/-- `PFI`, as far as the file system goes: the bounds of the file system area, its
master block, and the bytes of its sectors. The master block lies in sector 0. -/
structure Image where
  /-- `header.sysinfo.pffs_top`. -/
  pffsTop : U32
  /-- `header.sysinfo.pffs_end`. -/
  pffsEnd : U32
  msb : MasterBlock
  data : ℕ → ℕ → U8

/-- `PFIGetPFFSMaxFAT`. -/
def Image.maxFat (img : Image) : ℕ :=
  min ((img.pffsEnd - img.pffsTop) >>> 12).toNat Pffs.maxFat

/-- The link in a cell. -/
def MasterBlock.next (m : MasterBlock) : Cell → U16
  | .dir i => (m.dir i).chain
  | .fat s => m.fat s

/-- `*chain = v`, for a pointer to a cell. -/
def MasterBlock.setNext (m : MasterBlock) (c : Cell) (v : U16) : MasterBlock :=
  match c with
  | .dir i => { m with dir := Function.update m.dir i { m.dir i with chain := v } }
  | .fat s => { m with fat := Function.update m.fat s v }

/-- `dir[i] = d`. -/
def MasterBlock.setDir (m : MasterBlock) (i : ℕ) (d : Directory) : MasterBlock :=
  { m with dir := Function.update m.dir i d }

theorem MasterBlock.setDir_dir_self (m : MasterBlock) (i : ℕ) (d : Directory) :
    (m.setDir i d).dir i = d := Function.update_self ..

theorem MasterBlock.setDir_dir_of_ne (m : MasterBlock) {i j : ℕ} (h : j ≠ i) (d : Directory) :
    (m.setDir i d).dir j = m.dir j := Function.update_of_ne h ..

/-! ### Names -/

/-- The string a pointer points at: the bytes in front of the first NUL. -/
def cstr (s : List U8) : List U8 := s.takeWhile (· ≠ 0)

/-- The characters of a name: digits, lower-case letters, and `_`. -/
def nameChar (c : U8) : Bool :=
  (0x30 ≤ c && c ≤ 0x39) || (0x61 ≤ c && c ≤ 0x7A) || c = 0x5F

/-- The inner loop of `CheckFileName`: how many name characters come first, the
character that ends them, and what is behind it. The counter is an `int`, and a natural
number here: a name is an argument of a command line or the field of an entry, and neither
has `2 ^ 31` characters to count. -/
def scanPart : List U8 → ℕ × U8 × List U8
  | [] => (0, 0, [])
  | c :: s =>
    if nameChar c then ((scanPart s).1 + 1, (scanPart s).2.1, (scanPart s).2.2)
    else (0, c, s)

/-- `CheckFileName`: 0 for a valid name, `[a-z0-9_]{1,8}([.][a-z0-9_]{1,3})?`. -/
def checkFileName (name : List U8) : ℕ :=
  let (length, c, rest) := scanPart name
  if length = 0 ∨ length > 8 then 1
  else if c = 0 then 0
  else if c ≠ 0x2E then 2
  else
    let (length, c, _) := scanPart rest
    if length = 0 ∨ length > 3 then 3
    else if c = 0 then 0
    else 4

/-- `strncmp(s, t, n) == 0`. -/
def strncmpEq : ℕ → List U8 → List U8 → Bool
  | 0, _, _ => true
  | n + 1, s, t =>
    if s.headD 0 ≠ t.headD 0 then false
    else if s.headD 0 = 0 then true
    else strncmpEq n s.tail t.tail

/-- An entry in use: its first character is neither NUL nor `FF`. -/
def Directory.inUse (d : Directory) : Bool := d.name.headD 0 ≠ 0 && d.name.headD 0 ≠ 0xFF

/-- `PFFSFindFile`: the index of the entry. -/
def findFile (m : MasterBlock) (name : List U8) : Option ℕ :=
  if checkFileName name ≠ 0 then none
  else (List.range maxDir).find? fun i => (m.dir i).inUse && strncmpEq 24 (m.dir i).name name

/-- `FindFreeDir`. An entry that starts with a NUL is not in use, but not free either. -/
def findFreeDir (m : MasterBlock) : Option ℕ :=
  (List.range maxDir).find? fun i => (m.dir i).name.headD 0 = 0xFF

/-! ### Sectors -/

/-- `GetFreeFAT`: the first free sector from `start` on. -/
def getFreeFat (max : ℕ) (fat : ℕ → U16) (start : ℕ) : Option ℕ :=
  (List.range' start (max - start)).find? fun s => fat s = fatFree

/-- `PFFSFree`. -/
def pffsFree (img : Image) : ℕ :=
  (List.range img.maxFat).countP fun s => img.msb.fat s = fatFree

/-- The number of sectors a size stands for, as the code computes it: the sum is one
of 32-bit numbers. -/
def sectorsOf (size : U32) : ℕ := ((size + 4095) >>> 12).toNat

/-- The first loop of `AllocateSectors`, with `k` rounds to go: `chain` is the link
that leads to the next sector, `nn` where the search for a free one goes on. A free
link and the end of the chain are both continued with a free sector. -/
def allocLoop (max : ℕ) : ℕ → MasterBlock → Cell → ℕ → Option (MasterBlock × Cell)
  | 0, m, chain, _ => some (m, chain)
  | k + 1, m, chain, nn =>
    if m.next chain = fatFree ∨ m.next chain = fatEnd then
      match getFreeFat max m.fat nn with
      | none => none
      | some n => allocLoop max k (m.setNext chain (BitVec.ofNat 16 n)) (.fat n) (n + 1)
    else allocLoop max k m (.fat (m.next chain).toNat) nn

/-- The second loop of `AllocateSectors`, with `k` rounds to go: the sectors of an
old, larger version of the file are given back. -/
def releaseLoop : ℕ → MasterBlock → U16 → MasterBlock
  | 0, m, _ => m
  | k + 1, m, nn =>
    let next := m.fat nn.toNat
    let m := m.setNext (.fat nn.toNat) fatFree
    if next = fatFree ∨ next = fatEnd then m else releaseLoop k m next

/-- `AllocateSectors`, for the entry `i`: its chain gets `nsectors` sectors. -/
def allocateSectors (max : ℕ) (m : MasterBlock) (i nsectors oldNsectors : ℕ) :
    Option MasterBlock :=
  match allocLoop max nsectors m (.dir i) 0 with
  | none => none
  | some (m, chain) =>
    let nn := m.next chain
    some (releaseLoop (oldNsectors - nsectors) (m.setNext chain fatEnd) nn)

/-! ### Deleting a file -/

/-- The loop of `PFFSDeleteFile`. It ends at `FAT_END` only; `fuel` bounds its
rounds. -/
def freeChain : ℕ → MasterBlock → U16 → Option MasterBlock
  | 0, _, _ => none
  | fuel + 1, m, sector =>
    if sector = fatEnd then some m
    else freeChain fuel (m.setNext (.fat sector.toNat) fatFree) (m.fat sector.toNat)

/-- `memset(dir, 0xff, sizeof(DIRECTORY))`. -/
def Directory.erased : Directory where
  name := List.replicate 24 0xFF
  name_length := List.length_replicate
  attr := 0xFF
  resv := 0xFF
  chain := 0xFFFF
  size := 0xFFFFFFFF

/-- `PFFSDeleteFile`: the image it leaves, and whether it returns 1. -/
def deleteFile (fuel : ℕ) (img : Image) (pffsName : List U8) : Option (Image × Bool) :=
  match findFile img.msb pffsName with
  | none => some (img, false)
  | some i =>
    match freeChain fuel img.msb (img.msb.dir i).chain with
    | none => none
    | some m => some ({ img with msb := m.setDir i .erased }, true)

/-! ### Adding a file -/

/-- What `fopen` finds on the host: `PFFSAddFileAs` opens the file once for its size
and once for its contents. -/
structure Disk where
  first : Option (List U8)
  second : Option (List U8)

/-- The reasons for which `PFFSAddFileAs` returns 0. All but `noFreeDir` print a
message. -/
inductive AddError
  /-- “PFFS name must not contain '/'”. -/
  | slashInName
  /-- “Invalid filename for pffs”. -/
  | invalidName
  /-- “Cannot open disk file”. -/
  | cannotOpen
  /-- Every directory entry is taken. -/
  | noFreeDir
  /-- “Unable to allocate sectors”. -/
  | noSectors
  /-- “Cannot write file into pffs”. -/
  | cannotWrite
  deriving DecidableEq, Repr

/-- The part of a path behind the last `/`. -/
def basename (filename : List U8) : List U8 :=
  ((cstr filename).reverse.takeWhile (· ≠ 0x2F)).reverse

/-- The name inside the file system: the override, unless it is null or empty. -/
def resolveName (filename : List U8) (pffsNameIn : Option (List U8)) :
    Except AddError (List U8) :=
  match pffsNameIn with
  | none => .ok (basename filename)
  | some name =>
    if name.headD 0 = 0 then .ok (basename filename)
    else if 0x2F ∈ cstr name then .error .slashInName
    else .ok name

/-- A new entry: zeroes, the name copied by `strncpy`, and no chain. -/
def Directory.fresh (name : List U8) : Directory where
  name := (cstr name).take 23 ++ List.replicate (24 - ((cstr name).take 23).length) 0
  name_length := by
    rw [List.length_append, List.length_replicate]
    have := List.length_take_le 23 (cstr name)
    omega
  attr := 0
  resv := 0
  chain := fatFree
  size := 0

/-- The entry of the file to add: the one with its name, or a new one. Returns the
master block, the index, and the number of sectors the file had. -/
def entryFor (m : MasterBlock) (name : List U8) : Option (MasterBlock × ℕ × ℕ) :=
  match findFile m name with
  | some i => some (m, i, sectorsOf (m.dir i).size)
  | none =>
    match findFreeDir m with
    | none => none
    | some i => some (m.setDir i (.fresh name), i, 0)

/-- `fread(p, 1, 4096, fp)`: a sector after the next bytes of the file are read into
it. -/
def readInto (old : ℕ → U8) (bytes : List U8) : ℕ → U8 := fun j =>
  ((bytes.take 4096)[j]?).getD (old j)

/-- The loop of `WriteFileToSectors`, with `k` rounds to go: sector by sector along
the chain. -/
def writeLoop (fat : ℕ → U16) : ℕ → U16 → List U8 → (ℕ → ℕ → U8) → ℕ → ℕ → U8
  | 0, _, _, data => data
  | k + 1, sector, bytes, data =>
    writeLoop fat k (fat sector.toNat) (bytes.drop 4096)
      (Function.update data sector.toNat (readInto (data sector.toNat) bytes))

/-- `WriteFileToSectors`. -/
def writeFileToSectors (fopen : Option (List U8)) (m : MasterBlock) (i nsectors : ℕ)
    (data : ℕ → ℕ → U8) : Option (ℕ → ℕ → U8) :=
  match fopen with
  | none => none
  | some bytes => some (writeLoop m.fat nsectors (m.dir i).chain bytes data)

/-- `PFFSAddFileAs`: the image it leaves, and how it ends. -/
def addFileAs (img : Image) (filename : List U8) (pffsNameIn : Option (List U8)) (disk : Disk) :
    Image × Except AddError Unit :=
  match resolveName filename pffsNameIn with
  | .error e => (img, .error e)
  | .ok name =>
    if checkFileName name ≠ 0 then (img, .error .invalidName)
    else
      match disk.first with
      | none => (img, .error .cannotOpen)
      | some content =>
        -- `(uint32_t)ftell(fp)`
        let size := BitVec.ofNat 32 content.length
        let nsectors := sectorsOf size
        match entryFor img.msb name with
        | none => (img, .error .noFreeDir)
        | some (m, i, oldNsectors) =>
          match allocateSectors img.maxFat (m.setDir i { m.dir i with size }) i nsectors
              oldNsectors with
          | none => (img, .error .noSectors)
          | some m =>
            match writeFileToSectors disk.second m i nsectors img.data with
            | none => (img, .error .cannotWrite)
            | some data => ({ img with msb := m, data }, .ok ())

end Pffs
