import Mathlib.Data.Nat.Log
import PieceEmu.Lib.Words

/-!
# The SST39VF flash device

The NOR flash chip of the board: a byte array behind a command state machine.
Every halfword write drives the machine; a write changes memory only in the state
that a complete unlock sequence leads to, and every change marks the 4 KB sectors
it touches as dirty, for the host to write back.

What a write does beyond changing the device is call the dirty callback. The
model returns those calls, in order, next to the new device
(`Sst39vf.write16`).

The memory of a device is a function on all indices, not only on those below
`Sst39vf.memSize`: a fill that ran past the array would then show as a change
past the size, and that none does is a theorem about the write path
(`Sst39vf.Sized.write16_mem_of_ge`).
-/

/-- The states of the command machine. -/
inductive FlashState
  /-- Reads return memory, no command is under way. -/
  | normal
  /-- Got `5555:AA`. -/
  | enter1
  /-- Got `5555:AA`, `2AAA:55`. -/
  | enter2
  /-- Got … `5555:80`. -/
  | enter3
  /-- Got … `5555:80`, `5555:AA`. -/
  | enter4
  /-- Got … `5555:80`, `5555:AA`, `2AAA:55`. -/
  | enter5
  /-- Reads return the identification. -/
  | softwareId
  /-- Reads return the query table. -/
  | cfiQuery
  /-- The next write is data. -/
  | wordProgram
  deriving DecidableEq, Repr

/-- The SST39VF device: its size is a power of two, at least one sector. -/
structure Sst39vf where
  /-- `mem_.size()`. -/
  memSize : ℕ
  memSize_pow : memSize.isPowerOfTwo
  sector_le_memSize : 0x1000 ≤ memSize
  /-- `mem_`. -/
  mem : ℕ → U8
  /-- `dirty_`, one flag for each sector. -/
  dirty : ℕ → Bool
  /-- `state_`. -/
  state : FlashState

namespace Sst39vf

/-- `SECTOR_SIZE`. -/
def sectorSize : ℕ := 0x1000
/-- `BLOCK_SIZE`. -/
def blockSize : ℕ := 0x10000
/-- `CMD_ADDR_1`, a halfword address. -/
def cmdAddr1 : U32 := 0x5555
/-- `CMD_ADDR_2`, a halfword address. -/
def cmdAddr2 : U32 := 0x2AAA

/-! ### Construction -/

/-- The constructor: an erased device in its read mode. -/
def construct (memSize : ℕ) : Except String Sst39vf :=
  if h : memSize.isPowerOfTwo ∧ 0x1000 ≤ memSize then
    .ok { memSize, memSize_pow := h.1, sector_le_memSize := h.2, mem := fun _ => 0xFF,
          dirty := fun _ => false, state := .normal }
  else .error "Sst39vf: mem_size must be a power of two >= 4 KB"

/-- A device of 64 KB is one that can be constructed. -/
theorem isPowerOfTwo_64K : Nat.isPowerOfTwo 0x10000 := ⟨16, rfl⟩

theorem sector_le_64K : 0x1000 ≤ 0x10000 := by decide

/-- `for_min_bytes`: the variant whose capacity covers `minBytes`. -/
def forMinBytes (minBytes : ℕ) : Except String Sst39vf :=
  construct (if minBytes ≤ 0x80000 then 0x80000 else 0x200000)

/-- `reset`: back to the read mode, memory untouched. -/
def reset (f : Sst39vf) : Sst39vf := { f with state := .normal }

/-- `sector_count`: the length of `dirty_`. -/
def sectorCount (f : Sst39vf) : ℕ := f.memSize / sectorSize

/-! ### Identification -/

/-- `mfr_id_`. -/
def mfrId : U16 := 0x00BF

/-- `dev_id_`, as the constructor picks it. -/
def devId (f : Sst39vf) : U16 :=
  match f.memSize with
  | 0x80000 => 0x2780
  | 0x100000 => 0x2781
  | 0x200000 => 0x2782
  | _ => 0x2780

/-- `log2_size`: the loop runs to the first power of two that is not below the size. -/
def log2Size (n : ℕ) : U8 := BitVec.ofNat 8 (Nat.clog 2 n)

/-- `cfi_sector_count_`. -/
def cfiSectorCount (f : Sst39vf) : U16 := BitVec.ofInt 16 (f.memSize / sectorSize - 1 : ℤ)

/-- `cfi_block_count_`. A device below the block size wraps. -/
def cfiBlockCount (f : Sst39vf) : U16 := BitVec.ofInt 16 ((f.memSize / blockSize : ℕ) - 1 : ℤ)

/-- `cfi_query`: the query table, by halfword address. -/
def cfiTable (f : Sst39vf) (cfiHalfwordAddr : ℕ) : U16 :=
  match cfiHalfwordAddr with
  -- identification string
  | 0x10 => 0x0051
  | 0x11 => 0x0052
  | 0x12 => 0x0059
  -- primary command set
  | 0x13 => 0x0001
  | 0x14 => 0x0007
  -- system interface
  | 0x1B => 0x0027
  | 0x1C => 0x0036
  | 0x1F => 0x0004
  | 0x21 => 0x0004
  | 0x22 => 0x0006
  | 0x23 => 0x0001
  | 0x25 => 0x0001
  | 0x26 => 0x0001
  -- device geometry
  | 0x27 => (log2Size f.memSize).setWidth 16
  | 0x28 => 0x0001
  | 0x2C => 0x0002
  | 0x2D => f.cfiSectorCount &&& 0x00FF
  | 0x2E => (f.cfiSectorCount >>> 8) &&& 0x00FF
  | 0x2F => 0x0010
  | 0x31 => f.cfiBlockCount &&& 0x00FF
  | 0x32 => (f.cfiBlockCount >>> 8) &&& 0x00FF
  | 0x34 => 0x0001
  | _ => 0x0000

/-- `software_id`, by halfword address. -/
def softwareIdAt (f : Sst39vf) (idHalfwordAddr : ℕ) : U16 :=
  match idHalfwordAddr with
  | 0 => mfrId
  | 1 => f.devId
  | _ => 0

/-! ### Reading -/

/-- The two masks every access applies to its offset: into the device, and to a
halfword. -/
def maskOffset (f : Sst39vf) (offset : U32) : U32 :=
  offset &&& BitVec.ofNat 32 (f.memSize - 1) &&& ~~~1#32

/-- `read16`: memory, or the view of a query mode. -/
def read16 (f : Sst39vf) (offset : U32) : U16 :=
  let off := (f.maskOffset offset).toNat
  match f.state with
  | .cfiQuery => f.cfiTable (off >>> 1)
  | .softwareId => f.softwareIdAt (off >>> 1)
  | _ => Words.le16 f.mem off

/-- `read8`: a byte of the halfword `read16` returns. -/
def read8 (f : Sst39vf) (offset : U32) : U8 :=
  let hw := f.read16 (offset &&& ~~~1#32)
  if offset &&& 1#32 ≠ 0 then (hw >>> 8).setWidth 8 else hw.setWidth 8

/-- `in_read_mode`. -/
def inReadMode (f : Sst39vf) : Bool := f.state = .normal

/-! ### Dirty tracking -/

/-- The body of the loop of `mark_dirty`: a clean sector becomes dirty and is
reported. -/
def markSector (acc : Sst39vf × List ℕ) (s : ℕ) : Sst39vf × List ℕ :=
  if acc.1.dirty s then acc
  else ({ acc.1 with dirty := Function.update acc.1.dirty s true }, acc.2 ++ [s])

/-- The sectors the loop of `mark_dirty` visits: those the span touches, as far as
the device goes. -/
def spanSectors (f : Sst39vf) (byteOffset spanBytes : ℕ) : List ℕ :=
  let start := byteOffset / sectorSize
  let last := (byteOffset + spanBytes - 1) / sectorSize
  List.range' start (min (last + 1) f.sectorCount - start)

/-- `mark_dirty`: the new device, and the calls of the dirty callback. -/
def markDirty (f : Sst39vf) (byteOffset spanBytes : ℕ) : Sst39vf × List ℕ :=
  (f.spanSectors byteOffset spanBytes).foldl markSector (f, [])

/-- `any_dirty`. -/
def anyDirty (f : Sst39vf) : Bool := (List.range f.sectorCount).any f.dirty

/-- `is_sector_dirty`. -/
def isSectorDirty (f : Sst39vf) (s : ℕ) : Bool := s < f.sectorCount && f.dirty s

/-- `clear_dirty`. -/
def clearDirty (f : Sst39vf) : Sst39vf := { f with dirty := fun _ => false }

/-- `for_each_dirty_sector`: the arguments of the calls it makes, in order. The cast
of the index to 32 bits is exact below 16 TB. -/
def forEachDirtySector (f : Sst39vf) : List ℕ := (List.range f.sectorCount).filter f.dirty

/-! ### Writing -/

/-- The sixth cycle of an erase, by its low byte. The device is left in the state
it was in: `write16` returns it to normal. -/
def eraseCycle (f : Sst39vf) (off : U32) (cmd : U8) : Sst39vf × List ℕ :=
  if cmd = 0x10 then
    if off >>> 1 = cmdAddr1 then
      -- chip erase: every sector is reported, dirty already or not
      ({ f with mem := Words.fill f.mem 0 f.memSize 0xFF, dirty := fun _ => true },
        List.range f.sectorCount)
    else (f, [])
  else if cmd = 0x30 then
    let base := (off &&& ~~~BitVec.ofNat 32 (sectorSize - 1)).toNat
    { f with mem := Words.fill f.mem base sectorSize 0xFF }.markDirty base sectorSize
  else if cmd = 0x50 then
    let base := (off &&& ~~~BitVec.ofNat 32 (blockSize - 1)).toNat
    { f with mem := Words.fill f.mem base blockSize 0xFF }.markDirty base blockSize
  else (f, [])

/-- `write16`: one cycle of the command machine. Returns the device and the calls
of the dirty callback. -/
def write16 (f : Sst39vf) (offset : U32) (data : U16) : Sst39vf × List ℕ :=
  let off := f.maskOffset offset
  let hwAddr := off >>> 1
  let cmd := data.setWidth 8
  -- the short exit, which in the program state is data
  if f.state ≠ .wordProgram ∧ cmd = 0xF0 then ({ f with state := .normal }, [])
  else
    match f.state with
    | .normal =>
      if hwAddr = cmdAddr1 ∧ cmd = 0xAA then ({ f with state := .enter1 }, []) else (f, [])
    | .enter1 =>
      if hwAddr = cmdAddr2 ∧ cmd = 0x55 then ({ f with state := .enter2 }, [])
      else ({ f with state := .normal }, [])
    | .enter2 =>
      if hwAddr = cmdAddr1 then
        if cmd = 0x80 then ({ f with state := .enter3 }, [])
        else if cmd = 0x90 then ({ f with state := .softwareId }, [])
        else if cmd = 0x98 then ({ f with state := .cfiQuery }, [])
        else if cmd = 0xA0 then ({ f with state := .wordProgram }, [])
        else ({ f with state := .normal }, [])
      else ({ f with state := .normal }, [])
    | .enter3 =>
      if hwAddr = cmdAddr1 ∧ cmd = 0xAA then ({ f with state := .enter4 }, [])
      else ({ f with state := .normal }, [])
    | .enter4 =>
      if hwAddr = cmdAddr2 ∧ cmd = 0x55 then ({ f with state := .enter5 }, [])
      else ({ f with state := .normal }, [])
    | .enter5 =>
      let (f', calls) := f.eraseCycle off cmd
      ({ f' with state := .normal }, calls)
    | .softwareId | .cfiQuery => (f, [])
    | .wordProgram =>
      let (f', calls) :=
        { f with mem := Words.putLe16 f.mem off.toNat data }.markDirty off.toNat 2
      ({ f' with state := .normal }, calls)

/-! ### Geometry -/

variable (f : Sst39vf)

theorem exists_memSize_eq : ∃ k, 12 ≤ k ∧ f.memSize = 2 ^ k := by
  obtain ⟨k, hk⟩ := f.memSize_pow
  refine ⟨k, ?_, hk⟩
  by_contra hlt
  have h : 2 ^ k ≤ 2 ^ 11 := Nat.pow_le_pow_right (by decide) (by omega)
  have := f.sector_le_memSize
  omega

theorem sectorSize_dvd_memSize : sectorSize ∣ f.memSize := by
  obtain ⟨k, hk, h⟩ := f.exists_memSize_eq
  rw [h]
  exact Nat.pow_dvd_pow (m := 12) 2 hk

theorem sectorCount_mul : f.sectorCount * sectorSize = f.memSize :=
  Nat.div_mul_cancel f.sectorSize_dvd_memSize

theorem toNat_maskOffset (offset : U32) :
    (f.maskOffset offset).toNat = offset.toNat % f.memSize / 2 * 2 := by
  obtain ⟨k, -, h⟩ := f.exists_memSize_eq
  rw [maskOffset, h, show (1#32 : U32) = BitVec.ofNat 32 (2 ^ 1 - 1) from rfl,
    Words.toNat_and_not_low, Words.toNat_and_low]
  rfl

/-- Both bytes of the halfword an access addresses lie in the device. -/
theorem toNat_maskOffset_add_one_lt (offset : U32) :
    (f.maskOffset offset).toNat + 1 < f.memSize := by
  have h2 : 2 ∣ f.memSize := Nat.dvd_trans (by decide) f.sectorSize_dvd_memSize
  have hpos : 0 < f.memSize := Nat.lt_of_lt_of_le (by decide) f.sector_le_memSize
  have hlt := Nat.mod_lt offset.toNat hpos
  rw [toNat_maskOffset]
  omega

/-- The sector that holds byte `i` of the device. -/
def sectorOf (i : ℕ) : ℕ := i / sectorSize

theorem sectorOf_lt {i : ℕ} (h : i < f.memSize) : sectorOf i < f.sectorCount :=
  Nat.div_lt_div_of_lt_of_dvd f.sectorSize_dvd_memSize h

theorem sectorOf_eq_iff {i s : ℕ} :
    sectorOf i = s ↔ s * sectorSize ≤ i ∧ i < s * sectorSize + sectorSize := by
  rw [sectorOf, Nat.div_eq_iff (by decide)]
  simp only [sectorSize]
  omega

/-! ### What marking does -/

theorem mem_spanSectors {byteOffset spanBytes s : ℕ} :
    s ∈ f.spanSectors byteOffset spanBytes ↔
      byteOffset / sectorSize ≤ s ∧ s ≤ (byteOffset + spanBytes - 1) / sectorSize ∧
        s < f.sectorCount := by
  rw [spanSectors, List.mem_range'_1]
  omega

theorem nodup_spanSectors (byteOffset spanBytes : ℕ) :
    (f.spanSectors byteOffset spanBytes).Nodup :=
  List.nodup_range'

/-- **The loop of `mark_dirty`, run**: the visited sectors become dirty, and those
that were clean are reported in order. -/
theorem foldl_markSector (l : List ℕ) (hl : l.Nodup) (calls : List ℕ) :
    l.foldl markSector (f, calls) =
      ({ f with dirty := fun s => f.dirty s || decide (s ∈ l) },
        calls ++ l.filter fun s => !f.dirty s) := by
  induction l generalizing f calls with
  | nil => simp
  | cons a l ih =>
    obtain ⟨ha, hl⟩ := List.nodup_cons.mp hl
    rw [List.foldl_cons]
    cases hd : f.dirty a with
    | true =>
      rw [show markSector (f, calls) a = (f, calls) by simp [markSector, hd], ih f hl]
      refine Prod.ext (congrArg (fun d => ({ f with dirty := d } : Sst39vf)) ?_) (by simp [hd])
      funext s
      by_cases hs : s = a <;> simp [hs, hd]
    | false =>
      rw [show markSector (f, calls) a =
        ({ f with dirty := Function.update f.dirty a true }, calls ++ [a]) by
          simp [markSector, hd], ih _ hl]
      refine Prod.ext (congrArg (fun d => ({ f with dirty := d } : Sst39vf)) ?_) ?_
      · funext s
        by_cases hs : s = a <;> simp [hs]
      · simp only [List.filter_cons, hd, Bool.not_false, if_true, List.append_assoc,
          List.singleton_append]
        congr 2
        refine List.filter_congr fun s hs => ?_
        have hsa : s ≠ a := by
          rintro rfl
          exact ha hs
        rw [Function.update_of_ne hsa]

theorem markDirty_fst (byteOffset spanBytes : ℕ) :
    (f.markDirty byteOffset spanBytes).1 =
      { f with
        dirty := fun s => f.dirty s || decide (s ∈ f.spanSectors byteOffset spanBytes) } := by
  rw [markDirty, foldl_markSector f _ (f.nodup_spanSectors _ _)]

theorem markDirty_snd (byteOffset spanBytes : ℕ) :
    (f.markDirty byteOffset spanBytes).2 =
      (f.spanSectors byteOffset spanBytes).filter fun s => !f.dirty s := by
  rw [markDirty, foldl_markSector f _ (f.nodup_spanSectors _ _), List.nil_append]

@[simp] theorem markDirty_mem (byteOffset spanBytes : ℕ) :
    (f.markDirty byteOffset spanBytes).1.mem = f.mem := by rw [markDirty_fst]

@[simp] theorem markDirty_memSize (byteOffset spanBytes : ℕ) :
    (f.markDirty byteOffset spanBytes).1.memSize = f.memSize := by rw [markDirty_fst]

theorem markDirty_dirty {byteOffset spanBytes s : ℕ} :
    (f.markDirty byteOffset spanBytes).1.dirty s = true ↔
      f.dirty s = true ∨ s ∈ f.spanSectors byteOffset spanBytes := by
  rw [markDirty_fst, Bool.or_eq_true, decide_eq_true_eq]

/-! ### What a write changes -/

/-- The size of a device never changes. -/
@[simp] theorem write16_memSize (offset : U32) (data : U16) :
    (f.write16 offset data).1.memSize = f.memSize := by
  unfold write16 eraseCycle
  grind [markDirty_memSize]

end Sst39vf
