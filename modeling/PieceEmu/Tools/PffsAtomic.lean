import PieceEmu.Tools.PffsKept

/-!
# The working copy of the master block

`PFFSAddFileAs` and `PFFSDeleteFile` copy the master block to their stack, set
`pfi->msb` to the copy, and let everything below them work through that pointer; what
has become of the copy is written back at the very end. In between there are two
master blocks, and pointers into either of them: the entry `dir`, the link `chain`, the
table `fat`. Here the memory of a call is explicit (`Pffs.Memory`), a pointer says which
block it points into, and every function is a sequence of loads and stores.

| statement | in the model |
|---|---|
| `new_msb = *pfi->msb; pfi->msb = &new_msb;` | `Pffs.Memory.begin` |
| `*chain = v;` | `Pffs.Memory.store` |
| `*old_msb = new_msb; pfi->msb = old_msb;` | `Pffs.Memory.commit` |
| `pfi->msb = old_msb;` | `Pffs.Memory.restore` |

Allocation rewrites links until it finds no free sector, so a call that fails may leave
the copy in any state. It leaves nothing in the image (`Pffs.MemOp.atomic`): as long as
`pfi->msb` points at the copy, so does every pointer that is derived from it, and the
sectors are written only when nothing can fail any more. What the calls do to the image
is what the functions on images do (`Pffs.Memory.addFileAs_eq`).
-/

namespace Pffs

open LinkedCells

/-- A master block: the one in the image, or `new_msb` on the stack. -/
inductive Block
  | original
  | copy
  deriving DecidableEq, Repr

/-- The memory of a call. -/
structure Memory where
  /-- The image, and with it the original master block. -/
  img : Image
  /-- `new_msb`. -/
  newMsb : MasterBlock
  /-- `pfi->msb`. -/
  msb : Block

namespace Memory

variable (mem : Memory)

/-- The master block at an address. -/
def block : Block → MasterBlock
  | .original => mem.img.msb
  | .copy => mem.newMsb

/-- A master block is stored. -/
def setBlock (b : Block) (m : MasterBlock) : Memory :=
  match b with
  | .original => { mem with img := { mem.img with msb := m } }
  | .copy => { mem with newMsb := m }

/-- `*chain = v`. -/
def store (b : Block) (c : Cell) (v : U16) : Memory := mem.setBlock b ((mem.block b).setNext c v)

/-- An entry is stored. -/
def storeDir (b : Block) (i : ℕ) (d : Directory) : Memory :=
  mem.setBlock b ((mem.block b).setDir i d)

/-- `new_msb = *pfi->msb`, and `pfi->msb = &new_msb`. -/
def begin : Memory := { mem with newMsb := mem.block mem.msb, msb := .copy }

/-- `pfi->msb = old_msb`. -/
def restore (oldMsb : Block) : Memory := { mem with msb := oldMsb }

/-- `*old_msb = new_msb`, and `pfi->msb = old_msb`. -/
def commit (oldMsb : Block) : Memory := (mem.setBlock oldMsb mem.newMsb).restore oldMsb

/-! ### The functions -/

/-- `PFFSFindFile`: a pointer to the entry. -/
def findFile (name : List U8) : Option (Block × ℕ) :=
  (Pffs.findFile (mem.block mem.msb) name).map (mem.msb, ·)

/-- `FindFreeDir`: a pointer to the entry. -/
def findFreeDir : Option (Block × ℕ) :=
  (Pffs.findFreeDir (mem.block mem.msb)).map (mem.msb, ·)

/-- The first loop of `AllocateSectors`, with `k` rounds to go: the link `chain` lies in
the block `b`, and `fat` is the table it goes on with. -/
def allocLoop (max : ℕ) (fat : Block) :
    ℕ → Memory → Block → Cell → ℕ → Memory × Option (Block × Cell)
  | 0, mem, b, chain, _ => (mem, some (b, chain))
  | k + 1, mem, b, chain, nn =>
    let n := (mem.block b).next chain
    if n = fatFree ∨ n = fatEnd then
      match getFreeFat max (mem.block fat).fat nn with
      | none => (mem, none)
      | some n =>
        allocLoop max fat k (mem.store b chain (BitVec.ofNat 16 n)) fat (.fat n) (n + 1)
    else allocLoop max fat k mem fat (.fat n.toNat) nn

/-- The second loop of `AllocateSectors`, with `k` rounds to go. -/
def releaseLoop (fat : Block) : ℕ → Memory → U16 → Memory
  | 0, mem, _ => mem
  | k + 1, mem, nn =>
    let next := (mem.block fat).fat nn.toNat
    let mem := mem.store fat (.fat nn.toNat) fatFree
    if next = fatFree ∨ next = fatEnd then mem else releaseLoop fat k mem next

/-- `AllocateSectors`, and whether it returns 1. -/
def allocateSectors (dir : Block × ℕ) (nsectors oldNsectors : ℕ) : Memory × Bool :=
  let fat := mem.msb
  match allocLoop mem.img.maxFat fat nsectors mem dir.1 (.dir dir.2) 0 with
  | (mem, none) => (mem, false)
  | (mem, some (b, chain)) =>
    let nn := (mem.block b).next chain
    (releaseLoop fat (oldNsectors - nsectors) (mem.store b chain fatEnd) nn, true)

/-- The loop of `WriteFileToSectors`, with `k` rounds to go. -/
def writeLoop : ℕ → Memory → U16 → List U8 → Memory
  | 0, mem, _, _ => mem
  | k + 1, mem, sector, bytes =>
    let data := Function.update mem.img.data sector.toNat
      (readInto (mem.img.data sector.toNat) bytes)
    writeLoop k { mem with img := { mem.img with data } } ((mem.block mem.msb).fat sector.toNat)
      (bytes.drop 4096)

/-- `WriteFileToSectors`, and whether it returns 1. -/
def writeFileToSectors (fopen : Option (List U8)) (dir : Block × ℕ) (nsectors : ℕ) :
    Memory × Bool :=
  match fopen with
  | none => (mem, false)
  | some bytes => (writeLoop nsectors mem ((mem.block dir.1).dir dir.2).chain bytes, true)

/-- The entry of the file to add, with its size set, and the number of sectors the file
had; or there is no room for an entry. -/
def openEntry (name : List U8) (size : U32) : Memory × Option ((Block × ℕ) × ℕ) :=
  match mem.findFile name with
  | some (b, i) =>
    let oldNsectors := sectorsOf ((mem.block b).dir i).size
    (mem.storeDir b i { (mem.block b).dir i with size }, some ((b, i), oldNsectors))
  | none =>
    match mem.findFreeDir with
    | none => (mem, none)
    | some (b, i) =>
      let mem := mem.storeDir b i (.fresh name)
      (mem.storeDir b i { (mem.block b).dir i with size }, some ((b, i), 0))

/-- `PFFSAddFileAs`, and how it ends. -/
def addFileAs (filename : List U8) (pffsNameIn : Option (List U8)) (disk : Disk) :
    Memory × Except AddError Unit :=
  let oldMsb := mem.msb
  match resolveName filename pffsNameIn with
  | .error e => (mem, .error e)
  | .ok name =>
    if checkFileName name ≠ 0 then (mem, .error .invalidName)
    else
      match disk.first with
      | none => (mem, .error .cannotOpen)
      | some content =>
        let size := BitVec.ofNat 32 content.length
        let nsectors := sectorsOf size
        match mem.begin.openEntry name size with
        | (mem, none) => (mem.restore oldMsb, .error .noFreeDir)
        | (mem, some (dir, oldNsectors)) =>
          match mem.allocateSectors dir nsectors oldNsectors with
          | (mem, false) => (mem.restore oldMsb, .error .noSectors)
          | (mem, true) =>
            match mem.writeFileToSectors disk.second dir nsectors with
            | (mem, false) => (mem.restore oldMsb, .error .cannotWrite)
            | (mem, true) => (mem.commit oldMsb, .ok ())

/-- `PFFSDeleteFile`, and whether it returns 1. Its loop works on `new_msb` by name. -/
def deleteFile (fuel : ℕ) (pffsName : List U8) : Option (Memory × Bool) :=
  let oldMsb := mem.msb
  let mem := mem.begin
  match mem.findFile pffsName with
  | none => some (mem.restore oldMsb, false)
  | some (b, i) =>
    match freeChain fuel mem.newMsb ((mem.block b).dir i).chain with
    | none => none
    | some m =>
      let mem := { mem with newMsb := m }
      some ((mem.storeDir b i .erased).commit oldMsb, true)

end Memory

/-- An operation of the tools, on the memory: the memory it leaves, and whether it
returns 1. -/
def Op.runMem (fuel : ℕ) (mem : Memory) : Op → Option (Memory × Bool)
  | .addFileAs filename pffsNameIn disk =>
    some ((mem.addFileAs filename pffsNameIn disk).1,
      (mem.addFileAs filename pffsNameIn disk).2.isOk)
  | .deleteFile pffsName => mem.deleteFile fuel pffsName

/-! ### Pointers into the copy stay in it -/

namespace Memory

variable {mem : Memory}

/-- The memory of a call in progress: only the copy may have changed. -/
def working (img : Image) (m : MasterBlock) : Memory := ⟨img, m, .copy⟩

@[simp] theorem working_msb (img : Image) (m : MasterBlock) : (working img m).msb = .copy := rfl

@[simp] theorem working_img (img : Image) (m : MasterBlock) : (working img m).img = img := rfl

@[simp] theorem block_working (img : Image) (m : MasterBlock) :
    (working img m).block .copy = m := rfl

@[simp] theorem store_working (img : Image) (m : MasterBlock) (c : Cell) (v : U16) :
    (working img m).store .copy c v = working img (m.setNext c v) := rfl

@[simp] theorem storeDir_working (img : Image) (m : MasterBlock) (i : ℕ) (d : Directory) :
    (working img m).storeDir .copy i d = working img (m.setDir i d) := rfl

theorem begin_eq (h : mem.msb = .original) : mem.begin = working mem.img mem.img.msb := by
  rw [begin, h]
  rfl

theorem allocLoop_working (max : ℕ) (img : Image) (k : ℕ) (m : MasterBlock) (chain : Cell)
    (nn : ℕ) :
    ∃ m', allocLoop max .copy k (working img m) .copy chain nn =
        (working img m', (Pffs.allocLoop max k m chain nn).map fun r => (.copy, r.2)) ∧
      ∀ r, Pffs.allocLoop max k m chain nn = some r → r.1 = m' := by
  induction k generalizing m chain nn with
  | zero =>
    refine ⟨m, rfl, fun r hr => ?_⟩
    rw [← Option.some.inj hr]
  | succ k ih =>
    simp only [allocLoop, Pffs.allocLoop, block_working, store_working]
    by_cases hend : m.next chain = fatFree ∨ m.next chain = fatEnd
    · simp only [hend, if_true]
      cases hn : getFreeFat max m.fat nn with
      | none => exact ⟨m, rfl, fun r hr => by cases hr⟩
      | some n => exact ih (m.setNext chain (BitVec.ofNat 16 n)) (.fat n) (n + 1)
    · simp only [hend, if_false]
      exact ih m (.fat (m.next chain).toNat) nn

theorem releaseLoop_working (img : Image) (k : ℕ) (m : MasterBlock) (nn : U16) :
    releaseLoop .copy k (working img m) nn = working img (Pffs.releaseLoop k m nn) := by
  induction k generalizing m nn with
  | zero => rfl
  | succ k ih =>
    simp only [releaseLoop, Pffs.releaseLoop, block_working, store_working]
    by_cases hend : m.fat nn.toNat = fatFree ∨ m.fat nn.toNat = fatEnd
    · simp only [hend, if_true]
    · simp only [hend, if_false]
      exact ih _ _

/-- **Allocation in the copy**: it succeeds when the allocation does, and the image is
not touched either way. -/
theorem allocateSectors_working (img : Image) (m : MasterBlock) (i nsectors oldNsectors : ℕ) :
    ∃ m', (working img m).allocateSectors (.copy, i) nsectors oldNsectors =
        (working img m', (Pffs.allocateSectors img.maxFat m i nsectors oldNsectors).isSome) ∧
      ∀ r, Pffs.allocateSectors img.maxFat m i nsectors oldNsectors = some r → r = m' := by
  obtain ⟨m', hloop, hm'⟩ := allocLoop_working img.maxFat img nsectors m (.dir i) 0
  simp only [allocateSectors, Pffs.allocateSectors, working_msb, working_img, hloop]
  cases hr : Pffs.allocLoop img.maxFat nsectors m (.dir i) 0 with
  | none => exact ⟨m', rfl, fun r hr => by cases hr⟩
  | some r =>
    obtain ⟨m₁, chain⟩ := r
    obtain rfl : m₁ = m' := hm' _ hr
    refine ⟨Pffs.releaseLoop (oldNsectors - nsectors) (m₁.setNext chain fatEnd) (m₁.next chain),
      congrArg (·, true) (releaseLoop_working ..), fun r hr => ?_⟩
    exact (Option.some.inj hr).symm

theorem writeLoop_working (m : MasterBlock) (k : ℕ) (img : Image) (sector : U16)
    (bytes : List U8) :
    writeLoop k (working img m) sector bytes =
      working { img with data := Pffs.writeLoop m.fat k sector bytes img.data } m := by
  induction k generalizing img sector bytes with
  | zero => rfl
  | succ k ih =>
    rw [writeLoop, Pffs.writeLoop]
    exact ih _ _ _

/-- The entry is found, or made, in the copy. -/
theorem openEntry_working (img : Image) (m : MasterBlock) (name : List U8) (size : U32) :
    ∃ m', (working img m).openEntry name size =
        (working img m', (entryFor m name).map fun r => ((.copy, r.2.1), r.2.2)) ∧
      ∀ r, entryFor m name = some r →
        m' = r.1.setDir r.2.1 { r.1.dir r.2.1 with size } := by
  simp only [openEntry, entryFor, findFile, findFreeDir, working_msb, block_working]
  cases hf : Pffs.findFile m name with
  | some i =>
    refine ⟨m.setDir i { m.dir i with size }, rfl, fun r hr => ?_⟩
    rw [← Option.some.inj hr]
  | none =>
    cases hd : Pffs.findFreeDir m with
    | none => exact ⟨m, rfl, fun r hr => by cases hr⟩
    | some i =>
      refine ⟨(m.setDir i (.fresh name)).setDir i
        { (m.setDir i (.fresh name)).dir i with size }, rfl, fun r hr => ?_⟩
      rw [← Option.some.inj hr]

/-! ### The calls -/

/-- **A call on a memory does to the image what the function on images does**, and
leaves `pfi->msb` where it was. -/
theorem addFileAs_eq (h : mem.msb = .original) (filename : List U8)
    (pffsNameIn : Option (List U8)) (disk : Disk) :
    (mem.addFileAs filename pffsNameIn disk).1.img =
        (Pffs.addFileAs mem.img filename pffsNameIn disk).1 ∧
      (mem.addFileAs filename pffsNameIn disk).2 =
        (Pffs.addFileAs mem.img filename pffsNameIn disk).2 ∧
      (mem.addFileAs filename pffsNameIn disk).1.msb = .original := by
  -- the two fail at the same places; where neither fails, the working copy is committed
  rw [addFileAs, Pffs.addFileAs, begin_eq h]
  cases hname : resolveName filename pffsNameIn with
  | error e => exact ⟨rfl, rfl, h⟩
  | ok name =>
    by_cases hcheck : checkFileName name ≠ 0
    · dsimp only
      rw [if_pos hcheck, if_pos hcheck]
      exact ⟨rfl, rfl, h⟩
    dsimp only
    rw [if_neg hcheck, if_neg hcheck]
    cases hfirst : disk.first with
    | none => exact ⟨rfl, rfl, h⟩
    | some content =>
      obtain ⟨m₁, hopen, hm₁⟩ := openEntry_working mem.img mem.img.msb name
        (BitVec.ofNat 32 content.length)
      simp only [hopen]
      cases hentry : entryFor mem.img.msb name with
      | none => exact ⟨rfl, rfl, h⟩
      | some r =>
        obtain ⟨m, i, old⟩ := r
        obtain rfl := hm₁ _ hentry
        obtain ⟨m₂, halloc, hm₂⟩ := allocateSectors_working mem.img
          (m.setDir i { m.dir i with size := BitVec.ofNat 32 content.length }) i
          (sectorsOf (BitVec.ofNat 32 content.length)) old
        simp only [Option.map_some, halloc]
        cases hr : Pffs.allocateSectors mem.img.maxFat
          (m.setDir i { m.dir i with size := BitVec.ofNat 32 content.length }) i
          (sectorsOf (BitVec.ofNat 32 content.length)) old with
        | none => exact ⟨rfl, rfl, h⟩
        | some m' =>
          obtain rfl := hm₂ _ hr
          cases hsecond : disk.second with
          | none => exact ⟨rfl, rfl, h⟩
          | some bytes =>
            simp only [Option.isSome_some, writeFileToSectors, Pffs.writeFileToSectors]
            have hwrite := writeLoop_working m' (sectorsOf (BitVec.ofNat 32 content.length))
              mem.img (m'.dir i).chain bytes
            change ((writeLoop _ (working mem.img m') (m'.dir i).chain bytes).commit mem.msb).img =
              _ ∧ _ ∧ ((writeLoop _ (working mem.img m') (m'.dir i).chain bytes).commit
                mem.msb).msb = _
            rw [hwrite, h]
            exact ⟨rfl, trivial, rfl⟩

theorem deleteFile_eq (h : mem.msb = .original) (fuel : ℕ) (pffsName : List U8) :
    (mem.deleteFile fuel pffsName).map (fun r => (r.1.img, r.1.msb, r.2)) =
      (Pffs.deleteFile fuel mem.img pffsName).map fun r => (r.1, .original, r.2) := by
  simp only [deleteFile, Pffs.deleteFile, begin_eq h, findFile, working_msb, block_working]
  cases hf : Pffs.findFile mem.img.msb pffsName with
  | none =>
    rw [h]
    rfl
  | some i =>
    simp only [Option.map_some, block_working]
    change Option.map _ (match freeChain fuel mem.img.msb (mem.img.msb.dir i).chain with
      | none => none
      | some m => _) = _
    cases hm : freeChain fuel mem.img.msb (mem.img.msb.dir i).chain with
    | none => rfl
    | some m =>
      rw [h]
      rfl

end Memory

/-- **The operations are atomic**: on a well-formed image each comes to an end, and one
that returns 0 leaves every byte of the image, and `pfi->msb`, as they were. -/
theorem Op.atomic {reserved : ℕ → Prop} {chains : ℕ → List ℕ} {mem : Memory}
    (hwf : WellFormed reserved mem.img chains) (hmsb : mem.msb = .original) (op : Op) {fuel : ℕ}
    (hfuel : maxFat < fuel) :
    ∃ mem' success, op.runMem fuel mem = some (mem', success) ∧
      (success = false → mem'.img = mem.img ∧ mem'.msb = .original) := by
  cases op with
  | addFileAs filename pffsNameIn disk =>
    obtain ⟨himg, hres, hptr⟩ := Memory.addFileAs_eq hmsb filename pffsNameIn disk
    refine ⟨_, _, rfl, fun hfail => ⟨himg.trans ?_, hptr⟩⟩
    rw [hres] at hfail
    rcases addFileAs_cases mem.img filename pffsNameIn disk with ⟨e, he⟩ |
      ⟨_, _, _, _, _, _, _, _, _, _, _, _, _, hrun⟩
    · rw [he]
    · rw [hrun] at hfail
      cases hfail
  | deleteFile pffsName =>
    have heq := Memory.deleteFile_eq hmsb fuel pffsName
    cases hf : findFile mem.img.msb pffsName with
    | none =>
      have hnone : Pffs.deleteFile fuel mem.img pffsName = some (mem.img, false) := by
        rw [Pffs.deleteFile, hf]
      rw [hnone] at heq
      obtain ⟨⟨mem', success⟩, hrun, hr⟩ := Option.map_eq_some_iff.mp heq
      have himg : mem'.img = mem.img := congrArg (fun r => r.1) hr
      have hptr : mem'.msb = .original := congrArg (fun r => r.2.1) hr
      exact ⟨mem', success, hrun, fun _ => ⟨himg, hptr⟩⟩
    | some i =>
      rw [hwf.linked.deleteFile_eq hf hfuel] at heq
      obtain ⟨⟨mem', success⟩, hrun, hr⟩ := Option.map_eq_some_iff.mp heq
      refine ⟨mem', success, hrun, fun hfail => ?_⟩
      have hs : success = true := congrArg (fun r => r.2.2) hr
      exact absurd (hs.symm.trans hfail) (by decide)

/-- The replacement of `a` by a file of 16 sectors, where there are 14. -/
theorem Op.atomic_twoFiles :
    ∃ mem' success,
      (Op.addFileAs [0x61] none ⟨some (List.replicate 65536 7), some []⟩).runMem 497
        ⟨twoFiles, twoFiles.msb, .original⟩ = some (mem', success) ∧
      (success = false → mem'.img = twoFiles ∧ mem'.msb = .original) :=
  Op.atomic twoFiles_wellFormed rfl _ (by decide)

end Pffs
