import PieceEmu.Tools.PffsKept

/-!
# The file system tools with every access checked

The links of a master block come from a file, and the tools follow them as they are.
In C an index behind the end of `fat`, or a sector pointer behind the end of the
buffer, is an access outside the object; from there on nothing can be said about the
program. The functions here are those of `pffs.c` once more, with every index into
`fat` and every sector pointer looked at before it is used: a run stops at the first
one that is out of bounds (`Pffs.Stop`). What they compute while nothing is out of
bounds is what the functions without the checks compute.

`Pffs.Opened` is an image as `PFIOpen` leaves it, with the buffer it has made, whose
header places the file system area inside that buffer.
-/

namespace Pffs

/-- `FLASH_TOP`. -/
def flashTop : U32 := 0xC00000

/-- The loop of `PFIOpen` that looks for the size of the buffer, with `k` rounds to
go. -/
def sizeLoop (flashsize : U32) : ℕ → U32 → Option U32
  | 0, _ => none
  | k + 1, size => if size < flashsize then sizeLoop flashsize k (size <<< 1) else some size

/-- `pfi->size`, as `PFIOpen` sets it. After 32 rounds the size has become 0, and the
loop does not end any more. -/
def bufferSize (flashsize : U32) : Option U32 := sizeLoop flashsize 32 1

/-- **An image that has been opened**: the buffer has room for everything up to
`pffs_end`, and the area of the file system is a number of whole sectors in it, of
which the master block is the first. -/
structure Opened extends Image where
  size : U32
  opened : bufferSize (pffsEnd - flashTop) = some size
  top_le : flashTop ≤ pffsTop
  whole : pffsTop.toNat + 4096 ≤ pffsEnd.toNat
  top_aligned : 4096 ∣ pffsTop.toNat
  end_aligned : 4096 ∣ pffsEnd.toNat

/-- Sector `s` lies in the buffer: `PFFSSectorToPointer` gives a pointer to 4096 bytes
of it. -/
def Opened.InBuffer (img : Opened) (s : ℕ) : Prop :=
  (img.pffsTop - flashTop).toNat + 4096 * s + 4096 ≤ img.size.toNat

instance (img : Opened) (s : ℕ) : Decidable (img.InBuffer s) :=
  inferInstanceAs (Decidable (_ ≤ _))

theorem le_of_sizeLoop {flashsize size : U32} {k : ℕ} {start : U32}
    (h : sizeLoop flashsize k start = some size) : flashsize ≤ size := by
  induction k generalizing start with
  | zero => cases h
  | succ k ih =>
    rw [sizeLoop] at h
    split_ifs at h with hlt
    · exact ih h
    · rw [← Option.some.inj h]
      exact BitVec.not_lt.mp hlt

/-- **The sectors of the area lie in the buffer.** -/
theorem Opened.inBuffer_of_lt (img : Opened) {s : ℕ} (hs : s < img.maxFat) : img.InBuffer s := by
  have hle : (img.pffsEnd - flashTop).toNat ≤ img.size.toNat := le_of_sizeLoop img.opened
  have htop : flashTop.toNat ≤ img.pffsTop.toNat := img.top_le
  have hwhole := img.whole
  have hsub : (img.pffsEnd - img.pffsTop).toNat = img.pffsEnd.toNat - img.pffsTop.toNat :=
    BitVec.toNat_sub_of_le (Nat.le_of_add_right_le hwhole)
  have htop' : (img.pffsTop - flashTop).toNat = img.pffsTop.toNat - flashTop.toNat :=
    BitVec.toNat_sub_of_le img.top_le
  have hend' : (img.pffsEnd - flashTop).toNat = img.pffsEnd.toNat - flashTop.toNat :=
    BitVec.toNat_sub_of_le (htop.trans (Nat.le_of_add_right_le hwhole))
  have hmax : s < (img.pffsEnd.toNat - img.pffsTop.toNat) / 4096 := by
    have := Nat.lt_of_lt_of_le hs (Nat.min_le_left _ _)
    rwa [BitVec.toNat_ushiftRight, Nat.shiftRight_eq_div_pow, hsub] at this
  rw [Opened.InBuffer, htop']
  omega

/-! ### The checked functions -/

/-- Why a run has not come to its end. -/
inductive Stop
  /-- `fat[n]`, for an index that is not below `MAXFAT`. -/
  | fatIndex (n : ℕ)
  /-- A pointer to sector `s`, which is not in the buffer. -/
  | sectorPointer (s : ℕ)
  /-- The loop goes on for more rounds than it has been given. -/
  | rounds
  deriving DecidableEq, Repr

/-- What the host does with the file `PFFSExtractFile` writes: whether it can be
opened, and how many of the bytes it is handed each `fwrite` takes. -/
structure Sink where
  opens : Bool
  takes : ℕ → ℕ → ℕ
  takes_le : ∀ k n, takes k n ≤ n

namespace Checked

/-- The loop of `PFFSDeleteFile`. -/
def freeChain : ℕ → MasterBlock → U16 → Except Stop MasterBlock
  | 0, _, _ => .error .rounds
  | fuel + 1, m, sector =>
    if sector = fatEnd then .ok m
    else if sector.toNat < maxFat then
      freeChain fuel (m.setNext (.fat sector.toNat) fatFree) (m.fat sector.toNat)
    else .error (.fatIndex sector.toNat)

/-- `PFFSDeleteFile`: the image it leaves, and whether it returns 1. -/
def deleteFile (fuel : ℕ) (img : Image) (pffsName : List U8) : Except Stop (Image × Bool) :=
  match findFile img.msb pffsName with
  | none => .ok (img, false)
  | some i =>
    match freeChain fuel img.msb (img.msb.dir i).chain with
    | .error e => .error e
    | .ok m => .ok ({ img with msb := m.setDir i .erased }, true)

/-- The loop of `PFFSExtractFile`, from its round `k` on, with `remaining` bytes to
go. Returns the pieces that have been written: so many bytes of that sector each. -/
def extractLoop (img : Opened) (sink : Sink) : ℕ → ℕ → ℕ → U16 → Except Stop (List (ℕ × ℕ))
  | 0, _, _, _ => .error .rounds
  | fuel + 1, k, remaining, sector =>
    if remaining = 0 ∨ sector = fatEnd then .ok []
    else if img.InBuffer sector.toNat then
      let toWrite := min remaining 4096
      let written := sink.takes k toWrite
      if sector.toNat < maxFat then
        match extractLoop img sink fuel (k + 1) (remaining - written)
            (img.msb.fat sector.toNat) with
        | .error e => .error e
        | .ok pieces => .ok ((sector.toNat, written) :: pieces)
      else .error (.fatIndex sector.toNat)
    else .error (.sectorPointer sector.toNat)

/-- `PFFSExtractFile`: what it has written, if it returns 1. -/
def extractFile (fuel : ℕ) (img : Opened) (sink : Sink) (pffsName : List U8) :
    Except Stop (Option (List (ℕ × ℕ))) :=
  match findFile img.msb pffsName with
  | none => .ok none
  | some i =>
    if sink.opens then
      match extractLoop img sink fuel 0 (img.msb.dir i).size.toNat (img.msb.dir i).chain with
      | .error e => .error e
      | .ok pieces => .ok (some pieces)
    else .ok none

/-- `GetFreeFAT`, from `start` on, with `k` indices to go. -/
def getFreeFat (fat : ℕ → U16) : ℕ → ℕ → Except Stop (Option ℕ)
  | 0, _ => .ok none
  | k + 1, start =>
    if start < maxFat then
      if fat start = fatFree then .ok (some start) else getFreeFat fat k (start + 1)
    else .error (.fatIndex start)

/-- The first loop of `AllocateSectors`, with `k` rounds to go. -/
def allocLoop (max : ℕ) : ℕ → MasterBlock → Cell → ℕ → Except Stop (Option (MasterBlock × Cell))
  | 0, m, chain, _ => .ok (some (m, chain))
  | k + 1, m, chain, nn =>
    if m.next chain = fatFree ∨ m.next chain = fatEnd then
      match getFreeFat m.fat (max - nn) nn with
      | .error e => .error e
      | .ok none => .ok none
      | .ok (some n) =>
        if n < maxFat then
          allocLoop max k (m.setNext chain (BitVec.ofNat 16 n)) (.fat n) (n + 1)
        else .error (.fatIndex n)
    else if (m.next chain).toNat < maxFat then
      allocLoop max k m (.fat (m.next chain).toNat) nn
    else .error (.fatIndex (m.next chain).toNat)

/-- The second loop of `AllocateSectors`, with `k` rounds to go. -/
def releaseLoop : ℕ → MasterBlock → U16 → Except Stop MasterBlock
  | 0, m, _ => .ok m
  | k + 1, m, nn =>
    if nn.toNat < maxFat then
      let next := m.fat nn.toNat
      let m := m.setNext (.fat nn.toNat) fatFree
      if next = fatFree ∨ next = fatEnd then .ok m else releaseLoop k m next
    else .error (.fatIndex nn.toNat)

/-- `AllocateSectors`, for the entry `i`. -/
def allocateSectors (max : ℕ) (m : MasterBlock) (i nsectors oldNsectors : ℕ) :
    Except Stop (Option MasterBlock) :=
  match allocLoop max nsectors m (.dir i) 0 with
  | .error e => .error e
  | .ok none => .ok none
  | .ok (some (m, chain)) =>
    let nn := m.next chain
    match releaseLoop (oldNsectors - nsectors) (m.setNext chain fatEnd) nn with
    | .error e => .error e
    | .ok m => .ok (some m)

/-- The loop of `WriteFileToSectors`, with `k` rounds to go. -/
def writeLoop (img : Opened) (fat : ℕ → U16) :
    ℕ → U16 → List U8 → (ℕ → ℕ → U8) → Except Stop (ℕ → ℕ → U8)
  | 0, _, _, data => .ok data
  | k + 1, sector, bytes, data =>
    if img.InBuffer sector.toNat then
      if sector.toNat < maxFat then
        writeLoop img fat k (fat sector.toNat) (bytes.drop 4096)
          (Function.update data sector.toNat (readInto (data sector.toNat) bytes))
      else .error (.fatIndex sector.toNat)
    else .error (.sectorPointer sector.toNat)

/-- `WriteFileToSectors`. -/
def writeFileToSectors (img : Opened) (fopen : Option (List U8)) (m : MasterBlock)
    (i nsectors : ℕ) : Except Stop (Option (ℕ → ℕ → U8)) :=
  match fopen with
  | none => .ok none
  | some bytes =>
    match writeLoop img m.fat nsectors (m.dir i).chain bytes img.data with
    | .error e => .error e
    | .ok data => .ok (some data)

/-- What `PFFSAddFileAs` does once it has the entry `i` of the file, in the copy `m` of
the master block: the sectors, and the contents. -/
def storeFile (img : Opened) (fopen : Option (List U8)) (m : MasterBlock)
    (i nsectors oldNsectors : ℕ) : Except Stop (Image × Except AddError Unit) :=
  match allocateSectors img.maxFat m i nsectors oldNsectors with
  | .error e => .error e
  | .ok none => .ok (img.toImage, .error .noSectors)
  | .ok (some m) =>
    match writeFileToSectors img fopen m i nsectors with
    | .error e => .error e
    | .ok none => .ok (img.toImage, .error .cannotWrite)
    | .ok (some data) => .ok ({ img.toImage with msb := m, data }, .ok ())

/-- `PFFSAddFileAs`: the image it leaves, and how it ends. -/
def addFileAs (img : Opened) (filename : List U8) (pffsNameIn : Option (List U8)) (disk : Disk) :
    Except Stop (Image × Except AddError Unit) :=
  match resolveName filename pffsNameIn with
  | .error e => .ok (img.toImage, .error e)
  | .ok name =>
    if checkFileName name ≠ 0 then .ok (img.toImage, .error .invalidName)
    else
      match disk.first with
      | none => .ok (img.toImage, .error .cannotOpen)
      | some content =>
        let size := BitVec.ofNat 32 content.length
        match entryFor img.msb name with
        | none => .ok (img.toImage, .error .noFreeDir)
        | some (m, i, oldNsectors) =>
          storeFile img disk.second (m.setDir i { m.dir i with size }) i (sectorsOf size)
            oldNsectors

/-! ### While nothing is out of bounds

A checked function that comes to its end gives what the function without the checks
gives. -/

theorem eq_of_freeChain {fuel : ℕ} {m m' : MasterBlock} {sector : U16}
    (h : freeChain fuel m sector = .ok m') : Pffs.freeChain fuel m sector = some m' := by
  induction fuel generalizing m sector with
  | zero => cases h
  | succ fuel ih =>
    rw [freeChain] at h
    rw [Pffs.freeChain]
    split_ifs at h ⊢ with hend hlt
    · rw [Except.ok.inj h]
    · exact ih h

theorem eq_of_deleteFile {fuel : ℕ} {img : Image} {name : List U8} {r : Image × Bool}
    (h : deleteFile fuel img name = .ok r) : Pffs.deleteFile fuel img name = some r := by
  rw [deleteFile] at h
  rw [Pffs.deleteFile]
  cases hfind : findFile img.msb name with
  | none =>
    rw [hfind] at h
    rw [← Except.ok.inj h]
  | some i =>
    simp only [hfind] at h ⊢
    cases hm : freeChain fuel img.msb (img.msb.dir i).chain with
    | error e =>
      rw [hm] at h
      cases h
    | ok m =>
      rw [hm] at h
      rw [eq_of_freeChain hm, ← Except.ok.inj h]

/-- `GetFreeFAT` stays inside the table. -/
theorem getFreeFat_eq {max : ℕ} (hmax : max ≤ maxFat) (fat : ℕ → U16) (start : ℕ) :
    getFreeFat fat (max - start) start = .ok (Pffs.getFreeFat max fat start) := by
  obtain ⟨d, hd⟩ : ∃ d, max - start = d := ⟨_, rfl⟩
  rw [Pffs.getFreeFat, hd]
  induction d generalizing start with
  | zero => rfl
  | succ d ih =>
    rw [getFreeFat, if_pos (by omega), List.range'_succ, List.find?_cons]
    by_cases hfree : fat start = fatFree
    · simp only [hfree, if_true, decide_true]
    · simp only [hfree, if_false, decide_false]
      exact ih (start + 1) (by omega)

theorem eq_of_allocLoop {max : ℕ} (hmax : max ≤ maxFat) {k nn : ℕ} {m : MasterBlock} {c : Cell}
    {r : Option (MasterBlock × Cell)} (h : allocLoop max k m c nn = .ok r) :
    Pffs.allocLoop max k m c nn = r := by
  induction k generalizing m c nn with
  | zero => exact Except.ok.inj h
  | succ k ih =>
    rw [allocLoop, getFreeFat_eq hmax] at h
    rw [Pffs.allocLoop]
    split_ifs at h ⊢ with hend hlt
    · cases hn : Pffs.getFreeFat max m.fat nn with
      | none =>
        rw [hn] at h
        exact Except.ok.inj h
      | some n =>
        simp only [hn] at h
        split_ifs at h
        exact ih h
    · exact ih h

theorem eq_of_releaseLoop {k : ℕ} {m m' : MasterBlock} {nn : U16}
    (h : releaseLoop k m nn = .ok m') : Pffs.releaseLoop k m nn = m' := by
  induction k generalizing m nn with
  | zero => exact Except.ok.inj h
  | succ k ih =>
    rw [releaseLoop] at h
    rw [Pffs.releaseLoop]
    split_ifs at h with hlt
    dsimp only at h ⊢
    split_ifs at h ⊢ with hend
    · exact Except.ok.inj h
    · exact ih h

theorem eq_of_allocateSectors {max : ℕ} (hmax : max ≤ maxFat) {m : MasterBlock} {i n o : ℕ}
    {r : Option MasterBlock} (h : allocateSectors max m i n o = .ok r) :
    Pffs.allocateSectors max m i n o = r := by
  rw [allocateSectors] at h
  rw [Pffs.allocateSectors]
  cases hloop : allocLoop max n m (.dir i) 0 with
  | error e =>
    rw [hloop] at h
    cases h
  | ok r' =>
    rw [eq_of_allocLoop hmax hloop]
    rw [hloop] at h
    rcases r' with _ | ⟨m₁, c⟩
    · exact Except.ok.inj h
    · dsimp only at h ⊢
      split at h
      · cases h
      · next hrel => rw [eq_of_releaseLoop hrel, Except.ok.inj h]

theorem eq_of_writeLoop {img : Opened} {fat : ℕ → U16} {k : ℕ} {sector : U16} {bytes : List U8}
    {data data' : ℕ → ℕ → U8} (h : writeLoop img fat k sector bytes data = .ok data') :
    Pffs.writeLoop fat k sector bytes data = data' := by
  induction k generalizing sector bytes data with
  | zero => exact Except.ok.inj h
  | succ k ih =>
    rw [writeLoop] at h
    split_ifs at h
    exact ih h

/-- **The checks change nothing else** about `PFFSAddFileAs`. -/
theorem eq_of_addFileAs {img : Opened} {filename : List U8} {pffsNameIn : Option (List U8)}
    {disk : Disk} {r : Image × Except AddError Unit}
    (h : addFileAs img filename pffsNameIn disk = .ok r) :
    Pffs.addFileAs img.toImage filename pffsNameIn disk = r := by
  rw [addFileAs] at h
  rw [Pffs.addFileAs]
  -- case by case along the code: what the checked run returns, it returns without a fault
  cases hname : resolveName filename pffsNameIn with
  | error e =>
    rw [hname] at h
    exact Except.ok.inj h
  | ok name =>
    simp only [hname] at h ⊢
    split_ifs at h ⊢ with hvalid
    · exact Except.ok.inj h
    cases hfirst : disk.first with
    | none =>
      rw [hfirst] at h
      exact Except.ok.inj h
    | some content =>
      simp only [hfirst] at h ⊢
      match hentry : entryFor img.msb name with
      | none =>
        rw [hentry] at h
        exact Except.ok.inj h
      | some (m, i, o) =>
        simp only [hentry, storeFile] at h ⊢
        split at h
        · cases h
        · next halloc =>
          rw [eq_of_allocateSectors (maxFat_le _) halloc]
          exact Except.ok.inj h
        · next m' halloc =>
          rw [eq_of_allocateSectors (maxFat_le _) halloc]
          simp only [writeFileToSectors] at h
          simp only [Pffs.writeFileToSectors]
          cases hsecond : disk.second with
          | none =>
            rw [hsecond] at h
            exact Except.ok.inj h
          | some bytes =>
            simp only [hsecond] at h ⊢
            cases hw : writeLoop img m'.fat (sectorsOf (BitVec.ofNat 32 content.length))
                (m'.dir i).chain bytes img.data with
            | error e =>
              rw [hw] at h
              cases h
            | ok data =>
              rw [hw] at h
              rw [eq_of_writeLoop hw]
              exact Except.ok.inj h

end Checked

end Pffs
