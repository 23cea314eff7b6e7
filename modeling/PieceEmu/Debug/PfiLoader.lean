import PieceEmu.Core.BusImage
import PieceEmu.Lib.InFile
import PieceEmu.Tools.PfiFormat

/-!
# Loading a PFI file

A PFI file is a header of 40 bytes and, from the offset the header names, the image of
the flash. The SDL front end loads it from a file, in chunks of 4 KB
(`pfiLoad`); the libretro core loads it from memory, in one piece
(`pfiLoadBlob`). The two are written apart, and they agree: `pfiLoad_agrees`.

An exception may leave the flash half loaded, so a loader returns the bus besides the
result it throws or returns.
-/

/-! ### What a loader returns -/

/-- `SYSINFO_EXPECTED_SIZE`. -/
def sysinfoExpectedSize : U16 := 32

/-- `PfiInfo`. -/
structure PfiInfo where
  sysInfo : SystemInfo
  /-- The bytes loaded. -/
  flashSize : ℕ
  flashOffsetInPfi : U32
  deriving DecidableEq, Repr

/-- What the loaders throw. -/
inductive PfiError
  /-- “too short to read header”. -/
  | short
  /-- “null data pointer”. -/
  | nullData
  /-- “invalid PFI signature”. -/
  | signature (got : U32)
  /-- “offset_to_flash < sizeof(PFIHEADER)”. -/
  | offset (got : U32)
  /-- “SYSTEMINFO.size mismatch”. -/
  | sysinfoSize (got : U16)
  /-- “SYSTEMINFO.pffs_end <= FLASH_BASE”. -/
  | pffsEnd (got : U32)
  /-- “seek to flash image failed”. -/
  | seek (offset : U32)
  /-- “flash offset past blob end”. -/
  | pastEnd (offset : U32) (len : ℕ)
  /-- “flash image is empty”. -/
  | empty
  /-- What `load_flash` throws. -/
  | bus (what : String)
  deriving DecidableEq, Repr

/-! ### The loader for files -/

/-- The checks of the header that the two readers make alike. -/
def checkPfiHeader (hdr : PfiHeader) : Except PfiError PfiHeader :=
  if !hdr.signatureOk then .error (.signature hdr.signature)
  else if hdr.offset.toNat < PfiHeader.bytes then .error (.offset hdr.offset)
  else if hdr.sysinfo.size ≠ sysinfoExpectedSize then .error (.sysinfoSize hdr.sysinfo.size)
  else .ok hdr

/-- `read_pfi_header`, which leaves the file open. -/
def readPfiHeader (data : List U8) : Except PfiError (PfiHeader × InFile) :=
  let (buf, fp) := InFile.fread ⟨data, 0⟩ PfiHeader.bytes
  if buf.length ≠ PfiHeader.bytes then .error .short
  else (checkPfiHeader (.ofBytes buf)).map fun hdr => (hdr, fp)

variable {D : Type}

/-- `CHUNK`. -/
def pfiChunk : ℕ := 0x1000

/-- The loop of `pfi_load`, with `total` bytes loaded: the bytes loaded at its end, or
what it throws. -/
def loadChunks (flashSize : ℕ) (b : Bus D) (fp : InFile) (total : ℕ) :
    Except PfiError ℕ × Bus D :=
  if total < flashSize then
    let want := min pfiChunk (flashSize - total)
    let (chunk, fp) := fp.fread want
    if chunk = [] then (.ok total, b)
    else
      match b.loadFlash (BitVec.ofNat 32 total) chunk with
      | .error what => (.error (.bus what), b)
      | .ok b => loadChunks flashSize b fp (total + chunk.length)
  else (.ok total, b)
termination_by flashSize - total
decreasing_by
  have := List.length_pos_of_ne_nil (by assumption)
  omega

/-- `pfi_load`, of a file with these bytes. -/
def pfiLoad (b : Bus D) (data : List U8) : Except PfiError PfiInfo × Bus D :=
  match readPfiHeader data with
  | .error e => (.error e, b)
  | .ok (hdr, fp) =>
    if hdr.sysinfo.pffsEnd ≤ Bus.flashBase then (.error (.pffsEnd hdr.sysinfo.pffsEnd), b)
    else
      let flashSize := hdr.sysinfo.pffsEnd - Bus.flashBase
      match fp.fseek hdr.offset.toNat with
      | none => (.error (.seek hdr.offset), b)
      | some fp =>
        match loadChunks flashSize.toNat b fp 0 with
        | (.error e, b) => (.error e, b)
        | (.ok total, b) =>
          if total = 0 then (.error .empty, b)
          else (.ok ⟨hdr.sysinfo, total, hdr.offset⟩, b)

/-! ### The loader for blobs -/

/-- `read_pfi_header_blob`; an empty blob may come with a null pointer. -/
def readPfiHeaderBlob (data : Option (List U8)) : Except PfiError PfiHeader :=
  match data with
  | none => .error .nullData
  | some data =>
    if data.length < PfiHeader.bytes then .error .short
    else checkPfiHeader (.ofBytes (data.take PfiHeader.bytes))

/-- `pfi_load_blob`. -/
def pfiLoadBlob (b : Bus D) (data : Option (List U8)) : Except PfiError PfiInfo × Bus D :=
  match readPfiHeaderBlob data with
  | .error e => (.error e, b)
  | .ok hdr =>
    let data := data.getD []
    if hdr.sysinfo.pffsEnd ≤ Bus.flashBase then (.error (.pffsEnd hdr.sysinfo.pffsEnd), b)
    else
      let flashSize := hdr.sysinfo.pffsEnd - Bus.flashBase
      if data.length < hdr.offset.toNat then (.error (.pastEnd hdr.offset data.length), b)
      else
        let available := data.length - hdr.offset.toNat
        let toLoad := min flashSize.toNat available
        if toLoad = 0 then (.error .empty, b)
        else
          match b.loadFlash 0 ((data.drop hdr.offset.toNat).take toLoad) with
          | .error what => (.error (.bus what), b)
          | .ok b => (.ok ⟨hdr.sysinfo, toLoad, hdr.offset⟩, b)

/-! ### The two headers -/

/-- The readers throw on the same bytes, and read the same header. -/
theorem readPfiHeader_eq (data : List U8) :
    readPfiHeader data =
      (readPfiHeaderBlob (some data)).map fun hdr => (hdr, ⟨data, PfiHeader.bytes⟩) := by
  have hread : InFile.fread ⟨data, 0⟩ PfiHeader.bytes =
      (data.take PfiHeader.bytes, ⟨data, (data.take PfiHeader.bytes).length⟩) := by
    rw [InFile.fread, List.drop_zero, Nat.zero_add]
  unfold readPfiHeader readPfiHeaderBlob
  rw [hread]
  dsimp only
  by_cases hlen : data.length < PfiHeader.bytes
  · have hshort : (data.take PfiHeader.bytes).length ≠ PfiHeader.bytes := by
      rw [List.length_take]
      omega
    rw [if_pos hshort, if_pos hlen]
    rfl
  · have hfull : (data.take PfiHeader.bytes).length = PfiHeader.bytes := by
      rw [List.length_take]
      omega
    rw [if_neg (not_not_intro hfull), if_neg hlen, hfull]

/-! ### The chunks -/

/-- A chunk read at the place the loop has reached, and what it adds to the copy. -/
theorem take_chunk (image : List U8) (total want : ℕ) :
    image.take total ++ (image.drop total).take want =
      image.take (total + ((image.drop total).take want).length) := by
  rw [List.take_add]
  congr 1
  rw [List.take_eq_take_iff, List.length_take]
  omega

/-- What becomes of `n` bytes of an image, on a device that may be too small for them. -/
def Copies (b : Bus D) (image : List U8) (n : ℕ) (r : Except PfiError ℕ × Bus D) : Prop :=
  if b.flash.size < n then ∃ what b', r = (.error (.bus what), b')
  else r = (.ok n, b.withFlashMem (blit b.flash.mem 0 (image.take n)))

/-- **The loop copies what one copy would**: from where it has got to, the image up to the
declared size, as far as the file goes. -/
theorem loadChunks_copies (data : List U8) (offset : ℕ) {flashSize total : ℕ} (b : Bus D)
    (hsize : flashSize < 2 ^ 32) (htotal : total ≤ min flashSize (data.drop offset).length)
    (hfit : total ≤ b.flash.size) :
    Copies b (data.drop offset) (min flashSize (data.drop offset).length)
      (loadChunks flashSize (b.withFlashMem (blit b.flash.mem 0 ((data.drop offset).take total)))
        ⟨data, offset + total⟩ total) := by
  induction hn : flashSize - total using Nat.strong_induction_on generalizing total with
  | _ n ih =>
  generalize himage : data.drop offset = image at *
  by_cases hlt : total < flashSize
  swap
  · -- the declared size is loaded
    have hmin : min flashSize image.length = total := by omega
    rw [hmin, loadChunks, if_neg hlt, Copies, if_neg (Nat.not_lt.mpr hfit)]
  generalize hwant : min pfiChunk (flashSize - total) = want
  have hpos : 0 < want := by
    have : 0 < pfiChunk := by decide
    omega
  generalize hchunk : (image.drop total).take want = chunk
  have hlen : chunk.length = min want (image.length - total) := by
    rw [← hchunk, List.length_take, List.length_drop]
  have hread : InFile.fread ⟨data, offset + total⟩ want =
      (chunk, ⟨data, offset + (total + chunk.length)⟩) := by
    rw [InFile.fread, ← List.drop_drop, himage, hchunk, Nat.add_assoc]
  rw [loadChunks, if_pos hlt, hwant]
  dsimp only
  rw [hread]
  dsimp only
  by_cases hnil : chunk = []
  · -- the file is at its end
    have hmin : min flashSize image.length = total := by
      rw [hnil, List.length_nil] at hlen
      omega
    rw [hmin, if_pos hnil, Copies, if_neg (Nat.not_lt.mpr hfit)]
  have hchunkPos : 0 < chunk.length := List.length_pos_of_ne_nil hnil
  have hoff : (BitVec.ofNat 32 total).toNat = total := by
    rw [BitVec.toNat_ofNat]
    exact Nat.mod_eq_of_lt (by omega)
  rw [if_neg hnil, Bus.loadFlash_eq, hoff, Bus.withFlashMem_size, Bus.withFlashMem_mem]
  -- the chunk runs past the device, or the loop goes on behind it
  by_cases hbig : b.flash.size < total + chunk.length
  · rw [if_pos hbig, Copies, if_pos (by omega)]
    exact ⟨_, _, rfl⟩
  · have hprefix : (image.take total).length = total := by
      rw [List.length_take]
      omega
    have hblit : blit (blit b.flash.mem 0 (image.take total)) total chunk =
        blit b.flash.mem 0 (image.take (total + chunk.length)) := by
      rw [← hchunk, ← take_chunk, blit_append, hprefix, Nat.zero_add]
    rw [if_neg hbig, hblit, Bus.withFlashMem_withFlashMem]
    exact ih _ (by omega) (by omega) (by omega) rfl

/-! ### The agreement -/

/-- **Two loads that agree**: both throw, or both have copied the same image into the
flash, whose other bytes and the rest of the bus are left alone, and return the same
information. -/
inductive LoadsAgree (b b' : Bus D) (data : List U8) :
    Except PfiError PfiInfo × Bus D → Except PfiError PfiInfo × Bus D → Prop
  | throw (e e' : PfiError) (b₁ b₁' : Bus D) : LoadsAgree b b' data (.error e, b₁) (.error e', b₁')
  | load (info : PfiInfo)
      (inFile : info.flashOffsetInPfi.toNat + info.flashSize ≤ data.length) :
      LoadsAgree b b' data
        (.ok info, b.withFlashMem (blit b.flash.mem 0
          ((data.drop info.flashOffsetInPfi.toNat).take info.flashSize)))
        (.ok info, b'.withFlashMem (blit b.flash.mem 0
          ((data.drop info.flashOffsetInPfi.toNat).take info.flashSize)))

/-- **The loaders agree**: on every file, or the same bytes in memory, and for buses with
the same flash device. -/
theorem pfiLoad_agrees (b b' : Bus D) (hflash : b'.flash = b.flash) (blob : Option (List U8)) :
    LoadsAgree b b' (blob.getD []) (pfiLoad b (blob.getD [])) (pfiLoadBlob b' blob) := by
  cases blob with
  | none => exact .throw _ _ _ _
  | some data =>
    rw [Option.getD_some, pfiLoad, pfiLoadBlob, readPfiHeader_eq]
    cases readPfiHeaderBlob (some data) with
    | error e => exact .throw _ _ _ _
    | ok hdr =>
      simp only [Except.map, Option.getD_some]
      by_cases hend : hdr.sysinfo.pffsEnd ≤ Bus.flashBase
      · rw [if_pos hend, if_pos hend]
        exact .throw _ _ _ _
      rw [if_neg hend, if_neg hend]
      rw [InFile.fseek_natCast]
      dsimp only
      generalize hsz : (hdr.sysinfo.pffsEnd - Bus.flashBase).toNat = flashSize
      have hlt : flashSize < 2 ^ 32 := hsz ▸ (hdr.sysinfo.pffsEnd - Bus.flashBase).isLt
      have hcopies := loadChunks_copies data hdr.offset.toNat b hlt (Nat.zero_le _) (Nat.zero_le _)
      rw [List.take_zero, blit_nil, Bus.withFlashMem_self, Nat.add_zero,
        List.length_drop] at hcopies
      generalize hload : min flashSize (data.length - hdr.offset.toNat) = toLoad at hcopies ⊢
      have hlen : ((data.drop hdr.offset.toNat).take toLoad).length = toLoad := by
        rw [List.length_take, List.length_drop]
        omega
      have hstart : (0 : U32).toNat = 0 := rfl
      unfold Copies at hcopies
      split_ifs at hcopies with hbig
      · -- the image does not fit the device
        obtain ⟨what, b₁, hfile⟩ := hcopies
        rw [hfile, Bus.loadFlash_eq, hlen, hflash, hstart, Nat.zero_add, if_pos hbig]
        split_ifs <;> exact .throw _ _ _ _
      · -- the image fits, and the two fail only where there is nothing to load
        rw [hcopies, Bus.loadFlash_eq, hlen, hflash, hstart, Nat.zero_add, if_neg hbig]
        dsimp only
        by_cases hzero : toLoad = 0
        · rw [if_pos hzero, if_pos hzero]
          split_ifs <;> exact .throw _ _ _ _
        · rw [if_neg hzero, if_neg hzero, if_neg (by omega : ¬data.length < hdr.offset.toNat)]
          have hin : hdr.offset.toNat + toLoad ≤ data.length := by omega
          exact LoadsAgree.load ⟨hdr.sysinfo, toLoad, hdr.offset⟩ hin

/-- **An image behind its header** is loaded whole, on a device that has room for it. -/
theorem pfiLoad_area {hdr : PfiHeader} (b : Bus D) {image : List U8}
    (hcheck : checkPfiHeader hdr = .ok hdr)
    (hoffset : hdr.offset = BitVec.ofNat 32 PfiHeader.imageOffset)
    (hend : ¬hdr.sysinfo.pffsEnd ≤ Bus.flashBase)
    (hlen : image.length = (hdr.sysinfo.pffsEnd - Bus.flashBase).toNat) (hne : image ≠ [])
    (hfit : image.length ≤ b.flash.size) :
    pfiLoad b (hdr.area ++ image) =
      (.ok ⟨hdr.sysinfo, image.length, hdr.offset⟩,
        b.withFlashMem (blit b.flash.mem 0 image)) := by
  have hlong : ¬(hdr.area ++ image).length < PfiHeader.bytes := by
    rw [List.length_append, hdr.area_length]
    exact Nat.not_lt.mpr ((by decide : PfiHeader.bytes ≤ PfiHeader.imageOffset).trans
      (Nat.le_add_right _ _))
  have hread : readPfiHeaderBlob (some (hdr.area ++ image)) = .ok hdr := by
    rw [readPfiHeaderBlob, if_neg hlong, hdr.take_area_append, hdr.ofBytes_toBytes, hcheck]
  have hstart : (hdr.area ++ image).drop hdr.offset.toNat = image := by
    rw [hoffset]
    exact hdr.drop_area_append image
  have hcopies := loadChunks_copies (hdr.area ++ image) hdr.offset.toNat b
    (hdr.sysinfo.pffsEnd - Bus.flashBase).isLt (Nat.zero_le _) (Nat.zero_le _)
  rw [hstart, ← hlen, Nat.min_self, List.take_zero, blit_nil, Bus.withFlashMem_self, Nat.add_zero,
    Copies, if_neg (Nat.not_lt.mpr hfit), List.take_length] at hcopies
  have hpos : image.length ≠ 0 := mt List.length_eq_zero_iff.mp hne
  rw [pfiLoad, readPfiHeader_eq, hread, Except.map]
  dsimp only
  rw [if_neg hend, InFile.fseek_natCast]
  dsimp only
  rw [← hlen, hcopies]
  dsimp only
  rw [if_neg hpos]

/-- A header that is read lies in the blob. -/
theorem readPfiHeaderBlob_length {data : List U8} {hdr : PfiHeader}
    (h : readPfiHeaderBlob (some data) = .ok hdr) : PfiHeader.bytes ≤ data.length := by
  unfold readPfiHeaderBlob at h
  dsimp only at h
  split_ifs at h with hlen
  exact Nat.not_lt.mp hlen

/-- An accepted blob leaves everything but the contents of the flash alone. -/
theorem pfiLoadBlob_bus {b b' : Bus D} {blob : Option (List U8)}
    {info : PfiInfo} (h : pfiLoadBlob b blob = (.ok info, b')) :
    ∃ mem, b' = b.withFlashMem mem := by
  unfold pfiLoadBlob at h
  split at h
  · exact nomatch h
  · dsimp only at h
    split_ifs at h
    · exact nomatch h
    · exact nomatch h
    · exact nomatch h
    · rw [Bus.loadFlash_eq] at h
      split_ifs at h
      · exact nomatch h
      · exact ⟨_, (Prod.mk.inj h).2.symm⟩

/-- A PFI file with a flash image of two bytes. -/
def tinyPfi : List U8 :=
  [0x31, 0x49, 0x46, 0x50, 40, 0, 0, 0, 32, 0] ++ List.replicate 26 0 ++ [2, 0, 0xC0, 0, 0xAB, 0xCD]

/-- A bus with a ROM of 8 bytes and nothing else. -/
def tinyBus : Bus Unit where
  iram := fun _ => 0
  sram := fun _ => 0
  sramSize := 0
  flash := .flat ⟨8, fun _ => 0xFF⟩
  dev := ()

theorem pfiLoad_agrees_tinyPfi :
    LoadsAgree tinyBus { tinyBus with sramSize := 4 } tinyPfi (pfiLoad tinyBus tinyPfi)
        (pfiLoadBlob { tinyBus with sramSize := 4 } (some tinyPfi)) ∧
      ((pfiLoadBlob tinyBus (some tinyPfi)).2.flash.mem 1,
        (pfiLoadBlob tinyBus (some tinyPfi)).2.flash.mem 2) = (0xCD, 0xFF) :=
  ⟨pfiLoad_agrees tinyBus { tinyBus with sramSize := 4 } rfl (some tinyPfi), by decide⟩
