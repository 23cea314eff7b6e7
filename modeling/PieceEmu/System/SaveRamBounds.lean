import PieceEmu.System.SaveRam

/-!
# The bounds of the save buffer

The save buffer of the libretro core is built, overlaid and synced with `memcpy`, which
checks nothing. How many bytes of flash it mirrors, `g_srm_flash_bytes`, is what the header
of the game declares; how many the device has is decided by `Sst39vf::for_min_bytes`,
which knows two capacities. The loader compares neither with the other: what it checks is
that the bytes the file *has* fit the device, and a file may have fewer than it declares.

`SrmAccess` is a range that one `memcpy` touches. `SaveRam.staysInside_iff` says that all
of them lie inside their arrays, at the load and in every run after it, exactly if the
header declares at most the 2 MB of the larger device.
-/

/-- The arrays between which the save buffer is copied. -/
inductive SrmArray
  /-- The bytes of the game. -/
  | blob
  /-- The memory of the flash device. -/
  | device
  /-- `g_srm_buffer`. -/
  | buffer
  deriving DecidableEq, Repr

/-- A range of bytes that is read or written. -/
structure SrmAccess where
  array : SrmArray
  off : ℕ
  len : ℕ
  deriving DecidableEq, Repr

/-- The ranges a `memcpy` touches. -/
def SrmAccess.memcpy (dst : SrmArray) (dstOff : ℕ) (src : SrmArray) (srcOff len : ℕ) :
    List SrmAccess :=
  [⟨src, srcOff, len⟩, ⟨dst, dstOff, len⟩]

/-- What happens to the save buffer once a game is loaded. -/
inductive SrmAct
  /-- The frontend fills the buffer. -/
  | frontendWrites (contents : ℕ → U8)
  /-- `retro_run`, with the commands its program makes. -/
  | retroRun (ops : List Sst39vf.FlashOp)

namespace SaveRam

open SrmAccess (memcpy)

variable (r : SaveRam)

/-! ### What is touched -/

/-- Building the buffer in `retro_load_game`: the header is read, and the two parts of the
buffer are copied. -/
def buildAccesses : List SrmAccess :=
  ⟨.blob, 0, PfiHeader.bytes⟩ :: memcpy .buffer 0 .blob 0 r.headerBytes ++
    memcpy .buffer r.headerBytes .device 0 r.flashBytes

/-- The overlay of the first `retro_run`. `load_image` throws before it copies more than
the device has. -/
def overlayAccesses : List SrmAccess :=
  if !r.overlayPending then []
  else if r.bufferSize < r.headerBytes + r.flashBytes then []
  else
    ⟨.buffer, 0, PfiHeader.bytes⟩ ::
      if headerOk r.buffer then
        if r.flash.size < r.flashBytes then []
        else memcpy .device 0 .buffer r.headerBytes r.flashBytes
      else []

/-- The copy of one dirty sector. -/
def sectorAccesses (sector : ℕ) : List SrmAccess :=
  let off := sector * r.flash.sectorSize
  if r.flashBytes ≤ off then []
  else
    memcpy .buffer (r.headerBytes + off) .device off (min r.flash.sectorSize (r.flashBytes - off))

/-- The sync at the end of a `retro_run`. -/
def syncAccesses : List SrmAccess :=
  if 0 < r.bufferSize ∧ 0 < r.flash.sectorSize ∧ r.flash.anyDirty then
    r.flash.forEachDirtySector.flatMap r.sectorAccesses
  else []

/-- All that an action touches; an exception of the overlay ends its `retro_run`. -/
def accesses : SrmAct → List SrmAccess
  | .frontendWrites _ => []
  | .retroRun ops =>
    r.overlayAccesses ++
      match r.overlay with
      | .error _ => []
      | .ok r' => syncAccesses { r' with flash := r'.flash.commanded ops }

/-- One action. After an exception the overlay is not tried again. -/
def step : SrmAct → SaveRam
  | .frontendWrites contents => r.frontendWrites contents
  | .retroRun ops =>
    match r.retroRun ops with
    | .error _ => { r with overlayPending := false }
    | .ok r' => r'

/-! ### The statement -/

/-- The number of bytes of an array. -/
def arraySize (blobLen : ℕ) : SrmArray → ℕ
  | .blob => blobLen
  | .device => r.flash.size
  | .buffer => r.bufferSize

/-- A range lies inside its array. -/
def Inside (blobLen : ℕ) (a : SrmAccess) : Prop := a.off + a.len ≤ r.arraySize blobLen a.array

/-- **The sizing is safe**: the device has the bytes that are mirrored, and neither building
the buffer nor any run after it touches a byte outside the arrays. -/
structure StaysInside (blobLen : ℕ) : Prop where
  fits : r.flashBytes ≤ r.flash.size
  build : ∀ a ∈ r.buildAccesses, r.Inside blobLen a
  runs : ∀ acts, ActionRun.Along step (fun r act => ∀ a ∈ r.accesses act, r.Inside blobLen a)
    r acts

/-! ### The sizes -/

/-- **What the sizes keep**: the buffer has room for the header and the flash, the header
comes from the blob, and the flash fits the device. -/
structure Sized (blobLen : ℕ) : Prop where
  buffer : r.bufferSize = r.headerBytes + r.flashBytes
  header : PfiHeader.bytes ≤ r.headerBytes
  blob : r.headerBytes ≤ blobLen
  fits : r.flashBytes ≤ r.flash.size

variable {r} {blobLen : ℕ}

/-- Nothing but the contents has changed. -/
structure SameSizes (r r' : SaveRam) : Prop where
  bufferSize : r'.bufferSize = r.bufferSize
  headerBytes : r'.headerBytes = r.headerBytes
  flashBytes : r'.flashBytes = r.flashBytes
  size : r'.flash.size = r.flash.size

theorem SameSizes.trans {r' r'' : SaveRam} (h : r.SameSizes r') (h' : r'.SameSizes r'') :
    r.SameSizes r'' :=
  ⟨h'.bufferSize.trans h.bufferSize, h'.headerBytes.trans h.headerBytes,
    h'.flashBytes.trans h.flashBytes, h'.size.trans h.size⟩

theorem Sized.of_same {r' : SaveRam} (h : r.Sized blobLen) (hsame : r.SameSizes r') :
    r'.Sized blobLen := by
  obtain ⟨hbuffer, hheader, hflash, hsize⟩ := hsame
  constructor
  · rw [hbuffer, hheader, hflash]
    exact h.buffer
  · rw [hheader]
    exact h.header
  · rw [hheader]
    exact h.blob
  · rw [hflash, hsize]
    exact h.fits

theorem size_loadImage {f f' : FlashDevice} {offset : U32} {data : List U8}
    (h : f.loadImage offset data = .ok f') : f'.size = f.size := by
  unfold FlashDevice.loadImage at h
  cases f with
  | flat rom =>
    dsimp only at h
    split_ifs at h
    · rw [← Except.ok.inj h]
    · rw [← Except.ok.inj h]
      rfl
  | sst39vf chip =>
    dsimp only at h
    split_ifs at h
    rw [← Except.ok.inj h]
    rfl

theorem size_commanded (f : FlashDevice) (ops : List Sst39vf.FlashOp) :
    (f.commanded ops).size = f.size := by
  cases f with
  | flat rom => rfl
  | sst39vf chip => exact exec_memSize chip ops

theorem sameSizes_overlay {r' : SaveRam} (h : r.overlay = .ok r') : r.SameSizes r' := by
  unfold overlay at h
  dsimp only at h
  split_ifs at h
  · rw [← Except.ok.inj h]
    exact ⟨rfl, rfl, rfl, rfl⟩
  · rw [← Except.ok.inj h]
    exact ⟨rfl, rfl, rfl, rfl⟩
  · cases hload : r.flash.loadImage 0
        ((List.range r.flashBytes).map fun i => r.buffer (r.headerBytes + i)) with
    | error e =>
      rw [hload] at h
      exact nomatch h
    | ok f =>
      rw [hload] at h
      rw [← Except.ok.inj h]
      exact ⟨rfl, rfl, rfl, size_loadImage hload⟩
  · rw [← Except.ok.inj h]
    exact ⟨rfl, rfl, rfl, rfl⟩

theorem sameSizes_sync : r.SameSizes r.sync := by
  unfold sync
  split_ifs
  · refine ⟨rfl, rfl, rfl, ?_⟩
    change r.flash.clearDirty.size = r.flash.size
    cases r.flash <;> rfl
  · exact ⟨rfl, rfl, rfl, rfl⟩

/-- An action leaves the sizes alone. -/
theorem sameSizes_step (act : SrmAct) : r.SameSizes (r.step act) := by
  cases act with
  | frontendWrites contents => exact ⟨rfl, rfl, rfl, rfl⟩
  | retroRun ops =>
    unfold step SaveRam.retroRun
    cases hover : r.overlay with
    | error e => exact ⟨rfl, rfl, rfl, rfl⟩
    | ok r' =>
      have hcommanded : r'.SameSizes { r' with flash := r'.flash.commanded ops } :=
        ⟨rfl, rfl, rfl, size_commanded r'.flash ops⟩
      exact ((sameSizes_overlay hover).trans hcommanded).trans sameSizes_sync

/-! ### Inside the arrays -/

theorem inside_memcpy {dst src : SrmArray} {dstOff srcOff len : ℕ}
    (hsrc : r.Inside blobLen ⟨src, srcOff, len⟩) (hdst : r.Inside blobLen ⟨dst, dstOff, len⟩) :
    ∀ a ∈ memcpy dst dstOff src srcOff len, r.Inside blobLen a :=
  List.forall_mem_cons.mpr ⟨hsrc, List.forall_mem_singleton.mpr hdst⟩

theorem Sized.inside_build (h : r.Sized blobLen) :
    ∀ a ∈ r.buildAccesses, r.Inside blobLen a := by
  obtain ⟨hbuffer, hheader, hblob, hfits⟩ := h
  have hread : r.Inside blobLen ⟨.blob, 0, PfiHeader.bytes⟩ := by
    change 0 + PfiHeader.bytes ≤ blobLen
    omega
  have hhead : ∀ a ∈ memcpy .buffer 0 .blob 0 r.headerBytes, r.Inside blobLen a := by
    refine inside_memcpy ?_ ?_
    · change 0 + r.headerBytes ≤ blobLen
      omega
    · change 0 + r.headerBytes ≤ r.bufferSize
      omega
  have hflash : ∀ a ∈ memcpy .buffer r.headerBytes .device 0 r.flashBytes,
      r.Inside blobLen a := by
    refine inside_memcpy ?_ ?_
    · change 0 + r.flashBytes ≤ r.flash.size
      omega
    · change r.headerBytes + r.flashBytes ≤ r.bufferSize
      omega
  intro a ha
  rcases List.mem_cons.mp ha with rfl | ha
  · exact hread
  · exact (List.mem_append.mp ha).elim (hhead a) (hflash a)

theorem Sized.inside_overlay (h : r.Sized blobLen) :
    ∀ a ∈ r.overlayAccesses, r.Inside blobLen a := by
  obtain ⟨hbuffer, hheader, hblob, hfits⟩ := h
  unfold overlayAccesses
  split_ifs
  · exact nofun
  · exact nofun
  all_goals refine List.forall_mem_cons.mpr ⟨?_, ?_⟩
  · change 0 + PfiHeader.bytes ≤ r.bufferSize
    omega
  · exact nofun
  · change 0 + PfiHeader.bytes ≤ r.bufferSize
    omega
  · refine inside_memcpy ?_ ?_
    · change r.headerBytes + r.flashBytes ≤ r.bufferSize
      omega
    · change 0 + r.flashBytes ≤ r.flash.size
      omega
  · change 0 + PfiHeader.bytes ≤ r.bufferSize
    omega
  · exact nofun

/-- A sector ends inside the buffer, and inside the device because the flash part does. -/
theorem Sized.inside_sector (h : r.Sized blobLen) (sector : ℕ) :
    ∀ a ∈ r.sectorAccesses sector, r.Inside blobLen a := by
  obtain ⟨hbuffer, hheader, hblob, hfits⟩ := h
  unfold sectorAccesses
  dsimp only
  split_ifs
  · exact nofun
  · refine inside_memcpy ?_ ?_
    · change sector * r.flash.sectorSize +
        min r.flash.sectorSize (r.flashBytes - sector * r.flash.sectorSize) ≤ r.flash.size
      omega
    · change r.headerBytes + sector * r.flash.sectorSize +
        min r.flash.sectorSize (r.flashBytes - sector * r.flash.sectorSize) ≤ r.bufferSize
      omega

theorem Sized.inside_sync (h : r.Sized blobLen) : ∀ a ∈ r.syncAccesses, r.Inside blobLen a := by
  unfold syncAccesses
  split_ifs
  · intro a ha
    obtain ⟨sector, -, ha⟩ := List.mem_flatMap.mp ha
    exact h.inside_sector sector a ha
  · exact nofun

/-- **An action stays inside the arrays.** -/
theorem Sized.inside (h : r.Sized blobLen) (act : SrmAct) :
    ∀ a ∈ r.accesses act, r.Inside blobLen a := by
  cases act with
  | frontendWrites contents => exact nofun
  | retroRun ops =>
    unfold accesses
    cases hover : r.overlay with
    | error e =>
      intro a ha
      exact (List.mem_append.mp ha).elim (h.inside_overlay a) (fun ha => nomatch ha)
    | ok r' =>
      have hcommanded : r'.SameSizes { r' with flash := r'.flash.commanded ops } :=
        ⟨rfl, rfl, rfl, size_commanded r'.flash ops⟩
      have hsame := (sameSizes_overlay hover).trans hcommanded
      intro a ha
      rcases List.mem_append.mp ha with ha | ha
      · exact h.inside_overlay a ha
      · -- the sizes are what they were before the frame
        have hinside := (h.of_same hsame).inside_sync a ha
        unfold Inside arraySize at hinside ⊢
        rwa [hsame.bufferSize, hsame.size] at hinside

/-- **A sized buffer stays inside**, at every action of every run. -/
theorem Sized.staysInside (h : r.Sized blobLen) : r.StaysInside blobLen where
  fits := h.fits
  build := h.inside_build
  runs acts := by
    induction acts generalizing r with
    | nil => trivial
    | cons act acts ih => exact ⟨h.inside act, ih (h.of_same (sameSizes_step act))⟩

/-! ### The sizes of a game -/

theorem memSize_of_construct {n : ℕ} {f : Sst39vf} (h : Sst39vf.construct n = .ok f) :
    f.memSize = n := by
  unfold Sst39vf.construct at h
  split_ifs at h
  rw [← Except.ok.inj h]

/-- The header of a blob. -/
def headerOf (data : List U8) : PfiHeader := .ofBytes (data.take PfiHeader.bytes)

theorem eq_headerOf {data : List U8} {hdr : PfiHeader}
    (h : readPfiHeaderBlob (some data) = .ok hdr) : hdr = headerOf data := by
  unfold readPfiHeaderBlob checkPfiHeader at h
  dsimp only at h
  split_ifs at h
  exact (Except.ok.inj h).symm

theorem flashBase_lt_of_load {D : Type} {b b' : Bus D} {data : List U8} {info : PfiInfo}
    (h : pfiLoadBlob b (some data) = (.ok info, b')) :
    Bus.flashBase < (headerOf data).sysinfo.pffsEnd := by
  unfold pfiLoadBlob at h
  split at h
  · exact nomatch h
  · rename_i hdr hhdr
    dsimp only at h
    by_cases hend : hdr.sysinfo.pffsEnd ≤ Bus.flashBase
    · rw [if_pos hend] at h
      exact nomatch h
    · rw [← eq_headerOf hhdr]
      exact BitVec.not_le.mp hend

/-- **The three sizes of an accepted game**: the mirrored bytes are those the header
declares, the device has one of two capacities, and the header of the buffer is part of
the blob. -/
theorem retroLoadGame_sizes {D : Type} {bus : Bus D} {data : List U8}
    (h : retroLoadGame bus data = some r) :
    r.flashBytes + Bus.flashBase.toNat = (headerOf data).sysinfo.pffsEnd.toNat ∧
      r.flash.size = (if r.flashBytes ≤ 0x80000 then 0x80000 else 0x200000) ∧
      r.headerBytes ≤ data.length := by
  unfold retroLoadGame at h
  split at h
  case h_1 => exact nomatch h
  case h_2 hdr hhdr =>
    dsimp only at h
    split at h
    case h_1 => exact nomatch h
    case h_2 chip hchip =>
      split at h
      case h_1 => exact nomatch h
      case h_2 info bus' hload =>
        obtain ⟨mem, hbus⟩ := pfiLoadBlob_bus hload
        have hlt := flashBase_lt_of_load hload
        rw [← eq_headerOf hhdr] at hlt ⊢
        have hbytes :
            flashSizeOf hdr.sysinfo + Bus.flashBase.toNat = hdr.sysinfo.pffsEnd.toNat := by
          unfold flashSizeOf
          rw [if_pos hlt]
          bv_omega
        have hsize : chip.memSize =
            if flashSizeOf hdr.sysinfo ≤ 0x80000 then 0x80000 else 0x200000 :=
          memSize_of_construct hchip
        rw [← Option.some.inj h, hbus]
        exact ⟨hbytes, hsize, Nat.min_le_right _ _⟩

/-- **The save sizing stays inside the device** if and only if the header declares at most
2 MB of flash: for every game `retro_load_game` accepts, and in every run after it. -/
theorem staysInside_iff {D : Type} (bus : Bus D) (data : List U8)
    (h : retroLoadGame bus data = some r) :
    r.StaysInside data.length ↔
      (headerOf data).sysinfo.pffsEnd.toNat ≤ Bus.flashBase.toNat + 0x200000 := by
  obtain ⟨hbytes, hsize, hblob⟩ := retroLoadGame_sizes h
  obtain ⟨chip, hl⟩ := retroLoadGame_loaded h
  have hfits : r.flashBytes ≤ r.flash.size ↔ r.flashBytes ≤ 0x200000 := by
    rw [hsize]
    split_ifs <;> omega
  constructor
  · intro hstays
    have := hfits.mp hstays.fits
    omega
  · intro hdeclared
    have hsized : r.Sized data.length :=
      ⟨hl.bufferSize, hl.header, hblob, hfits.mpr (by omega)⟩
    exact hsized.staysInside

theorem staysInside_tinyPfi : ∃ r, retroLoadGame tinyBus tinyPfi = some r ∧
    (r.StaysInside tinyPfi.length ↔
      (headerOf tinyPfi).sysinfo.pffsEnd.toNat ≤ Bus.flashBase.toNat + 0x200000) := by
  obtain ⟨r, hr⟩ := retroLoadGame_tinyPfi
  exact ⟨r, hr, staysInside_iff tinyBus tinyPfi hr⟩

/-- A game that declares 4 MB of flash and has two bytes of it. -/
def shortPfi : List U8 :=
  [0x31, 0x49, 0x46, 0x50, 40, 0, 0, 0, 32, 0] ++ List.replicate 26 0 ++ [0, 0, 0, 1, 0xAB, 0xCD]

/-- **A buffer that is built from behind the device**: the game is accepted, and 4 MB are
copied out of the 2 MB the device has. -/
theorem shortPfi_reads_past_device : ∃ r, retroLoadGame tinyBus shortPfi = some r ∧
    r.flashBytes = 0x400000 ∧ r.flash.size = 0x200000 ∧
    ⟨.device, 0, 0x400000⟩ ∈ r.buildAccesses ∧ ¬r.StaysInside shortPfi.length := by
  obtain ⟨r, hr⟩ : ∃ r, retroLoadGame tinyBus shortPfi = some r :=
    Option.isSome_iff_exists.mp (by decide)
  have hsizes : (retroLoadGame tinyBus shortPfi).map (fun r => (r.flashBytes, r.flash.size)) =
      some (0x400000, 0x200000) := by decide +kernel
  rw [hr, Option.map_some] at hsizes
  obtain ⟨hbytes, hsize⟩ := Prod.mk.inj (Option.some.inj hsizes)
  refine ⟨r, hr, hbytes, hsize, ?_, fun hstays => ?_⟩
  · rw [buildAccesses, hbytes]
    exact List.mem_append_right _ List.mem_cons_self
  · have := hstays.fits
    rw [hbytes, hsize] at this
    exact absurd this (by decide)

end SaveRam
