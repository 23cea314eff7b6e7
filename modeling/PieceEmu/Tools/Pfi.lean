import Mathlib.Data.Nat.Log
import PieceEmu.Lib.Blit
import PieceEmu.Lib.InFile
import PieceEmu.Tools.PfiFormat

/-!
# PFI files on the host

`pfi.c`: a flash image file is opened into a buffer, and a buffer is saved as one. The size of
the buffer is found by doubling, until it covers the span that the header declares; the file is
then read in chunks of 4 KB, one after the other, as long as there is buffer.

The header is taken as it comes. So the doubling has a fuel, which it may need without end, and
the chunks are kept as they are stored (`OpenedPfi.stores`), which may be past the end of the
buffer. What the allocator returns is data: nothing, or memory with some contents.
-/

/-- `PFI`. -/
structure Pfi where
  header : PfiHeader
  /-- `buffer`: the memory from the pointer on, or a null pointer. -/
  buffer : Option (ℕ → U8)
  size : U32

namespace Pfi

/-- The chunk in which a file is read, `1 << 12`. -/
def chunk : ℕ := 0x1000

theorem chunk_pos : 0 < chunk := by decide

/-- The span that a header declares, `pffs_end - FLASH_TOP`. -/
def span (h : PfiHeader) : U32 := h.sysinfo.pffsEnd - flashTop

/-! ### Opening -/

/-- The loop that doubles the size, with fuel for its rounds. -/
def double (flashsize : U32) : ℕ → U32 → Option U32
  | 0, _ => none
  | fuel + 1, size => if size < flashsize then double flashsize fuel (size <<< 1) else some size

/-- The loop that reads the file, from the offset `p` of the buffer on: the memory it leaves,
and what it has stored where. -/
def readLoop (size : ℕ) (fp : InFile) (mem : ℕ → U8) (p : ℕ) : (ℕ → U8) × List (ℕ × List U8) :=
  if p < size then
    let (bytes, fp) := fp.fread chunk
    let r := readLoop size fp (blit mem p bytes) (chunk + p)
    (r.1, (p, bytes) :: r.2)
  else (mem, [])
termination_by size - p
decreasing_by
  have := chunk_pos
  omega

end Pfi

/-- What `PFIOpen` leaves. -/
structure OpenedPfi where
  /-- The value returned. -/
  ok : Bool
  pfi : Pfi
  /-- What was stored through the buffer pointer, with the offset from it. -/
  stores : List (ℕ × List U8) := []
  /-- `msb`, which `PFFSLoadMasterBlock` sets, as an offset from the buffer pointer. -/
  msb : U32 := pfi.header.sysinfo.pffsTop - flashTop

namespace Pfi

/-- The header, as far as the file holds one. -/
def readHeader (pfi : Pfi) (data : List U8) : PfiHeader :=
  let buf := (InFile.fread ⟨data, 0⟩ PfiHeader.bytes).1
  .ofBytes (buf ++ pfi.header.toBytes.drop buf.length)

/-- `PFIOpen` of a file, or of one that cannot be opened. `malloc` is what the allocator
returns for a size; `fuel` bounds the rounds of the doubling. -/
def openFile (fuel : ℕ) (malloc : U32 → Option (ℕ → U8)) (pfi : Pfi) (file : Option (List U8)) :
    Option OpenedPfi :=
  match file with
  | none => some { ok := false, pfi }
  | some data =>
    let (buf, fp) := InFile.fread ⟨data, 0⟩ PfiHeader.bytes
    let pfi := { pfi with header := pfi.readHeader data }
    if buf.length ≠ PfiHeader.bytes then some { ok := false, pfi }
    else if !pfi.header.signatureOk then some { ok := false, pfi }
    else
      let fp := (fp.fseek pfi.header.offset.toNat).getD fp
      match double (span pfi.header) fuel 1 with
      | none => none
      | some size =>
        match malloc size with
        | none => some { ok := false, pfi := { pfi with buffer := none, size } }
        | some mem =>
          let r := readLoop size.toNat fp mem 0
          some { ok := true, pfi := { pfi with buffer := some r.1, size }, stores := r.2 }

/-! ### Saving -/

/-- `PFISave` of a buffer, if the file can be created (`create`): the file it writes, and what
becomes of the handle. -/
def save (create : Bool) (pfi : Pfi) (mem : ℕ → U8) : Option (List U8) × Pfi :=
  if !create then (none, pfi)
  else
    let header := { pfi.header with offset := BitVec.ofNat 32 PfiHeader.imageOffset }
    (some (header.area ++ (List.range pfi.size.toNat).map mem), { pfi with header })

/-! ### The doubling -/

/-- The size of the device that holds a span: the least power of two that covers it. -/
def deviceSize (span : U32) : ℕ := 2 ^ Nat.clog 2 span.toNat

theorem ofNat_two_pow_shiftLeft (k : ℕ) :
    BitVec.ofNat 32 (2 ^ k) <<< 1 = BitVec.ofNat 32 (2 ^ (k + 1)) := by
  rw [← BitVec.toNat_inj, BitVec.toNat_shiftLeft, Nat.shiftLeft_eq, BitVec.toNat_ofNat,
    BitVec.toNat_ofNat, Nat.pow_one, Nat.mod_mul_mod, ← Nat.pow_succ]

theorem clog_le {flashsize : U32} (h : flashsize.toNat ≤ 2 ^ 31) :
    Nat.clog 2 flashsize.toNat ≤ 31 := Nat.clog_le_of_le_pow h

/-- The rounds that are left, from a power of two on. -/
theorem double_pow {flashsize : U32} (h : flashsize.toNat ≤ 2 ^ 31) {k : ℕ}
    (hk : k ≤ Nat.clog 2 flashsize.toNat) {fuel : ℕ}
    (hfuel : Nat.clog 2 flashsize.toNat < fuel + k) :
    double flashsize fuel (BitVec.ofNat 32 (2 ^ k)) =
      some (BitVec.ofNat 32 (deviceSize flashsize)) := by
  induction fuel generalizing k with
  | zero => omega
  | succ fuel ih =>
    have hlog := clog_le h
    have hpow : 2 ^ k < 2 ^ 32 := Nat.pow_lt_pow_right (by decide) (by omega)
    have htoNat : (BitVec.ofNat 32 (2 ^ k)).toNat = 2 ^ k := by
      rw [BitVec.toNat_ofNat, Nat.mod_eq_of_lt hpow]
    have hlt : BitVec.ofNat 32 (2 ^ k) < flashsize ↔ k < Nat.clog 2 flashsize.toNat := by
      rw [BitVec.lt_def, htoNat, Nat.lt_clog_iff_pow_lt (by decide)]
    rw [double]
    -- the exponent goes up to the first power that covers the span
    by_cases hlast : k < Nat.clog 2 flashsize.toNat
    · rw [if_pos (hlt.mpr hlast), ofNat_two_pow_shiftLeft]
      exact ih hlast (by omega)
    · have hlast' : k = Nat.clog 2 flashsize.toNat := by omega
      rw [if_neg (mt hlt.mp hlast), deviceSize, ← hlast']

/-- **The doubling ends** if the span is at most half of the address space. -/
theorem double_eq {flashsize : U32} (h : flashsize.toNat ≤ 2 ^ 31) {fuel : ℕ} (hfuel : 32 ≤ fuel) :
    double flashsize fuel 1 = some (BitVec.ofNat 32 (deviceSize flashsize)) := by
  have hlog := clog_le h
  exact double_pow h (Nat.zero_le _) (by omega)

/-- **It does not end** if the span is more: the size is doubled until nothing is left of it. -/
theorem double_none {flashsize : U32} (h : 2 ^ 31 < flashsize.toNat) {size : U32}
    (hsize : size = 0 ∨ ∃ k, k < 32 ∧ size = BitVec.ofNat 32 (2 ^ k)) (fuel : ℕ) :
    double flashsize fuel size = none := by
  induction fuel generalizing size with
  | zero => rfl
  | succ fuel ih =>
    have hlt : size < flashsize := by
      rw [BitVec.lt_def]
      rcases hsize with rfl | ⟨k, hk, rfl⟩
      · exact Nat.lt_of_le_of_lt (Nat.zero_le _) h
      · rw [BitVec.toNat_ofNat]
        refine Nat.lt_of_le_of_lt ((Nat.mod_le _ _).trans ?_) h
        exact Nat.pow_le_pow_right (by decide) (by omega)
    rw [double, if_pos hlt]
    apply ih
    -- behind the top bit the size is 0, and stays 0
    rcases hsize with rfl | ⟨k, hk, rfl⟩
    · exact .inl rfl
    · rw [ofNat_two_pow_shiftLeft]
      rcases Nat.lt_or_ge (k + 1) 32 with hk' | hk'
      · exact .inr ⟨k + 1, hk', rfl⟩
      · left
        rw [show k + 1 = 32 by omega]
        rfl

/-- A span of more than 2^31 leaves the loop of `PFIOpen` without end. -/
theorem double_one_none {flashsize : U32} (h : 2 ^ 31 < flashsize.toNat) (fuel : ℕ) :
    double flashsize fuel 1 = none :=
  double_none h (.inr ⟨0, by decide, rfl⟩) fuel

/-- More fuel does not change what the loop finds. -/
theorem double_mono {flashsize size result : U32} {fuel : ℕ}
    (h : double flashsize fuel size = some result) (k : ℕ) :
    double flashsize (fuel + k) size = some result := by
  induction fuel generalizing size with
  | zero => exact nomatch h
  | succ fuel ih =>
    rw [Nat.succ_add, double]
    rw [double] at h
    by_cases hlt : size < flashsize
    · rw [if_pos hlt] at h ⊢
      exact ih h
    · rwa [if_neg hlt] at h ⊢

/-- **What the loop finds** is the device size, whatever the fuel. -/
theorem double_some {flashsize size : U32} {fuel : ℕ} (h : double flashsize fuel 1 = some size) :
    flashsize.toNat ≤ 2 ^ 31 ∧ size = BitVec.ofNat 32 (deviceSize flashsize) := by
  rcases Nat.lt_or_ge (2 ^ 31) flashsize.toNat with hlong | hspan
  · exact nomatch (double_one_none hlong fuel).symm.trans h
  · have hmore := double_mono h 32
    rw [double_eq hspan (Nat.le_add_left 32 fuel)] at hmore
    exact ⟨hspan, (Option.some.inj hmore).symm⟩

theorem deviceSize_le {flashsize : U32} (h : flashsize.toNat ≤ 2 ^ 31) :
    deviceSize flashsize ≤ 2 ^ 31 :=
  Nat.pow_le_pow_right (by decide) (clog_le h)

theorem span_le_deviceSize (flashsize : U32) : flashsize.toNat ≤ deviceSize flashsize :=
  Nat.le_pow_clog (by decide) _

theorem toNat_deviceSize {flashsize : U32} (h : flashsize.toNat ≤ 2 ^ 31) :
    (BitVec.ofNat 32 (deviceSize flashsize)).toNat = deviceSize flashsize := by
  have := deviceSize_le h
  rw [BitVec.toNat_ofNat]
  exact Nat.mod_eq_of_lt (by omega)

/-- A device of at least one chunk is a whole number of chunks. -/
theorem chunk_dvd_deviceSize {flashsize : U32} (h : chunk ≤ deviceSize flashsize) :
    chunk ∣ deviceSize flashsize := by
  have hlog : 12 ≤ Nat.clog 2 flashsize.toNat :=
    (Nat.pow_le_pow_iff_right (by decide)).mp (show 2 ^ 12 ≤ deviceSize flashsize from h)
  exact Nat.pow_dvd_pow 2 hlog

/-! ### The chunks -/

/-- **A buffer of whole chunks** is filled with the rest of the file, as far as it goes, and
nothing is stored outside. -/
theorem readLoop_spec {size : ℕ} (fp : InFile) (mem : ℕ → U8) {p : ℕ} (hp : p ≤ size)
    (hdvd : chunk ∣ size - p) :
    (readLoop size fp mem p).1 = blit mem p (fp.rest.take (size - p)) ∧
      ∀ st ∈ (readLoop size fp mem p).2, st.1 + st.2.length ≤ size := by
  -- the induction is on the rest of the buffer, which stays a whole number of chunks
  induction hn : size - p using Nat.strong_induction_on generalizing fp mem p with
  | _ n ih =>
  have hpos := chunk_pos
  rw [readLoop]
  by_cases hlt : p < size
  · have hle : chunk ≤ size - p := Nat.le_of_dvd (by omega) hdvd
    have hleft : size - (chunk + p) = size - p - chunk := by omega
    have hdvd' : chunk ∣ size - (chunk + p) := by
      rw [hleft]
      exact Nat.dvd_sub hdvd (Nat.dvd_refl _)
    obtain ⟨hbytes, hrest⟩ := fp.fread_rest chunk
    obtain ⟨hmem, hstores⟩ := ih (size - (chunk + p)) (by omega) (fp.fread chunk).2
      (blit mem p (fp.fread chunk).1) (by omega) hdvd' rfl
    rw [if_pos hlt]
    refine ⟨hmem.trans ?_, ?_⟩
    · rw [hrest, hleft, hbytes, ← hn]
      exact blit_take_add mem fp.rest p hle
    · rintro st (_ | ⟨_, hst⟩)
      · have := List.length_take_le chunk fp.rest
        change p + (fp.rest.take chunk).length ≤ size
        omega
      · exact hstores st hst
  · rw [if_neg hlt]
    have hzero : size - p = 0 := by omega
    exact ⟨by rw [← hn, hzero, List.take_zero, blit_nil], fun _ h => nomatch h⟩

/-! ### What is opened -/

/-- A file that `PFIOpen` takes for an image: it holds a header with the signature. -/
structure Accepts (data : List U8) (h : PfiHeader) : Prop where
  length : PfiHeader.bytes ≤ data.length
  header : h = .ofBytes (data.take PfiHeader.bytes)
  signature : h.signatureOk = true

/-- What comes of an image, once its device size is known. -/
def opened (malloc : U32 → Option (ℕ → U8)) (pfi : Pfi) (data : List U8) (h : PfiHeader)
    (size : U32) : OpenedPfi :=
  match malloc size with
  | none => { ok := false, pfi := { pfi with header := h, buffer := none, size } }
  | some mem =>
    let r := readLoop size.toNat ⟨data, h.offset.toNat⟩ mem 0
    { ok := true, pfi := { pfi with header := h, buffer := some r.1, size }, stores := r.2 }

variable {malloc : U32 → Option (ℕ → U8)} {pfi : Pfi} {data : List U8} {h : PfiHeader}

/-- A whole header takes the place of the one before. -/
theorem readHeader_eq (hlen : PfiHeader.bytes ≤ data.length) :
    pfi.readHeader data = .ofBytes (data.take PfiHeader.bytes) := by
  have hbuf : (InFile.fread ⟨data, 0⟩ PfiHeader.bytes).1 = data.take PfiHeader.bytes := rfl
  have hfull : (data.take PfiHeader.bytes).length = PfiHeader.bytes :=
    List.length_take_of_le hlen
  rw [readHeader, hbuf, hfull, List.drop_eq_nil_of_le (Nat.le_of_eq pfi.header.toBytes_length),
    List.append_nil]

/-- **An image is opened** as soon as its device size is found. -/
theorem openFile_accepts (ha : Accepts data h) (fuel : ℕ) :
    openFile fuel malloc pfi (some data) =
      (double (span h) fuel 1).map (opened malloc pfi data h) := by
  have hfull : ¬(data.take PfiHeader.bytes).length ≠ PfiHeader.bytes :=
    not_not_intro (List.length_take_of_le ha.length)
  have hseek (n : ℕ) : (InFile.fseek ⟨data, n⟩ h.offset.toNat).getD ⟨data, n⟩ =
      ⟨data, h.offset.toNat⟩ := by
    rw [InFile.fseek_natCast, Option.getD_some]
  rw [openFile, readHeader_eq ha.length, ← ha.header]
  change (if (data.take PfiHeader.bytes).length ≠ PfiHeader.bytes then _ else _) = _
  rw [if_neg hfull, ha.signature]
  change (match double (span h) fuel 1 with | none => none | some size => _) = _
  cases double (span h) fuel 1 with
  | none => rfl
  | some size =>
    rw [Option.map_some, opened]
    dsimp only
    cases malloc size with
    | none => rfl
    | some mem =>
      dsimp only [InFile.fread]
      rw [hseek]

/-- A span of at most half of the address space ends where the header says. -/
theorem pffsEnd_of_span_le (hspan : (span h).toNat ≤ 2 ^ 31) :
    flashTop ≤ h.sysinfo.pffsEnd ∧
      h.sysinfo.pffsEnd.toNat = flashTop.toNat + (span h).toNat := by
  have htop : flashTop.toNat = 0xC00000 := rfl
  have hsub : (span h).toNat =
      (2 ^ 32 - flashTop.toNat + h.sysinfo.pffsEnd.toNat) % 2 ^ 32 := BitVec.toNat_sub ..
  have hend := h.sysinfo.pffsEnd.isLt
  rw [BitVec.le_def]
  omega

theorem opened_of_malloc_none {size : U32} (hmalloc : malloc size = none) :
    opened malloc pfi data h size =
      { ok := false, pfi := { pfi with header := h, buffer := none, size } } := by
  rw [opened, hmalloc]

theorem opened_of_malloc_some {size : U32} {mem : ℕ → U8} (hmalloc : malloc size = some mem) :
    opened malloc pfi data h size =
      { ok := true
        pfi :=
          { pfi with
            header := h
            buffer := some (readLoop size.toNat ⟨data, h.offset.toNat⟩ mem 0).1
            size }
        stores := (readLoop size.toNat ⟨data, h.offset.toNat⟩ mem 0).2 } := by
  rw [opened, hmalloc]

variable (malloc pfi) in
/-- **An image of a span of at most 2^31** is opened at its device size. -/
theorem openFile_eq (ha : Accepts data h) (hspan : (span h).toNat ≤ 2 ^ 31) {fuel : ℕ}
    (hfuel : 32 ≤ fuel) :
    openFile fuel malloc pfi (some data) =
      some (opened malloc pfi data h (BitVec.ofNat 32 (deviceSize (span h)))) := by
  rw [openFile_accepts ha, double_eq hspan hfuel, Option.map_some]

/-- A file that is refused leaves the buffer alone. -/
theorem openFile_refuses (ha : ¬∃ h, Accepts data h) (fuel : ℕ) :
    openFile fuel malloc pfi (some data) =
      some { ok := false, pfi := { pfi with header := pfi.readHeader data } } := by
  rw [openFile]
  change (if (data.take PfiHeader.bytes).length ≠ PfiHeader.bytes then _ else _) = _
  by_cases hlen : PfiHeader.bytes ≤ data.length
  · have hsig : (pfi.readHeader data).signatureOk = false := by
      by_contra hsig
      exact ha ⟨_, hlen, readHeader_eq hlen, Bool.not_eq_false _ ▸ hsig⟩
    rw [if_neg (not_not_intro (List.length_take_of_le hlen)), hsig]
    rfl
  · have hshort : (data.take PfiHeader.bytes).length ≠ PfiHeader.bytes := by
      rw [List.length_take]
      omega
    rw [if_pos hshort]

/-- A header that is written carries its own image. -/
theorem accepts_area (hsig : h.signatureOk = true) (image : List U8) :
    Accepts (h.area ++ image) h where
  length := by
    rw [List.length_append, h.area_length]
    exact (by decide : PfiHeader.bytes ≤ PfiHeader.imageOffset).trans (Nat.le_add_right _ _)
  header := by rw [h.take_area_append, h.ofBytes_toBytes]
  signature := hsig

variable (pfi) in
/-- **An image behind its header** is opened to a buffer that starts with it. -/
theorem openFile_area {fuel : ℕ} {mem : ℕ → U8} (hsig : h.signatureOk = true)
    (hoffset : h.offset = BitVec.ofNat 32 PfiHeader.imageOffset)
    (hspan : (span h).toNat ≤ 2 ^ 31) (hchunk : chunk ≤ deviceSize (span h)) (hfuel : 32 ≤ fuel)
    (hmalloc : malloc (BitVec.ofNat 32 (deviceSize (span h))) = some mem) (image : List U8) :
    ∃ stores, openFile fuel malloc pfi (some (h.area ++ image)) = some
      { ok := true
        pfi :=
          { header := h
            buffer := some (blit mem 0 (image.take (deviceSize (span h))))
            size := BitVec.ofNat 32 (deviceSize (span h)) }
        stores } := by
  have hrest : InFile.rest ⟨h.area ++ image, h.offset.toNat⟩ = image := by
    rw [hoffset]
    exact h.drop_area_append image
  have hspec := readLoop_spec ⟨h.area ++ image, h.offset.toNat⟩ mem
    (Nat.zero_le (deviceSize (span h))) (chunk_dvd_deviceSize hchunk)
  rw [hrest, Nat.sub_zero] at hspec
  rw [openFile_eq malloc pfi (accepts_area hsig image) hspan hfuel, opened_of_malloc_some hmalloc,
    toNat_deviceSize hspan, hspec.1]
  exact ⟨_, rfl⟩

/-- An opening that succeeds has found an image, and the device size of its span. -/
theorem openFile_ok {fuel : ℕ} {file : Option (List U8)} {r : OpenedPfi}
    (hopen : openFile fuel malloc pfi file = some r) (hok : r.ok = true) :
    r.pfi.header.signatureOk = true ∧ (span r.pfi.header).toNat ≤ 2 ^ 31 ∧
      r.pfi.size = BitVec.ofNat 32 (deviceSize (span r.pfi.header)) := by
  cases file with
  | none =>
    obtain rfl := Option.some.inj hopen
    exact nomatch hok
  | some data =>
    by_cases ha : ∃ h, Accepts data h
    · obtain ⟨h, ha⟩ := ha
      rw [openFile_accepts ha, Option.map_eq_some_iff] at hopen
      obtain ⟨size, hdouble, rfl⟩ := hopen
      obtain ⟨hspan, rfl⟩ := double_some hdouble
      cases hmalloc : malloc (BitVec.ofNat 32 (deviceSize (span h))) with
      | none =>
        rw [opened_of_malloc_none hmalloc] at hok
        exact nomatch hok
      | some mem =>
        rw [opened_of_malloc_some hmalloc]
        exact ⟨ha.signature, hspan, rfl⟩
    · rw [openFile_refuses ha] at hopen
      obtain rfl := Option.some.inj hopen
      exact nomatch hok

end Pfi
