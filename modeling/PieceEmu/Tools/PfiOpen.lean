import PieceEmu.Tools.Pffs
import PieceEmu.Tools.Pfi

/-!
# Opening any file

`PFIOpen` checks three bytes of the header and believes the rest. Two fields decide what
happens then: the span up to `pffs_end`, from which the size of the buffer is found by doubling,
and the place of the master block, which lies at `pffs_top`.

| header | what the code does |
|---|---|
| span above 2^31, as with a `pffs_end` below the flash | doubles the size for ever |
| span of at most 2048 bytes | reads a chunk of 4096 bytes into the smaller buffer |
| master block past the device size | points into memory that is not the buffer |
| span of at most 2^31, master block within | is safe |

A master block is as large as a chunk, so the third row covers the second, and the last row is
the exact condition (`Pfi.openFile_safe_iff`).
-/

/-- `sizeof(pffsMASTERBLOCK)`: the mark, the directory and the table. -/
def Pffs.masterBlockSize : ℕ := 32 + maxDir * 32 + maxFat * 2

/-- **A safe opening**: nothing is stored outside the buffer, and if `PFIOpen` returns 1, the
buffer covers the span the header declares and the master block. -/
structure OpenedPfi.Safe (r : OpenedPfi) : Prop where
  inside : ∀ st ∈ r.stores, st.1 + st.2.length ≤ r.pfi.size.toNat
  covers : r.ok = true → flashTop ≤ r.pfi.header.sysinfo.pffsEnd ∧
    r.pfi.header.sysinfo.pffsEnd.toNat ≤ flashTop.toNat + r.pfi.size.toNat
  master : r.ok = true → r.msb.toNat + Pffs.masterBlockSize ≤ r.pfi.size.toNat

namespace Pfi

/-- **A file that fits**: if it is taken for an image, its span is at most 2^31 and, where the
allocator has memory, its master block ends within the device size of the span. -/
def Fits (malloc : U32 → Option (ℕ → U8)) (data : List U8) : Prop :=
  ∀ h, Accepts data h → (span h).toNat ≤ 2 ^ 31 ∧
    (malloc (BitVec.ofNat 32 (deviceSize (span h))) ≠ none →
      (h.sysinfo.pffsTop - flashTop).toNat + Pffs.masterBlockSize ≤ deviceSize (span h))

variable {malloc : U32 → Option (ℕ → U8)} {pfi : Pfi} {data : List U8} {h : PfiHeader}

theorem fits_iff (ha : Accepts data h) :
    Fits malloc data ↔ (span h).toNat ≤ 2 ^ 31 ∧
      (malloc (BitVec.ofNat 32 (deviceSize (span h))) ≠ none →
        (h.sysinfo.pffsTop - flashTop).toNat + Pffs.masterBlockSize ≤ deviceSize (span h)) := by
  constructor
  · intro hfits
    exact hfits h ha
  · intro hfits h' ha'
    rwa [ha'.header.trans ha.header.symm]

/-- An opening that fails and stores nothing is safe. -/
theorem safe_of_failed {r : OpenedPfi} (hok : r.ok = false) (hstores : r.stores = []) : r.Safe := by
  have hnot : ¬r.ok = true := Bool.eq_false_iff.mp hok
  refine ⟨fun st hst => ?_, fun h => absurd h hnot, fun h => absurd h hnot⟩
  rw [hstores] at hst
  exact absurd hst List.not_mem_nil

/-- An image of a span of at most 2^31 is opened safely if and only if its master block lies
within its device size, or there is no memory for it. -/
theorem opened_safe_iff (hspan : (span h).toNat ≤ 2 ^ 31) :
    (opened malloc pfi data h (BitVec.ofNat 32 (deviceSize (span h)))).Safe ↔
      (malloc (BitVec.ofNat 32 (deviceSize (span h))) ≠ none →
        (h.sysinfo.pffsTop - flashTop).toNat + Pffs.masterBlockSize ≤ deviceSize (span h)) := by
  have hsize := toNat_deviceSize hspan
  cases hmalloc : malloc (BitVec.ofNat 32 (deviceSize (span h))) with
  | none =>
    rw [opened_of_malloc_none hmalloc]
    exact iff_of_true (safe_of_failed rfl rfl) fun h => absurd rfl h
  | some mem =>
    rw [opened_of_malloc_some hmalloc]
    constructor
    · intro hsafe _
      have hmaster := hsafe.master rfl
      dsimp only at hmaster
      rwa [hsize] at hmaster
    · intro hfits
      have hmaster := hfits nofun
      -- a master block is as large as a chunk, so a device that holds it is made of chunks
      have hchunk : chunk ≤ deviceSize (span h) := (Nat.le_add_left _ _).trans hmaster
      have hspec := readLoop_spec ⟨data, h.offset.toNat⟩ mem (Nat.zero_le _)
        (chunk_dvd_deviceSize hchunk)
      obtain ⟨hle, heq⟩ := pffsEnd_of_span_le hspan
      have hcover := span_le_deviceSize (span h)
      constructor
      · dsimp only
        rw [hsize]
        exact hspec.2
      · intro _
        dsimp only
        rw [heq, hsize]
        exact ⟨hle, Nat.add_le_add_left hcover _⟩
      · intro _
        dsimp only
        rwa [hsize]

/-- An image is opened safely, with some fuel, if and only if it fits. -/
theorem openFile_image_safe_iff (ha : Accepts data h) :
    (∃ fuel r, openFile fuel malloc pfi (some data) = some r ∧ r.Safe) ↔ Fits malloc data := by
  rw [fits_iff ha]
  constructor
  · rintro ⟨fuel, r, hr, hsafe⟩
    rw [openFile_accepts ha, Option.map_eq_some_iff] at hr
    obtain ⟨size, hdouble, rfl⟩ := hr
    obtain ⟨hspan, rfl⟩ := double_some hdouble
    exact ⟨hspan, (opened_safe_iff hspan).mp hsafe⟩
  · rintro ⟨hspan, hmaster⟩
    exact ⟨32, _, openFile_eq malloc pfi ha hspan (Nat.le_refl 32),
      (opened_safe_iff hspan).mpr hmaster⟩

/-- **`PFIOpen` is total and safe** on a file if and only if the file fits: the doubling comes
to an end, and what it leaves is safe. -/
theorem openFile_safe_iff (malloc : U32 → Option (ℕ → U8)) (pfi : Pfi) (file : Option (List U8)) :
    (∃ fuel r, openFile fuel malloc pfi file = some r ∧ r.Safe) ↔
      ∀ data, file = some data → Fits malloc data := by
  cases file with
  | none => exact iff_of_true ⟨0, _, rfl, safe_of_failed rfl rfl⟩ nofun
  | some data =>
    simp only [Option.some.injEq, forall_eq']
    by_cases ha : ∃ h, Accepts data h
    · obtain ⟨h, ha⟩ := ha
      exact openFile_image_safe_iff ha
    · exact iff_of_true ⟨0, _, openFile_refuses ha 0, safe_of_failed rfl rfl⟩
        fun h hh => absurd ⟨h, hh⟩ ha

/-! ### A flash without end, and one without room -/

/-- A header whose flash ends at `pffsEnd`, with the file system at its start. -/
def headerTo (pffsEnd : U32) : PfiHeader where
  signature := 0x50464931
  offset := 0
  sysinfo :=
    { size := 0x20, hardVer := 0, biosVer := 0, biosDate := 0, sysClock := 0, vddeVoltage := 0,
      resv1 := 0, sramTop := 0, sramEnd := 0, pffsTop := flashTop, pffsEnd }

theorem accepts_headerTo (pffsEnd : U32) :
    Accepts (headerTo pffsEnd).toBytes (headerTo pffsEnd) where
  length := Nat.le_refl _
  header := (PfiHeader.ofBytes_toBytes _).symm
  signature := decide_eq_true (by decide : (0x50464931 : U32) &&& 0xFFFFFF00 = 0x50464900)

/-- **No end and no room**: with `pffs_end` at 0 the size is doubled for ever, and with
`pffs_end` at the top of the flash 40 bytes are stored in a buffer of one. -/
theorem headerTo_unsafe :
    (¬∃ fuel r, openFile fuel (fun _ => some fun _ => 0) ⟨headerTo 0, none, 0⟩
      (some (headerTo 0).toBytes) = some r ∧ r.Safe) ∧
    ¬∃ fuel r, openFile fuel (fun _ => some fun _ => 0) ⟨headerTo flashTop, none, 0⟩
      (some (headerTo flashTop).toBytes) = some r ∧ r.Safe := by
  constructor
  · rw [openFile_image_safe_iff (accepts_headerTo 0), fits_iff (accepts_headerTo 0)]
    rintro ⟨hspan, -⟩
    exact absurd hspan (by decide)
  · rw [openFile_image_safe_iff (accepts_headerTo _), fits_iff (accepts_headerTo _)]
    rintro ⟨-, hmaster⟩
    have hsize : deviceSize (span (headerTo flashTop)) = 1 := by
      rw [deviceSize, show (span (headerTo flashTop)).toNat = 0 from rfl, Nat.clog_zero_right,
        Nat.pow_zero]
    rw [hsize] at hmaster
    exact absurd (hmaster (Option.some_ne_none _)) (by decide)

end Pfi
