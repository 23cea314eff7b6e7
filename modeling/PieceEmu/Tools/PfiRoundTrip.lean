import PieceEmu.Tools.Pfi

/-!
# An image that is saved and opened again

`PFISave` writes the header at the fixed layout, whatever the layout of the file it came from,
and the whole buffer behind it, so also the part of the device past the end of the file. What
`PFIOpen` makes of that is the handle that was saved, but for the offset, which a save sets: so
from the second save on the file no longer changes.
-/

namespace Pfi

/-- The handle after its image was saved. -/
def saved (pfi : Pfi) : Pfi where
  header := { pfi.header with offset := BitVec.ofNat 32 PfiHeader.imageOffset }
  buffer := pfi.buffer
  size := pfi.size

theorem save_eq (pfi : Pfi) (mem : ℕ → U8) :
    pfi.save true mem =
      (some (pfi.saved.header.area ++ (List.range pfi.size.toNat).map mem), pfi.saved) := rfl

/-- **A saved image** depends on the header, the size and the bytes of the buffer within it. -/
theorem save_congr {pfi pfi' : Pfi} {mem mem' : ℕ → U8} (hheader : pfi'.header = pfi.saved.header)
    (hsize : pfi'.size = pfi.size) (hmem : ∀ i < pfi.size.toNat, mem' i = mem i) :
    (pfi'.save true mem').1 = (pfi.save true mem).1 := by
  have himage : (List.range pfi.size.toNat).map mem' = (List.range pfi.size.toNat).map mem :=
    List.map_congr_left fun i hi => hmem i (List.mem_range.mp hi)
  have hsaved : pfi'.saved.header = pfi.saved.header := by rw [saved, hheader, saved]
  rw [save_eq, save_eq, hsaved, hsize, himage]

/-- **Save and open**: of a handle that was opened, with anything in its buffer since, the file
that is saved is opened to the same handle, at the offset of a save, with the same bytes; and it
is saved to the same file. -/
theorem save_openFile {fuel fuel' : ℕ} {malloc malloc' : U32 → Option (ℕ → U8)} {pfi pfi' : Pfi}
    {file : Option (List U8)} {r : OpenedPfi} {mem₀ : ℕ → U8}
    (hopen : openFile fuel malloc pfi file = some r) (hok : r.ok = true)
    (hmin : 4096 ≤ (span r.pfi.header).toNat) (hmax : (span r.pfi.header).toNat ≤ 2 ^ 31)
    (hmalloc : malloc' r.pfi.size = some mem₀) (hfuel : 32 ≤ fuel') (mem : ℕ → U8) :
    ∃ r' mem', openFile fuel' malloc' pfi' (r.pfi.save true mem).1 = some r' ∧ r'.ok = true ∧
      r'.pfi = { r.pfi.saved with buffer := some mem' } ∧
      (∀ i < r.pfi.size.toNat, mem' i = mem i) ∧
      (r'.pfi.save true mem').1 = (r.pfi.save true mem).1 := by
  obtain ⟨hsig, -, hsize⟩ := openFile_ok hopen hok
  have hspan : span r.pfi.saved.header = span r.pfi.header := rfl
  have htoNat : r.pfi.size.toNat = deviceSize (span r.pfi.header) := by
    rw [hsize, toNat_deviceSize hmax]
  have hchunk : chunk ≤ deviceSize (span r.pfi.header) := hmin.trans (span_le_deviceSize _)
  obtain ⟨stores, hagain⟩ := openFile_area pfi' (h := r.pfi.saved.header) hsig rfl hmax hchunk
    hfuel (hsize ▸ hmalloc) ((List.range r.pfi.size.toNat).map mem)
  -- the file holds the whole device, so nothing of the new buffer shows
  have hlen : ((List.range r.pfi.size.toNat).map mem).length = r.pfi.size.toNat := by
    rw [List.length_map, List.length_range]
  have htake : ((List.range r.pfi.size.toNat).map mem).take (deviceSize (span r.pfi.header)) =
      (List.range r.pfi.size.toNat).map mem :=
    List.take_of_length_le (Nat.le_of_eq (hlen.trans htoNat))
  rw [hspan, htake, ← hsize] at hagain
  have hmem (i : ℕ) (hi : i < r.pfi.size.toNat) :
      blit mem₀ 0 ((List.range r.pfi.size.toNat).map mem) i = mem i :=
    blit_map_range (Nat.zero_le i) hi
  exact ⟨_, _, hagain, rfl, rfl, hmem, save_congr rfl rfl hmem⟩

/-- A header that puts its image right behind itself, of a device of 4 KB. -/
def tightHeader : PfiHeader where
  signature := 0x50464932
  offset := 40
  sysinfo :=
    { size := 0x20, hardVer := 0x100, biosVer := 0x11d, biosDate := 0xaa7, sysClock := 0x016e3600,
      vddeVoltage := 0xce4, resv1 := 0, sramTop := 0x100000, sramEnd := 0x140000
      pffsTop := 0xC00000, pffsEnd := 0xC01000 }

theorem save_openFile_tightHeader :
    ∃ r, openFile 32 (fun _ => some fun _ => 0) ⟨tightHeader, none, 0⟩
        (some (tightHeader.toBytes ++ [1, 2, 3])) = some r ∧
      ∃ r' mem', openFile 32 (fun _ => some fun _ => 0) ⟨tightHeader, none, 0⟩
          (r.pfi.save true fun _ => 7).1 = some r' ∧ r'.ok = true ∧
        r'.pfi = { r.pfi.saved with buffer := some mem' } ∧
        (∀ i < r.pfi.size.toNat, mem' i = 7) ∧
        (r'.pfi.save true mem').1 = (r.pfi.save true fun _ => 7).1 := by
  have hmin : 4096 ≤ (span tightHeader).toNat := by decide
  have hmax : (span tightHeader).toNat ≤ 2 ^ 31 := by decide
  have haccepts : Accepts (tightHeader.toBytes ++ [1, 2, 3]) tightHeader :=
    { length := by decide
      header := by rw [List.take_left' (PfiHeader.toBytes_length _), PfiHeader.ofBytes_toBytes]
      signature := by decide }
  have hopen := (openFile_eq (fun _ => some fun _ => 0) ⟨tightHeader, none, 0⟩ haccepts hmax
    (Nat.le_refl 32)).trans (congrArg some (opened_of_malloc_some rfl))
  exact ⟨_, hopen, save_openFile hopen rfl hmin hmax rfl (Nat.le_refl 32) fun _ => 7⟩

end Pfi
