import Mathlib.Data.List.Find
import PieceEmu.Tools.PffsContents
import PieceEmu.Tools.PfiFormat

/-!
# The file system in a flash image

The tools work on the bytes of a buffer: the master block is a `pffsMASTERBLOCK` at
`pffs_top`, and sector `s` of the area is 4096 bytes from there. `Pffs.imageOf` reads an
image off a buffer, and `Pffs.bufferOf` is the buffer with an image in it.

| from `pffs_top` | what |
|---|---|
| 0 | `mark`, which no tool looks at |
| 32 | the entries, 32 bytes each |
| 3104 | the links, 2 bytes each |
| 4096 `s` | sector `s` |

An image that was put into a buffer is read off it again, but for what nobody looks at
(`Pffs.SameImage`): the bytes of sector 0, where the master block is, and entries and links
that do not exist. Two images that are the same in this sense are well formed together, and
have the same files.
-/

namespace Pffs

open LinkedCells

/-! ### Layout -/

/-- The place of the area in the buffer, `pffs_top - FLASH_TOP`. -/
def areaOf (h : PfiHeader) : ℕ := (h.sysinfo.pffsTop - flashTop).toNat

/-- A `DIRECTORY` in memory. -/
def dirAt (mem : ℕ → U8) (p : ℕ) : Directory where
  name := (List.range 24).map fun i => mem (p + i)
  name_length := by rw [List.length_map, List.length_range]
  attr := mem (p + 24)
  resv := mem (p + 25)
  chain := Words.le16 mem (p + 26)
  size := Words.le32 mem (p + 28)

/-- The image in a buffer. -/
def imageOf (h : PfiHeader) (mem : ℕ → U8) : Image where
  pffsTop := h.sysinfo.pffsTop
  pffsEnd := h.sysinfo.pffsEnd
  msb :=
    { dir := fun i => dirAt mem (areaOf h + 32 + 32 * i)
      fat := fun s => Words.le16 mem (areaOf h + 3104 + 2 * s) }
  data s j := if j < 4096 then mem (areaOf h + 4096 * s + j) else 0

/-- The bytes of an entry. -/
def Directory.toBytes (d : Directory) : List U8 :=
  d.name ++ (d.attr :: d.resv :: (Words.bytes16 d.chain ++ Words.bytes32 d.size))

/-- A byte of the master block, behind `mark`. -/
def MasterBlock.byte (m : MasterBlock) (q : ℕ) : U8 :=
  if q < 3104 then (m.dir ((q - 32) / 32)).toBytes.getD ((q - 32) % 32) 0
  else (Words.bytes16 (m.fat ((q - 3104) / 2))).getD ((q - 3104) % 2) 0

/-- The buffer with an image in it. -/
def bufferOf (h : PfiHeader) (mem : ℕ → U8) (img : Image) : ℕ → U8 := fun p =>
  if p < areaOf h + 32 then mem p
  else if p < areaOf h + 4096 then img.msb.byte (p - areaOf h)
  else img.data ((p - areaOf h) / 4096) ((p - areaOf h) % 4096)

/-- An entry is its 32 bytes. -/
theorem dirAt_congr {mem mem' : ℕ → U8} {p : ℕ} (h : ∀ i < 32, mem' (p + i) = mem (p + i)) :
    dirAt mem' p = dirAt mem p := by
  simp only [dirAt, Directory.mk.injEq]
  refine ⟨List.map_congr_left fun i hi => h i ?_, h 24 (by omega), h 25 (by omega),
    Words.le16_eq fun k hk => ?_, Words.le32_eq fun k hk => ?_⟩
  · exact (List.mem_range.mp hi).trans (by omega)
  · rw [Nat.add_assoc]
    exact h (26 + k) (by omega)
  · rw [Nat.add_assoc]
    exact h (28 + k) (by omega)

/-- An entry is read as it was written. -/
theorem dirAt_eq {mem : ℕ → U8} {p : ℕ} {d : Directory}
    (h : ∀ i < 32, mem (p + i) = d.toBytes.getD i 0) : dirAt mem p = d := by
  obtain ⟨name, hlen, attr, resv, chain, size⟩ := d
  have hrest (i : ℕ) (hi : i < 8) : mem (p + 24 + i) =
      (attr :: resv :: (Words.bytes16 chain ++ Words.bytes32 size)).getD i 0 := by
    rw [Nat.add_assoc, h (24 + i) (by omega), Directory.toBytes,
      List.getD_append_right _ _ _ _ (Nat.le_add_right_of_le (Nat.le_of_eq hlen)), hlen,
      Nat.add_sub_cancel_left]
  simp only [dirAt, Directory.mk.injEq]
  refine ⟨List.ext_getElem ?_ fun i hi hi' => ?_, hrest 0 (by omega), hrest 1 (by omega),
    Words.le16_of_bytes (hrest 2 (by omega)) (hrest 3 (by omega)),
    Words.le32_of_bytes (hrest 4 (by omega)) (hrest 5 (by omega)) (hrest 6 (by omega))
      (hrest 7 (by omega))⟩
  · rw [List.length_map, List.length_range, hlen]
  · rw [List.getElem_map, List.getElem_range, h i (by omega), Directory.toBytes,
      List.getD_append _ _ _ _ hi', List.getD_eq_getElem _ _ hi']

/-! ### What is looked at -/

/-- **The same image**, as far as anything looks at it. -/
structure SameImage (img img' : Image) : Prop where
  pffsTop : img'.pffsTop = img.pffsTop
  pffsEnd : img'.pffsEnd = img.pffsEnd
  dir : ∀ i < maxDir, img'.msb.dir i = img.msb.dir i
  fat : ∀ s < maxFat, img'.msb.fat s = img.msb.fat s
  data : ∀ s, 0 < s → s < img.maxFat → ∀ j < 4096, img'.data s j = img.data s j

/-- **An image is read off a buffer as it was put into it.** -/
theorem sameImage_bufferOf {h : PfiHeader} (mem : ℕ → U8) {img : Image}
    (htop : img.pffsTop = h.sysinfo.pffsTop) (hend : img.pffsEnd = h.sysinfo.pffsEnd) :
    SameImage img (imageOf h (bufferOf h mem img)) where
  pffsTop := htop.symm
  pffsEnd := hend.symm
  dir i hi := by
    refine dirAt_eq fun k hk => ?_
    rw [maxDir] at hi
    have hq : areaOf h + 32 + 32 * i + k - areaOf h = 32 + 32 * i + k := by omega
    rw [bufferOf, if_neg (by omega), if_pos (by omega), hq, MasterBlock.byte, if_pos (by omega),
      show (32 + 32 * i + k - 32) / 32 = i by omega, show (32 + 32 * i + k - 32) % 32 = k by omega]
  fat s hs := by
    rw [maxFat] at hs
    have hbyte (k : ℕ) (hk : k < 2) : bufferOf h mem img (areaOf h + 3104 + 2 * s + k) =
        (Words.bytes16 (img.msb.fat s)).getD k 0 := by
      have hq : areaOf h + 3104 + 2 * s + k - areaOf h = 3104 + 2 * s + k := by omega
      rw [bufferOf, if_neg (by omega), if_pos (by omega), hq, MasterBlock.byte,
        if_neg (by omega), show (3104 + 2 * s + k - 3104) / 2 = s by omega,
        show (3104 + 2 * s + k - 3104) % 2 = k by omega]
    exact Words.le16_of_bytes (hbyte 0 (by omega)) (hbyte 1 (by omega))
  data s hs _ j hj := by
    have hq : areaOf h + 4096 * s + j - areaOf h = 4096 * s + j := by omega
    change (if j < 4096 then bufferOf h mem img (areaOf h + 4096 * s + j) else 0) = _
    rw [if_pos hj, bufferOf, if_neg (by omega), if_neg (by omega), hq,
      show (4096 * s + j) / 4096 = s by omega, show (4096 * s + j) % 4096 = j by omega]

/-- A header whose area has room for the master block. -/
structure HasArea (h : PfiHeader) : Prop where
  top_le : flashTop ≤ h.sysinfo.pffsTop
  whole : h.sysinfo.pffsTop.toNat + 4096 ≤ h.sysinfo.pffsEnd.toNat

/-- The span of the device is at least a sector. -/
theorem HasArea.chunk_le {h : PfiHeader} (harea : HasArea h) :
    4096 ≤ (h.sysinfo.pffsEnd - flashTop).toNat := by
  have hle : flashTop.toNat ≤ h.sysinfo.pffsTop.toNat := harea.top_le
  have hwhole := harea.whole
  rw [BitVec.toNat_sub_of_le (hle.trans (Nat.le_of_add_right_le hwhole))]
  omega

/-- **An image is read off the bytes up to `pffs_end`.** -/
theorem sameImage_of_bytes {h : PfiHeader} (harea : HasArea h) {mem mem' : ℕ → U8}
    (heq : ∀ p < (h.sysinfo.pffsEnd - flashTop).toNat, mem' p = mem p) :
    SameImage (imageOf h mem) (imageOf h mem') := by
  have hle : flashTop.toNat ≤ h.sysinfo.pffsTop.toNat := harea.top_le
  have hwhole := harea.whole
  have htop : areaOf h = h.sysinfo.pffsTop.toNat - flashTop.toNat :=
    BitVec.toNat_sub_of_le harea.top_le
  have hend : (h.sysinfo.pffsEnd - flashTop).toNat =
      h.sysinfo.pffsEnd.toNat - flashTop.toNat :=
    BitVec.toNat_sub_of_le (hle.trans (Nat.le_of_add_right_le hwhole))
  refine ⟨rfl, rfl, fun i hi => dirAt_congr fun k hk => heq _ ?_, fun s hs => ?_,
    fun s _ hs j hj => ?_⟩
  · rw [maxDir] at hi
    omega
  · refine Words.le16_eq fun k hk => heq _ ?_
    rw [maxFat] at hs
    omega
  · have hs' : s < (h.sysinfo.pffsEnd - h.sysinfo.pffsTop).toNat / 4096 := by
      have := hs.trans_le (Nat.min_le_left _ _)
      rwa [BitVec.toNat_ushiftRight, Nat.shiftRight_eq_div_pow] at this
    rw [BitVec.toNat_sub_of_le (Nat.le_of_add_right_le hwhole)] at hs'
    change (if j < 4096 then mem' _ else 0) = if j < 4096 then mem _ else 0
    rw [if_pos hj, if_pos hj]
    refine heq _ ?_
    omega

variable {reserved : ℕ → Prop} {img img' : Image} {chains : ℕ → List ℕ}

theorem SameImage.maxFat (h : SameImage img img') : img'.maxFat = img.maxFat := by
  rw [Image.maxFat, Image.maxFat, h.pffsTop, h.pffsEnd]

theorem SameImage.trans {img'' : Image} (h : SameImage img img') (h' : SameImage img' img'') :
    SameImage img img'' where
  pffsTop := h'.pffsTop.trans h.pffsTop
  pffsEnd := h'.pffsEnd.trans h.pffsEnd
  dir i hi := (h'.dir i hi).trans (h.dir i hi)
  fat s hs := (h'.fat s hs).trans (h.fat s hs)
  data s hs hlt j hj := (h'.data s hs (h.maxFat.symm ▸ hlt) j hj).trans (h.data s hs hlt j hj)

theorem SameImage.used_iff (h : SameImage img img') (i : ℕ) : Used img' i ↔ Used img i := by
  constructor
  · rintro ⟨hi, hin⟩
    exact ⟨hi, h.dir i hi ▸ hin⟩
  · rintro ⟨hi, hin⟩
    exact ⟨hi, (h.dir i hi).symm ▸ hin⟩

/-- **Well-formedness looks at nothing else.** -/
theorem WellFormed.same (hw : WellFormed reserved img chains) (h : SameImage img img') :
    WellFormed reserved img' chains where
  master := hw.master
  valid i hi := by
    rw [h.dir i hi.1]
    exact hw.valid i ((h.used_iff i).mp hi)
  unique i j hi hj := by
    rw [h.dir i hi.1, h.dir j hj.1]
    exact hw.unique i j ((h.used_iff i).mp hi) ((h.used_iff j).mp hj)
  chain i hi := by
    have hi' := (h.used_iff i).mp hi
    refine (path_congr fun c hc => ?_).mp (hw.chain i hi')
    rcases List.mem_cons.mp hc with rfl | hc
    · exact (congrArg Directory.chain (h.dir i hi.1)).symm
    · obtain ⟨s, hs, rfl⟩ := List.mem_map.mp hc
      exact (h.fat s ((hw.inside i hi' s hs).trans_le (maxFat_le img))).symm
  acyclic i hi := hw.acyclic i ((h.used_iff i).mp hi)
  inside i hi := h.maxFat.symm ▸ hw.inside i ((h.used_iff i).mp hi)
  avoids i hi := hw.avoids i ((h.used_iff i).mp hi)
  count i hi := by
    rw [h.dir i hi.1]
    exact hw.count i ((h.used_iff i).mp hi)
  disjoint i j hi hj := hw.disjoint i j ((h.used_iff i).mp hi) ((h.used_iff j).mp hj)
  free s hs := by
    rw [h.maxFat] at hs
    rw [h.fat s (hs.trans_le (maxFat_le img)), hw.free s hs]
    simp only [h.used_iff]

theorem SameImage.findFile (h : SameImage img img') (name : List U8) :
    findFile img'.msb name = findFile img.msb name := by
  rw [Pffs.findFile, Pffs.findFile]
  split_ifs
  · rfl
  · refine List.find?_congr fun i hi => ?_
    rw [h.dir i (List.mem_range.mp hi)]

/-- An extraction looks at the bytes of its sectors only. -/
theorem extractLoop_same (sink : Sink) {c : Cell} {q : List ℕ} (hc : Chain img.msb c q fatEnd)
    (hq : ∀ s ∈ q, s < maxFat)
    (heq : ∀ s ∈ q, img'.msb.fat s = img.msb.fat s ∧ ∀ j < 4096, img'.data s j = img.data s j)
    (fuel k remaining : ℕ) :
    extractLoop img' sink fuel k remaining (img.msb.next c) =
      extractLoop img sink fuel k remaining (img.msb.next c) := by
  induction q generalizing c fuel k remaining with
  | nil =>
    have hend : img.msb.next c = fatEnd := hc
    cases fuel with
    | zero => rfl
    | succ fuel => rw [extractLoop, extractLoop, if_pos (.inr hend), if_pos (.inr hend)]
  | cons s q ih =>
    cases fuel with
    | zero => rfl
    | succ fuel =>
      obtain ⟨hfat, hdata⟩ := heq s List.mem_cons_self
      have hrest (r : ℕ) : extractLoop img' sink fuel (k + 1) r (img.msb.fat s) =
          extractLoop img sink fuel (k + 1) r (img.msb.fat s) :=
        ih hc.2 (fun x hx => hq x (List.mem_cons_of_mem _ hx))
          (fun x hx => heq x (List.mem_cons_of_mem _ hx)) fuel (k + 1) r
      have hbytes (n : ℕ) (hn : n ≤ 4096) :
          sectorBytes (img'.data s) n = sectorBytes (img.data s) n :=
        List.map_congr_left fun j hj => hdata j ((List.mem_range.mp hj).trans_le hn)
      rw [extractLoop, extractLoop, hc.1, sectorRef_toNat (hq s List.mem_cons_self), hfat]
      simp only [hrest, hbytes _ ((sink.takes_le _ _).trans (Nat.min_le_right _ _))]

/-- **So do extractions.** -/
theorem WellFormed.extractFile_same (hw : WellFormed reserved img chains)
    (h : SameImage img img') (fuel : ℕ) (sink : Sink) (name : List U8) :
    extractFile fuel img' sink name = extractFile fuel img sink name := by
  rw [extractFile, extractFile, h.findFile]
  cases hf : Pffs.findFile img.msb name with
  | none => rfl
  | some i =>
    have hi : Used img i := ⟨(findFile_some hf).2.1, (findFile_some hf).2.2.1⟩
    have hlt (s : ℕ) (hs : s ∈ chains i) : s < Pffs.maxFat :=
      (hw.inside i hi s hs).trans_le (maxFat_le img)
    have hloop : extractLoop img' sink fuel 0 (img.msb.dir i).size.toNat (img.msb.dir i).chain =
        extractLoop img sink fuel 0 (img.msb.dir i).size.toNat (img.msb.dir i).chain :=
      extractLoop_same sink (hw.chain i hi) hlt
      (fun s hs => ⟨h.fat s (hlt s hs), h.data s
        (Nat.pos_of_ne_zero fun h0 => hw.avoids i hi s hs (h0 ▸ hw.master))
        (hw.inside i hi s hs)⟩) fuel 0 (img.msb.dir i).size.toNat
    dsimp only
    rw [h.dir i hi.1, hloop]

end Pffs
