import Mathlib.Data.Finset.Card
import Mathlib.Data.Finset.Dedup
import PieceEmu.Tools.PffsAllocate
import PieceEmu.Tools.PffsName

/-!
# Well-formed file systems

An image is well formed when its directory entries partition the sectors in use:
every entry has a valid name of its own, and a chain of exactly as many sectors as
its size asks for, which no other entry shares; and a sector is free exactly when no
chain runs through it (`Pffs.WellFormed`). The sectors a file must never use, the
master block among them, are a parameter of the notion.

Adding and deleting change one entry. What the other entries leave for it is its
*slot* (`Pffs.Slot`), and an allocation inside a slot keeps the image well formed
(`Pffs.Slot.wellFormed`). That settles every operation but one: a file whose length
is within a sector of 4 GB wraps the sum in the number of sectors, gets none of them,
and is recorded with its full size (`Pffs.kept_iff`).
-/

namespace Pffs

open LinkedCells

/-! ### The notion -/

/-- The number of sectors of a file. -/
def sectorsFor (size : U32) : ℕ := (size.toNat + 4095) / 4096

/-- An entry that holds a file. -/
def Used (img : Image) (i : ℕ) : Prop := i < maxDir ∧ (img.msb.dir i).inUse = true

/-- **A well-formed image.** `chains i` are the sectors of entry `i`, and `reserved`
the sectors that no file may use. -/
structure WellFormed (reserved : ℕ → Prop) (img : Image) (chains : ℕ → List ℕ) : Prop where
  master : reserved 0
  valid : ∀ i, Used img i → checkFileName (img.msb.dir i).name = 0
  unique : ∀ i j, Used img i → Used img j →
    cstr (img.msb.dir i).name = cstr (img.msb.dir j).name → i = j
  chain : ∀ i, Used img i → Chain img.msb (.dir i) (chains i) fatEnd
  acyclic : ∀ i, Used img i → (chains i).Nodup
  inside : ∀ i, Used img i → ∀ s ∈ chains i, s < img.maxFat
  avoids : ∀ i, Used img i → ∀ s ∈ chains i, ¬reserved s
  count : ∀ i, Used img i → (chains i).length = sectorsFor (img.msb.dir i).size
  disjoint : ∀ i j, Used img i → Used img j → i ≠ j → ∀ s ∈ chains i, s ∉ chains j
  free : ∀ s < img.maxFat,
    img.msb.fat s = fatFree ↔ ¬reserved s ∧ ∀ i, Used img i → s ∉ chains i

/-- **Sectors in order**: what a well-formed image says of its sectors, and nothing of
its names. `sectors` is the number of sectors for each size: `sectorsFor`, or
`sectorsOf`, which is what the code computes. -/
structure Linked (sectors : U32 → ℕ) (reserved : ℕ → Prop) (img : Image)
    (chains : ℕ → List ℕ) : Prop where
  master : reserved 0
  chain : ∀ i, Used img i → Chain img.msb (.dir i) (chains i) fatEnd
  acyclic : ∀ i, Used img i → (chains i).Nodup
  inside : ∀ i, Used img i → ∀ s ∈ chains i, s < img.maxFat
  avoids : ∀ i, Used img i → ∀ s ∈ chains i, ¬reserved s
  count : ∀ i, Used img i → (chains i).length = sectors (img.msb.dir i).size
  disjoint : ∀ i j, Used img i → Used img j → i ≠ j → ∀ s ∈ chains i, s ∉ chains j
  free : ∀ s < img.maxFat,
    img.msb.fat s = fatFree ↔ ¬reserved s ∧ ∀ i, Used img i → s ∉ chains i

variable {reserved : ℕ → Prop} {img : Image} {chains : ℕ → List ℕ} {sectors : U32 → ℕ}

theorem WellFormed.linked (h : WellFormed reserved img chains) :
    Linked sectorsFor reserved img chains where
  master := h.master
  chain := h.chain
  acyclic := h.acyclic
  inside := h.inside
  avoids := h.avoids
  count := h.count
  disjoint := h.disjoint
  free := h.free

/-- A well-formed image has its sectors in order, and valid names that are all
different. -/
theorem Linked.wellFormed (h : Linked sectorsFor reserved img chains)
    (valid : ∀ i, Used img i → checkFileName (img.msb.dir i).name = 0)
    (unique : ∀ i j, Used img i → Used img j →
      cstr (img.msb.dir i).name = cstr (img.msb.dir j).name → i = j) :
    WellFormed reserved img chains where
  master := h.master
  valid := valid
  unique := unique
  chain := h.chain
  acyclic := h.acyclic
  inside := h.inside
  avoids := h.avoids
  count := h.count
  disjoint := h.disjoint
  free := h.free

theorem maxFat_le (img : Image) : img.maxFat ≤ maxFat := Nat.min_le_right _ _

/-- Sectors that are all different and all in range are few. -/
theorem length_le_of_nodup {l : List ℕ} {n : ℕ} (hnd : l.Nodup) (hlt : ∀ s ∈ l, s < n) :
    l.length ≤ n := by
  rw [← List.toFinset_card_of_nodup hnd, ← Finset.card_range n]
  refine Finset.card_le_card fun s hs => ?_
  exact Finset.mem_range.mpr (hlt s (List.mem_toFinset.mp hs))

/-- **Files fit into the table.** -/
theorem Linked.sectorsFor_le (h : Linked sectorsFor reserved img chains) {i : ℕ}
    (hi : Used img i) :
    sectorsFor (img.msb.dir i).size ≤ maxFat := by
  rw [← h.count i hi]
  exact (length_le_of_nodup (h.acyclic i hi) (h.inside i hi)).trans (maxFat_le img)

/-- The code computes the number of sectors right for every size up to `FFFFF000`. -/
theorem sectorsOf_eq {size : U32} (h : size.toNat ≤ 0xFFFFF000) :
    sectorsOf size = sectorsFor size := by
  rw [sectorsOf, sectorsFor, BitVec.toNat_ushiftRight, BitVec.toNat_add, Nat.shiftRight_eq_div_pow,
    Nat.mod_eq_of_lt]
  · rfl
  · have : (4095 : U32).toNat = 4095 := rfl
    omega

/-- Above, the sum wraps. -/
theorem sectorsOf_eq_zero {size : U32} (h : 0xFFFFF000 < size.toNat) : sectorsOf size = 0 := by
  have h4095 : (4095 : U32).toNat = 4095 := rfl
  have hlt := size.isLt
  rw [sectorsOf, BitVec.toNat_ushiftRight, BitVec.toNat_add, Nat.shiftRight_eq_div_pow, h4095]
  omega

/-- The sizes of files that fit are far below that. -/
theorem Linked.ofCode (h : Linked sectorsFor reserved img chains) :
    Linked sectorsOf reserved img chains where
  master := h.master
  chain := h.chain
  acyclic := h.acyclic
  inside := h.inside
  avoids := h.avoids
  count i hi := by
    rw [h.count i hi]
    refine (sectorsOf_eq ?_).symm
    have hle := h.sectorsFor_le hi
    rw [sectorsFor, maxFat] at hle
    omega
  disjoint := h.disjoint
  free := h.free

/-! ### Looking a file up -/

theorem findFile_some {m : MasterBlock} {name : List U8} {i : ℕ} (h : findFile m name = some i) :
    checkFileName name = 0 ∧ i < maxDir ∧ (m.dir i).inUse = true ∧
      strncmpEq 24 (m.dir i).name name = true := by
  rw [findFile] at h
  split_ifs at h with hc
  have hmem := List.mem_of_find?_eq_some h
  have hp := List.find?_some h
  rw [Bool.and_eq_true] at hp
  exact ⟨not_not.mp hc, List.mem_range.mp hmem, hp⟩

theorem findFile_none {m : MasterBlock} {name : List U8} (hname : checkFileName name = 0)
    (h : findFile m name = none) {i : ℕ} (hi : i < maxDir) (hu : (m.dir i).inUse = true) :
    strncmpEq 24 (m.dir i).name name ≠ true := by
  rw [findFile, if_neg (not_not.mpr hname), List.find?_eq_none] at h
  have := h i (List.mem_range.mpr hi)
  rw [hu, Bool.true_and] at this
  exact this

/-- **Looking up in a well-formed image** finds the one entry of that name. -/
theorem WellFormed.findFile_eq_some (h : WellFormed reserved img chains) {name : List U8} {i : ℕ}
    (hname : checkFileName name = 0) :
    findFile img.msb name = some i ↔ Used img i ∧ cstr (img.msb.dir i).name = cstr name := by
  constructor
  · intro hf
    obtain ⟨-, hi, hu, hcmp⟩ := findFile_some hf
    have hused : Used img i := ⟨hi, hu⟩
    exact ⟨hused, (strncmpEq_iff_of_valid (h.valid i hused) hname).mp hcmp⟩
  · rintro ⟨hused, heq⟩
    cases hf : findFile img.msb name with
    | none =>
      exact absurd ((strncmpEq_iff_of_valid (h.valid i hused) hname).mpr heq)
        (findFile_none hname hf hused.1 hused.2)
    | some j =>
      obtain ⟨-, hj, hu, hcmp⟩ := findFile_some hf
      have hj' : Used img j := ⟨hj, hu⟩
      have hj'' := (strncmpEq_iff_of_valid (h.valid j hj') hname).mp hcmp
      rw [h.unique i j hused hj' (heq.trans hj''.symm)]

/-- The number of sectors of the file with a name, 0 if there is none. -/
def sectorCount (img : Image) (name : List U8) : ℕ :=
  match findFile img.msb name with
  | none => 0
  | some i => sectorsFor (img.msb.dir i).size

/-! ### One entry and the others -/

/-- **The slot of an entry**: the sectors `l` it holds, or none if it holds no file,
as seen against those of the other entries. -/
structure Slot (reserved : ℕ → Prop) (img : Image) (chains : ℕ → List ℕ) (i : ℕ) (l : List ℕ) :
    Prop where
  nodup : l.Nodup
  inside : ∀ s ∈ l, s < img.maxFat
  avoids : ∀ s ∈ l, ¬reserved s
  disjoint : ∀ j, Used img j → j ≠ i → ∀ s ∈ chains j, s ∉ l
  free : ∀ s < img.maxFat, img.msb.fat s = fatFree ↔
    ¬reserved s ∧ s ∉ l ∧ ∀ j, Used img j → j ≠ i → s ∉ chains j

theorem Linked.slot_of_used (h : Linked sectors reserved img chains) {i : ℕ} (hi : Used img i) :
    Slot reserved img chains i (chains i) where
  nodup := h.acyclic i hi
  inside := h.inside i hi
  avoids := h.avoids i hi
  disjoint j hj hne := h.disjoint j i hj hi hne
  free s hs := by
    rw [h.free s hs]
    refine and_congr_right fun _ => ⟨fun ha => ⟨ha i hi, fun j hj _ => ha j hj⟩, fun ha j hj => ?_⟩
    by_cases hji : j = i
    · exact hji ▸ ha.1
    · exact ha.2 j hj hji

theorem Linked.slot_of_not_used (h : Linked sectors reserved img chains) {i : ℕ}
    (hi : ¬Used img i) : Slot reserved img chains i [] where
  nodup := List.nodup_nil
  inside s hs := absurd hs List.not_mem_nil
  avoids s hs := absurd hs List.not_mem_nil
  disjoint j _ _ s _ := List.not_mem_nil
  free s hs := by
    rw [h.free s hs]
    refine and_congr_right fun _ => ⟨fun ha => ⟨List.not_mem_nil, fun j hj _ => ha j hj⟩,
      fun ha j hj => ha.2 j hj fun hji => hi (hji ▸ hj)⟩

/-- A sector of a slot is not marked as free. -/
theorem Slot.fat_ne_free {i : ℕ} {l : List ℕ} (h : Slot reserved img chains i l) {s : ℕ}
    (hs : s ∈ l) : img.msb.fat s ≠ fatFree := fun heq =>
  ((h.free s (h.inside s hs)).mp heq).2.1 hs

/-- A master block in which the entry `i` has been made ready for a file of this name:
the other entries and the table are untouched. -/
structure Prepared (img : Image) (m : MasterBlock) (i : ℕ) (name : List U8) : Prop where
  lt : i < maxDir
  dir_eq : ∀ j, j ≠ i → m.dir j = img.msb.dir j
  fat_eq : m.fat = img.msb.fat
  inUse : (m.dir i).inUse = true
  bears : cstr (m.dir i).name = cstr name
  others : ∀ j, Used img j → j ≠ i → cstr (img.msb.dir j).name ≠ cstr name

/-- The part of this that is not about names. -/
structure Ready (img : Image) (m : MasterBlock) (i : ℕ) : Prop where
  lt : i < maxDir
  dir_eq : ∀ j, j ≠ i → m.dir j = img.msb.dir j
  fat_eq : m.fat = img.msb.fat
  inUse : (m.dir i).inUse = true

theorem Prepared.ready {m : MasterBlock} {i : ℕ} {name : List U8}
    (h : Prepared img m i name) : Ready img m i :=
  ⟨h.lt, h.dir_eq, h.fat_eq, h.inUse⟩

section Alloc

variable {m m' : MasterBlock} {i : ℕ} {name : List U8} {l q : List ℕ}

theorem Ready.used_iff (hready : Ready img m i)
    (halloc : Allocated img.maxFat m m' i l q) (data : ℕ → ℕ → U8) (j : ℕ) :
    Used { img with msb := m', data } j ↔ j = i ∨ j ≠ i ∧ Used img j := by
  by_cases hj : j = i
  · subst hj
    refine iff_of_true ⟨hready.lt, ?_⟩ (.inl rfl)
    show (m'.dir j).inUse = true
    rw [halloc.entry]
    exact hready.inUse
  · show (j < maxDir ∧ (m'.dir j).inUse = true) ↔ _
    rw [halloc.dir_eq j hj, hready.dir_eq j hj]
    simp [hj, Used]

/-- A sector of another file is neither in the slot nor among the new sectors. -/
theorem Slot.not_mem_of_other (hslot : Slot reserved img chains i l)
    (hready : Ready img m i)
    (halloc : Allocated img.maxFat m m' i l q) {j : ℕ} (hj : Used img j) (hji : j ≠ i) {s : ℕ}
    (hs : s ∈ chains j) : s ∉ l ∧ s ∉ q := by
  have hl := hslot.disjoint j hj hji s hs
  refine ⟨hl, fun hq => ?_⟩
  rcases halloc.sound s hq with h | ⟨hlt, hfree⟩
  · exact hl h
  · rw [hready.fat_eq] at hfree
    exact ((hslot.free s hlt).mp hfree).2.2 j hj hji hs

theorem Slot.mem_new (hslot : Slot reserved img chains i l) (hready : Ready img m i)
    (halloc : Allocated img.maxFat m m' i l q) {s : ℕ} (hs : s ∈ q) :
    s < img.maxFat ∧ ¬reserved s := by
  rcases halloc.sound s hs with h | ⟨hlt, hfree⟩
  · exact ⟨hslot.inside s h, hslot.avoids s h⟩
  · rw [hready.fat_eq] at hfree
    exact ⟨hlt, ((hslot.free s hlt).mp hfree).1⟩

/-- The other entries and their chains are as before. -/
theorem Slot.other_eq (hslot : Slot reserved img chains i l) (hready : Ready img m i)
    (halloc : Allocated img.maxFat m m' i l q) {j : ℕ} (hj : Used img j) (hji : j ≠ i) :
    m'.dir j = img.msb.dir j ∧ ∀ s ∈ chains j, m'.fat s = img.msb.fat s := by
  refine ⟨(halloc.dir_eq j hji).trans (hready.dir_eq j hji), fun s hs => ?_⟩
  obtain ⟨hl, hq⟩ := hslot.not_mem_of_other hready halloc hj hji hs
  rw [halloc.fat_eq s hl hq, hready.fat_eq]

/-- Which sectors an allocation leaves free. -/
theorem Slot.free_iff (hslot : Slot reserved img chains i l) (hready : Ready img m i)
    (halloc : Allocated img.maxFat m m' i l q) (s : ℕ) :
    m'.fat s = fatFree ↔ s ∉ q ∧ (s ∈ l ∨ img.msb.fat s = fatFree) := by
  by_cases hq : s ∈ q
  · refine iff_of_false ?_ fun h => h.1 hq
    exact Chain.fat_ne_free halloc.path (by decide)
      (fun s hs => (hslot.mem_new hready halloc hs).1.trans_le (maxFat_le img)) hq
  · by_cases hl : s ∈ l
    · exact iff_of_true (halloc.released s hl hq) ⟨hq, .inl hl⟩
    · rw [halloc.fat_eq s hl hq, hready.fat_eq]
      simp [hq, hl]

/-- **An allocation inside a slot keeps the sectors in order.** -/
theorem Slot.linked (hslot : Slot reserved img chains i l)
    (h : Linked sectors reserved img chains) (hready : Ready img m i)
    (halloc : Allocated img.maxFat m m' i l q) (hlen : q.length = sectors (m.dir i).size)
    (data : ℕ → ℕ → U8) :
    Linked sectors reserved { img with msb := m', data } (Function.update chains i q) := by
  have hsize : (m'.dir i).size = (m.dir i).size := by rw [halloc.entry]
  have hother := fun j hj hji => hslot.other_eq hready halloc (j := j) hj hji
  have hused := fun j => (hready.used_iff halloc data j).mp
  -- each field for the file in the slot, then for the others, which the allocation leaves alone
  refine
    { master := h.master, chain := fun j hj => ?_, acyclic := fun j hj => ?_
      inside := fun j hj s hs => ?_, avoids := fun j hj s hs => ?_, count := fun j hj => ?_
      disjoint := fun j k hj hk hjk s hs => ?_, free := fun s hs => ?_ }
  · rcases hused j hj with rfl | ⟨hji, hj⟩
    · rw [Function.update_self]
      exact halloc.path
    · rw [Function.update_of_ne hji]
      refine (path_congr fun c hc => ?_).mp (h.chain j hj)
      rcases List.mem_cons.mp hc with rfl | hc
      · exact congrArg Directory.chain (hother j hj hji).1.symm
      · obtain ⟨s, hs, rfl⟩ := List.mem_map.mp hc
        exact ((hother j hj hji).2 s hs).symm
  · rcases hused j hj with rfl | ⟨hji, hj⟩
    · rw [Function.update_self]
      exact halloc.nodup
    · rw [Function.update_of_ne hji]
      exact h.acyclic j hj
  · rcases hused j hj with rfl | ⟨hji, hj⟩
    · rw [Function.update_self] at hs
      exact (hslot.mem_new hready halloc hs).1
    · rw [Function.update_of_ne hji] at hs
      exact h.inside j hj s hs
  · rcases hused j hj with rfl | ⟨hji, hj⟩
    · rw [Function.update_self] at hs
      exact (hslot.mem_new hready halloc hs).2
    · rw [Function.update_of_ne hji] at hs
      exact h.avoids j hj s hs
  · rcases hused j hj with rfl | ⟨hji, hj⟩
    · rw [Function.update_self, hlen]
      exact congrArg sectors hsize.symm
    · rw [Function.update_of_ne hji, h.count j hj]
      exact congrArg (fun d => sectors (Directory.size d)) (hother j hj hji).1.symm
  · rcases hused j hj with rfl | ⟨hji, hj⟩ <;> rcases hused k hk with rfl | ⟨hki, hk⟩
    · exact absurd rfl hjk
    · rw [Function.update_self] at hs
      rw [Function.update_of_ne hki]
      exact fun hs' => (hslot.not_mem_of_other hready halloc hk hki hs').2 hs
    · rw [Function.update_of_ne hji] at hs
      rw [Function.update_self]
      exact (hslot.not_mem_of_other hready halloc hj hji hs).2
    · rw [Function.update_of_ne hji] at hs
      rw [Function.update_of_ne hki]
      exact h.disjoint j k hj hk hjk s hs
  · refine (hslot.free_iff hready halloc s).trans ?_
    rw [hslot.free s hs]
    constructor
    · rintro ⟨hq, hl⟩
      refine ⟨hl.elim (hslot.avoids s) fun hf => hf.1, fun j hj => ?_⟩
      rcases hused j hj with rfl | ⟨hji, hj⟩
      · rwa [Function.update_self]
      · rw [Function.update_of_ne hji]
        exact fun hs' => hl.elim (hslot.disjoint j hj hji s hs') fun hf => hf.2.2 j hj hji hs'
    · rintro ⟨hres, hall⟩
      have hq := hall i ((hready.used_iff halloc data i).mpr (.inl rfl))
      rw [Function.update_self] at hq
      refine ⟨hq, or_iff_not_imp_left.mpr fun hl => ⟨hres, hl, fun j hj hji hs' => ?_⟩⟩
      have hj' := hall j ((hready.used_iff halloc data j).mpr (.inr ⟨hji, hj⟩))
      rw [Function.update_of_ne hji] at hj'
      exact hj' hs'

/-- **An allocation inside a slot keeps the image well formed.** -/
theorem Slot.wellFormed (hslot : Slot reserved img chains i l)
    (hwf : WellFormed reserved img chains) (hprep : Prepared img m i name)
    (hname : checkFileName name = 0) (halloc : Allocated img.maxFat m m' i l q)
    (hlen : q.length = sectorsFor (m.dir i).size) (data : ℕ → ℕ → U8) :
    WellFormed reserved { img with msb := m', data } (Function.update chains i q) := by
  have hentry : (m'.dir i).name = (m.dir i).name := by rw [halloc.entry]
  have hother := fun j hj hji => (hslot.other_eq hprep.ready halloc (j := j) hj hji).1
  have hused := fun j => (hprep.ready.used_iff halloc data j).mp
  refine (hslot.linked hwf.linked hprep.ready halloc hlen data).wellFormed (fun j hj => ?_)
    fun j k hj hk heq => ?_
  · show checkFileName (m'.dir j).name = 0
    rcases hused j hj with rfl | ⟨hji, hj⟩
    · rw [hentry, checkFileName_congr hprep.bears, hname]
    · rw [hother j hj hji]
      exact hwf.valid j hj
  · change cstr (m'.dir j).name = cstr (m'.dir k).name at heq
    rcases hused j hj with rfl | ⟨hji, hj⟩ <;> rcases hused k hk with rfl | ⟨hki, hk⟩
    · rfl
    · rw [hentry, hother k hk hki, hprep.bears] at heq
      exact absurd heq.symm (hprep.others k hk hki)
    · rw [hentry, hother j hj hji, hprep.bears] at heq
      exact absurd heq (hprep.others j hj hji)
    · rw [hother j hj hji, hother k hk hki] at heq
      exact hwf.unique j k hj hk heq

end Alloc

end Pffs
