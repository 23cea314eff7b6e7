import Mathlib.Tactic.Ring
import PieceEmu.Tools.PffsWellFormed

/-!
# Adding and deleting keep the file system

The two operations that change an image, `PFFSAddFileAs` and `PFFSDeleteFile`, and
what is asked of them (`Pffs.Kept`): the image stays well formed, no other file is
touched, and the free space accounts for the difference.

A deletion always meets this, and comes to an end on every well-formed image. An
addition meets it exactly when its file does not fall into the last sector below a
multiple of 4 GB, or when something else makes it fail first (`Pffs.Op.Fits`).
-/

namespace Pffs

open LinkedCells

variable {reserved : ℕ → Prop} {img : Image} {chains : ℕ → List ℕ} {sectors : U32 → ℕ}

/-! ### Free space -/

/-- The free sectors below `max`, as a set. -/
def freeSet (max : ℕ) (fat : ℕ → U16) : Finset ℕ :=
  (Finset.range max).filter fun s => fat s = fatFree

theorem mem_freeSet {max s : ℕ} {fat : ℕ → U16} :
    s ∈ freeSet max fat ↔ s < max ∧ fat s = fatFree := by
  rw [freeSet, Finset.mem_filter, Finset.mem_range]

theorem pffsFree_eq_card (img : Image) :
    pffsFree img = (freeSet img.maxFat img.msb.fat).card := by
  rw [pffsFree, List.countP_eq_length_filter]
  rfl

/-- Sectors that are free or on a list, counted before and after: if they are the
same, the free ones and those on the list balance. -/
theorem card_freeSet_add {max : ℕ} {fat fat' : ℕ → U16} {l q : List ℕ} (hl : l.Nodup)
    (hq : q.Nodup) (hfl : ∀ s ∈ l, fat s ≠ fatFree) (hfq : ∀ s ∈ q, fat' s ≠ fatFree)
    (h : ∀ s, s ∈ freeSet max fat' ∨ s ∈ q ↔ s ∈ freeSet max fat ∨ s ∈ l) :
    (freeSet max fat').card + q.length = (freeSet max fat).card + l.length := by
  have hnew : Disjoint (freeSet max fat') q.toFinset :=
    Finset.disjoint_left.mpr fun s hs hs' =>
      hfq s (List.mem_toFinset.mp hs') (mem_freeSet.mp hs).2
  have hold : Disjoint (freeSet max fat) l.toFinset :=
    Finset.disjoint_left.mpr fun s hs hs' =>
      hfl s (List.mem_toFinset.mp hs') (mem_freeSet.mp hs).2
  rw [← List.toFinset_card_of_nodup hq, ← List.toFinset_card_of_nodup hl,
    ← Finset.card_union_of_disjoint hold, ← Finset.card_union_of_disjoint hnew]
  refine congrArg Finset.card ?_
  ext s
  rw [Finset.mem_union, Finset.mem_union, List.mem_toFinset, List.mem_toFinset]
  exact h s

/-- **An allocation inside a slot balances**: what becomes free and what the file
holds add up to what was. -/
theorem Slot.pffsFree_add {m m' : MasterBlock} {i : ℕ} {l q : List ℕ}
    (hslot : Slot reserved img chains i l) (hready : Ready img m i)
    (halloc : Allocated img.maxFat m m' i l q) (data : ℕ → ℕ → U8) :
    pffsFree { img with msb := m', data } + q.length = pffsFree img + l.length := by
  rw [pffsFree_eq_card, pffsFree_eq_card]
  refine card_freeSet_add hslot.nodup halloc.nodup (fun s hs => hslot.fat_ne_free hs)
    (fun s hs hf => ((hslot.free_iff hready halloc s).mp hf).1 hs) fun s => ?_
  rw [mem_freeSet, mem_freeSet]
  show (s < img.maxFat ∧ m'.fat s = fatFree) ∨ s ∈ q ↔ _
  rw [hslot.free_iff hready halloc s]
  constructor
  · rintro (⟨hlt, -, hl | hf⟩ | hq)
    · exact .inr hl
    · exact .inl ⟨hlt, hf⟩
    · rcases halloc.sound s hq with hl | hf
      · exact .inr hl
      · exact .inl ⟨hf.1, hready.fat_eq ▸ hf.2⟩
  · intro h
    by_cases hq : s ∈ q
    · exact .inr hq
    · rcases h with ⟨hlt, hf⟩ | hl
      · exact .inl ⟨hlt, hq, .inr hf⟩
      · exact .inl ⟨hslot.inside s hl, hq, .inl hl⟩

/-- **Writing a file touches the sectors of its chain only.** -/
theorem writeLoop_of_not_mem {m : MasterBlock} {c : Cell} {q : List ℕ} {t : U16}
    (h : Chain m c q t) (hq : ∀ s ∈ q, s < maxFat) (bytes : List U8) (data : ℕ → ℕ → U8) {s : ℕ}
    (hs : s ∉ q) : writeLoop m.fat q.length (m.next c) bytes data s = data s := by
  induction q generalizing c bytes data with
  | nil => rfl
  | cons s₀ q ih =>
    obtain ⟨hs₀, hs⟩ := not_or.mp (mt List.mem_cons.mpr hs)
    rw [List.length_cons, writeLoop, h.1, sectorRef_toNat (hq s₀ List.mem_cons_self)]
    refine (ih h.2 (fun x hx => hq x (List.mem_cons_of_mem _ hx)) _ _ hs).trans ?_
    rw [Function.update_of_ne hs₀]

/-! ### What is asked of an operation -/

/-- An entry that holds another file. -/
def Other (img : Image) (name : List U8) (j : ℕ) : Prop :=
  Used img j ∧ cstr (img.msb.dir j).name ≠ cstr name

/-- **An operation on the file `name` keeps the image**: it stays well formed, with
the chains of the other files as they are; the entries, links and sectors of the
other files are unchanged; and when it succeeds, the free space changes by exactly
the difference in sectors. -/
def Kept (reserved : ℕ → Prop) (img : Image) (chains : ℕ → List ℕ) (name : List U8)
    (img' : Image) (success : Bool) : Prop :=
  (∃ chains', WellFormed reserved img' chains' ∧ ∀ j, Other img name j → chains' j = chains j) ∧
  (∀ j, Other img name j → img'.msb.dir j = img.msb.dir j ∧
    ∀ s ∈ chains j, img'.msb.fat s = img.msb.fat s ∧ img'.data s = img.data s) ∧
  (success = true →
    (pffsFree img' : ℤ) - pffsFree img = sectorCount img name - sectorCount img' name)

theorem Kept.refl (h : WellFormed reserved img chains) (name : List U8) :
    Kept reserved img chains name img false :=
  ⟨⟨chains, h, fun _ _ => rfl⟩, fun _ _ => ⟨rfl, fun _ _ => ⟨rfl, rfl⟩⟩,
    fun hf => absurd hf Bool.false_ne_true⟩

/-! ### Deleting -/

section Erase

variable {i : ℕ}

/-- The master block without the entry `i`, its sectors given back. -/
def erase (img : Image) (chains : ℕ → List ℕ) (i : ℕ) : MasterBlock :=
  (img.msb.withNext (freeAll Cell.fat fatFree img.msb.next (chains i))).setDir i .erased

theorem erase_dir {j : ℕ} (hj : j ≠ i) : (erase img chains i).dir j = img.msb.dir j := by
  rw [erase, MasterBlock.setDir_dir_of_ne _ hj]
  show { img.msb.dir j with
    chain := freeAll Cell.fat fatFree img.msb.next (chains i) (.dir j) } = img.msb.dir j
  rw [freeAll_of_not_mem dir_not_mem_map]
  rfl

theorem erase_fat_of_mem {s : ℕ} (hs : s ∈ chains i) : (erase img chains i).fat s = fatFree :=
  freeAll_of_mem (List.mem_map_of_mem hs)

theorem erase_fat_of_not_mem {s : ℕ} (hs : s ∉ chains i) :
    (erase img chains i).fat s = img.msb.fat s :=
  freeAll_of_not_mem (fat_not_mem_map hs)

theorem used_erase (j : ℕ) :
    Used { img with msb := erase img chains i } j ↔ j ≠ i ∧ Used img j := by
  by_cases hj : j = i
  · subst hj
    refine iff_of_false (fun hu => ?_) fun hu => hu.1 rfl
    have hin : ((erase img chains j).dir j).inUse = true := hu.2
    rw [erase, MasterBlock.setDir_dir_self] at hin
    exact absurd hin (by decide)
  · show (j < maxDir ∧ ((erase img chains i).dir j).inUse = true) ↔ _
    rw [erase_dir hj]
    simp [hj, Used]

/-- **Without one of its files, the sectors of an image are in order.** -/
theorem Linked.erase (h : Linked sectors reserved img chains) (hi : Used img i) :
    Linked sectors reserved { img with msb := Pffs.erase img chains i } chains := by
  have hne : ∀ j, Used { img with msb := Pffs.erase img chains i } j → j ≠ i := fun j hj =>
    ((used_erase j).mp hj).1
  have hold : ∀ j, Used { img with msb := Pffs.erase img chains i } j → Used img j := fun j hj =>
    ((used_erase j).mp hj).2
  refine
    { master := h.master, chain := fun j hj => ?_, acyclic := fun j hj => h.acyclic j (hold j hj)
      inside := fun j hj => h.inside j (hold j hj), avoids := fun j hj => h.avoids j (hold j hj)
      count := fun j hj => ?_
      disjoint := fun j k hj hk => h.disjoint j k (hold j hj) (hold k hk)
      free := fun s hs => ?_ }
  · refine (path_congr fun c hc => ?_).mp (h.chain j (hold j hj))
    rcases List.mem_cons.mp hc with rfl | hc
    · exact congrArg Directory.chain (erase_dir (hne j hj)).symm
    · obtain ⟨s, hs, rfl⟩ := List.mem_map.mp hc
      exact (erase_fat_of_not_mem (h.disjoint j i (hold j hj) hi (hne j hj) s hs)).symm
  · show (chains j).length = sectors ((Pffs.erase img chains i).dir j).size
    rw [erase_dir (hne j hj)]
    exact h.count j (hold j hj)
  · show (Pffs.erase img chains i).fat s = fatFree ↔ _
    by_cases hsi : s ∈ chains i
    · refine iff_of_true (erase_fat_of_mem hsi) ⟨h.avoids i hi s hsi, fun j hj hs' => ?_⟩
      exact h.disjoint j i (hold j hj) hi (hne j hj) s hs' hsi
    · rw [erase_fat_of_not_mem hsi]
      refine (h.free s hs).trans (and_congr_right fun _ => ⟨fun ha j hj => ha j (hold j hj),
        fun ha j hj => ?_⟩)
      by_cases hji : j = i
      · exact hji ▸ hsi
      · exact ha j ((used_erase j).mpr ⟨hji, hj⟩)

/-- **Without one of its files, a well-formed image is well formed.** -/
theorem WellFormed.erase (h : WellFormed reserved img chains) (hi : Used img i) :
    WellFormed reserved { img with msb := Pffs.erase img chains i } chains := by
  refine (h.linked.erase hi).wellFormed (fun j hj => ?_) fun j k hj hk hjk => ?_
  · obtain ⟨hne, hj⟩ := (used_erase j).mp hj
    show checkFileName ((Pffs.erase img chains i).dir j).name = 0
    rw [erase_dir hne]
    exact h.valid j hj
  · obtain ⟨hnej, hj⟩ := (used_erase j).mp hj
    obtain ⟨hnek, hk⟩ := (used_erase k).mp hk
    change cstr ((Pffs.erase img chains i).dir j).name =
      cstr ((Pffs.erase img chains i).dir k).name at hjk
    rw [erase_dir hnej, erase_dir hnek] at hjk
    exact h.unique j k hj hk hjk

/-- The sectors of the file are free afterwards. -/
theorem WellFormed.pffsFree_erase (h : WellFormed reserved img chains) (hi : Used img i) :
    pffsFree { img with msb := Pffs.erase img chains i } =
      pffsFree img + (chains i).length := by
  rw [pffsFree_eq_card, pffsFree_eq_card]
  refine card_freeSet_add (q := []) (h.acyclic i hi) List.nodup_nil
    (fun s hs => (h.linked.slot_of_used hi).fat_ne_free hs)
    (fun s hs => absurd hs List.not_mem_nil) fun s => ?_
  rw [mem_freeSet, mem_freeSet]
  show (s < img.maxFat ∧ (Pffs.erase img chains i).fat s = fatFree) ∨ _ ↔ _
  by_cases hs : s ∈ chains i
  · exact iff_of_true (.inl ⟨h.inside i hi s hs, erase_fat_of_mem hs⟩) (.inr hs)
  · rw [erase_fat_of_not_mem hs, or_iff_left List.not_mem_nil, or_iff_left hs]
    exact Iff.rfl

/-- The deleted name is not found any more. -/
theorem WellFormed.findFile_erase (h : WellFormed reserved img chains) (hi : Used img i)
    {name : List U8} (hname : checkFileName name = 0)
    (heq : cstr (img.msb.dir i).name = cstr name) :
    findFile (Pffs.erase img chains i) name = none := by
  cases hf : findFile (Pffs.erase img chains i) name with
  | none => rfl
  | some j =>
    obtain ⟨hj, hjn⟩ := ((h.erase hi).findFile_eq_some hname).mp hf
    obtain ⟨hne, hj'⟩ := (used_erase j).mp hj
    change cstr ((Pffs.erase img chains i).dir j).name = cstr name at hjn
    rw [erase_dir hne] at hjn
    exact absurd (h.unique j i hj' hi (hjn.trans heq.symm)) hne

end Erase

/-- **Deleting a file** comes to an end and erases its entry. -/
theorem Linked.deleteFile_eq (h : Linked sectors reserved img chains) {name : List U8} {i : ℕ}
    (hf : findFile img.msb name = some i) {fuel : ℕ} (hfuel : maxFat < fuel) :
    Pffs.deleteFile fuel img name =
      some ({ img with msb := Pffs.erase img chains i }, true) := by
  have hi : Used img i := ⟨(findFile_some hf).2.1, (findFile_some hf).2.2.1⟩
  have hlt : ∀ s ∈ chains i, s < maxFat := fun s hs =>
    (h.inside i hi s hs).trans_le (maxFat_le img)
  have hchain : freeChain fuel img.msb (img.msb.dir i).chain = _ :=
    freeChain_eq (h.chain i hi) (h.acyclic i hi) hlt
      ((length_le_of_nodup (h.acyclic i hi) hlt).trans_lt hfuel)
  simp only [Pffs.deleteFile, hf, hchain]
  rfl

/-- **Deleting a file of a well-formed image** comes to an end and keeps it. -/
theorem deleteFile_kept (h : WellFormed reserved img chains) (name : List U8) {fuel : ℕ}
    (hfuel : maxFat < fuel) :
    ∃ img' success, deleteFile fuel img name = some (img', success) ∧
      Kept reserved img chains name img' success := by
  cases hf : findFile img.msb name with
  | none => exact ⟨img, false, by rw [deleteFile, hf], Kept.refl h name⟩
  | some i =>
    have hname := (findFile_some hf).1
    obtain ⟨hi, heq⟩ := (h.findFile_eq_some hname).mp hf
    have hne : ∀ j, Other img name j → j ≠ i := by
      rintro j ⟨-, hj⟩ rfl
      exact hj heq
    refine ⟨{ img with msb := erase img chains i }, true, h.linked.deleteFile_eq hf hfuel,
      ⟨chains, h.erase hi, fun _ _ => rfl⟩,
      fun j hj => ⟨erase_dir (hne j hj), fun s hs => ⟨?_, rfl⟩⟩, fun _ => ?_⟩
    · exact erase_fat_of_not_mem (h.disjoint j i hj.1 hi (hne j hj) s hs)
    · rw [h.pffsFree_erase hi, sectorCount, hf, sectorCount, h.findFile_erase hi hname heq,
        h.count i hi]
      push_cast
      ring

/-! ### Adding -/

/-- **The entry of a file to add**: the one that is found, or a free one. -/
theorem entryFor_cases {m₀ m : MasterBlock} {name : List U8} {i old : ℕ}
    (he : entryFor m₀ name = some (m, i, old)) :
    (findFile m₀ name = some i ∧ m = m₀ ∧ old = sectorsOf (m₀.dir i).size) ∨
      (findFile m₀ name = none ∧ i < maxDir ∧ (m₀.dir i).inUse = false ∧
        m = m₀.setDir i (.fresh name) ∧ old = 0) := by
  rw [entryFor] at he
  cases hf : findFile m₀ name with
  | some j =>
    rw [hf] at he
    obtain ⟨rfl, rfl, rfl⟩ : m₀ = m ∧ j = i ∧ sectorsOf (m₀.dir j).size = old := by simpa using he
    exact .inl ⟨rfl, rfl, rfl⟩
  | none =>
    rw [hf] at he
    cases hd : findFreeDir m₀ with
    | none => simp [hd] at he
    | some j =>
      obtain ⟨rfl, rfl, rfl⟩ : m₀.setDir j (.fresh name) = m ∧ j = i ∧ 0 = old := by
        simpa [hd] using he
      have hfree : (m₀.dir j).name.headD 0 = 0xFF := of_decide_eq_true
        (List.find?_some (p := fun i => decide ((m₀.dir i).name.headD 0 = 0xFF)) hd)
      refine .inr ⟨rfl, List.mem_range.mp (List.mem_of_find?_eq_some hd), ?_, rfl, rfl⟩
      rw [Directory.inUse, hfree]
      rfl

theorem inUse_fresh {name : List U8} (hname : checkFileName name = 0) :
    (Directory.fresh name).inUse = true := by
  have hhead := headD_of_valid ((checkFileName_congr (cstr_fresh hname)).trans hname)
  rw [Directory.inUse, decide_eq_true hhead.1, decide_eq_true hhead.2]
  rfl

/-- **It is ready for allocation**: it holds as many sectors as the code believes, and
nothing else has changed. -/
theorem Linked.entryFor (h : Linked sectorsOf reserved img chains) {name : List U8}
    (hname : checkFileName name = 0) {m : MasterBlock} {i old : ℕ}
    (he : Pffs.entryFor img.msb name = some (m, i, old)) :
    ∃ l t, Slot reserved img chains i l ∧ Ready img m i ∧ Chain m (.dir i) l t ∧
      (t = fatEnd ∨ t = fatFree ∧ l = []) ∧ old = l.length := by
  rcases entryFor_cases he with ⟨hf, rfl, rfl⟩ | ⟨-, hi, hfree, rfl, rfl⟩
  · obtain ⟨-, hlt, hin, -⟩ := findFile_some hf
    have hi : Used img i := ⟨hlt, hin⟩
    exact ⟨chains i, fatEnd, h.slot_of_used hi, ⟨hlt, fun _ _ => rfl, rfl, hin⟩, h.chain i hi,
      .inl rfl, (h.count i hi).symm⟩
  · have hnot : ¬Used img i := fun hu => Bool.false_ne_true (hfree.symm.trans hu.2)
    refine ⟨[], fatFree, h.slot_of_not_used hnot,
      ⟨hi, fun k hk => img.msb.setDir_dir_of_ne hk _, rfl, ?_⟩, ?_, .inr ⟨rfl, rfl⟩, rfl⟩
    · rw [MasterBlock.setDir_dir_self]
      exact inUse_fresh hname
    · show ((img.msb.setDir i (.fresh name)).dir i).chain = fatFree
      rw [MasterBlock.setDir_dir_self]
      rfl

/-- **It bears the name**, in a well-formed image as the only one. -/
theorem WellFormed.entryFor (h : WellFormed reserved img chains) {name : List U8}
    (hname : checkFileName name = 0) {m : MasterBlock} {i old : ℕ}
    (he : Pffs.entryFor img.msb name = some (m, i, old)) :
    Prepared img m i name ∧ sectorCount img name = old ∧ ¬Other img name i := by
  obtain ⟨-, -, -, hready, -⟩ := h.linked.ofCode.entryFor hname he
  rcases entryFor_cases he with ⟨hf, rfl, rfl⟩ | ⟨hf, -, hfree, rfl, rfl⟩
  · obtain ⟨hi, heq⟩ := (h.findFile_eq_some hname).mp hf
    refine ⟨⟨hready.lt, hready.dir_eq, hready.fat_eq, hready.inUse, heq, fun k hk hki heq' =>
      hki (h.unique k i hk hi (heq'.trans heq.symm))⟩, ?_, fun ho => ho.2 heq⟩
    rw [sectorCount, hf, ← h.linked.ofCode.count i hi, h.count i hi]
  · refine ⟨⟨hready.lt, hready.dir_eq, hready.fat_eq, hready.inUse, ?_, fun k hk _ heq => ?_⟩,
      by rw [sectorCount, hf], fun ho => Bool.false_ne_true (hfree.symm.trans ho.1.2)⟩
    · rw [MasterBlock.setDir_dir_self]
      exact cstr_fresh hname
    · exact findFile_none hname hf hk.1 hk.2
        ((strncmpEq_iff_of_valid (h.valid k hk) hname).mpr heq)

/-- Setting the size of the entry changes none of this. -/
theorem Ready.setSize {m : MasterBlock} {i : ℕ} (h : Ready img m i) (size : U32) :
    Ready img (m.setDir i { m.dir i with size }) i where
  lt := h.lt
  dir_eq j hj := (m.setDir_dir_of_ne hj _).trans (h.dir_eq j hj)
  fat_eq := h.fat_eq
  inUse := by
    rw [MasterBlock.setDir_dir_self]
    exact h.inUse

theorem Prepared.setSize {m : MasterBlock} {i : ℕ} {name : List U8}
    (h : Prepared img m i name) (size : U32) :
    Prepared img (m.setDir i { m.dir i with size }) i name where
  lt := h.lt
  dir_eq := (h.ready.setSize size).dir_eq
  fat_eq := h.fat_eq
  inUse := (h.ready.setSize size).inUse
  bears := by
    rw [MasterBlock.setDir_dir_self]
    exact h.bears
  others := h.others

theorem next_setSize (m : MasterBlock) (i : ℕ) (size : U32) :
    (m.setDir i { m.dir i with size }).next = m.next := by
  funext c
  cases c with
  | fat s => rfl
  | dir j =>
    by_cases hj : j = i
    · subst hj
      show ((m.setDir j { m.dir j with size }).dir j).chain = (m.dir j).chain
      rw [MasterBlock.setDir_dir_self]
    · exact congrArg Directory.chain (m.setDir_dir_of_ne hj _)

theorem Chain.setSize {m : MasterBlock} {i : ℕ} {c : Cell} {l : List ℕ} {t : U16}
    (h : Chain m c l t) (size : U32) : Chain (m.setDir i { m.dir i with size }) c l t := by
  rw [Chain, next_setSize]
  exact h

/-- **The allocation for a file to add**: it has a slot for the sectors `l` the file
had, and gives it exactly `n` sectors `q`. -/
theorem Linked.allocated (h : Linked sectorsOf reserved img chains) {name : List U8}
    (hname : checkFileName name = 0) {m m' : MasterBlock} {i old n : ℕ} {size : U32}
    (hentry : Pffs.entryFor img.msb name = some (m, i, old))
    (halloc : allocateSectors img.maxFat (m.setDir i { m.dir i with size }) i n old = some m') :
    ∃ l q, Slot reserved img chains i l ∧ Ready img (m.setDir i { m.dir i with size }) i ∧
      Allocated img.maxFat (m.setDir i { m.dir i with size }) m' i l q ∧ old = l.length ∧
      q.length = n ∧ ∀ s ∈ q, s < maxFat := by
  obtain ⟨l, t, hslot, hready, hchain, ht, rfl⟩ := h.entryFor hname hentry
  replace hready := hready.setSize size
  obtain ⟨q, hq, hall⟩ := allocateSectors_spec (maxFat_le img) (hchain.setSize size) ht hslot.nodup
    (fun s hs => (hslot.inside s hs).trans_le (maxFat_le img))
    (fun s hs => by
      rw [hready.fat_eq]
      exact hslot.fat_ne_free hs) halloc
  exact ⟨l, q, hslot, hready, hall, rfl, hq, fun s hs =>
    (hslot.mem_new hready hall hs).1.trans_le (maxFat_le img)⟩

/-- **How an addition ends**: it fails and leaves the image alone, or all its steps
succeed. -/
theorem addFileAs_cases (img : Image) (filename : List U8) (pffsNameIn : Option (List U8))
    (disk : Disk) :
    (∃ e, addFileAs img filename pffsNameIn disk = (img, .error e)) ∨
      ∃ name content bytes m i old m',
        resolveName filename pffsNameIn = .ok name ∧ checkFileName name = 0 ∧
        disk.first = some content ∧ disk.second = some bytes ∧
        entryFor img.msb name = some (m, i, old) ∧
        allocateSectors img.maxFat
          (m.setDir i { m.dir i with size := BitVec.ofNat 32 content.length }) i
          (sectorsOf (BitVec.ofNat 32 content.length)) old = some m' ∧
        addFileAs img filename pffsNameIn disk =
          ({ img with
              msb := m'
              data := writeLoop m'.fat (sectorsOf (BitVec.ofNat 32 content.length))
                (m'.dir i).chain bytes img.data }, .ok ()) := by
  unfold addFileAs
  cases hname : resolveName filename pffsNameIn with
  | error e => exact .inl ⟨e, rfl⟩
  | ok name =>
    by_cases hcheck : checkFileName name = 0
    swap
    · exact .inl ⟨.invalidName, by simp only [ne_eq, hcheck, not_false_eq_true, if_true]⟩
    simp only [hcheck, ne_eq, not_true_eq_false, if_false]
    cases hfirst : disk.first with
    | none => exact .inl ⟨.cannotOpen, rfl⟩
    | some content =>
      cases hentry : entryFor img.msb name with
      | none => exact .inl ⟨.noFreeDir, rfl⟩
      | some r =>
        obtain ⟨m, i, old⟩ := r
        cases halloc : allocateSectors img.maxFat
          (m.setDir i { m.dir i with size := BitVec.ofNat 32 content.length }) i
          (sectorsOf (BitVec.ofNat 32 content.length)) old with
        | none => exact .inl ⟨.noSectors, by simp only [halloc]⟩
        | some m' =>
          cases hsecond : disk.second with
          | none => exact .inl ⟨.cannotWrite, by simp only [halloc, writeFileToSectors]⟩
          | some bytes =>
            exact .inr ⟨name, content, bytes, m, i, old, m', rfl, hcheck, rfl, rfl, hentry, halloc,
              by simp only [halloc, writeFileToSectors]⟩

/-- **An addition of a file whose length does not wrap** keeps the image. -/
theorem addFileAs_kept (h : WellFormed reserved img chains)
    {name content bytes : List U8} {m m' : MasterBlock} {i old : ℕ}
    (hcheck : checkFileName name = 0)
    (hentry : entryFor img.msb name = some (m, i, old))
    (halloc : allocateSectors img.maxFat
      (m.setDir i { m.dir i with size := BitVec.ofNat 32 content.length }) i
      (sectorsOf (BitVec.ofNat 32 content.length)) old = some m')
    (hsize : content.length % 2 ^ 32 ≤ 0xFFFFF000) :
    Kept reserved img chains name
      { img with
        msb := m'
        data := writeLoop m'.fat (sectorsOf (BitVec.ofNat 32 content.length))
          (m'.dir i).chain bytes img.data } true := by
  obtain ⟨hprep, hcount, hnoti⟩ := h.entryFor hcheck hentry
  obtain ⟨l, q, hslot, hready, hall, rfl, hq, hqlt⟩ :=
    h.linked.ofCode.allocated hcheck hentry halloc
  replace hprep := hprep.setSize (BitVec.ofNat 32 content.length)
  have hsize' : sectorsOf (BitVec.ofNat 32 content.length) =
      sectorsFor (BitVec.ofNat 32 content.length) :=
    sectorsOf_eq (by rwa [BitVec.toNat_ofNat])
  have hlen : q.length = sectorsFor
      ((m.setDir i { m.dir i with size := BitVec.ofNat 32 content.length }).dir i).size := by
    rw [MasterBlock.setDir_dir_self, hq, hsize']
  have hwf := hslot.wellFormed h hprep hcheck hall hlen (writeLoop m'.fat
    (sectorsOf (BitVec.ofNat 32 content.length)) (m'.dir i).chain bytes img.data)
  have hother : ∀ j, Other img name j → j ≠ i := by
    rintro j hj rfl
    exact hnoti hj
  refine ⟨⟨_, hwf, fun j hj => Function.update_of_ne (hother j hj) _ _⟩, fun j hj => ?_,
    fun _ => ?_⟩
  · -- the other files keep their entries, their chains and their sectors
    obtain ⟨hdir, hfat⟩ := hslot.other_eq hready hall hj.1 (hother j hj)
    refine ⟨hdir, fun s hs => ⟨hfat s hs, ?_⟩⟩
    have hwrite := writeLoop_of_not_mem hall.path hqlt bytes img.data
      (hslot.not_mem_of_other hready hall hj.1 (hother j hj) hs).2
    rw [hq] at hwrite
    exact hwrite
  · -- the file is found again, with its new number of sectors
    have hused := (hready.used_iff hall (writeLoop m'.fat
      (sectorsOf (BitVec.ofNat 32 content.length)) (m'.dir i).chain bytes img.data) i).mpr
      (.inl rfl)
    have hfound : findFile m' name = some i := by
      refine (hwf.findFile_eq_some hcheck).mpr ⟨hused, ?_⟩
      show cstr (m'.dir i).name = cstr name
      rw [hall.entry]
      exact hprep.bears
    have hnew : sectorCount { img with
        msb := m'
        data := writeLoop m'.fat (sectorsOf (BitVec.ofNat 32 content.length))
          (m'.dir i).chain bytes img.data } name = q.length := by
      rw [sectorCount, hfound, hlen]
      show sectorsFor (m'.dir i).size = _
      rw [hall.entry]
    have hbalance := hslot.pffsFree_add hready hall (writeLoop m'.fat
      (sectorsOf (BitVec.ofNat 32 content.length)) (m'.dir i).chain bytes img.data)
    rw [hnew, hcount]
    omega

/-- **An addition whose length wraps succeeds**, with no sectors for a file of nearly
4 GB: the image is not well formed any more. -/
theorem addFileAs_wraps (h : WellFormed reserved img chains) {filename : List U8}
    {pffsNameIn : Option (List U8)} (disk : Disk) {name content bytes : List U8}
    (hname : resolveName filename pffsNameIn = .ok name) (hcheck : checkFileName name = 0)
    (hfirst : disk.first = some content) (hsecond : disk.second = some bytes)
    (hentry : findFile img.msb name ≠ none ∨ findFreeDir img.msb ≠ none)
    (hsize : 0xFFFFF000 < content.length % 2 ^ 32) :
    (addFileAs img filename pffsNameIn disk).2 = .ok () ∧
      ∀ chains', ¬WellFormed reserved (addFileAs img filename pffsNameIn disk).1 chains' := by
  obtain ⟨⟨m, i, old⟩, hentry⟩ : ∃ r, entryFor img.msb name = some r := by
    rw [Pffs.entryFor]
    cases hf : findFile img.msb name with
    | some j => exact ⟨_, rfl⟩
    | none =>
      cases hd : findFreeDir img.msb with
      | some j => exact ⟨_, rfl⟩
      | none => exact absurd hentry (by simp [hf, hd])
  obtain ⟨l, t, hslot, hready, hchain, ht, rfl⟩ := h.linked.ofCode.entryFor hcheck hentry
  replace hready := hready.setSize (BitVec.ofNat 32 content.length)
  replace hchain := hchain.setSize (i := i) (BitVec.ofNat 32 content.length)
  have hlt : ∀ s ∈ l, s < maxFat := fun s hs => (hslot.inside s hs).trans_le (maxFat_le img)
  -- with no sectors to allocate, the allocation succeeds
  obtain ⟨m', q, halloc, hall⟩ : ∃ m' q, allocateSectors img.maxFat
      (m.setDir i { m.dir i with size := BitVec.ofNat 32 content.length }) i 0 l.length = some m' ∧
      Allocated img.maxFat
        (m.setDir i { m.dir i with size := BitVec.ofNat 32 content.length }) m' i l q := by
    rcases ht with rfl | ⟨rfl, rfl⟩
    · obtain ⟨m', hm', hall⟩ := allocateSectors_shrink img.maxFat hchain hslot.nodup hlt
        (Nat.zero_le l.length)
      exact ⟨m', _, hm', hall⟩
    · rcases allocateSectors_grow (maxFat_le img) hchain (.inl rfl) List.nodup_nil
        (fun s hs => absurd hs List.not_mem_nil) (fun s hs => absurd hs List.not_mem_nil) 0 with
        ⟨hlt0, -⟩ | ⟨m', hm', hall, -⟩
      · exact absurd hlt0 (Nat.not_lt_zero _)
      · exact ⟨m', _, hm', hall⟩
  have hzero : sectorsOf (BitVec.ofNat 32 content.length) = 0 :=
    sectorsOf_eq_zero (by rwa [BitVec.toNat_ofNat])
  rw [← hzero] at halloc
  have hrun : addFileAs img filename pffsNameIn disk =
      ({ img with
          msb := m'
          data := writeLoop m'.fat (sectorsOf (BitVec.ofNat 32 content.length))
            (m'.dir i).chain bytes img.data }, .ok ()) := by
    simp only [addFileAs, hname, hcheck, hfirst, hsecond, hentry, halloc, writeFileToSectors,
      ne_eq, not_true_eq_false, if_false]
  rw [hrun]
  refine ⟨rfl, fun chains' hwf => ?_⟩
  have hused := (hready.used_iff hall (writeLoop m'.fat
    (sectorsOf (BitVec.ofNat 32 content.length)) (m'.dir i).chain bytes img.data) i).mpr (.inl rfl)
  have hle := hwf.linked.sectorsFor_le hused
  change sectorsFor (m'.dir i).size ≤ maxFat at hle
  rw [hall.entry] at hle
  change sectorsFor ((m.setDir i { m.dir i with
    size := BitVec.ofNat 32 content.length }).dir i).size ≤ maxFat at hle
  rw [MasterBlock.setDir_dir_self, sectorsFor, BitVec.toNat_ofNat, maxFat] at hle
  omega

/-! ### The operations -/

/-- An operation that changes an image. -/
inductive Op
  /-- `PFFSAddFileAs(pfi, filename, pffs_name)`. -/
  | addFileAs (filename : List U8) (pffsNameIn : Option (List U8)) (disk : Disk)
  /-- `PFFSDeleteFile(pfi, pffs_name)`. -/
  | deleteFile (pffsName : List U8)

/-- The image an operation leaves, and whether it returns 1. -/
def Op.run (fuel : ℕ) (img : Image) : Op → Option (Image × Bool)
  | .addFileAs filename pffsNameIn disk =>
    some ((Pffs.addFileAs img filename pffsNameIn disk).1,
      (Pffs.addFileAs img filename pffsNameIn disk).2.isOk)
  | .deleteFile pffsName => Pffs.deleteFile fuel img pffsName

/-- The name of the file an operation is about. -/
def Op.name : Op → List U8
  | .addFileAs filename pffsNameIn _ => (resolveName filename pffsNameIn).toOption.getD []
  | .deleteFile pffsName => pffsName

/-- **The length does not wrap**: a file to add, unless the addition fails over its
name, over the host, or for want of a directory entry, has a length modulo 4 GB that
is not in the last sector. -/
def Op.Fits (img : Image) : Op → Prop
  | .addFileAs filename pffsNameIn disk => ∀ name content,
    resolveName filename pffsNameIn = .ok name → checkFileName name = 0 →
    disk.first = some content → disk.second ≠ none →
    (findFile img.msb name ≠ none ∨ findFreeDir img.msb ≠ none) →
    content.length % 2 ^ 32 ≤ 0xFFFFF000
  | .deleteFile _ => True

/-- **When the operations keep the file system**: on every well-formed image, every
operation comes to an end, and it keeps the image exactly when the length of the file
does not wrap. -/
theorem kept_iff (h : WellFormed reserved img chains) (op : Op) {fuel : ℕ}
    (hfuel : maxFat < fuel) :
    ∃ img' success, op.run fuel img = some (img', success) ∧
      (Kept reserved img chains op.name img' success ↔ op.Fits img) := by
  cases op with
  | deleteFile name =>
    obtain ⟨img', success, hrun, hkept⟩ := deleteFile_kept h name hfuel
    exact ⟨img', success, hrun, iff_of_true hkept trivial⟩
  | addFileAs filename pffsNameIn disk =>
    refine ⟨_, _, rfl, fun hkept name content hname hcheck hfirst hsecond hentry => ?_,
      fun hfits => ?_⟩
    · by_contra hlarge
      obtain ⟨bytes, hbytes⟩ := Option.ne_none_iff_exists'.mp hsecond
      obtain ⟨chains', hwf, -⟩ := hkept.1
      exact (addFileAs_wraps h disk hname hcheck hfirst hbytes hentry (Nat.lt_of_not_le hlarge)).2
        chains' hwf
    · rcases addFileAs_cases img filename pffsNameIn disk with ⟨e, he⟩ |
        ⟨name, content, bytes, m, i, old, m', hname, hcheck, hfirst, hsecond, hentry, halloc, hrun⟩
      · rw [he]
        exact Kept.refl h _
      · have hready : findFile img.msb name ≠ none ∨ findFreeDir img.msb ≠ none := by
          by_contra hno
          obtain ⟨hf, hd⟩ := not_or.mp hno
          rw [Pffs.entryFor, not_not.mp hf, not_not.mp hd] at hentry
          exact absurd hentry (by simp)
        rw [hrun, Op.name, hname]
        exact addFileAs_kept h hcheck hentry halloc
          (hfits name content hname hcheck hfirst (by simp [hsecond]) hready)

/-! ### A file of nearly 4 GB -/

/-- An empty file system of 16 sectors, the first of which is the master block. -/
def emptyImage : Image where
  pffsTop := 0
  pffsEnd := 0x10000
  msb := { dir := fun _ => .erased, fat := fun s => if s = 0 then 0xCCCC else fatFree }
  data := fun _ _ => 0xFF

theorem emptyImage_wellFormed : WellFormed (· = 0) emptyImage fun _ => [] := by
  have herased : Directory.erased.inUse = false := by decide
  have hnot : ∀ i, ¬Used emptyImage i := fun i hi =>
    Bool.false_ne_true (herased.symm.trans hi.2)
  refine
    { master := rfl, valid := fun i hi => absurd hi (hnot i)
      unique := fun i _ hi => absurd hi (hnot i), chain := fun i hi => absurd hi (hnot i)
      acyclic := fun i hi => absurd hi (hnot i), inside := fun i hi => absurd hi (hnot i)
      avoids := fun i hi => absurd hi (hnot i), count := fun i hi => absurd hi (hnot i)
      disjoint := fun i _ hi => absurd hi (hnot i), free := fun s _ => ?_ }
  show (if s = 0 then (0xCCCC : U16) else fatFree) = fatFree ↔ _
  split_ifs with hs
  · exact iff_of_false (by decide) fun h => h.1 hs
  · exact iff_of_true rfl ⟨hs, fun i hi => absurd hi (hnot i)⟩

/-- A file of one byte less than 4 GB, added as `a` to the empty file system: the call
returns 1, and the image is not well formed. -/
theorem addFileAs_4GB :
    WellFormed (· = 0) emptyImage (fun _ => []) ∧
      (addFileAs emptyImage [0x61] none
        ⟨some (List.replicate 0xFFFFFFFF 0), some []⟩).2 = .ok () ∧
      ¬Kept (· = 0) emptyImage (fun _ => []) [0x61]
        (addFileAs emptyImage [0x61] none
          ⟨some (List.replicate 0xFFFFFFFF 0), some []⟩).1 true := by
  have hname : resolveName [0x61] none = .ok [0x61] := rfl
  have hlength : 0xFFFFF000 < (List.replicate 0xFFFFFFFF (0 : U8)).length % 2 ^ 32 := by
    rw [List.length_replicate]
    decide
  have hwraps := addFileAs_wraps emptyImage_wellFormed
    ⟨some (List.replicate 0xFFFFFFFF 0), some []⟩ hname (by decide) rfl rfl (.inr (by decide))
    hlength
  exact ⟨emptyImage_wellFormed, hwraps.1, fun hkept => hkept.1.elim fun chains' hc =>
    hwraps.2 chains' hc.1⟩

/-! ### A file system with two files -/

/-- A file system of 16 sectors with two files: `a`, of 4097 bytes in the sectors 1 and 2, and
`b`, of 5 bytes in sector 3. -/
def twoFiles : Image where
  pffsTop := 0
  pffsEnd := 0x10000
  msb :=
    { dir := fun i =>
        if i = 0 then { Directory.fresh [0x61] with chain := 1, size := 4097 }
        else if i = 1 then { Directory.fresh [0x62] with chain := 3, size := 5 }
        else .erased
      fat := fun s => [0xCCCC, 2, fatEnd, fatEnd].getD s fatFree }
  data := fun s j => BitVec.ofNat 8 (s + j)

/-- The sectors of its files. -/
def twoFilesChains (i : ℕ) : List ℕ := [[1, 2], [3]].getD i []

theorem used_twoFiles {i : ℕ} (h : Used twoFiles i) : i = 0 ∨ i = 1 := by
  by_contra hne
  obtain ⟨h0, h1⟩ := not_or.mp hne
  have herased : twoFiles.msb.dir i = .erased := (if_neg h0).trans (if_neg h1)
  have hin := h.2
  rw [herased] at hin
  exact absurd hin (by decide)

theorem twoFiles_wellFormed : WellFormed (· = 0) twoFiles twoFilesChains where
  master := rfl
  valid i hi := by rcases used_twoFiles hi with rfl | rfl <;> decide
  unique i j hi hj := by
    rcases used_twoFiles hi with rfl | rfl <;> rcases used_twoFiles hj with rfl | rfl <;> decide
  chain i hi := by
    rcases used_twoFiles hi with rfl | rfl
    · exact ⟨rfl, rfl, rfl⟩
    · exact ⟨rfl, rfl⟩
  acyclic i hi := by rcases used_twoFiles hi with rfl | rfl <;> decide
  inside i hi := by rcases used_twoFiles hi with rfl | rfl <;> decide
  avoids i hi := by rcases used_twoFiles hi with rfl | rfl <;> decide
  count i hi := by rcases used_twoFiles hi with rfl | rfl <;> decide
  disjoint i j hi hj hne := by
    rcases used_twoFiles hi with rfl | rfl <;> rcases used_twoFiles hj with rfl | rfl <;>
      first | exact absurd rfl hne | decide
  free s hs := by
    have hused0 : Used twoFiles 0 := ⟨by decide, by decide⟩
    have hused1 : Used twoFiles 1 := ⟨by decide, by decide⟩
    have hall : (∀ i, Used twoFiles i → s ∉ twoFilesChains i) ↔ s ∉ [1, 2] ∧ s ∉ [3] := by
      constructor
      · exact fun h => ⟨h 0 hused0, h 1 hused1⟩
      · rintro ⟨h0, h1⟩ i hi
        rcases used_twoFiles hi with rfl | rfl
        · exact h0
        · exact h1
    rw [hall]
    clear hall hused0 hused1
    revert s
    decide

/-- The file `a` is replaced by one of one byte. -/
theorem kept_iff_twoFiles :
    ∃ img' success,
      (Op.addFileAs [0x61] none ⟨some [7], some [7]⟩).run 497 twoFiles = some (img', success) ∧
        Kept (· = 0) twoFiles twoFilesChains [0x61] img' success := by
  have hfits : (Op.addFileAs [0x61] none ⟨some [7], some [7]⟩).Fits twoFiles := by
    intro name content _ _ hfirst _ _
    obtain rfl := Option.some.inj hfirst
    decide
  obtain ⟨img', success, hrun, hkept⟩ := kept_iff twoFiles_wellFormed
    (.addFileAs [0x61] none ⟨some [7], some [7]⟩) (show maxFat < 497 by decide)
  exact ⟨img', success, hrun, hkept.mpr hfits⟩

end Pffs
