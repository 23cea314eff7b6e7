import PieceEmu.Tools.PffsChecked

/-!
# What is stored is read back

`PFFSExtractFile` follows the chain of a file and hands the bytes of its sectors to the
host, as many as the directory entry says. What `PFFSAddFileAs` has stored comes back
(`Pffs.extractLoop_writeLoop`), and what an operation does to one file cannot be seen
through the others (`Pffs.SameOthers`):

* a file is looked up by its name, and the entries with other names are not touched;
* an extraction looks at the links and the sectors of its own chain only.

All of this needs the sectors to be in order, and nothing of the names. It holds as
well of an image with a file of nearly 4 GB, whose number of sectors has wrapped: in
such an image the chains are still what the code takes them to be
(`Pffs.Linked` with `Pffs.sectorsOf`), and every operation keeps them so
(`Pffs.Op.run_linked`).
-/

namespace Pffs

open LinkedCells

/-! ### Extracting -/

/-- The first `n` bytes of a sector. -/
def sectorBytes (sector : ℕ → U8) (n : ℕ) : List U8 := (List.range n).map sector

/-- The loop of `PFFSExtractFile`, from its round `k` on, with `remaining` bytes to go:
the bytes that the host has taken. `fuel` bounds its rounds. -/
def extractLoop (img : Image) (sink : Sink) : ℕ → ℕ → ℕ → U16 → Option (List U8)
  | 0, _, _, _ => none
  | fuel + 1, k, remaining, sector =>
    if remaining = 0 ∨ sector = fatEnd then some []
    else
      let toWrite := min remaining 4096
      let written := sink.takes k toWrite
      match extractLoop img sink fuel (k + 1) (remaining - written)
          (img.msb.fat sector.toNat) with
      | none => none
      | some bytes => some (sectorBytes (img.data sector.toNat) written ++ bytes)

/-- `PFFSExtractFile`: what is in the file on the host, if it returns 1. -/
def extractFile (fuel : ℕ) (img : Image) (sink : Sink) (pffsName : List U8) :
    Option (Option (List U8)) :=
  match findFile img.msb pffsName with
  | none => some none
  | some i =>
    if sink.opens then
      match extractLoop img sink fuel 0 (img.msb.dir i).size.toNat (img.msb.dir i).chain with
      | none => none
      | some bytes => some (some bytes)
    else some none

/-- A host that takes everything. -/
def Sink.whole : Sink where
  opens := true
  takes _ n := n
  takes_le _ _ := le_rfl

/-- The pieces of the checked loop, put together. -/
theorem eq_of_extractLoop {img : Opened} {sink : Sink} {fuel k remaining : ℕ} {sector : U16}
    {pieces : List (ℕ × ℕ)}
    (h : Checked.extractLoop img sink fuel k remaining sector = .ok pieces) :
    extractLoop img.toImage sink fuel k remaining sector =
      some (pieces.flatMap fun p => sectorBytes (img.data p.1) p.2) := by
  induction fuel generalizing k remaining sector pieces with
  | zero => cases h
  | succ fuel ih =>
    rw [Checked.extractLoop] at h
    rw [extractLoop]
    split_ifs at h ⊢ with hend hbuf hlt
    · rw [← Except.ok.inj h]
      rfl
    · dsimp only at h ⊢
      cases hrest : Checked.extractLoop img sink fuel (k + 1)
          (remaining - sink.takes k (min remaining 4096)) (img.msb.fat sector.toNat) with
      | error e =>
        rw [hrest] at h
        cases h
      | ok rest =>
        rw [hrest] at h
        rw [ih hrest, ← Except.ok.inj h]
        rfl

theorem eq_of_extractFile {img : Opened} {sink : Sink} {fuel : ℕ} {name : List U8}
    {r : Option (List (ℕ × ℕ))} (h : Checked.extractFile fuel img sink name = .ok r) :
    extractFile fuel img.toImage sink name =
      some (r.map fun pieces => pieces.flatMap fun p => sectorBytes (img.data p.1) p.2) := by
  rw [Checked.extractFile] at h
  rw [extractFile]
  cases hfind : findFile img.msb name with
  | none =>
    rw [hfind] at h
    rw [← Except.ok.inj h]
    rfl
  | some i =>
    simp only [hfind] at h ⊢
    split_ifs at h ⊢ with hopens
    · cases hl : Checked.extractLoop img sink fuel 0 (img.msb.dir i).size.toNat
          (img.msb.dir i).chain with
      | error e =>
        rw [hl] at h
        cases h
      | ok pieces =>
        rw [hl] at h
        rw [eq_of_extractLoop hl, ← Except.ok.inj h]
        rfl
    · rw [← Except.ok.inj h]
      rfl

/-! ### Reading what has been written -/

theorem sectorBytes_readInto (old : ℕ → U8) {bytes : List U8} {n : ℕ} (hn : n ≤ bytes.length)
    (hn' : n ≤ 4096) : sectorBytes (readInto old bytes) n = bytes.take n := by
  refine List.ext_getElem ?_ fun j hj hj' => ?_
  · rw [sectorBytes, List.length_map, List.length_range, List.length_take, Nat.min_eq_left hn]
  · rw [List.length_take, Nat.min_eq_left hn] at hj'
    have hlt : j < (bytes.take 4096).length := by
      rw [List.length_take]
      omega
    simp only [sectorBytes, List.getElem_map, List.getElem_range, readInto,
      List.getElem?_eq_getElem hlt, Option.getD_some, List.getElem_take]

section Chain

variable {img img' : Image} {c : Cell} {q : List ℕ}

/-- **What has been written along a chain is read back along it**, if the chain visits
no sector twice and is long enough. -/
theorem extractLoop_writeLoop (h : Chain img.msb c q fatEnd) (hnd : q.Nodup)
    (hq : ∀ s ∈ q, s < maxFat) {bytes : List U8} (hlen : bytes.length ≤ 4096 * q.length)
    {data : ℕ → ℕ → U8}
    (hdata : ∀ s ∈ q, img.data s =
      writeLoop img.msb.fat q.length (img.msb.next c) bytes data s)
    {fuel : ℕ} (hfuel : q.length < fuel) (k : ℕ) :
    extractLoop img .whole fuel k bytes.length (img.msb.next c) = some bytes := by
  induction q generalizing c bytes data fuel k with
  | nil =>
    obtain ⟨fuel, rfl⟩ : ∃ n, fuel = n + 1 := ⟨fuel - 1, by simp at hfuel; omega⟩
    obtain rfl : bytes = [] := List.length_eq_zero_iff.mp (Nat.le_zero.mp hlen)
    rw [extractLoop, if_pos (.inl rfl)]
  | cons s q ih =>
    obtain ⟨fuel, rfl⟩ : ∃ n, fuel = n + 1 := ⟨fuel - 1, by omega⟩
    rw [extractLoop]
    by_cases hnil : bytes.length = 0
    · rw [if_pos (.inl hnil), List.length_eq_zero_iff.mp hnil]
    obtain ⟨hs, hnd⟩ := List.nodup_cons.mp hnd
    have hlt := hq s List.mem_cons_self
    have hq' : ∀ x ∈ q, x < maxFat := fun x hx => hq x (List.mem_cons_of_mem _ hx)
    rw [List.length_cons, Nat.mul_succ] at hlen
    rw [List.length_cons] at hfuel
    rw [if_neg (not_or.mpr ⟨hnil, h.1 ▸ sectorRef_ne_end hlt⟩), h.1, sectorRef_toNat hlt]
    -- the loop that writes is past the sector after its first round
    have hround : ∀ x ∈ s :: q, img.data x = writeLoop img.msb.fat q.length
        (img.msb.next (.fat s)) (bytes.drop 4096)
        (Function.update data s (readInto (data s) bytes)) x := by
      intro x hx
      rw [hdata x hx, List.length_cons, writeLoop, h.1, sectorRef_toNat hlt]
      rfl
    have hsector : img.data s = readInto (data s) bytes := by
      rw [hround s List.mem_cons_self, writeLoop_of_not_mem h.2 hq' _ _ hs, Function.update_self]
    have hlen' : (bytes.drop 4096).length ≤ 4096 * q.length := by
      rw [List.length_drop]
      omega
    have hrest := ih h.2 hnd hq' hlen' (fun x hx => hround x (List.mem_cons_of_mem _ hx))
      (Nat.lt_of_succ_lt_succ hfuel) (k + 1)
    have hremaining : bytes.length - min bytes.length 4096 = (bytes.drop 4096).length := by
      rw [List.length_drop]
      omega
    have hread : sectorBytes (img.data s) (min bytes.length 4096) = bytes.take 4096 := by
      rw [hsector, sectorBytes_readInto _ (Nat.min_le_left _ _) (Nat.min_le_right _ _),
        Nat.min_comm, ← List.take_eq_take_min]
    change (match extractLoop img .whole fuel (k + 1)
      (bytes.length - min bytes.length 4096) (img.msb.next (.fat s)) with
      | none => none
      | some rest => some (sectorBytes (img.data s) (min bytes.length 4096) ++ rest)) = _
    rw [hremaining, hrest, hread]
    exact congrArg some (List.take_append_drop 4096 bytes)

/-- **An extraction looks at its own chain only.** -/
theorem extractLoop_congr (sink : Sink) (h : Chain img.msb c q fatEnd)
    (hq : ∀ s ∈ q, s < maxFat)
    (heq : ∀ s ∈ q, img'.msb.fat s = img.msb.fat s ∧ img'.data s = img.data s)
    (fuel k remaining : ℕ) :
    extractLoop img' sink fuel k remaining (img.msb.next c) =
      extractLoop img sink fuel k remaining (img.msb.next c) := by
  induction q generalizing c fuel k remaining with
  | nil =>
    have hend : img.msb.next c = fatEnd := h
    cases fuel with
    | zero => rfl
    | succ fuel => rw [extractLoop, extractLoop, if_pos (.inr hend), if_pos (.inr hend)]
  | cons s q ih =>
    cases fuel with
    | zero => rfl
    | succ fuel =>
      obtain ⟨hfat, hdata⟩ := heq s List.mem_cons_self
      have hrest := ih h.2 (fun x hx => hq x (List.mem_cons_of_mem _ hx))
        (fun x hx => heq x (List.mem_cons_of_mem _ hx)) fuel (k + 1)
      rw [extractLoop, extractLoop, h.1, sectorRef_toNat (hq s List.mem_cons_self), hfat, hdata]
      change (if _ then _ else
        match extractLoop img' sink fuel (k + 1) _ (img.msb.next (.fat s)) with
        | none => none
        | some bytes => some (_ ++ bytes)) = _
      rw [hrest]
      rfl

end Chain

/-! ### Looking up afterwards -/

/-- The entry holds the file with this name. -/
def Directory.Holds (d : Directory) (name : List U8) : Prop :=
  d.inUse = true ∧ cstr d.name = cstr name

theorem Directory.holds_iff (d : Directory) {name : List U8} (hname : checkFileName name = 0) :
    (d.inUse && strncmpEq 24 d.name name) = true ↔ d.Holds name := by
  have hd : (cstr d.name).length ≤ 24 := by
    rw [← d.name_length]
    exact (List.takeWhile_sublist _).length_le
  have hn := length_cstr_le_of_valid hname
  rw [Bool.and_eq_true, strncmpEq_iff, List.take_of_length_le hd,
    List.take_of_length_le (by omega)]
  rfl

/-- An erased entry holds nothing. -/
theorem not_holds_erased (name : List U8) : ¬Directory.erased.Holds name := fun h =>
  absurd h.1 (by decide)

section Lookup

variable {m m' : MasterBlock} {name : List U8} {i : ℕ}

theorem holds_of_findFile (h : findFile m name = some i) : (m.dir i).Holds name := by
  obtain ⟨hname, -, hin, hcmp⟩ := findFile_some h
  exact ((m.dir i).holds_iff hname).mp (by rw [hin, hcmp]; rfl)

theorem not_holds_of_findFile (hname : checkFileName name = 0) (h : findFile m name = none)
    {j : ℕ} (hj : j < maxDir) : ¬(m.dir j).Holds name := by
  intro hholds
  have hboth := ((m.dir j).holds_iff hname).mpr hholds
  rw [Bool.and_eq_true] at hboth
  exact findFile_none hname h hj hboth.1 hboth.2

/-- Looking up asks which entries hold the file, and nothing else. -/
theorem findFile_congr (h : ∀ j, (m'.dir j).Holds name ↔ (m.dir j).Holds name) :
    findFile m' name = findFile m name := by
  by_cases hname : checkFileName name = 0
  · rw [findFile, findFile, if_neg (not_not.mpr hname), if_neg (not_not.mpr hname)]
    refine congrArg (fun p => (List.range maxDir).find? p) (funext fun j => ?_)
    rw [Bool.eq_iff_iff, (m'.dir j).holds_iff hname, (m.dir j).holds_iff hname, h j]
  · rw [findFile, findFile, if_pos hname, if_pos hname]

/-- The only entry that holds a file is found. -/
theorem findFile_of_only (hname : checkFileName name = 0) (hi : i < maxDir)
    (h : (m.dir i).Holds name) (honly : ∀ j < maxDir, j ≠ i → ¬(m.dir j).Holds name) :
    findFile m name = some i := by
  cases hf : findFile m name with
  | none => exact absurd h (not_holds_of_findFile hname hf hi)
  | some j =>
    by_contra hne
    refine honly j (findFile_some hf).2.1 (fun hji => hne (congrArg some hji)) ?_
    exact holds_of_findFile hf

/-- A change of one entry, which holds the other file neither before nor after, is
not seen. -/
theorem findFile_of_ne {other : List U8} (hdir : ∀ j, j ≠ i → m'.dir j = m.dir j)
    (h : ¬(m.dir i).Holds other) (h' : ¬(m'.dir i).Holds other) :
    findFile m' other = findFile m other := by
  refine findFile_congr fun j => ?_
  by_cases hj : j = i
  · subst hj
    exact iff_of_false h' h
  · rw [hdir j hj]

/-- **After an addition**, the entry is found under its name, and every other lookup
gives what it gave. -/
theorem findFile_entryFor {m₀ : MasterBlock} {old : ℕ} (hname : checkFileName name = 0)
    (he : entryFor m₀ name = some (m, i, old)) (hdir : ∀ j, j ≠ i → m'.dir j = m₀.dir j)
    (hentry : (m'.dir i).name = (m.dir i).name) :
    findFile m' name = some i ∧
      ∀ other, cstr other ≠ cstr name → findFile m' other = findFile m₀ other := by
  rcases entryFor_cases he with ⟨hf, rfl, -⟩ | ⟨hf, hi, hfree, rfl, -⟩
  · -- the entry has kept its name
    have hsame : ∀ n, findFile m' n = findFile m n := fun n => by
      refine findFile_congr fun j => ?_
      by_cases hj : j = i
      · subst hj
        rw [Directory.Holds, Directory.inUse, hentry]
        rfl
      · rw [hdir j hj]
    exact ⟨(hsame name).trans hf, fun other _ => hsame other⟩
  · rw [MasterBlock.setDir_dir_self] at hentry
    have hbears : cstr (m'.dir i).name = cstr name := hentry ▸ cstr_fresh hname
    have hholds : (m'.dir i).Holds name := by
      refine ⟨?_, hbears⟩
      rw [Directory.inUse, hentry]
      exact inUse_fresh hname
    refine ⟨findFile_of_only hname hi hholds fun j hj hji => ?_, fun other hother => ?_⟩
    · rw [hdir j hji]
      exact not_holds_of_findFile hname hf hj
    · exact findFile_of_ne hdir (fun h => Bool.false_ne_true (hfree.symm.trans h.1))
        fun h => hother (h.2.symm.trans hbears)

end Lookup

/-! ### One operation, seen through the other files -/

/-- **The other files are the same**: whatever is extracted under another name, on any
host, is what was extracted before. -/
def SameOthers (name : List U8) (img img' : Image) : Prop :=
  ∀ fuel sink other, cstr other ≠ cstr name →
    extractFile fuel img' sink other = extractFile fuel img sink other

variable {reserved : ℕ → Prop} {img img' : Image} {chains : ℕ → List ℕ} {name : List U8}

/-- Files whose entries, links and sectors have not changed are the same. -/
theorem Linked.sameOthers (h : Linked sectorsOf reserved img chains)
    (hfind : ∀ other, cstr other ≠ cstr name → findFile img'.msb other = findFile img.msb other)
    (hkept : ∀ j, Used img j → cstr (img.msb.dir j).name ≠ cstr name →
      img'.msb.dir j = img.msb.dir j ∧
        ∀ s ∈ chains j, img'.msb.fat s = img.msb.fat s ∧ img'.data s = img.data s) :
    SameOthers name img img' := by
  intro fuel sink other hother
  rw [extractFile, extractFile, hfind other hother]
  cases hf : findFile img.msb other with
  | none => rfl
  | some j =>
    have hj : Used img j := ⟨(findFile_some hf).2.1, (findFile_some hf).2.2.1⟩
    obtain ⟨hdir, hsame⟩ := hkept j hj fun heq =>
      hother ((holds_of_findFile hf).2.symm.trans heq)
    have hloop := extractLoop_congr sink (h.chain j hj)
      (fun s hs => (h.inside j hj s hs).trans_le (maxFat_le img)) hsame fuel 0
      (img.msb.dir j).size.toNat
    dsimp only
    rw [hdir]
    exact congrArg (fun r => if sink.opens then (match r with
      | none => none
      | some bytes => some (some bytes)) else some none) hloop

/-- **An addition keeps the sectors in order**, is found under its name with the chain
it has been given, and cannot be seen through the other files. -/
theorem Linked.addition (h : Linked sectorsOf reserved img chains)
    (hname : checkFileName name = 0) {m m' : MasterBlock} {i old : ℕ} {size : U32}
    (hentry : Pffs.entryFor img.msb name = some (m, i, old))
    (halloc : allocateSectors img.maxFat (m.setDir i { m.dir i with size }) i (sectorsOf size)
      old = some m') (bytes : List U8) :
    ∃ q, Linked sectorsOf reserved
        { img with
          msb := m'
          data := writeLoop m'.fat (sectorsOf size) (m'.dir i).chain bytes img.data }
        (Function.update chains i q) ∧
      Chain m' (.dir i) q fatEnd ∧ q.Nodup ∧ (∀ s ∈ q, s < maxFat) ∧ q.length = sectorsOf size ∧
      findFile m' name = some i ∧ (m'.dir i).size = size ∧
      SameOthers name img
        { img with
          msb := m'
          data := writeLoop m'.fat (sectorsOf size) (m'.dir i).chain bytes img.data } := by
  obtain ⟨l, q, hslot, hready, hall, rfl, hq, hqlt⟩ := h.allocated hname hentry halloc
  have hsize : (m'.dir i).size = size ∧ (m'.dir i).name = (m.dir i).name := by
    rw [hall.entry]
    simp only [MasterBlock.setDir_dir_self, and_self]
  have hlen : q.length = sectorsOf ((m.setDir i { m.dir i with size }).dir i).size := by
    rw [MasterBlock.setDir_dir_self]
    exact hq
  have hdir : ∀ j, j ≠ i → m'.dir j = img.msb.dir j := fun j hj =>
    (hall.dir_eq j hj).trans (hready.dir_eq j hj)
  obtain ⟨hfound, hothers⟩ := findFile_entryFor hname hentry hdir hsize.2
  refine ⟨q, hslot.linked h hready hall hlen _, hall.path, hall.nodup, hqlt, hq, hfound, hsize.1,
    h.sameOthers hothers fun j hj hne => ?_⟩
  -- an entry with another name is another entry
  have hji : j ≠ i := by
    rintro rfl
    rcases entryFor_cases hentry with ⟨hf, -, -⟩ | ⟨-, -, hfree, -, -⟩
    · exact hne (holds_of_findFile hf).2
    · exact Bool.false_ne_true (hfree.symm.trans hj.2)
  obtain ⟨hsame, hfat⟩ := hslot.other_eq hready hall hj hji
  refine ⟨hsame, fun s hs => ⟨hfat s hs, ?_⟩⟩
  have hwrite := writeLoop_of_not_mem hall.path hqlt bytes img.data
    (hslot.not_mem_of_other hready hall hj hji hs).2
  rw [hq] at hwrite
  exact hwrite

/-- **So does a deletion.** -/
theorem Linked.deletion (h : Linked sectorsOf reserved img chains) {i : ℕ}
    (hf : findFile img.msb name = some i) :
    SameOthers name img { img with msb := Pffs.erase img chains i } := by
  have hi : Used img i := ⟨(findFile_some hf).2.1, (findFile_some hf).2.2.1⟩
  have hholds := holds_of_findFile hf
  refine h.sameOthers (fun other hother => ?_) fun j hj hne => ?_
  · refine findFile_of_ne (fun j hj => erase_dir hj)
      (fun hh => hother (hh.2.symm.trans hholds.2)) ?_
    rw [Pffs.erase, MasterBlock.setDir_dir_self]
    exact not_holds_erased other
  · have hji : j ≠ i := by
      rintro rfl
      exact hne hholds.2
    exact ⟨erase_dir hji, fun s hs =>
      ⟨erase_fat_of_not_mem (h.disjoint j i hj hi hji s hs), rfl⟩⟩

/-- **Every operation** comes to an end, keeps the sectors in order, and cannot be seen
through the other files. -/
theorem Op.run_linked (h : Linked sectorsOf reserved img chains) (op : Op) {fuel : ℕ}
    (hfuel : maxFat < fuel) :
    ∃ img' success chains', op.run fuel img = some (img', success) ∧
      Linked sectorsOf reserved img' chains' ∧ SameOthers op.name img img' := by
  cases op with
  | deleteFile name =>
    cases hf : findFile img.msb name with
    | none => exact ⟨img, false, chains, by rw [Op.run, Pffs.deleteFile, hf], h, fun _ _ _ _ => rfl⟩
    | some i =>
      have hi : Used img i := ⟨(findFile_some hf).2.1, (findFile_some hf).2.2.1⟩
      exact ⟨_, true, chains, h.deleteFile_eq hf hfuel, h.erase hi, h.deletion hf⟩
  | addFileAs filename pffsNameIn disk =>
    rcases addFileAs_cases img filename pffsNameIn disk with ⟨e, he⟩ |
      ⟨name, content, bytes, m, i, old, m', hname, hcheck, -, -, hentry, halloc, hrun⟩
    · exact ⟨_, _, chains, rfl, by rw [he]; exact h, fun _ _ _ _ => by rw [he]⟩
    · obtain ⟨q, hlinked, -, -, -, -, -, -, hsame⟩ := h.addition hcheck hentry halloc bytes
      refine ⟨_, _, Function.update chains i q, rfl, ?_, ?_⟩
      · rw [hrun]
        exact hlinked
      · rw [hrun, Op.name, hname]
        exact hsame

/-! ### Any number of them -/

/-- The operations, one after the other, whether they succeed or not. -/
def runOps (fuel : ℕ) : Image → List Op → Option Image
  | img, [] => some img
  | img, op :: ops =>
    match op.run fuel img with
    | none => none
    | some (img', _) => runOps fuel img' ops

/-- **A file outlives every operation on others.** -/
theorem runOps_linked {fuel : ℕ} (hfuel : maxFat < fuel) (ops : List Op)
    (h : Linked sectorsOf reserved img chains) :
    ∃ img', runOps fuel img ops = some img' ∧
      ∀ fuel' sink other, (∀ op ∈ ops, cstr op.name ≠ cstr other) →
        extractFile fuel' img' sink other = extractFile fuel' img sink other := by
  induction ops generalizing img chains with
  | nil => exact ⟨img, rfl, fun _ _ _ _ => rfl⟩
  | cons op ops ih =>
    obtain ⟨img₁, success, chains₁, hrun, h₁, hsame⟩ := op.run_linked h hfuel
    obtain ⟨img', hruns, hrest⟩ := ih h₁
    refine ⟨img', by rw [runOps, hrun]; exact hruns, fun fuel' sink other hne => ?_⟩
    rw [hrest fuel' sink other fun op' hop' => hne op' (List.mem_cons_of_mem _ hop')]
    exact hsame fuel' sink other (hne op List.mem_cons_self).symm

/-- A file that fits into the image is far from 4 GB. -/
theorem Linked.length_le (h : Linked sectorsFor reserved img chains) {n : ℕ}
    (hn : n ≤ 4096 * (pffsFree img + sectorCount img name)) : n ≤ 4096 * (maxFat + maxFat) := by
  refine hn.trans (Nat.mul_le_mul_left _ (Nat.add_le_add ?_ ?_))
  · refine List.countP_le_length.trans ?_
    rw [List.length_range]
    exact maxFat_le img
  · rw [sectorCount]
    cases hf : findFile img.msb name with
    | none => exact Nat.zero_le _
    | some i => exact h.sectorsFor_le ⟨(findFile_some hf).2.1, (findFile_some hf).2.2.1⟩

/-- **What is stored is read back**: after a file that fits has been added, extracting
it gives its contents, and extracting any other file gives what it gave before; and so
it stays, whatever is added and deleted under other names. -/
theorem extractFile_addFileAs (h : Linked sectorsFor reserved img chains)
    {filename content : List U8} {pffsNameIn : Option (List U8)}
    (hname : resolveName filename pffsNameIn = .ok name)
    (hfits : content.length ≤ 4096 * (pffsFree img + sectorCount img name))
    (hadd : (addFileAs img filename pffsNameIn ⟨some content, some content⟩).2 = .ok ())
    {fuel : ℕ} (hfuel : maxFat < fuel) (ops : List Op) :
    ∃ img', runOps fuel (addFileAs img filename pffsNameIn ⟨some content, some content⟩).1 ops =
        some img' ∧
      ((∀ op ∈ ops, cstr op.name ≠ cstr name) →
        extractFile fuel img' .whole name = some (some content)) ∧
      ∀ sink other, cstr other ≠ cstr name → (∀ op ∈ ops, cstr op.name ≠ cstr other) →
        extractFile fuel img' sink other = extractFile fuel img sink other := by
  rcases addFileAs_cases img filename pffsNameIn ⟨some content, some content⟩ with ⟨e, he⟩ |
    ⟨name', content', bytes, m, i, old, m', hname', hcheck, hfirst, hsecond, hentry, halloc, hrun⟩
  · rw [he] at hadd
    cases hadd
  obtain rfl := Except.ok.inj (hname'.symm.trans hname)
  obtain rfl := Option.some.inj hfirst
  obtain rfl := Option.some.inj hsecond
  obtain ⟨q, hlinked, hpath, hnd, hqlt, hq, hfound, hsize, hsame⟩ :=
    h.ofCode.addition hcheck hentry halloc content
  rw [hrun]
  obtain ⟨img', hruns, hrest⟩ := runOps_linked hfuel ops hlinked
  refine ⟨img', hruns, fun hne => ?_, fun sink other hother hne => ?_⟩
  · -- the length has not wrapped, and the chain is long enough
    have hlen := h.length_le hfits
    have hmod : (BitVec.ofNat 32 content.length).toNat = content.length := by
      rw [BitVec.toNat_ofNat]
      refine Nat.mod_eq_of_lt (hlen.trans_lt ?_)
      decide
    have hsectors : q.length = (content.length + 4095) / 4096 := by
      rw [hq, sectorsOf_eq, sectorsFor, hmod]
      rw [hmod]
      exact hlen.trans (by decide)
    have hfuel' : q.length < fuel := (length_le_of_nodup hnd hqlt).trans_lt hfuel
    rw [hrest fuel .whole name' hne, extractFile, hfound]
    dsimp only
    rw [hsize, hmod]
    have hlong : content.length ≤ 4096 * q.length := by omega
    have hback : ∀ img₁ : Image, img₁.msb = m' →
        img₁.data = writeLoop m'.fat q.length (m'.dir i).chain content img.data →
        extractLoop img₁ .whole fuel 0 content.length (m'.dir i).chain = some content := by
      rintro img₁ rfl hdata
      exact extractLoop_writeLoop hpath hnd hqlt hlong (fun s _ => congrFun hdata s) hfuel' 0
    rw [hback _ rfl (by rw [hq])]
    rfl
  · -- another file is touched neither by the addition nor by what comes later
    rw [hrest fuel sink other hne]
    exact hsame fuel sink other hother

/-- The file `a` is replaced, and then a file `c` added: `a` has its new contents, and `b` is as
before. -/
theorem extractFile_twoFiles :
    ∃ img', runOps 497 (addFileAs twoFiles [0x61] none ⟨some [7], some [7]⟩).1
        [.addFileAs [0x63] none ⟨some [8, 9], some [8, 9]⟩] = some img' ∧
      extractFile 497 img' .whole [0x61] = some (some [7]) ∧
      extractFile 497 img' .whole [0x62] = extractFile 497 twoFiles .whole [0x62] := by
  obtain ⟨img', hruns, hadded, hothers⟩ := extractFile_addFileAs twoFiles_wellFormed.linked
    (show resolveName [0x61] none = .ok [0x61] from rfl) (by decide +kernel)
    (show (addFileAs twoFiles [0x61] none ⟨some [7], some [7]⟩).2 = .ok () by decide +kernel)
    (show maxFat < 497 by decide) [.addFileAs [0x63] none ⟨some [8, 9], some [8, 9]⟩]
  exact ⟨img', hruns, hadded (by decide), hothers .whole [0x62] (by decide) (by decide)⟩

end Pffs
