import PieceEmu.Tools.Pffs

/-!
# Allocating the sectors of a file

`AllocateSectors` rewrites the chain of one directory entry through a pointer that
may point into the directory or into the table. Seen as a map from cells to links,
both are the same thing, and the four operations it is made of have names in
`LinkedCells`: walk along a path, link up fresh nodes, rewrite the last cell, give
nodes back. `MasterBlock.withNext` is the master block with a given map.

What a caller needs is collected in `Pffs.Allocated`: which sectors the entry has
afterwards, and what has become of all other cells. `Pffs.allocateSectors_spec` says
that every successful call establishes it, for a chain that is to grow, to shrink or
to stay; `Pffs.freeChain_eq` is the corresponding fact about the deletion.
-/

namespace Pffs

open LinkedCells

/-- The value of a link to a sector. -/
def sectorRef (s : ℕ) : U16 := BitVec.ofNat 16 s

/-- **A chain of sectors**: from the cell `c`, the links lead through exactly these
sectors, and the last link is `t`. -/
abbrev Chain (m : MasterBlock) (c : Cell) (l : List ℕ) (t : U16) : Prop :=
  Path Cell.fat sectorRef m.next c l t

theorem sectorRef_toNat {s : ℕ} (h : s < maxFat) : (sectorRef s).toNat = s := by
  rw [sectorRef, BitVec.toNat_ofNat, Nat.mod_eq_of_lt (Nat.lt_trans h (by decide))]

theorem sectorRef_ne_free {s : ℕ} (h : s < maxFat) : sectorRef s ≠ fatFree := by
  intro heq
  have := congrArg BitVec.toNat heq
  rw [sectorRef_toNat h] at this
  subst this
  exact absurd h (by decide)

theorem sectorRef_ne_end {s : ℕ} (h : s < maxFat) : sectorRef s ≠ fatEnd := by
  intro heq
  have := congrArg BitVec.toNat heq
  rw [sectorRef_toNat h] at this
  subst this
  exact absurd h (by decide)

theorem fat_injective : Function.Injective Cell.fat := fun _ _ h => Cell.fat.inj h

theorem nodup_cells {i : ℕ} {l : List ℕ} (h : l.Nodup) : (Cell.dir i :: l.map Cell.fat).Nodup := by
  refine List.nodup_cons.mpr ⟨?_, h.map fat_injective⟩
  simp

/-- A sector on a chain is not free. -/
theorem Chain.fat_ne_free {m : MasterBlock} {c : Cell} {l : List ℕ} {t : U16}
    (h : Chain m c l t) (ht : t ≠ fatFree) (hl : ∀ s ∈ l, s < maxFat) {s : ℕ} (hs : s ∈ l) :
    m.fat s ≠ fatFree := by
  rcases h.next_mem (c := .fat s) (List.mem_cons_of_mem _ (List.mem_map_of_mem hs)) with
    ⟨s', hs', h'⟩ | h'
  · exact fun heq => sectorRef_ne_free (hl s' hs') (h'.symm.trans heq)
  · exact fun heq => ht (h'.symm.trans heq)

/-! ### The master block and its links -/

/-- The master block with these links. -/
def MasterBlock.withNext (m : MasterBlock) (next : Cell → U16) : MasterBlock where
  dir i := { m.dir i with chain := next (.dir i) }
  fat s := next (.fat s)

@[simp] theorem next_withNext (m : MasterBlock) (next : Cell → U16) :
    (m.withNext next).next = next := by
  funext c
  cases c <;> rfl

@[simp] theorem withNext_withNext (m : MasterBlock) (next next' : Cell → U16) :
    (m.withNext next).withNext next' = m.withNext next' := rfl

@[simp] theorem withNext_next (m : MasterBlock) : m.withNext m.next = m := rfl

theorem setNext_eq (m : MasterBlock) (c : Cell) (v : U16) :
    m.setNext c v = m.withNext (Function.update m.next c v) := by
  cases c with
  | dir i =>
    refine congrArg₂ MasterBlock.mk (funext fun j => ?_) (funext fun s => ?_)
    · by_cases hj : j = i
      · subst hj
        simp
      · rw [Function.update_of_ne hj, Function.update_of_ne (by simpa using hj)]
        rfl
    · rw [Function.update_of_ne (by simp)]
      rfl
  | fat s =>
    refine congrArg₂ MasterBlock.mk (funext fun j => ?_) (funext fun s' => ?_)
    · rw [Function.update_of_ne (by simp)]
      rfl
    · by_cases hs : s' = s
      · subst hs
        simp
      · rw [Function.update_of_ne hs, Function.update_of_ne (by simpa using hs)]
        rfl

/-! ### Free sectors -/

/-- The free sectors from `start` on, in order. -/
def freeFrom (max : ℕ) (fat : ℕ → U16) (start : ℕ) : List ℕ :=
  (List.range' start (max - start)).filter fun s => fat s = fatFree

theorem mem_freeFrom {max : ℕ} {fat : ℕ → U16} {start s : ℕ} :
    s ∈ freeFrom max fat start ↔ start ≤ s ∧ s < max ∧ fat s = fatFree := by
  rw [freeFrom, List.mem_filter, List.mem_range'_1, decide_eq_true_eq, ← and_assoc]
  exact and_congr_left' (by omega)

theorem nodup_freeFrom (max : ℕ) (fat : ℕ → U16) (start : ℕ) :
    (freeFrom max fat start).Nodup :=
  List.Nodup.filter _ List.nodup_range'

theorem getFreeFat_eq (max : ℕ) (fat : ℕ → U16) (start : ℕ) :
    getFreeFat max fat start = (freeFrom max fat start).head? := by
  rw [getFreeFat, freeFrom, List.head?_filter]

/-- Behind the first free sector, the others come next. -/
theorem freeFrom_of_cons {max : ℕ} {fat : ℕ → U16} {start n : ℕ} {g : List ℕ}
    (h : freeFrom max fat start = n :: g) : g = freeFrom max fat (n + 1) := by
  obtain ⟨d, hd⟩ : ∃ d, max - start = d := ⟨_, rfl⟩
  induction d generalizing start with
  | zero =>
    rw [freeFrom, hd] at h
    exact absurd h (by simp)
  | succ d ih =>
    have hd' : max - (start + 1) = d := by omega
    rw [freeFrom, hd, List.range'_succ, List.filter_cons] at h
    split_ifs at h with hfree
    · obtain ⟨rfl, hg⟩ := List.cons.inj h
      rw [← hg, freeFrom, hd']
    · refine ih ?_ hd'
      rw [freeFrom, hd', h]

/-- Taking a sector that is not among the free ones changes nothing about them. -/
theorem freeFrom_update {max : ℕ} {fat : ℕ → U16} {start x : ℕ} {v : U16} (hv : v ≠ fatFree)
    (hx : x ∉ freeFrom max fat start) :
    freeFrom max (Function.update fat x v) start = freeFrom max fat start := by
  refine List.filter_congr fun s hs => ?_
  by_cases hsx : s = x
  · subst hsx
    have hfat : fat s ≠ fatFree := fun h => hx (List.mem_filter.mpr ⟨hs, decide_eq_true h⟩)
    simp [hv, hfat]
  · rw [Function.update_of_ne hsx]

/-! ### The loops -/

/-- The first loop walks along a chain. -/
theorem allocLoop_walk (max r nn : ℕ) {m : MasterBlock} {c : Cell} {l : List ℕ} {t : U16}
    (h : Chain m c l t) (hl : ∀ s ∈ l, s < maxFat) :
    allocLoop max (l.length + r) m c nn = allocLoop max r m (lastCell Cell.fat c l) nn := by
  induction l generalizing c with
  | nil => rw [List.length_nil, Nat.zero_add, lastCell]
  | cons s l ih =>
    have hs := hl s List.mem_cons_self
    rw [List.length_cons, Nat.add_right_comm, allocLoop, h.1,
      if_neg (not_or.mpr ⟨sectorRef_ne_free hs, sectorRef_ne_end hs⟩), sectorRef_toNat hs]
    exact ih h.2 fun s' hs' => hl s' (List.mem_cons_of_mem _ hs')

/-- **From the end of a chain, the first loop links up the first free sectors**, as
many as it has rounds to go, or fails for want of free sectors. -/
theorem allocLoop_fresh {max : ℕ} (hmax : max ≤ maxFat) (r : ℕ) (m : MasterBlock) (c : Cell)
    (nn : ℕ) (hc : m.next c = fatFree ∨ m.next c = fatEnd)
    (hfresh : ∀ s, c = .fat s → s ∉ freeFrom max m.fat nn) :
    allocLoop max r m c nn =
      if r ≤ (freeFrom max m.fat nn).length then
        some (m.withNext (linkAll Cell.fat sectorRef m.next c ((freeFrom max m.fat nn).take r)),
          lastCell Cell.fat c ((freeFrom max m.fat nn).take r))
      else none := by
  induction r generalizing m c nn with
  | zero => rw [if_pos (Nat.zero_le _)]; rfl
  | succ r ih =>
    rw [allocLoop, if_pos hc, getFreeFat_eq]
    cases hfree : freeFrom max m.fat nn with
    | nil => rw [if_neg (by simp)]; rfl
    | cons n g =>
      have hn := mem_freeFrom.mp (hfree ▸ List.mem_cons_self : n ∈ freeFrom max m.fat nn)
      have hg := freeFrom_of_cons hfree
      have hcn : Cell.fat n ≠ c := by
        rintro rfl
        exact hfresh n rfl (hfree ▸ List.mem_cons_self)
      -- the sectors behind `n` are as free as before
      have hg' : freeFrom max (m.setNext c (sectorRef n)).fat (n + 1) = g := by
        cases c with
        | dir i => exact hg.symm
        | fat x =>
          refine (freeFrom_update (sectorRef_ne_free (Nat.lt_of_lt_of_le hn.2.1 hmax)) ?_).trans
            hg.symm
          intro hx
          refine hfresh x rfl ?_
          rw [hfree, hg]
          exact List.mem_cons_of_mem _ hx
      have hnext : (m.setNext c (sectorRef n)).next (.fat n) = fatFree := by
        rw [setNext_eq, next_withNext, Function.update_of_ne hcn]
        exact hn.2.2
      have hih := ih (m.setNext c (sectorRef n)) (.fat n) (n + 1) (.inl hnext) (by
        rintro s heq hs
        obtain rfl := Cell.fat.inj heq
        exact absurd (mem_freeFrom.mp hs).1 (by omega))
      rw [hg'] at hih
      refine hih.trans ?_
      simp only [List.length_cons, Nat.add_le_add_iff_right, List.take_succ_cons, setNext_eq,
        next_withNext, withNext_withNext, linkAll, lastCell]

/-- **The second loop gives back the rest of a chain.** -/
theorem releaseLoop_eq {m : MasterBlock} {s : ℕ} {l : List ℕ} (h : Chain m (.fat s) l fatEnd)
    (hnd : (s :: l).Nodup) (hl : ∀ x ∈ s :: l, x < maxFat) :
    releaseLoop (l.length + 1) m (sectorRef s) =
      m.withNext (freeAll Cell.fat fatFree m.next (s :: l)) := by
  induction l generalizing m s with
  | nil =>
    have hend : m.fat s = fatEnd := h
    rw [releaseLoop, sectorRef_toNat (hl s List.mem_cons_self)]
    simp only [hend, or_true, if_true, setNext_eq, freeAll]
  | cons s' l ih =>
    obtain ⟨hs, hnd⟩ := List.nodup_cons.mp hnd
    have hs' := hl s' (List.mem_cons_of_mem _ List.mem_cons_self)
    have hnext : m.fat s = sectorRef s' := h.1
    rw [List.length_cons, releaseLoop, sectorRef_toNat (hl s List.mem_cons_self)]
    simp only [hnext, sectorRef_ne_free hs', sectorRef_ne_end hs', or_self, if_false]
    rw [setNext_eq, ih ?_ hnd fun x hx => hl x (List.mem_cons_of_mem _ hx)]
    · rw [next_withNext, withNext_withNext]
      rfl
    · rw [Chain, next_withNext]
      refine (path_congr fun c hc => ?_).mp h.2
      rw [Function.update_of_ne]
      rintro rfl
      rw [← List.map_cons] at hc
      exact hs ((List.mem_map_of_injective fat_injective).mp hc)

/-- Deleting from a sector on gives back the rest of its chain. -/
theorem freeChain_sectorRef {m : MasterBlock} {s : ℕ} {l : List ℕ}
    (h : Chain m (.fat s) l fatEnd) (hnd : (s :: l).Nodup) (hl : ∀ x ∈ s :: l, x < maxFat)
    {fuel : ℕ} (hfuel : l.length + 1 < fuel) :
    freeChain fuel m (sectorRef s) =
      some (m.withNext (freeAll Cell.fat fatFree m.next (s :: l))) := by
  induction l generalizing m s fuel with
  | nil =>
    obtain ⟨fuel, rfl⟩ : ∃ k, fuel = k + 2 := ⟨fuel - 2, by simp at hfuel; omega⟩
    have hend : m.fat s = fatEnd := h
    have hs := hl s List.mem_cons_self
    rw [freeChain, if_neg (sectorRef_ne_end hs), sectorRef_toNat hs, hend, freeChain, if_pos rfl,
      setNext_eq]
    rfl
  | cons s' l ih =>
    obtain ⟨hs, hnd⟩ := List.nodup_cons.mp hnd
    have hlt := hl s List.mem_cons_self
    obtain ⟨fuel, rfl⟩ : ∃ k, fuel = k + 1 := ⟨fuel - 1, by omega⟩
    have hnext : m.fat s = sectorRef s' := h.1
    rw [freeChain, if_neg (sectorRef_ne_end hlt), sectorRef_toNat hlt, hnext, setNext_eq,
      ih ?_ hnd (fun x hx => hl x (List.mem_cons_of_mem _ hx)) (by simpa using hfuel)]
    · rw [next_withNext, withNext_withNext]
      rfl
    · rw [Chain, next_withNext]
      refine (path_congr fun c hc => ?_).mp h.2
      rw [Function.update_of_ne]
      rintro rfl
      rw [← List.map_cons] at hc
      exact hs ((List.mem_map_of_injective fat_injective).mp hc)

/-- **Deleting gives back the whole chain**, in as many rounds as it has sectors, and
one more. -/
theorem freeChain_eq {m : MasterBlock} {c : Cell} {l : List ℕ} (h : Chain m c l fatEnd)
    (hnd : l.Nodup) (hl : ∀ s ∈ l, s < maxFat) {fuel : ℕ} (hfuel : l.length < fuel) :
    freeChain fuel m (m.next c) = some (m.withNext (freeAll Cell.fat fatFree m.next l)) := by
  cases l with
  | nil =>
    obtain ⟨fuel, rfl⟩ : ∃ k, fuel = k + 1 := ⟨fuel - 1, by simp at hfuel; omega⟩
    have hend : m.next c = fatEnd := h
    rw [freeChain, if_pos hend]
    rfl
  | cons s l =>
    rw [h.1]
    exact freeChain_sectorRef h.2 hnd hl hfuel

/-! ### What a successful allocation does -/

/-- **What `AllocateSectors` leaves**: the chain of entry `i` was `l` and is `q`. Every
sector of `q` was on the chain or free; the sectors of `l` that are not on it any more
are free; and every other link, and everything but the chain in the entries, is as
before. -/
structure Allocated (max : ℕ) (m m' : MasterBlock) (i : ℕ) (l q : List ℕ) : Prop where
  path : Chain m' (.dir i) q fatEnd
  nodup : q.Nodup
  sound : ∀ s ∈ q, s ∈ l ∨ (s < max ∧ m.fat s = fatFree)
  released : ∀ s ∈ l, s ∉ q → m'.fat s = fatFree
  fat_eq : ∀ s, s ∉ l → s ∉ q → m'.fat s = m.fat s
  dir_eq : ∀ j, j ≠ i → m'.dir j = m.dir j
  entry : m'.dir i = { m.dir i with chain := m'.next (.dir i) }

section Spec

variable {max : ℕ} {m : MasterBlock} {i : ℕ} {l : List ℕ} {t : U16}

/-- A cell that is not on a list of sectors. -/
theorem fat_not_mem_map {s : ℕ} {l : List ℕ} (h : s ∉ l) : Cell.fat s ∉ l.map Cell.fat :=
  fun hc => h ((List.mem_map_of_injective fat_injective).mp hc)

theorem dir_not_mem_map {j : ℕ} {l : List ℕ} : Cell.dir j ∉ l.map Cell.fat := by simp

/-- The last cell of a chain is the entry or a sector of the chain. -/
theorem lastCell_cases (i : ℕ) (l : List ℕ) :
    lastCell Cell.fat (.dir i) l = .dir i ∨ ∃ s ∈ l, lastCell Cell.fat (.dir i) l = .fat s := by
  rcases List.mem_cons.mp (lastCell_mem (Cell.dir i) l) with h | h
  · exact .inl h
  · obtain ⟨s, hs, h⟩ := List.mem_map.mp h
    exact .inr ⟨s, hs, h.symm⟩

/-- **A chain that shrinks, or stays**: its first `k` sectors are kept. -/
theorem allocateSectors_shrink (max : ℕ) (h : Chain m (.dir i) l fatEnd) (hnd : l.Nodup)
    (hl : ∀ s ∈ l, s < maxFat) {k : ℕ} (hk : k ≤ l.length) :
    ∃ m', allocateSectors max m i k l.length = some m' ∧ Allocated max m m' i l (l.take k) := by
  have hsplit : l.take k ++ l.drop k = l := List.take_append_drop k l
  rw [Chain, ← hsplit, Path.append_iff] at h
  obtain ⟨hkeep, hdrop⟩ := h
  have hlen : (l.take k).length = k := by rw [List.length_take, Nat.min_eq_left hk]
  have hdisj : ∀ s ∈ l.take k, s ∉ l.drop k := by
    rw [← hsplit] at hnd
    exact fun s hs hs' => (List.nodup_append.mp hnd).2.2 s hs s hs' rfl
  have hwalk := allocLoop_walk max 0 0 hkeep fun s hs =>
    hl s (List.mem_of_mem_take hs)
  rw [hlen, Nat.add_zero] at hwalk
  set p := lastCell Cell.fat (.dir i) (l.take k) with hp
  -- the links after the chain has been cut, and after the rest is given back
  set cut := Function.update m.next p fatEnd with hcut
  have hpne : ∀ s ∈ l.drop k, Cell.fat s ≠ p := by
    intro s hs heq
    rcases lastCell_cases i (l.take k) with h | ⟨s', hs', h⟩
    · rw [← hp] at h
      exact absurd (heq.trans h) (by simp)
    · rw [← hp, ← heq] at h
      exact hdisj s' hs' (Cell.fat.inj h ▸ hs)
  have hrel : releaseLoop (l.length - k) (m.setNext p fatEnd) (m.next p) =
      m.withNext (freeAll Cell.fat fatFree cut (l.drop k)) := by
    rw [setNext_eq, ← List.length_drop]
    cases hd : l.drop k with
    | nil => rfl
    | cons s r =>
      rw [hd] at hdrop
      have hndd : (s :: r).Nodup := hd ▸ hnd.sublist (List.drop_sublist k l)
      rw [hdrop.1, List.length_cons, releaseLoop_eq _ hndd fun x hx =>
        hl x (List.mem_of_mem_drop (hd ▸ hx)), next_withNext, withNext_withNext]
      rw [Chain, next_withNext]
      refine (path_congr fun c hc => ?_).mp hdrop.2
      rw [Function.update_of_ne]
      rintro rfl
      rw [← List.map_cons] at hc
      obtain ⟨s', hs', heq⟩ := List.mem_map.mp hc
      exact hpne s' (hd ▸ hs') heq
  refine ⟨m.withNext (freeAll Cell.fat fatFree cut (l.drop k)), ?_, ?_⟩
  · rw [allocateSectors, hwalk]
    exact congrArg some hrel
  · have hother : ∀ c, c ∉ (l.drop k).map Cell.fat → c ≠ p →
        freeAll Cell.fat fatFree cut (l.drop k) c = m.next c := fun c hc hcp => by
      rw [freeAll_of_not_mem hc, hcut, Function.update_of_ne hcp]
    refine
      { path := ?_, nodup := hnd.sublist (List.take_sublist k l)
        sound := fun s hs => .inl (List.mem_of_mem_take hs)
        released := fun s hs hs' => ?_, fat_eq := fun s hs hs' => ?_
        dir_eq := fun j hj => ?_, entry := rfl }
    · rw [Chain, next_withNext]
      refine (path_congr fun c hc => ?_).mp
        (hkeep.update_lastCell (nodup_cells (hnd.sublist (List.take_sublist k l))) fatEnd)
      rw [freeAll_of_not_mem, hcut]
      rcases List.mem_cons.mp hc with rfl | hc
      · exact dir_not_mem_map
      · obtain ⟨s, hs, rfl⟩ := List.mem_map.mp hc
        exact fat_not_mem_map (hdisj s hs)
    · rw [← hsplit, List.mem_append] at hs
      exact freeAll_of_mem (List.mem_map_of_mem (hs.resolve_left hs'))
    · refine hother (.fat s) (fat_not_mem_map fun hd => hs (List.mem_of_mem_drop hd)) ?_
      rintro heq
      rcases lastCell_cases i (l.take k) with h | ⟨s', hs'', h⟩
      · exact absurd (heq.trans (hp ▸ h)) (by simp)
      · exact hs' (Cell.fat.inj (heq.trans (hp ▸ h)) ▸ hs'')
    · show { m.dir j with chain := freeAll Cell.fat fatFree cut (l.drop k) (.dir j) } = m.dir j
      rw [hother (.dir j) dir_not_mem_map]
      · rfl
      · rintro heq
        rcases lastCell_cases i (l.take k) with h | ⟨s', -, h⟩
        · exact hj (Cell.dir.inj (heq.trans (hp ▸ h)))
        · exact absurd (heq.trans (hp ▸ h)) (by simp)

/-- **A chain that grows, or is new**: free sectors are linked up behind its last
one, or the call fails because there are too few. -/
theorem allocateSectors_grow (hmax : max ≤ maxFat) (h : Chain m (.dir i) l t)
    (ht : t = fatFree ∨ t = fatEnd) (hnd : l.Nodup) (hl : ∀ s ∈ l, s < maxFat)
    (hused : ∀ s ∈ l, m.fat s ≠ fatFree) (r : ℕ) :
    (freeFrom max m.fat 0).length < r ∧ allocateSectors max m i (l.length + r) l.length = none ∨
      ∃ m', allocateSectors max m i (l.length + r) l.length = some m' ∧
        Allocated max m m' i l (l ++ (freeFrom max m.fat 0).take r) ∧
        r ≤ (freeFrom max m.fat 0).length := by
  set p := lastCell Cell.fat (.dir i) l with hp
  set g := (freeFrom max m.fat 0).take r with hg
  have hp_not_free : ∀ s, p = .fat s → m.fat s ≠ fatFree := by
    intro s heq
    rcases lastCell_cases i l with h' | ⟨s', hs', h'⟩
    · exact absurd (heq.symm.trans h') (by simp)
    · exact Cell.fat.inj (h'.symm.trans heq) ▸ hused s' hs'
  have hloop := (allocLoop_walk max r 0 h hl).trans
    (allocLoop_fresh hmax r m p 0 (by rwa [h.next_lastCell]) fun s heq hs =>
      hp_not_free s heq (mem_freeFrom.mp hs).2.2)
  rw [← hg] at hloop
  by_cases hr : r ≤ (freeFrom max m.fat 0).length
  swap
  · rw [if_neg hr] at hloop
    exact .inl ⟨Nat.lt_of_not_le hr, by rw [allocateSectors, hloop]⟩
  rw [if_pos hr] at hloop
  -- what is linked up is new, and there is room for it
  have hgfree : ∀ s ∈ g, s < max ∧ m.fat s = fatFree := fun s hs =>
    (mem_freeFrom.mp (List.mem_of_mem_take hs)).2
  have hgnd : g.Nodup := (nodup_freeFrom max m.fat 0).sublist (List.take_sublist _ _)
  have hdisj : ∀ s ∈ l, s ∉ g := fun s hs hs' => hused s hs (hgfree s hs').2
  have hqnd : (l ++ g).Nodup :=
    List.nodup_append.mpr ⟨hnd, hgnd, fun s hs s' hs' heq => hdisj s hs (heq ▸ hs')⟩
  set linked := linkAll Cell.fat sectorRef m.next p g with hlinked
  have hother : ∀ c, c ∉ p :: g.map Cell.fat → linked c = m.next c := fun c hc =>
    linkAll_of_not_mem hc
  have hpath : Path Cell.fat sectorRef linked (.dir i) (l ++ g)
      (m.next (lastCell Cell.fat (.dir i) (l ++ g))) :=
    Path.linkAll h (nodup_cells hqnd)
  set q := lastCell Cell.fat p g with hq
  have hq' : lastCell Cell.fat (.dir i) (l ++ g) = q := by rw [lastCell_append]
  have hcell : ∀ c, c ∉ p :: g.map Cell.fat →
      Function.update linked q fatEnd c = m.next c := fun c hc => by
    rw [Function.update_of_ne, hother c hc]
    rintro rfl
    exact hc (lastCell_mem p g)
  refine .inr ⟨m.withNext (Function.update linked q fatEnd), ?_, ?_, hr⟩
  · rw [allocateSectors, hloop]
    simp only [Nat.sub_eq_zero_of_le (Nat.le_add_right _ _), releaseLoop, setNext_eq,
      next_withNext, withNext_withNext]
  · refine
      { path := ?_, nodup := hqnd, sound := fun s hs => ?_
        released := fun s hs hs' => absurd (List.mem_append_left g hs) hs'
        fat_eq := fun s hs hs' => ?_, dir_eq := fun j hj => ?_, entry := rfl }
    · rw [Chain, next_withNext, ← hq']
      exact hpath.update_lastCell (nodup_cells hqnd) fatEnd
    · exact (List.mem_append.mp hs).imp_right (hgfree s)
    · refine hcell (.fat s) ?_
      rw [List.mem_cons, not_or]
      refine ⟨fun heq => ?_, fat_not_mem_map fun hsg => hs' (List.mem_append_right l hsg)⟩
      rcases lastCell_cases i l with h' | ⟨s', hs'', h'⟩
      · exact absurd (heq.trans h') (by simp)
      · exact hs (Cell.fat.inj (heq.trans h') ▸ hs'')
    · show { m.dir j with chain := Function.update linked q fatEnd (.dir j) } = m.dir j
      rw [hcell (.dir j)]
      · rfl
      rw [List.mem_cons, not_or]
      refine ⟨fun heq => ?_, dir_not_mem_map⟩
      rcases lastCell_cases i l with h' | ⟨s', -, h'⟩
      · exact hj (Cell.dir.inj (heq.trans h'))
      · exact absurd (heq.trans h') (by simp)

/-- **`AllocateSectors` does what it says**: on the chain of an entry, old or new, a
call that succeeds gives the entry exactly `k` sectors. -/
theorem allocateSectors_spec (hmax : max ≤ maxFat) (h : Chain m (.dir i) l t)
    (ht : t = fatEnd ∨ t = fatFree ∧ l = []) (hnd : l.Nodup) (hl : ∀ s ∈ l, s < maxFat)
    (hused : ∀ s ∈ l, m.fat s ≠ fatFree) {k : ℕ} {m' : MasterBlock}
    (hm' : allocateSectors max m i k l.length = some m') :
    ∃ q, q.length = k ∧ Allocated max m m' i l q := by
  by_cases hshrink : t = fatEnd ∧ k ≤ l.length
  · obtain ⟨rfl, hk⟩ := hshrink
    obtain ⟨m'', hsome, hall⟩ := allocateSectors_shrink max h hnd hl hk
    rw [hm', Option.some.injEq] at hsome
    subst hsome
    exact ⟨l.take k, by rw [List.length_take, Nat.min_eq_left hk], hall⟩
  · have hk : l.length ≤ k := by
      rcases ht with rfl | ⟨-, rfl⟩
      · exact Nat.le_of_not_le fun hk => hshrink ⟨rfl, hk⟩
      · exact Nat.zero_le _
    obtain ⟨r, rfl⟩ := Nat.exists_eq_add_of_le hk
    have ht' : t = fatFree ∨ t = fatEnd := ht.elim .inr fun h => .inl h.1
    rcases allocateSectors_grow hmax h ht' hnd hl hused r with ⟨-, hnone⟩ | ⟨m'', hsome, hall, hr⟩
    · rw [hm'] at hnone
      exact absurd hnone (by simp)
    · rw [hm', Option.some.injEq] at hsome
      subst hsome
      refine ⟨_, ?_, hall⟩
      rw [List.length_append, List.length_take, Nat.min_eq_left hr]

end Spec

end Pffs
