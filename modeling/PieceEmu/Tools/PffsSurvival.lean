import PieceEmu.Tools.PffsChecked

/-!
# What the file system tools survive

Deleting, extracting and adding a file follow the links of one directory entry, and
come to an orderly end exactly when these links are as the code takes them to be:

| function | the chain of the entry has to |
|---|---|
| `PFFSDeleteFile` | end in `FAT_END`, inside the table |
| `PFFSExtractFile` | do so, inside the buffer, unless the file is empty |
| `PFFSAddFileAs` | end, inside the table and the buffer; |
| | have as many sectors as the size of the file asks for; |
| | and not end in the sector that is handed out next |

A chain that ends visits no sector twice (`LinkedCells.Trail.nodup`), so a cycle is one
of the ways in which a chain does not end. Deleting does not loop on it: it frees the
sectors it passes, comes back to one of them, and takes `FAT_FREE` for a sector.
-/

namespace Pffs

open LinkedCells

theorem sectorRef_injOn : Set.InjOn sectorRef {s | s < maxFat} := by
  intro s hs s' hs' heq
  have := congrArg BitVec.toNat heq
  rwa [sectorRef_toNat hs, sectorRef_toNat hs'] at this

theorem sectorRef_of_toNat (v : U16) : sectorRef v.toNat = v :=
  BitVec.eq_of_toNat_eq (Nat.mod_eq_of_lt v.isLt)

/-- A link that ends a chain. -/
abbrev Terminal (t : U16) : Prop := t = fatFree ∨ t = fatEnd

theorem Terminal.not_lt {t : U16} (h : Terminal t) : ¬t.toNat < maxFat := by
  rcases h with rfl | rfl <;> decide

theorem Terminal.sectorRef_ne {t : U16} (h : Terminal t) {s : ℕ} (hs : s < maxFat) :
    sectorRef s ≠ t := by
  rintro rfl
  exact h.not_lt (by rwa [sectorRef_toNat hs])

theorem terminal_end : Terminal fatEnd := .inr rfl

theorem next_setNext (m : MasterBlock) (c : Cell) (v : U16) :
    (m.setNext c v).next = Function.update m.next c v := by
  rw [setNext_eq, next_withNext]

/-- **A value leads** through these sectors of the table. -/
abbrev Leads (m : MasterBlock) (v : U16) (l : List ℕ) (t : U16) : Prop :=
  Trail Cell.fat sectorRef m.next v l t

section Leads

variable {m : MasterBlock} {v t : U16} {l : List ℕ}

/-- Where a value leads does not depend on a sector that is not on the way. -/
theorem leads_setNext_iff {s : ℕ} (hs : s ∉ l) (x : U16) :
    Leads (m.setNext (.fat s) x) v l t ↔ Leads m v l t := by
  rw [Leads, next_setNext]
  refine trail_congr fun s' hs' => Function.update_of_ne ?_ _ _
  rintro heq
  exact hs (Cell.fat.inj heq ▸ hs')

/-- A sector whose link ends the chain is the last one on the way. -/
theorem Leads.eq_nil_of_terminal {s : ℕ} {a b : List ℕ} (h : Leads m v (a ++ s :: b) t)
    (hb : ∀ x ∈ b, x < maxFat) (hs : Terminal (m.fat s)) : b = [] ∧ t = m.fat s := by
  have htrail := h.append_cons
  cases b with
  | nil => exact ⟨rfl, htrail.symm⟩
  | cons x b => exact absurd htrail.1.symm (hs.sectorRef_ne (hb x List.mem_cons_self))

theorem Leads.nodup (h : Leads m v l t) (ht : Terminal t) (hl : ∀ s ∈ l, s < maxFat) :
    l.Nodup :=
  Trail.nodup sectorRef_injOn hl (fun _ hs => ht.sectorRef_ne hs) h

/-! ### Deleting -/

/-- **Deleting that comes to an end has followed a chain that does**, in the table as
it was before. -/
theorem leads_of_freeChain {fuel : ℕ} {m' : MasterBlock}
    (h : Checked.freeChain fuel m v = .ok m') :
    ∃ l, Leads m v l fatEnd ∧ ∀ s ∈ l, s < maxFat := by
  induction fuel generalizing m v with
  | zero => cases h
  | succ fuel ih =>
    rw [Checked.freeChain] at h
    split_ifs at h with hend hlt
    · exact ⟨[], hend, fun s hs => absurd hs List.not_mem_nil⟩
    obtain ⟨l, hl, hin⟩ := ih h
    -- a sector that has been freed leads to no other one
    have hs : v.toNat ∉ l := by
      intro hmem
      obtain ⟨a, b, rfl⟩ := List.append_of_mem hmem
      have hfree : (m.setNext (.fat v.toNat) fatFree).fat v.toNat = fatFree :=
        Function.update_self ..
      have hb := hl.eq_nil_of_terminal
        (fun x hx => hin x (List.mem_append_right a (List.mem_cons_of_mem _ hx)))
        (.inl hfree)
      exact absurd (hb.2.trans hfree) (by decide)
    refine ⟨v.toNat :: l, ⟨(sectorRef_of_toNat v).symm, (leads_setNext_iff hs fatFree).mp hl⟩, ?_⟩
    intro s hs
    rcases List.mem_cons.mp hs with rfl | hs
    · exact hlt
    · exact hin s hs

/-- **A chain that ends can be deleted.** -/
theorem freeChain_ok (h : Leads m v l fatEnd) (hl : ∀ s ∈ l, s < maxFat) :
    ∃ m', Checked.freeChain (l.length + 1) m v = .ok m' := by
  have hnd := h.nodup terminal_end hl
  induction l generalizing m v with
  | nil =>
    obtain rfl : v = fatEnd := h
    exact ⟨m, by rw [Checked.freeChain, if_pos rfl]⟩
  | cons s l ih =>
    obtain ⟨hs, hnd⟩ := List.nodup_cons.mp hnd
    have hlt := hl s List.mem_cons_self
    obtain ⟨rfl, htail⟩ := h
    rw [List.length_cons, Checked.freeChain, if_neg (sectorRef_ne_end hlt), sectorRef_toNat hlt,
      if_pos hlt]
    exact ih ((leads_setNext_iff hs fatFree).mpr htail)
      (fun x hx => hl x (List.mem_cons_of_mem _ hx)) hnd

/-! ### Extracting -/

/-- A host that takes nothing: the disk is full. -/
def Sink.full : Sink where
  opens := true
  takes _ _ := 0
  takes_le _ n := Nat.zero_le n

/-- **Extracting to a full disk ends only at the end of the chain.** -/
theorem leads_of_extractLoop {img : Opened} {fuel k remaining : ℕ} (hrem : remaining ≠ 0)
    {pieces : List (ℕ × ℕ)}
    (h : Checked.extractLoop img .full fuel k remaining v = .ok pieces) :
    ∃ l, Leads img.msb v l fatEnd ∧ ∀ s ∈ l, s < maxFat ∧ img.InBuffer s := by
  induction fuel generalizing k v pieces with
  | zero => cases h
  | succ fuel ih =>
    rw [Checked.extractLoop] at h
    split_ifs at h with hend hbuf hlt
    · exact ⟨[], hend.resolve_left hrem, fun s hs => absurd hs List.not_mem_nil⟩
    have hfull : remaining - Sink.full.takes k (min remaining 4096) = remaining := Nat.sub_zero _
    dsimp only at h
    rw [hfull] at h
    split at h
    · cases h
    next htail =>
    obtain ⟨l, hl, hin⟩ := ih htail
    refine ⟨v.toNat :: l, ⟨(sectorRef_of_toNat v).symm, hl⟩, ?_⟩
    intro s hs
    rcases List.mem_cons.mp hs with rfl | hs
    · exact ⟨hlt, hbuf⟩
    · exact hin s hs

/-- **A chain that ends can be extracted**, whatever the host takes. -/
theorem extractLoop_ok {img : Opened} (sink : Sink) (h : Leads img.msb v l fatEnd)
    (hl : ∀ s ∈ l, s < maxFat ∧ img.InBuffer s) (k remaining : ℕ) :
    ∃ pieces, Checked.extractLoop img sink (l.length + 1) k remaining v = .ok pieces := by
  induction l generalizing v k remaining with
  | nil =>
    obtain rfl : v = fatEnd := h
    exact ⟨[], by rw [Checked.extractLoop, if_pos (.inr rfl)]⟩
  | cons s l ih =>
    obtain ⟨hlt, hbuf⟩ := hl s List.mem_cons_self
    obtain ⟨rfl, htail⟩ := h
    rw [List.length_cons, Checked.extractLoop, sectorRef_toNat hlt]
    by_cases hrem : remaining = 0
    · exact ⟨[], by rw [if_pos (.inl hrem)]⟩
    rw [if_neg (not_or.mpr ⟨hrem, sectorRef_ne_end hlt⟩), if_pos hbuf]
    obtain ⟨pieces, hp⟩ := ih htail (fun x hx => hl x (List.mem_cons_of_mem _ hx)) (k + 1)
      (remaining - sink.takes k (min remaining 4096))
    have hp' : Checked.extractLoop img sink (l.length + 1) (k + 1)
        (remaining - sink.takes k (min remaining 4096)) (img.msb.fat s) = .ok pieces := hp
    refine ⟨(s, sink.takes k (min remaining 4096)) :: pieces, ?_⟩
    dsimp only
    rw [if_pos hlt, hp']

/-! ### Writing -/

/-- **The contents are written along a chain of that length**, in the table and in the
buffer. -/
theorem writeLoop_ok_iff {img : Opened} {k : ℕ} (bytes : List U8) (data : ℕ → ℕ → U8) :
    (∃ data', Checked.writeLoop img m.fat k v bytes data = .ok data') ↔
      ∃ l t, l.length = k ∧ Leads m v l t ∧ ∀ s ∈ l, s < maxFat ∧ img.InBuffer s := by
  induction k generalizing v bytes data with
  | zero =>
    refine iff_of_true ⟨data, rfl⟩ ⟨[], v, rfl, rfl, fun s hs => absurd hs List.not_mem_nil⟩
  | succ k ih =>
    constructor
    · rintro ⟨data', h⟩
      rw [Checked.writeLoop] at h
      split_ifs at h with hbuf hlt
      obtain ⟨l, t, hlen, hl, hin⟩ := (ih _ _).mp ⟨data', h⟩
      refine ⟨v.toNat :: l, t, congrArg Nat.succ hlen, ⟨(sectorRef_of_toNat v).symm, hl⟩, ?_⟩
      intro s hs
      rcases List.mem_cons.mp hs with rfl | hs
      · exact ⟨hlt, hbuf⟩
      · exact hin s hs
    · rintro ⟨l, t, hlen, hl, hin⟩
      cases l with
      | nil => exact absurd hlen (by simp)
      | cons s l =>
        obtain ⟨hlt, hbuf⟩ := hin s List.mem_cons_self
        obtain ⟨rfl, htail⟩ := hl
        rw [Checked.writeLoop, sectorRef_toNat hlt, if_pos hbuf, if_pos hlt]
        exact (ih _ _).mpr ⟨l, t, Nat.succ.inj hlen, htail, fun x hx =>
          hin x (List.mem_cons_of_mem _ hx)⟩

end Leads

/-! ### Allocating -/

section Alloc

variable {max : ℕ} {m : MasterBlock} {c : Cell} {l : List ℕ} {t : U16}

/-- **What a round of allocation has walked along** before it first takes a free
sector: a part of the chain inside the table. -/
theorem chain_of_allocLoop {k nn : ℕ} {r : Option (MasterBlock × Cell)}
    (h : Checked.allocLoop max k m c nn = .ok r) :
    ∃ l t, Chain m c l t ∧ (∀ s ∈ l, s < maxFat) ∧ (l.length = k ∨ Terminal t) := by
  induction k generalizing c with
  | zero => exact ⟨[], m.next c, rfl, fun s hs => absurd hs List.not_mem_nil, .inl rfl⟩
  | succ k ih =>
    rw [Checked.allocLoop] at h
    by_cases hend : Terminal (m.next c)
    · exact ⟨[], m.next c, rfl, fun s hs => absurd hs List.not_mem_nil, .inr hend⟩
    rw [if_neg hend] at h
    split_ifs at h with hlt
    obtain ⟨l, t, hl, hin, hlen⟩ := ih h
    refine ⟨(m.next c).toNat :: l, t, ⟨(sectorRef_of_toNat _).symm, hl⟩, ?_,
      hlen.imp_left (congrArg Nat.succ)⟩
    intro s hs
    rcases List.mem_cons.mp hs with rfl | hs
    · exact hlt
    · exact hin s hs

/-- The first loop walks along a chain. -/
theorem checked_allocLoop_walk (max r nn : ℕ) (h : Chain m c l t) (hl : ∀ s ∈ l, s < maxFat) :
    Checked.allocLoop max (l.length + r) m c nn =
      Checked.allocLoop max r m (lastCell Cell.fat c l) nn := by
  induction l generalizing c with
  | nil => rw [List.length_nil, Nat.zero_add, lastCell]
  | cons s l ih =>
    have hs := hl s List.mem_cons_self
    rw [List.length_cons, Nat.add_right_comm, Checked.allocLoop, h.1,
      if_neg (not_or.mpr ⟨sectorRef_ne_free hs, sectorRef_ne_end hs⟩), sectorRef_toNat hs,
      if_pos hs]
    exact ih h.2 fun s' hs' => hl s' (List.mem_cons_of_mem _ hs')

/-- **From the end of a chain, the first loop stays inside the table**: it takes
sectors that are free. -/
theorem checked_allocLoop_fresh (hmax : max ≤ maxFat) (r : ℕ) (m : MasterBlock) (c : Cell)
    (nn : ℕ) (hc : Terminal (m.next c)) (hfresh : ∀ s, c = .fat s → s < nn) :
    Checked.allocLoop max r m c nn = .ok (allocLoop max r m c nn) := by
  induction r generalizing m c nn with
  | zero => rfl
  | succ r ih =>
    rw [Checked.allocLoop, allocLoop, if_pos hc, if_pos hc, Checked.getFreeFat_eq hmax]
    cases hn : getFreeFat max m.fat nn with
    | none => rfl
    | some n =>
      rw [getFreeFat_eq] at hn
      obtain ⟨hle, hlt, hfree⟩ := mem_freeFrom.mp (List.mem_of_mem_head? hn)
      dsimp only
      rw [if_pos (hlt.trans_le hmax)]
      refine ih _ _ _ (.inl ?_) fun s heq => ?_
      · rw [next_setNext, Function.update_of_ne]
        · exact hfree
        · intro heq
          exact absurd (hfresh n heq.symm) (Nat.not_lt.mpr hle)
      · rw [← Cell.fat.inj heq]
        exact Nat.lt_succ_self n

/-- The second loop reads the table at the link it starts from. -/
theorem lt_of_releaseLoop {k : ℕ} {nn : U16} {m' : MasterBlock}
    (h : Checked.releaseLoop k m nn = .ok m') (hk : 0 < k) : nn.toNat < maxFat := by
  obtain ⟨k, rfl⟩ := Nat.exists_eq_succ_of_ne_zero hk.ne'
  rw [Checked.releaseLoop] at h
  by_contra hlt
  rw [if_neg hlt] at h
  cases h

/-- **The second loop stays on the rest of the chain**, for as many rounds as that has
sectors, and leaves the other links alone. -/
theorem releaseLoop_ok {k : ℕ} {nn : U16} (h : Leads m nn l t) (ht : Terminal t)
    (hl : ∀ s ∈ l, s < maxFat) (hk : k ≤ l.length) :
    ∃ m', Checked.releaseLoop k m nn = .ok m' ∧
      ∀ c, c ∉ l.map Cell.fat → m'.next c = m.next c := by
  have hnd := h.nodup ht hl
  induction l generalizing m nn k with
  | nil =>
    obtain rfl : k = 0 := Nat.le_zero.mp hk
    exact ⟨m, rfl, fun _ _ => rfl⟩
  | cons s l ih =>
    cases k with
    | zero => exact ⟨m, rfl, fun _ _ => rfl⟩
    | succ k =>
      obtain ⟨hs, hnd⟩ := List.nodup_cons.mp hnd
      have hlt := hl s List.mem_cons_self
      obtain ⟨rfl, htail⟩ := h
      have hframe : ∀ c, c ∉ (s :: l).map Cell.fat →
          (m.setNext (.fat s) fatFree).next c = m.next c := fun c hc => by
        rw [next_setNext, Function.update_of_ne]
        rintro rfl
        exact hc List.mem_cons_self
      rw [Checked.releaseLoop, sectorRef_toNat hlt, if_pos hlt]
      dsimp only
      split_ifs with hend
      · exact ⟨_, rfl, hframe⟩
      · obtain ⟨m', hm', hrest⟩ := ih ((leads_setNext_iff hs fatFree).mpr htail)
          (fun x hx => hl x (List.mem_cons_of_mem _ hx)) (Nat.le_of_succ_le_succ hk) hnd
        refine ⟨m', hm', fun c hc => ?_⟩
        rw [hrest c fun hmem => hc (List.mem_cons_of_mem _ hmem), hframe c hc]

end Alloc

/-! ### Storing a file in an entry -/

section Store

variable {img : Opened} {m : MasterBlock} {i n o : ℕ} {l : List ℕ} {t : U16}

/-- **A chain in which a file of any length can be stored**: it comes to an end in the
table and in the buffer, it has as many sectors as are to be given back at the most,
and its last sector is not the one that is handed out next. -/
structure Storable (img : Opened) (m : MasterBlock) (i old : ℕ) (l : List ℕ) (t : U16) :
    Prop where
  chain : Chain m (.dir i) l t
  ends : Terminal t
  inside : ∀ s ∈ l, s < maxFat ∧ img.InBuffer s
  enough : old ≤ l.length
  notNext : ∀ s, lastCell Cell.fat (.dir i) l = .fat s → getFreeFat img.maxFat m.fat 0 ≠ some s

theorem Chain.nodup (h : Chain m (.dir i) l t) (ht : Terminal t) (hl : ∀ s ∈ l, s < maxFat) :
    l.Nodup :=
  Leads.nodup (path_iff_trail.mp h) ht hl

theorem Storable.congr {m' : MasterBlock} (h : Storable img m i o l t)
    (hnext : m'.next = m.next) : Storable img m' i o l t where
  chain := by
    rw [Chain, hnext]
    exact h.chain
  ends := h.ends
  inside := h.inside
  enough := h.enough
  notNext := by
    have hfat : m'.fat = m.fat := funext fun s => congrFun hnext (.fat s)
    rw [hfat]
    exact h.notNext

/-- The entry of a new file has no sectors, and none to give back. -/
theorem storable_fresh (img : Opened) (i : ℕ) (hnext : m.next (.dir i) = fatFree) :
    Storable img m i 0 [] fatFree where
  chain := hnext
  ends := .inl rfl
  inside s hs := absurd hs List.not_mem_nil
  enough := Nat.le_refl 0
  notNext s hs := absurd hs (by simp [lastCell])

/-- The chain is cut behind `n` sectors, and the rest is given back. -/
theorem Storable.allocate_shrink (h : Storable img m i o l t) (hn : n ≤ l.length) :
    ∃ m', Checked.allocateSectors img.maxFat m i n o = .ok (some m') ∧
      Chain m' (.dir i) (l.take n) fatEnd := by
  have hin := fun s hs => (h.inside s hs).1
  have hnd := Chain.nodup h.chain h.ends hin
  have hsplit : l.take n ++ l.drop n = l := List.take_append_drop n l
  have hlen : (l.take n).length = n := by rw [List.length_take, Nat.min_eq_left hn]
  obtain ⟨hkeep, hdrop⟩ := Path.append_iff.mp (hsplit.symm ▸ h.chain)
  have hdisj : ∀ s ∈ l.take n, s ∉ l.drop n := by
    rw [← hsplit] at hnd
    exact fun s hs hs' => (List.nodup_append.mp hnd).2.2 s hs s hs' rfl
  set p := lastCell Cell.fat (.dir i) (l.take n) with hp
  have hwalk := checked_allocLoop_walk img.maxFat 0 0 hkeep fun s hs =>
    hin s (List.mem_of_mem_take hs)
  rw [hlen, Nat.add_zero, ← hp] at hwalk
  have hcells : ∀ c ∈ Cell.dir i :: (l.take n).map Cell.fat, c ∉ (l.drop n).map Cell.fat := by
    intro c hc
    rcases List.mem_cons.mp hc with rfl | hc
    · exact dir_not_mem_map
    · obtain ⟨s, hs, rfl⟩ := List.mem_map.mp hc
      exact fat_not_mem_map (hdisj s hs)
  -- the rest of the chain is still there after the cut
  have hrest : Leads (m.setNext p fatEnd) (m.next p) (l.drop n) t := by
    refine (trail_congr fun s hs => ?_).mp (path_iff_trail.mp hdrop)
    rw [next_setNext, Function.update_of_ne]
    rintro heq
    exact hcells p (lastCell_mem _ _) (heq ▸ List.mem_map_of_mem hs)
  obtain ⟨m', hm', hother⟩ := releaseLoop_ok (k := o - n) hrest h.ends
    (fun s hs => hin s (List.mem_of_mem_drop hs)) (by
      rw [List.length_drop]
      exact Nat.sub_le_sub_right h.enough n)
  refine ⟨m', ?_, ?_⟩
  · rw [Checked.allocateSectors, hwalk, Checked.allocLoop]
    dsimp only
    rw [hm']
  · refine (path_congr fun c hc => ?_).mp (hkeep.update_lastCell
      (nodup_cells (hnd.sublist (List.take_sublist n l))) fatEnd)
    rw [hother c (hcells c hc), next_setNext, ← hp]

/-- Free sectors are linked up behind the chain, or there are too few of them. -/
theorem Storable.allocate_grow (h : Storable img m i o l t) (hn : l.length < n) :
    Checked.allocateSectors img.maxFat m i n o = .ok none ∨
      ∃ m' g, Checked.allocateSectors img.maxFat m i n o = .ok (some m') ∧
        (l ++ g).length = n ∧ Chain m' (.dir i) (l ++ g) fatEnd ∧ ∀ s ∈ g, s < img.maxFat := by
  have hin := fun s hs => (h.inside s hs).1
  have hnd := Chain.nodup h.chain h.ends hin
  obtain ⟨r, rfl⟩ : ∃ r, n = l.length + (r + 1) := ⟨n - l.length - 1, by omega⟩
  have hmax := maxFat_le img.toImage
  set p := lastCell Cell.fat (.dir i) l with hp
  have hwalk := checked_allocLoop_walk img.maxFat (r + 1) 0 h.chain hin
  rw [← hp, Checked.allocLoop, if_pos (h.chain.next_lastCell ▸ h.ends),
    Checked.getFreeFat_eq hmax] at hwalk
  cases hfirst : getFreeFat img.maxFat m.fat 0 with
  | none =>
    left
    rw [hfirst] at hwalk
    rw [Checked.allocateSectors, hwalk]
  | some n₀ =>
    have hpn : p ≠ .fat n₀ := fun heq => h.notNext n₀ heq hfirst
    rw [getFreeFat_eq] at hfirst
    obtain ⟨-, hlt₀, hfree₀⟩ := mem_freeFrom.mp (List.mem_of_mem_head? hfirst)
    rw [getFreeFat_eq, hfirst] at hwalk
    dsimp only at hwalk
    rw [if_pos (hlt₀.trans_le hmax)] at hwalk
    -- the first free sector has been linked up, and the rest comes behind it
    set m₁ := m.setNext p (BitVec.ofNat 16 n₀) with hm₁
    have hnext₁ : m₁.next = Function.update m.next p (sectorRef n₀) := next_setNext ..
    have hchain₁ : Chain m₁ (.dir i) l (sectorRef n₀) := by
      rw [Chain, hnext₁]
      exact h.chain.update_lastCell (nodup_cells hnd) _
    have hfree₁ : m₁.next (.fat n₀) = fatFree := by
      rw [hnext₁, Function.update_of_ne hpn.symm]
      exact hfree₀
    have hfresh := allocLoop_fresh hmax r m₁ (.fat n₀) (n₀ + 1) (.inl hfree₁) fun s heq hs => by
      obtain rfl := Cell.fat.inj heq
      exact absurd (mem_freeFrom.mp hs).1 (by omega)
    rw [checked_allocLoop_fresh hmax r m₁ (.fat n₀) (n₀ + 1) (.inl hfree₁) fun s heq => by
      rw [← Cell.fat.inj heq]
      exact Nat.lt_succ_self n₀, hfresh] at hwalk
    by_cases hr : r ≤ (freeFrom img.maxFat m₁.fat (n₀ + 1)).length
    swap
    · left
      rw [if_neg hr] at hwalk
      rw [Checked.allocateSectors, hwalk]
    right
    rw [if_pos hr] at hwalk
    set g := (freeFrom img.maxFat m₁.fat (n₀ + 1)).take r with hg
    have hgfree : ∀ s ∈ g, n₀ < s ∧ s < img.maxFat ∧ m₁.fat s = fatFree := fun s hs =>
      mem_freeFrom.mp (List.mem_of_mem_take hs)
    have hgnd : (n₀ :: g).Nodup :=
      List.nodup_cons.mpr ⟨fun hs => Nat.lt_irrefl n₀ (hgfree n₀ hs).1,
        (nodup_freeFrom _ _ _).sublist (List.take_sublist _ _)⟩
    have hdisj : ∀ s ∈ l, s ∉ n₀ :: g := by
      intro s hs hmem
      refine hchain₁.fat_ne_free (sectorRef_ne_free (hlt₀.trans_le hmax)) hin hs ?_
      rcases List.mem_cons.mp hmem with rfl | hmem
      · exact hfree₁
      · exact (hgfree s hmem).2.2
    have hall : (l ++ n₀ :: g).Nodup :=
      List.nodup_append.mpr ⟨hnd, hgnd, fun s hs s' hs' heq => hdisj s hs (heq ▸ hs')⟩
    set linked := linkAll Cell.fat sectorRef m₁.next (.fat n₀) g with hlinked
    have hpath : Path Cell.fat sectorRef linked (.dir i) (l ++ n₀ :: g)
        (m.next (lastCell Cell.fat (.dir i) (l ++ n₀ :: g))) := by
      rw [hlinked, hnext₁]
      exact Path.linkAll h.chain (nodup_cells hall)
    have hcut := hpath.update_lastCell (nodup_cells hall) fatEnd
    rw [lastCell_append, lastCell] at hcut
    refine ⟨(m₁.withNext linked).setNext (lastCell Cell.fat (.fat n₀) g) fatEnd, n₀ :: g,
      ?_, ?_, ?_, ?_⟩
    · rw [Checked.allocateSectors, hwalk]
      dsimp only
      rw [Nat.sub_eq_zero_of_le (h.enough.trans (Nat.le_add_right _ _)), Checked.releaseLoop]
    · rw [List.length_append, List.length_cons, List.length_take, Nat.min_eq_left hr]
    · rw [Chain, next_setNext, next_withNext]
      exact hcut
    · intro s hs
      rcases List.mem_cons.mp hs with rfl | hs
      · exact hlt₀
      · exact (hgfree s hs).2.1

/-- **In such a chain, every file is stored** or refused. -/
theorem Storable.storeFile_ok (h : Storable img m i o l t) (n : ℕ)
    (fopen : Option (List U8)) : ∃ r, Checked.storeFile img fopen m i n o = .ok r := by
  rw [Checked.storeFile]
  have halloc : Checked.allocateSectors img.maxFat m i n o = .ok none ∨
      ∃ m' q, Checked.allocateSectors img.maxFat m i n o = .ok (some m') ∧ q.length = n ∧
        Chain m' (.dir i) q fatEnd ∧ ∀ s ∈ q, s < maxFat ∧ img.InBuffer s := by
    rcases Nat.lt_or_ge l.length n with hn | hn
    · refine (h.allocate_grow hn).imp_right ?_
      rintro ⟨m', g, hm', hlen, hchain, hg⟩
      refine ⟨m', l ++ g, hm', hlen, hchain, fun s hs => ?_⟩
      rcases List.mem_append.mp hs with hs | hs
      · exact h.inside s hs
      · exact ⟨(hg s hs).trans_le (maxFat_le img.toImage), img.inBuffer_of_lt (hg s hs)⟩
    · obtain ⟨m', hm', hchain⟩ := h.allocate_shrink hn
      refine .inr ⟨m', l.take n, hm', ?_, hchain, fun s hs =>
        h.inside s (List.mem_of_mem_take hs)⟩
      rw [List.length_take, Nat.min_eq_left hn]
  rcases halloc with hnone | ⟨m', q, hm', hlen, hchain, hin⟩
  · rw [hnone]
    exact ⟨_, rfl⟩
  · rw [hm']
    cases fopen with
    | none => exact ⟨_, rfl⟩
    | some bytes =>
      obtain ⟨data, hdata⟩ := (writeLoop_ok_iff bytes img.data).mpr
        ⟨q, fatEnd, hlen, path_iff_trail.mp hchain, hin⟩
      have hdata' : Checked.writeLoop img m'.fat n (m'.dir i).chain bytes img.data = .ok data :=
        hdata
      dsimp only
      rw [Checked.writeFileToSectors, hdata']
      exact ⟨_, rfl⟩

/-- What a run of `storeFile` that ends has done, once the first loop has. -/
theorem storeFile_steps {bytes : List U8} {r : Image × Except AddError Unit}
    (h : Checked.storeFile img (some bytes) m i n o = .ok r) {m₁ : MasterBlock} {c : Cell}
    (hloop : Checked.allocLoop img.maxFat n m (.dir i) 0 = .ok (some (m₁, c))) :
    ∃ m₂ q t, Checked.releaseLoop (o - n) (m₁.setNext c fatEnd) (m₁.next c) = .ok m₂ ∧
      q.length = n ∧ Chain m₂ (.dir i) q t ∧ ∀ s ∈ q, s < maxFat ∧ img.InBuffer s := by
  rw [Checked.storeFile, Checked.allocateSectors, hloop] at h
  dsimp only at h
  cases hrel : Checked.releaseLoop (o - n) (m₁.setNext c fatEnd) (m₁.next c) with
  | error e =>
    rw [hrel] at h
    cases h
  | ok m₂ =>
    rw [hrel] at h
    dsimp only at h
    rw [Checked.writeFileToSectors] at h
    cases hdata : Checked.writeLoop img m₂.fat n (m₂.dir i).chain bytes img.data with
    | error e =>
      rw [hdata] at h
      cases h
    | ok data =>
      obtain ⟨q, t, hlen, hq, hin⟩ := (writeLoop_ok_iff _ _).mp ⟨data, hdata⟩
      exact ⟨m₂, q, t, rfl, hlen, path_iff_trail.mpr hq, hin⟩

/-- The first loop, as far as there is a chain inside the table. -/
theorem allocLoop_chain (h : Chain m (.dir i) l t) (hl : ∀ s ∈ l, s < maxFat) :
    Checked.allocLoop img.maxFat l.length m (.dir i) 0 =
      .ok (some (m, lastCell Cell.fat (.dir i) l)) :=
  checked_allocLoop_walk img.maxFat 0 0 h hl

/-- **A chain that runs on for longer than the table is** cannot be written along, once
it has been cut: the cut is met too early. -/
theorem not_storeFile_of_long (h : Chain m (.dir i) l t) (hl : ∀ s ∈ l, s < maxFat)
    (hlong : maxFat < l.length) (ho : o ≤ l.length) {bytes : List U8}
    {r : Image × Except AddError Unit} :
    Checked.storeFile img (some bytes) m i l.length o ≠ .ok r := by
  intro hr
  obtain ⟨m₂, q, t', hrel, hlen, hq, hin⟩ := storeFile_steps hr (allocLoop_chain h hl)
  rw [Nat.sub_eq_zero_of_le ho, Checked.releaseLoop] at hrel
  obtain ⟨l₀, x, rfl⟩ : ∃ l₀ x, l = l₀ ++ [x] := by
    rcases List.eq_nil_or_concat l with rfl | ⟨l₀, x, rfl⟩
    · exact absurd hlong (by simp)
    · exact ⟨l₀, x, List.concat_eq_append⟩
  have hlast : lastCell Cell.fat (.dir i) (l₀ ++ [x]) = .fat x := by
    rw [lastCell_append, lastCell, lastCell]
  rw [hlast] at hrel
  obtain rfl := Except.ok.inj hrel
  have hq' := path_iff_trail.mp hq
  have hq_lt := fun s hs => (hin s hs).1
  have hstart : (m.setNext (.fat x) fatEnd).next (.dir i) = m.next (.dir i) := by
    rw [next_setNext, Function.update_of_ne (by simp)]
  rw [hstart] at hq'
  by_cases hx : x ∈ q
  · -- the walk ends at the cut, and so visits no sector twice
    obtain ⟨a, b, rfl⟩ := List.append_of_mem hx
    have hcut : (m.setNext (.fat x) fatEnd).fat x = fatEnd := Function.update_self ..
    obtain ⟨rfl, rfl⟩ := Leads.eq_nil_of_terminal hq' (fun s hs =>
      hq_lt s (List.mem_append_right a (List.mem_cons_of_mem x hs))) (.inr hcut)
    have hle := length_le_of_nodup (Leads.nodup hq' (.inr hcut) hq_lt) hq_lt
    omega
  · -- the walk does not come to the cut, and is the one there was
    have heq : q = l₀ ++ [x] := Trail.eq_of_length sectorRef_injOn hq_lt hl
      ((leads_setNext_iff hx fatEnd).mp hq') (path_iff_trail.mp h) hlen
    rw [heq] at hx
    exact hx (List.mem_append_right l₀ List.mem_cons_self)

/-- The chain after its last link has been overwritten with `FAT_END`. -/
theorem Chain.cut (h : Chain m (.dir i) l t) (ht : Terminal t) (hl : ∀ s ∈ l, s < maxFat) :
    Chain (m.setNext (lastCell Cell.fat (.dir i) l) fatEnd) (.dir i) l fatEnd := by
  rw [Chain, next_setNext]
  exact h.update_lastCell (nodup_cells (Chain.nodup h ht hl)) fatEnd

/-- A file of as many sectors as the chain has is stored only if the chain lies in the
buffer, and nothing is left to be given back. -/
theorem inside_of_storeFile (h : Chain m (.dir i) l t) (ht : Terminal t)
    (hl : ∀ s ∈ l, s < maxFat) {bytes : List U8} {r : Image × Except AddError Unit}
    (hr : Checked.storeFile img (some bytes) m i l.length o = .ok r) :
    o ≤ l.length ∧ ∀ s ∈ l, img.InBuffer s := by
  obtain ⟨m₂, q, t', hrel, hlen, hq, hin⟩ := storeFile_steps hr (allocLoop_chain h hl)
  rw [h.next_lastCell] at hrel
  have ho : o ≤ l.length := by
    by_contra ho
    exact ht.not_lt (lt_of_releaseLoop hrel (by omega))
  refine ⟨ho, ?_⟩
  rw [Nat.sub_eq_zero_of_le ho, Checked.releaseLoop] at hrel
  obtain rfl := Except.ok.inj hrel
  have heq : q = l := Trail.eq_of_length sectorRef_injOn (fun s hs => (hin s hs).1) hl
    (path_iff_trail.mp hq) (path_iff_trail.mp (Chain.cut h ht hl)) hlen
  exact fun s hs => (hin s (heq ▸ hs)).2

/-- A file of one sector more is not stored if the last sector of the chain is the one
that is handed out next: it is linked to itself. -/
theorem notNext_of_storeFile (h : Chain m (.dir i) l t) (ht : Terminal t)
    (hl : ∀ s ∈ l, s < maxFat) (ho : o ≤ l.length) {bytes : List U8}
    {r : Image × Except AddError Unit}
    (hr : Checked.storeFile img (some bytes) m i (l.length + 1) o = .ok r) (s : ℕ)
    (hs : lastCell Cell.fat (.dir i) l = .fat s) : getFreeFat img.maxFat m.fat 0 ≠ some s := by
  intro hfirst
  have hlt : s < img.maxFat := by
    rw [getFreeFat_eq] at hfirst
    exact (mem_freeFrom.mp (List.mem_of_mem_head? hfirst)).2.1
  have hlast : Checked.allocLoop img.maxFat 1 m (lastCell Cell.fat (.dir i) l) 0 =
      .ok (some (m.setNext (.fat s) (BitVec.ofNat 16 s), .fat s)) := by
    have hend : Terminal (m.next (lastCell Cell.fat (.dir i) l)) := h.next_lastCell.symm ▸ ht
    rw [Checked.allocLoop, if_pos hend, Checked.getFreeFat_eq (maxFat_le _), hfirst]
    dsimp only
    rw [if_pos (hlt.trans_le (maxFat_le _)), Checked.allocLoop, hs]
  have hwalk := (checked_allocLoop_walk img.maxFat 1 0 h hl).trans hlast
  obtain ⟨m₂, q, t', hrel, hlen, hq, hin⟩ := storeFile_steps hr hwalk
  rw [Nat.sub_eq_zero_of_le (Nat.le_succ_of_le ho), Checked.releaseLoop] at hrel
  obtain rfl := Except.ok.inj hrel
  -- the link to itself has been overwritten by the end of the chain
  have hcut := Chain.cut h ht hl
  have hnext : ((m.setNext (.fat s) (BitVec.ofNat 16 s)).setNext (.fat s) fatEnd).next =
      (m.setNext (.fat s) fatEnd).next := by
    simp only [next_setNext, Function.update_idem]
  rw [Chain, hnext] at hq
  rw [hs] at hcut
  have hle := (Trail.isPrefix sectorRef_injOn hl (fun s hs => (hin s hs).1)
    (fun _ hs => terminal_end.sectorRef_ne hs) (path_iff_trail.mp hcut)
    (path_iff_trail.mp hq)).length_le
  omega

/-- **Only in such chains is every file stored** or refused, if the entry keeps its
links whatever the file is. -/
theorem storable_of_storeFile (ho : o < 2 ^ 20)
    (h : ∀ n < 2 ^ 20, ∃ m' bytes r, m'.next = m.next ∧
      Checked.storeFile img (some bytes) m' i n o = .ok r) :
    ∃ l t, Storable img m i o l t := by
  have hlong : max 497 o < 2 ^ 20 := Nat.max_lt.mpr ⟨by decide, ho⟩
  obtain ⟨m', bytes, r, hnext, hr⟩ := h (max 497 o) hlong
  obtain ⟨r', hloop⟩ : ∃ r', Checked.allocLoop img.maxFat (max 497 o) m' (.dir i) 0 = .ok r' := by
    cases hloop : Checked.allocLoop img.maxFat (max 497 o) m' (.dir i) 0 with
    | ok r' => exact ⟨r', rfl⟩
    | error e =>
      rw [Checked.storeFile, Checked.allocateSectors, hloop] at hr
      cases hr
  obtain ⟨l, t, hl, hin, hlen⟩ := chain_of_allocLoop hloop
  have ht : Terminal t := by
    refine hlen.resolve_left fun hlen => ?_
    rw [← hlen] at hr
    refine not_storeFile_of_long hl hin ?_ (hlen ▸ le_max_right 497 o) hr
    exact hlen ▸ le_max_left 497 o
  have hle : l.length ≤ maxFat := length_le_of_nodup (Chain.nodup hl ht hin) hin
  have hle' : l.length + 1 < 2 ^ 20 := Nat.lt_of_le_of_lt (Nat.succ_le_succ hle) (by decide)
  rw [Chain, hnext] at hl
  obtain ⟨m₁, bytes₁, r₁, hnext₁, hr₁⟩ := h l.length (Nat.lt_of_succ_lt hle')
  obtain ⟨m₂, bytes₂, r₂, hnext₂, hr₂⟩ := h (l.length + 1) hle'
  have hl₁ : Chain m₁ (.dir i) l t := by rwa [Chain, hnext₁]
  have hl₂ : Chain m₂ (.dir i) l t := by rwa [Chain, hnext₂]
  have hfat₂ : m₂.fat = m.fat := funext fun s => congrFun hnext₂ (.fat s)
  obtain ⟨henough, hbuf⟩ := inside_of_storeFile hl₁ ht hin hr₁
  exact ⟨l, t,
    { chain := hl, ends := ht, inside := fun s hs => ⟨hin s hs, hbuf s hs⟩, enough := henough
      notNext := fun s hs => hfat₂ ▸ notNext_of_storeFile hl₂ ht hin henough hr₂ s hs }⟩

end Store

/-! ### The three functions -/

namespace Opened

/-- `PFFSDeleteFile` comes to its end, with every index in the table. -/
def DeleteSurvives (img : Opened) (pffsName : List U8) : Prop :=
  ∃ fuel r, Checked.deleteFile fuel img.toImage pffsName = .ok r

/-- `PFFSExtractFile` comes to its end, with every index in the table and every pointer
in the buffer, whatever the host does. -/
def ExtractSurvives (img : Opened) (pffsName : List U8) : Prop :=
  ∀ sink, ∃ fuel r, Checked.extractFile fuel img sink pffsName = .ok r

/-- `PFFSAddFileAs` comes to its end, with every index in the table and every pointer in
the buffer, whatever the file on the host is. -/
def AddSurvives (img : Opened) (filename : List U8) (pffsNameIn : Option (List U8)) : Prop :=
  ∀ disk, ∃ r, Checked.addFileAs img filename pffsNameIn disk = .ok r

/-- The chain of the entry ends in `FAT_END`, inside the table. -/
def Deletable (img : Opened) (i : ℕ) : Prop :=
  ∃ l, Chain img.msb (.dir i) l fatEnd ∧ ∀ s ∈ l, s < maxFat

/-- The file is empty, or its chain ends in `FAT_END`, inside the table and the
buffer. -/
def Extractable (img : Opened) (i : ℕ) : Prop :=
  (img.msb.dir i).size = 0 ∨
    ∃ l, Chain img.msb (.dir i) l fatEnd ∧ ∀ s ∈ l, s < maxFat ∧ img.InBuffer s

/-- The chain of the entry is one in which a file of any length can be stored. -/
def Replaceable (img : Opened) (i : ℕ) : Prop :=
  ∃ l t, Storable img img.msb i (sectorsOf (img.msb.dir i).size) l t

variable (img : Opened)

theorem deleteSurvives_iff (pffsName : List U8) :
    img.DeleteSurvives pffsName ↔
      ∀ i, findFile img.msb pffsName = some i → img.Deletable i := by
  cases hfind : findFile img.msb pffsName with
  | none =>
    refine iff_of_true ⟨0, (img.toImage, false), ?_⟩ fun i hi => by cases hi
    rw [Checked.deleteFile, hfind]
  | some i =>
    constructor
    · rintro ⟨fuel, r, h⟩ _ ⟨⟩
      rw [Checked.deleteFile, hfind] at h
      cases hm : Checked.freeChain fuel img.msb (img.msb.dir i).chain with
      | error e =>
        simp only [hm] at h
        cases h
      | ok m =>
        obtain ⟨l, hl, hin⟩ := leads_of_freeChain hm
        exact ⟨l, path_iff_trail.mpr hl, hin⟩
    · intro h
      obtain ⟨l, hl, hin⟩ := h i rfl
      obtain ⟨m, hm⟩ := freeChain_ok (path_iff_trail.mp hl) hin
      have hm' : Checked.freeChain (l.length + 1) img.msb (img.msb.dir i).chain = .ok m := hm
      refine ⟨l.length + 1, ({ img.toImage with msb := m.setDir i .erased }, true), ?_⟩
      rw [Checked.deleteFile, hfind]
      dsimp only
      rw [hm']

theorem extractSurvives_iff (pffsName : List U8) :
    img.ExtractSurvives pffsName ↔
      ∀ i, findFile img.msb pffsName = some i → img.Extractable i := by
  cases hfind : findFile img.msb pffsName with
  | none =>
    refine iff_of_true (fun sink => ⟨0, none, ?_⟩) fun i hi => by cases hi
    rw [Checked.extractFile, hfind]
  | some i =>
    constructor
    · rintro h _ ⟨⟩
      refine or_iff_not_imp_left.mpr fun hsize => ?_
      obtain ⟨fuel, r, hr⟩ := h .full
      have hrem : (img.msb.dir i).size.toNat ≠ 0 := fun h0 =>
        hsize (BitVec.eq_of_toNat_eq h0)
      rw [Checked.extractFile, hfind] at hr
      dsimp only at hr
      rw [if_pos (show Sink.full.opens = true from rfl)] at hr
      cases hp : Checked.extractLoop img .full fuel 0 (img.msb.dir i).size.toNat
          (img.msb.dir i).chain with
      | error e =>
        rw [hp] at hr
        cases hr
      | ok pieces =>
        obtain ⟨l, hl, hin⟩ := leads_of_extractLoop hrem hp
        exact ⟨l, path_iff_trail.mpr hl, hin⟩
    · intro h sink
      -- the loop of an empty file has no rounds, whatever the chain is
      obtain ⟨fuel, pieces, hp⟩ : ∃ fuel pieces, Checked.extractLoop img sink fuel 0
          (img.msb.dir i).size.toNat (img.msb.dir i).chain = .ok pieces := by
        rcases h i rfl with hsize | ⟨l, hl, hin⟩
        · refine ⟨1, [], ?_⟩
          rw [hsize, Checked.extractLoop, if_pos (.inl rfl)]
        · exact ⟨l.length + 1, extractLoop_ok sink (path_iff_trail.mp hl) hin 0 _⟩
      refine ⟨fuel, if sink.opens then some pieces else none, ?_⟩
      rw [Checked.extractFile, hfind]
      dsimp only
      rw [hp]
      split_ifs <;> rfl

/-- The number of sectors of a file on the host can be any below 2²⁰. -/
theorem sectorsOf_length {n : ℕ} (hn : n < 2 ^ 20) :
    sectorsOf (BitVec.ofNat 32 (List.replicate (4096 * n) (0 : U8)).length) = n := by
  have hsize : (BitVec.ofNat 32 (4096 * n)).toNat = 4096 * n := by
    rw [BitVec.toNat_ofNat, Nat.mod_eq_of_lt (by omega)]
  rw [List.length_replicate, sectorsOf_eq (by omega), sectorsFor, hsize]
  omega

theorem sectorsOf_lt (size : U32) : sectorsOf size < 2 ^ 20 := by
  rw [sectorsOf, BitVec.toNat_ushiftRight, Nat.shiftRight_eq_div_pow]
  have := (size + 4095).isLt
  omega

theorem addSurvives_iff (filename : List U8) (pffsNameIn : Option (List U8)) :
    img.AddSurvives filename pffsNameIn ↔
      ∀ name i, resolveName filename pffsNameIn = .ok name →
        findFile img.msb name = some i → img.Replaceable i := by
  constructor
  · intro h name i hname hfind
    refine storable_of_storeFile (sectorsOf_lt _) fun n hn => ?_
    -- a file of `n` whole sectors asks the allocation for `n`
    obtain ⟨r, hr⟩ := h ⟨some (List.replicate (4096 * n) 0), some []⟩
    have hentry : entryFor img.msb name =
        some (img.msb, i, sectorsOf (img.msb.dir i).size) := by rw [entryFor, hfind]
    rw [Checked.addFileAs, hname] at hr
    dsimp only at hr
    rw [if_neg (not_not.mpr (findFile_some hfind).1)] at hr
    simp only [hentry, sectorsOf_length hn] at hr
    exact ⟨_, [], r, next_setSize _ _ _, hr⟩
  · intro h disk
    rw [Checked.addFileAs]
    cases hname : resolveName filename pffsNameIn with
    | error e => exact ⟨_, rfl⟩
    | ok name =>
      dsimp only
      split_ifs with hvalid
      · exact ⟨_, rfl⟩
      cases disk.first with
      | none => exact ⟨_, rfl⟩
      | some content =>
        dsimp only
        rw [entryFor]
        cases hfind : findFile img.msb name with
        | some i =>
          obtain ⟨l, t, hs⟩ := h name i hname hfind
          exact (hs.congr (next_setSize _ _ _)).storeFile_ok _ _
        | none =>
          dsimp only
          cases hfree : findFreeDir img.msb with
          | none => exact ⟨_, rfl⟩
          | some j =>
            have hchain : (img.msb.setDir j (.fresh name)).next (.dir j) = fatFree :=
              congrArg Directory.chain (img.msb.setDir_dir_self j (.fresh name))
            exact ((storable_fresh img j hchain).congr (next_setSize _ _ _)).storeFile_ok _ _

/-- **What the tools survive**: on an image that has been opened, with its file system
area in the buffer, each function comes to its end with every access in bounds exactly
when the chain of the entry it finds is one it can follow. -/
theorem survives_iff (pffsName filename : List U8) (pffsNameIn : Option (List U8)) :
    (img.DeleteSurvives pffsName ↔
      ∀ i, findFile img.msb pffsName = some i → img.Deletable i) ∧
    (img.ExtractSurvives pffsName ↔
      ∀ i, findFile img.msb pffsName = some i → img.Extractable i) ∧
    (img.AddSurvives filename pffsNameIn ↔
      ∀ name i, resolveName filename pffsNameIn = .ok name →
        findFile img.msb name = some i → img.Replaceable i) :=
  ⟨img.deleteSurvives_iff pffsName, img.extractSurvives_iff pffsName,
    img.addSurvives_iff filename pffsNameIn⟩

end Opened

/-! ### A chain that bites its tail -/

/-- An image of 512 KiB with one file, `a`, whose only sector is linked to itself. -/
def loopImage : Opened where
  pffsTop := 0xC28000
  pffsEnd := 0xC80000
  msb :=
    { dir := fun i => if i = 0 then { Directory.fresh [0x61] with chain := 1, size := 5000 }
        else .erased
      fat := fun s => if s = 1 then 1 else if s = 0 then 0xCCCC else fatFree }
  data := fun _ _ => 0
  size := 0x80000
  opened := by decide
  top_le := by decide
  whole := by decide
  top_aligned := by decide
  end_aligned := by decide

/-- **Deleting this file leaves the table**: the sector is freed, followed once more, and
`FAT_FREE` is taken for the index of the next one. -/
theorem deleteFile_loopImage :
    (∀ fuel, Checked.deleteFile (fuel + 3) loopImage.toImage [0x61] =
      .error (.fatIndex 0xFFFF)) ∧ ¬loopImage.DeleteSurvives [0x61] := by
  have hfind : findFile loopImage.msb [0x61] = some 0 := by decide +kernel
  have hrun : ∀ fuel, Checked.deleteFile (fuel + 3) loopImage.toImage [0x61] =
      .error (.fatIndex 0xFFFF) := by
    intro fuel
    rw [Checked.deleteFile, hfind]
    rfl
  refine ⟨hrun, ?_⟩
  rintro ⟨fuel, r, h⟩
  rcases fuel with _ | _ | _ | fuel
  · rw [Checked.deleteFile, hfind] at h
    cases h
  · rw [Checked.deleteFile, hfind] at h
    cases h
  · rw [Checked.deleteFile, hfind] at h
    cases h
  · rw [hrun fuel] at h
    cases h

end Pffs
