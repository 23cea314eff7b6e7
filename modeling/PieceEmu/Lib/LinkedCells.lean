import Mathlib.Data.List.Nodup
import Mathlib.Data.Set.Function
import Mathlib.Logic.Function.Basic

/-!
# Lists linked through cells

A file allocation table, a free list, a hash bucket: an array of cells, each of
which holds a link to the next one, and a list of nodes that is read off by
following the links from a starting cell. The notions here are independent of what
the cells are:

| notion | what it says |
|---|---|
| `LinkedCells.Path` | the links lead through exactly these nodes to a last cell with this value |
| `LinkedCells.Trail` | the same, from a value instead of a cell |
| `LinkedCells.lastCell` | the cell of the last node |
| `LinkedCells.linkAll` | the cells after a list of nodes has been linked up behind a cell |
| `LinkedCells.freeAll` | the cells after a list of nodes has been given back |

`C` is the type of cells, `V` the type of the values they hold, `α` the type of
nodes; `cell s` is the cell of node `s`, and `ref s` the value that refers to it. A
starting cell need not be the cell of a node: it can be the head pointer.

A path is about the cells it goes through and no others, which is the frame rule
`LinkedCells.path_congr`; everything about disjoint lists follows from it.
-/

namespace LinkedCells

variable {C V α : Type*} (cell : α → C) (ref : α → V)

/-- **A path**: from the cell `p`, the links lead through the nodes of the list, and
the last cell holds `t`. -/
def Path (next : C → V) : C → List α → V → Prop
  | p, [], t => next p = t
  | p, s :: l, t => next p = ref s ∧ Path next (cell s) l t

/-- The cell of the last node, or the starting cell. -/
def lastCell : C → List α → C
  | p, [] => p
  | _, s :: l => lastCell (cell s) l

variable {cell ref} {next next' : C → V}

/-! ### Following links -/

theorem Path.append_iff {p : C} {l g : List α} {t : V} :
    Path cell ref next p (l ++ g) t ↔
      Path cell ref next p l (next (lastCell cell p l)) ∧
        Path cell ref next (lastCell cell p l) g t := by
  induction l generalizing p with
  | nil => simp [Path, lastCell]
  | cons s l ih => simp [Path, lastCell, ih, and_assoc]

theorem Path.next_lastCell {p : C} {l : List α} {t : V} (h : Path cell ref next p l t) :
    next (lastCell cell p l) = t := by
  induction l generalizing p with
  | nil => exact h
  | cons s l ih => exact ih h.2

theorem lastCell_mem (p : C) (l : List α) : lastCell cell p l ∈ p :: l.map cell := by
  induction l generalizing p with
  | nil => exact List.mem_cons_self
  | cons s l ih => exact List.mem_cons_of_mem _ (ih (cell s))

theorem lastCell_append (p : C) (l g : List α) :
    lastCell cell p (l ++ g) = lastCell cell (lastCell cell p l) g := by
  induction l generalizing p with
  | nil => rfl
  | cons s l ih => exact ih (cell s)

/-- **The frame rule**: a path depends on the cells it goes through only. -/
theorem path_congr {p : C} {l : List α} {t : V}
    (h : ∀ c ∈ p :: l.map cell, next c = next' c) :
    Path cell ref next p l t ↔ Path cell ref next' p l t := by
  induction l generalizing p with
  | nil => rw [Path, Path, h p List.mem_cons_self]
  | cons s l ih =>
    rw [Path, Path, h p List.mem_cons_self, ih fun c hc => h c (List.mem_cons_of_mem _ hc)]

/-- What the cells on a path hold: a reference to a node of the path, or the last
value. -/
theorem Path.next_mem {p : C} {l : List α} {t : V} (h : Path cell ref next p l t) {c : C}
    (hc : c ∈ p :: l.map cell) : (∃ s ∈ l, next c = ref s) ∨ next c = t := by
  induction l generalizing p with
  | nil =>
    obtain rfl := List.mem_singleton.mp hc
    exact .inr h
  | cons s l ih =>
    rcases List.mem_cons.mp hc with rfl | hc
    · exact .inl ⟨s, List.mem_cons_self, h.1⟩
    · rcases ih h.2 hc with ⟨s', hs', h'⟩ | h'
      · exact .inl ⟨s', List.mem_cons_of_mem _ hs', h'⟩
      · exact .inr h'

/-! ### Where a value leads

A path from a cell says where the value in the cell leads. A loop that overwrites the
cells behind it holds on to a value, and has no cell for it any more. -/

variable (cell ref) in
/-- **A trail**: the value `v` refers to the first node of the list, the cell of each
node to the next, and the last cell holds `t`. -/
def Trail (next : C → V) : V → List α → V → Prop
  | v, [], t => v = t
  | v, s :: l, t => v = ref s ∧ Trail next (next (cell s)) l t

theorem path_iff_trail {p : C} {l : List α} {t : V} :
    Path cell ref next p l t ↔ Trail cell ref next (next p) l t := by
  induction l generalizing p with
  | nil => exact Iff.rfl
  | cons s l ih => rw [Path, Trail, ih]

theorem Trail.append_cons {v t : V} {l g : List α} {s : α}
    (h : Trail cell ref next v (l ++ s :: g) t) : Trail cell ref next (next (cell s)) g t := by
  induction l generalizing v with
  | nil => exact h.2
  | cons s' l ih => exact ih h.2

theorem trail_congr {v t : V} {l : List α} (h : ∀ s ∈ l, next (cell s) = next' (cell s)) :
    Trail cell ref next v l t ↔ Trail cell ref next' v l t := by
  induction l generalizing v with
  | nil => exact Iff.rfl
  | cons s l ih =>
    rw [Trail, Trail, h s List.mem_cons_self, ih fun s' hs' => h s' (List.mem_cons_of_mem _ hs')]

section Determined

variable {N : Set α} (href : Set.InjOn ref N) {v t t' : V} {l l' : List α}
  (hl : ∀ s ∈ l, s ∈ N) (hl' : ∀ s ∈ l', s ∈ N)

include href hl hl'

/-- **Two trails of one length from one value are the same.** -/
theorem Trail.eq_of_length (h : Trail cell ref next v l t) (h' : Trail cell ref next v l' t')
    (hlen : l.length = l'.length) : l = l' := by
  induction l generalizing v l' with
  | nil => exact (List.length_eq_zero_iff.mp hlen.symm).symm
  | cons s l ih =>
    cases l' with
    | nil => exact absurd hlen (by simp)
    | cons s' l' =>
      obtain rfl := href (hl s List.mem_cons_self) (hl' s' List.mem_cons_self)
        (h.1.symm.trans h'.1)
      rw [ih (fun x hx => hl x (List.mem_cons_of_mem _ hx))
        (fun x hx => hl' x (List.mem_cons_of_mem _ hx)) h.2 h'.2 (Nat.succ.inj hlen)]

/-- **Behind a value that refers to no node, no trail goes on**: every trail from the
same start is a part of the one that ends there. -/
theorem Trail.isPrefix (ht : ∀ s ∈ N, ref s ≠ t) (h : Trail cell ref next v l t)
    (h' : Trail cell ref next v l' t') : l' <+: l := by
  induction l' generalizing v l with
  | nil => exact List.nil_prefix
  | cons s' l' ih =>
    have hs' := hl' s' List.mem_cons_self
    cases l with
    | nil => exact absurd (h'.1.symm.trans h) (ht s' hs')
    | cons s l =>
      obtain rfl := href (hl s List.mem_cons_self) hs' (h.1.symm.trans h'.1)
      refine List.cons_prefix_cons.mpr ⟨rfl, ?_⟩
      exact ih (fun x hx => hl x (List.mem_cons_of_mem _ hx))
        (fun x hx => hl' x (List.mem_cons_of_mem _ hx)) h.2 h'.2

omit hl' in
/-- **A trail that comes to an end visits no node twice.** -/
theorem Trail.nodup (ht : ∀ s ∈ N, ref s ≠ t) (h : Trail cell ref next v l t) : l.Nodup := by
  induction l generalizing v with
  | nil => exact List.nodup_nil
  | cons s l ih =>
    have hl := fun x hx => hl x (List.mem_cons_of_mem _ hx)
    refine List.nodup_cons.mpr ⟨fun hs => ?_, ih hl h.2⟩
    -- behind the second visit comes what came behind the first
    obtain ⟨a, b, rfl⟩ := List.append_of_mem hs
    have hb : ∀ x ∈ b, x ∈ N := fun x hx =>
      hl x (List.mem_append_right a (List.mem_cons_of_mem s hx))
    have hle := (Trail.isPrefix href hb hl ht h.2.append_cons h.2).length_le
    rw [List.length_append, List.length_cons] at hle
    omega

end Determined

section Update

variable [DecidableEq C]

/-- **The last cell of a path may be rewritten**, if the path visits no cell twice. -/
theorem Path.update_lastCell {p : C} {l : List α} {t : V} (h : Path cell ref next p l t)
    (hnd : (p :: l.map cell).Nodup) (t' : V) :
    Path cell ref (Function.update next (lastCell cell p l) t') p l t' := by
  induction l generalizing p with
  | nil => exact Function.update_self ..
  | cons s l ih =>
    obtain ⟨hp, hnd⟩ := List.nodup_cons.mp hnd
    refine ⟨?_, ih h.2 hnd⟩
    rw [lastCell, Function.update_of_ne, h.1]
    rintro rfl
    exact hp (lastCell_mem (cell s) l)

/-! ### Linking up -/

variable (cell ref) in
/-- The cells after the nodes of a list have been linked up behind the cell `p`: each
cell in turn gets a reference to the next node. The last cell keeps its value. -/
def linkAll (next : C → V) : C → List α → C → V
  | _, [] => next
  | p, s :: g => linkAll (Function.update next p (ref s)) (cell s) g

theorem linkAll_of_not_mem {p c : C} {g : List α} (hc : c ∉ p :: g.map cell) :
    linkAll cell ref next p g c = next c := by
  induction g generalizing p next with
  | nil => rfl
  | cons s g ih =>
    obtain ⟨hcp, hc⟩ := not_or.mp (mt List.mem_cons.mpr hc)
    rw [linkAll, ih hc, Function.update_of_ne hcp]

/-- **Linking up makes a path**, which ends in what the last cell held. -/
theorem path_linkAll {p : C} {g : List α} (hnd : (p :: g.map cell).Nodup) :
    Path cell ref (linkAll cell ref next p g) p g (next (lastCell cell p g)) := by
  induction g generalizing p next with
  | nil => exact rfl
  | cons s g ih =>
    obtain ⟨hp, hnd⟩ := List.nodup_cons.mp hnd
    have hlast : lastCell cell (cell s) g ≠ p := by
      intro heq
      exact hp (heq ▸ lastCell_mem (cell s) g)
    refine ⟨?_, ?_⟩
    · rw [linkAll, linkAll_of_not_mem hp, Function.update_self]
    · rw [lastCell, ← Function.update_of_ne hlast (ref s) next]
      exact ih hnd

/-- **Linking up behind a path** makes it longer. -/
theorem Path.linkAll {p : C} {l : List α} {t : V} (h : Path cell ref next p l t) {g : List α}
    (hnd : (p :: (l ++ g).map cell).Nodup) :
    Path cell ref (linkAll cell ref next (lastCell cell p l) g) p (l ++ g)
      (next (lastCell cell p (l ++ g))) := by
  induction l generalizing p with
  | nil => exact path_linkAll hnd
  | cons s l ih =>
    obtain ⟨hp, hnd⟩ := List.nodup_cons.mp hnd
    refine ⟨?_, ih h.2 hnd⟩
    -- the cell in front is none of those that are linked up
    rw [lastCell, linkAll_of_not_mem, h.1]
    intro hmem
    have hmem' : p ∈ cell s :: l.map cell ∨ p ∈ g.map cell := by
      rcases List.mem_cons.mp hmem with heq | hmem
      · exact .inl (heq ▸ lastCell_mem (cell s) l)
      · exact .inr hmem
    refine hp ?_
    rw [List.cons_append, List.map_cons, List.map_append, ← List.cons_append]
    exact List.mem_append.mpr hmem'

/-! ### Giving back -/

variable (cell) in
/-- The cells after the nodes of a list have been given back: each holds `v`. -/
def freeAll (v : V) (next : C → V) : List α → C → V
  | [] => next
  | s :: l => freeAll v (Function.update next (cell s) v) l

theorem freeAll_of_not_mem {v : V} {c : C} {l : List α} (hc : c ∉ l.map cell) :
    freeAll cell v next l c = next c := by
  induction l generalizing next with
  | nil => rfl
  | cons s l ih =>
    obtain ⟨hcs, hc⟩ := not_or.mp (mt List.mem_cons.mpr hc)
    rw [freeAll, ih hc, Function.update_of_ne hcs]

theorem freeAll_of_mem {v : V} {c : C} {l : List α} (hc : c ∈ l.map cell) :
    freeAll cell v next l c = v := by
  induction l generalizing next with
  | nil => exact absurd hc List.not_mem_nil
  | cons s l ih =>
    by_cases h : c ∈ l.map cell
    · exact ih h
    · rcases List.mem_cons.mp hc with rfl | hc
      · rw [freeAll, freeAll_of_not_mem h, Function.update_self]
      · exact absurd hc h

end Update

end LinkedCells
