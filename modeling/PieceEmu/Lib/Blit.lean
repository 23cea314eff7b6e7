import Mathlib.Data.List.Basic

/-!
# Copying into a memory

`blit mem start data` is the memory `mem` after the list `data` has been copied to the
indices from `start` on. A copy in pieces is the copy of the whole (`blit_append`), and the
values of a memory can be listed in pieces (`map_range_add`). A loop in which one round
alone changes a place leaves there what that round makes of it (`foldl_change_once`).
-/

variable {α : Type*}

/-- The memory after a copy. -/
def blit (mem : ℕ → α) (start : ℕ) (data : List α) : ℕ → α := fun i =>
  if start ≤ i then data[i - start]?.getD (mem i) else mem i

variable {mem : ℕ → α} {start i : ℕ} {data : List α}

theorem blit_of_lt (h : i < start) : blit mem start data i = mem i :=
  if_neg (Nat.not_le.mpr h)

theorem blit_of_ge (h : start + data.length ≤ i) : blit mem start data i = mem i := by
  have hlen : data.length ≤ i - start := by omega
  rw [blit, if_pos (by omega), List.getElem?_eq_none hlen, Option.getD_none]

theorem blit_of_mem (h : start ≤ i) (hi : i - start < data.length) :
    blit mem start data i = data[i - start] := by
  rw [blit, if_pos h, List.getElem?_eq_getElem hi, Option.getD_some]

/-- Outside the span of a copy the memory is untouched. -/
theorem blit_of_not_mem (h : i < start ∨ start + data.length ≤ i) :
    blit mem start data i = mem i :=
  h.elim blit_of_lt blit_of_ge

/-- What a copy leaves at a place depends on what was there alone. -/
theorem blit_congr {mem' : ℕ → α} (h : mem i = mem' i) (start : ℕ) (data : List α) :
    blit mem start data i = blit mem' start data i := by
  unfold blit
  rw [h]

theorem blit_nil : blit mem start [] = mem := by
  funext i
  exact blit_of_not_mem (by rw [List.length_nil]; omega)

/-- **A copy in two pieces.** -/
theorem blit_append (xs ys : List α) :
    blit mem start (xs ++ ys) = blit (blit mem start xs) (start + xs.length) ys := by
  funext i
  rcases Nat.lt_or_ge i (start + xs.length) with h | h
  · rw [blit_of_lt h]
    unfold blit
    split_ifs with hs
    · rw [List.getElem?_append_left (by omega)]
    · rfl
  · rw [blit, if_pos (by omega), List.getElem?_append_right (by omega)]
    rw [blit, if_pos h, blit_of_ge h, Nat.sub_sub]

/-- The front of a list copied, and then what is behind it. -/
theorem blit_take_add (mem : ℕ → α) (xs : List α) (p : ℕ) {m n : ℕ} (h : m ≤ n) :
    blit (blit mem p (xs.take m)) (m + p) ((xs.drop m).take (n - m)) = blit mem p (xs.take n) := by
  have htake : xs.take n = xs.take m ++ (xs.drop m).take (n - m) := by
    rw [← List.take_add, Nat.add_sub_cancel' h]
  rw [htake, blit_append, List.length_take]
  rcases Nat.le_total m xs.length with hm | hm
  · rw [Nat.min_eq_left hm, Nat.add_comm]
  · rw [List.drop_eq_nil_of_le hm, List.take_nil, blit_nil, blit_nil]

/-- A copy of values given by a function. -/
theorem blit_map_range {f : ℕ → α} {n : ℕ} (h : start ≤ i) (hi : i - start < n) :
    blit mem start ((List.range n).map f) i = f (i - start) := by
  have hlen : i - start < ((List.range n).map f).length := by
    rwa [List.length_map, List.length_range]
  rw [blit_of_mem h hlen, List.getElem_map, List.getElem_range]

/-! ### Listing a memory -/

/-- The values from 0 on, in two pieces. -/
theorem map_range_add (f : ℕ → α) (m n : ℕ) :
    (List.range (m + n)).map f = (List.range m).map f ++ (List.range n).map fun i => f (m + i) := by
  rw [List.range_add, List.map_append, List.map_map]
  rfl

theorem map_range_const {f : ℕ → α} {n : ℕ} {c : α} (h : ∀ i < n, f i = c) :
    (List.range n).map f = List.replicate n c := by
  rw [List.map_congr_left fun i hi => h i (List.mem_range.mp hi), List.map_const',
    List.length_range]

theorem map_range_getD (xs : List α) (d : α) :
    ((List.range xs.length).map fun i => xs.getD i d) = xs := by
  apply List.ext_getElem
  · rw [List.length_map, List.length_range]
  · intro i _ hi
    rw [List.getElem_map, List.getElem_range, List.getD_eq_getElem?_getD,
      List.getElem?_eq_getElem hi, Option.getD_some]

/-! ### A loop that writes a place once -/

section WriteOnce

variable {σ ι β : Type*} {step : σ → ι → σ} {f : σ → β} {l : List ι}

/-- What no round changes, the loop leaves. -/
theorem foldl_keep (h : ∀ i ∈ l, ∀ s, f (step s i) = f s) (s : σ) :
    f (l.foldl step s) = f s := by
  induction l generalizing s with
  | nil => rfl
  | cons i l ih =>
    rw [List.foldl_cons, ih fun j hj => h j (List.mem_cons_of_mem i hj), h i List.mem_cons_self]

/-- **What one round alone changes** is changed once. -/
theorem foldl_change_once (hl : l.Nodup) {i : ι} (hi : i ∈ l) {g : β → β}
    (hset : ∀ s, f (step s i) = g (f s)) (hkeep : ∀ j ∈ l, j ≠ i → ∀ s, f (step s j) = f s)
    (s : σ) : f (l.foldl step s) = g (f s) := by
  obtain ⟨front, back, rfl⟩ := List.append_of_mem hi
  obtain ⟨-, hback, hfront⟩ := List.nodup_append.mp hl
  rw [List.foldl_append, List.foldl_cons, foldl_keep (f := f) fun j hj => ?_, hset,
    foldl_keep (f := f) fun j hj => ?_]
  · exact hkeep j (List.mem_append_left _ hj) (hfront j hj i List.mem_cons_self)
  · have hne : j ≠ i := by
      rintro rfl
      exact (List.nodup_cons.mp hback).1 hj
    exact hkeep j (List.mem_append_right front (List.mem_cons_of_mem i hj)) hne

/-- **What one round alone writes**, whatever it finds, is there at the end. -/
theorem foldl_write_once (hl : l.Nodup) {i : ι} (hi : i ∈ l) {v : β}
    (hset : ∀ s, f (step s i) = v) (hkeep : ∀ j ∈ l, j ≠ i → ∀ s, f (step s j) = f s)
    (s : σ) : f (l.foldl step s) = v :=
  foldl_change_once hl hi (g := fun _ => v) hset hkeep s

/-- A loop that changes each of its distinct places once. -/
theorem foldl_update [DecidableEq ι] (g : β → β) (hl : l.Nodup) (f : ι → β) (j : ι) :
    l.foldl (fun f i => Function.update f i (g (f i))) f j = if j ∈ l then g (f j) else f j := by
  have hne {i : ι} (hi : i ≠ j) (f : ι → β) : Function.update f i (g (f i)) j = f j :=
    Function.update_of_ne hi.symm _ f
  split_ifs with hj
  · exact foldl_change_once (f := fun f : ι → β => f j) hl hj (fun f => Function.update_self ..)
      (fun i _ hi => hne hi) f
  · exact foldl_keep (f := fun f : ι → β => f j)
      (fun i hi => hne fun h => hj (h ▸ hi)) f

end WriteOnce
