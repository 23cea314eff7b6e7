import Mathlib.Data.List.Basic
import Mathlib.Order.Basic

/-!
# Times a gap apart

Out of an increasing list of times, whoever takes the first from `d` on, and then again and
again the first that is at least `gap` later, takes as many as can be taken with that gap
between them (`Spacing.length_le_greedy`).

So how many he takes up to a time `e` is at most the number of gaps there is room for, and
it is that number exactly if the list has that many times a gap apart
(`Spacing.length_greedy_eq_iff`).
-/

namespace Spacing

variable {gap d d' e : ℕ} {ts l : List ℕ}

/-- The times that are taken. -/
def greedy (gap : ℕ) : ℕ → List ℕ → List ℕ
  | _, [] => []
  | d, t :: ts => if d ≤ t then t :: greedy gap (t + gap) ts else greedy gap d ts

/-- Times a gap apart, from `d` on. -/
def Apart (gap : ℕ) : ℕ → List ℕ → Prop
  | _, [] => True
  | d, t :: l => d ≤ t ∧ Apart gap (t + gap) l

theorem Apart.mono (hle : d' ≤ d) (h : Apart gap d l) : Apart gap d' l := by
  cases l with
  | nil => trivial
  | cons t l => exact ⟨Nat.le_trans hle h.1, h.2⟩

/-- There is room for the gaps between them. -/
theorem Apart.length_mul_le (h : Apart gap (d + gap) l) (he : ∀ t ∈ l, t ≤ e) (hd : d ≤ e) :
    d + l.length * gap ≤ e := by
  induction l generalizing d with
  | nil =>
    rw [List.length_nil, Nat.zero_mul]
    exact hd
  | cons t l ih =>
    have hrest := ih h.2 (fun u hu => he u (List.mem_cons_of_mem _ hu))
      (he t List.mem_cons_self)
    have hfirst := h.1
    rw [List.length_cons, Nat.add_mul, Nat.one_mul]
    omega

/-! ### Taking the first -/

theorem greedy_sublist (gap d : ℕ) (ts : List ℕ) : (greedy gap d ts).Sublist ts := by
  induction ts generalizing d with
  | nil => exact List.Sublist.refl _
  | cons t ts ih =>
    unfold greedy
    split_ifs
    · exact (ih _).cons_cons t
    · exact (ih d).cons t

theorem apart_greedy (gap d : ℕ) (ts : List ℕ) : Apart gap d (greedy gap d ts) := by
  induction ts generalizing d with
  | nil => trivial
  | cons t ts ih =>
    unfold greedy
    split_ifs with hle
    · exact ⟨hle, ih _⟩
    · exact ih d

/-- **Taking the first takes the most.** -/
theorem length_le_greedy (hts : ts.Pairwise (· ≤ ·)) (hl : l.Sublist ts) (h : Apart gap d l) :
    l.length ≤ (greedy gap d ts).length := by
  induction ts generalizing d l with
  | nil =>
    rw [List.sublist_nil.mp hl]
    exact Nat.zero_le _
  | cons t ts ih =>
    obtain ⟨hle, hts⟩ := List.pairwise_cons.mp hts
    unfold greedy
    rcases List.sublist_cons_iff.mp hl with hskip | ⟨l', rfl, htake⟩
    · split_ifs with hd
      · -- what has been taken instead of `t` comes later
        cases l with
        | nil => exact Nat.zero_le _
        | cons u l' =>
          have hu : t ≤ u := hle u (hskip.subset List.mem_cons_self)
          exact Nat.succ_le_succ (ih hts (List.sublist_of_cons_sublist hskip)
            (h.2.mono (Nat.add_le_add_right hu gap)))
      · exact ih hts hskip h
    · rw [if_pos h.1]
      exact Nat.succ_le_succ (ih hts htake h.2)

/-- **As many as there is room for** are taken exactly if there are that many times a gap
apart. -/
theorem length_greedy_eq_iff (hts : ts.Pairwise (· ≤ ·)) (he : ∀ t ∈ ts, t ≤ e) (hd : d ≤ e)
    (hgap : 0 < gap) :
    (greedy gap (d + gap) ts).length = (e - d) / gap ↔
      ∃ l, l.Sublist ts ∧ Apart gap (d + gap) l ∧ l.length = (e - d) / gap := by
  constructor
  · intro h
    exact ⟨_, greedy_sublist gap (d + gap) ts, apart_greedy gap (d + gap) ts, h⟩
  · rintro ⟨l, hl, hapart, hlen⟩
    refine Nat.le_antisymm ?_ (hlen ▸ length_le_greedy hts hl hapart)
    have hroom := (apart_greedy gap (d + gap) ts).length_mul_le
      (fun t ht => he t ((greedy_sublist gap (d + gap) ts).subset ht)) hd
    rw [Nat.le_div_iff_mul_le hgap]
    omega

end Spacing
