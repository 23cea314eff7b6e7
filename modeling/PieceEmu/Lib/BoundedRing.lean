import Mathlib.Data.Int.ModEq
import Mathlib.Logic.Function.Basic
import Mathlib.Tactic.Common

/-!
# Ring buffers with an empty slot

A queue in an array of `n` slots: entries are stored at `head` and taken out at `tail`,
both counted modulo `n`. One slot stays empty, so that a full ring differs from an empty
one, and the queue holds at most `n - 1` entries.

`BoundedRing.Holds` relates a ring to the list of its entries, oldest first; a push appends
to the list or finds it full (`push_eq_none_iff`, `Holds.push`), and a drain empties it, in
order (`Holds.drain`).
-/

/-- A ring buffer. Which slots there are is up to its operations. -/
structure BoundedRing (α : Type*) where
  slots : ℕ → α
  head : ℕ
  tail : ℕ

namespace BoundedRing

variable {α : Type*} (n : ℕ) (r : BoundedRing α)

/-- A new entry, unless the ring is full. -/
def push (a : α) : Option (BoundedRing α) :=
  if (r.head + 1) % n = r.tail then none
  else some { r with slots := Function.update r.slots r.head a, head := (r.head + 1) % n }

/-- The entries taken out, one after the other, until the ring is empty; at most `fuel`. -/
def drain : ℕ → BoundedRing α → List α × BoundedRing α
  | 0, r => ([], r)
  | fuel + 1, r =>
    if r.tail = r.head then ([], r)
    else
      let (as, r') := drain fuel { r with tail := (r.tail + 1) % n }
      (r.slots r.tail :: as, r')

/-- **The ring holds a list of entries**, the oldest first. -/
structure Holds (as : List α) : Prop where
  tail_lt : r.tail < n
  length_lt : as.length < n
  head_eq : r.head = (r.tail + as.length) % n
  slots_eq : ∀ i (h : i < as.length), r.slots ((r.tail + i) % n) = as[i]

variable {n r} {as : List α}

theorem Holds.nil (h : r.tail < n) (heq : r.head = r.tail) : r.Holds n [] where
  tail_lt := h
  length_lt := Nat.zero_lt_of_lt h
  head_eq := by rw [heq, List.length_nil, Nat.add_zero, Nat.mod_eq_of_lt h]
  slots_eq i hi := absurd hi (Nat.not_lt_zero i)

/-- Different offsets from the tail are different slots. -/
theorem add_mod_inj {t i j : ℕ} (hi : i < n) (hj : j < n) (h : (t + i) % n = (t + j) % n) :
    i = j := by
  have hmod : i % n = j % n := Nat.ModEq.add_left_cancel' t h
  rwa [Nat.mod_eq_of_lt hi, Nat.mod_eq_of_lt hj] at hmod

/-- **A push is refused exactly by a full ring.** -/
theorem Holds.push_eq_none_iff (h : r.Holds n as) (a : α) :
    r.push n a = none ↔ as.length = n - 1 := by
  have hnext : (r.head + 1) % n = (r.tail + (as.length + 1)) % n := by
    rw [h.head_eq, Nat.mod_add_mod, Nat.add_assoc]
  have hlen := h.length_lt
  rw [push, ite_eq_left_iff, hnext]
  constructor
  · intro hfull
    by_contra hne
    refine absurd (hfull ?_) (Option.some_ne_none _)
    intro heq
    have hzero : (r.tail + (as.length + 1)) % n = (r.tail + 0) % n := by
      rw [heq, Nat.add_zero, Nat.mod_eq_of_lt h.tail_lt]
    have := add_mod_inj (by omega) (by omega) hzero
    omega
  · intro hfull hne
    refine absurd ?_ hne
    rw [show as.length + 1 = n by omega, Nat.add_mod_right, Nat.mod_eq_of_lt h.tail_lt]

/-- **A push that is not refused appends the entry.** -/
theorem Holds.push (h : r.Holds n as) {a : α} {r' : BoundedRing α} (hr : r.push n a = some r') :
    r'.Holds n (as ++ [a]) := by
  have hroom : as.length + 1 < n := by
    have hne : as.length ≠ n - 1 := by
      rw [Ne, ← h.push_eq_none_iff a, hr]
      exact Option.some_ne_none r'
    have := h.length_lt
    omega
  rw [BoundedRing.push] at hr
  split_ifs at hr with hfull
  obtain rfl := Option.some.inj hr
  refine ⟨h.tail_lt, by simpa using hroom, ?_, fun i hi => ?_⟩
  · rw [h.head_eq, Nat.mod_add_mod, List.length_append, Nat.add_assoc]
    rfl
  · rw [List.length_append, List.length_singleton] at hi
    rcases Nat.lt_succ_iff_lt_or_eq.mp hi with hlt | rfl
    · have hne : (r.tail + i) % n ≠ r.head := by
        rw [h.head_eq]
        exact fun heq => Nat.ne_of_lt hlt (add_mod_inj (by omega) (by omega) heq)
      rw [List.getElem_append_left hlt]
      exact (Function.update_of_ne hne ..).trans (h.slots_eq i hlt)
    · rw [List.getElem_concat_length rfl, ← h.head_eq]
      exact Function.update_self ..

/-- **A drain takes out all entries, in their order**, with fuel for them. -/
theorem Holds.drain (h : r.Holds n as) {fuel : ℕ} (hfuel : as.length ≤ fuel) :
    (drain n fuel r).1 = as ∧ (drain n fuel r).2.Holds n [] := by
  induction fuel generalizing r as with
  | zero =>
    obtain rfl := List.eq_nil_of_length_eq_zero (Nat.le_zero.mp hfuel)
    exact ⟨rfl, h⟩
  | succ fuel ih =>
    cases as with
    | nil =>
      have hempty : r.tail = r.head := by
        rw [h.head_eq, List.length_nil, Nat.add_zero, Nat.mod_eq_of_lt h.tail_lt]
      rw [BoundedRing.drain, if_pos hempty]
      exact ⟨rfl, h⟩
    | cons a as =>
      have hlen := h.length_lt
      rw [List.length_cons] at hlen hfuel
      have hne : r.tail ≠ r.head := by
        intro heq
        have hzero : (r.tail + 0) % n = (r.tail + (as.length + 1)) % n := by
          rw [Nat.add_zero, Nat.mod_eq_of_lt h.tail_lt]
          exact heq.trans h.head_eq
        have := add_mod_inj (by omega) (by omega) hzero
        omega
      have hfirst : r.slots r.tail = a := by
        have := h.slots_eq 0 (Nat.succ_pos _)
        rwa [Nat.add_zero, Nat.mod_eq_of_lt h.tail_lt] at this
      have hrest : ({ r with tail := (r.tail + 1) % n } : BoundedRing α).Holds n as := by
        refine ⟨Nat.mod_lt _ (by omega), by omega, ?_, fun i hi => ?_⟩
        · rw [Nat.mod_add_mod, Nat.add_assoc, Nat.add_comm 1]
          exact h.head_eq
        · have := h.slots_eq (i + 1) (Nat.succ_lt_succ hi)
          rw [List.getElem_cons_succ] at this
          rw [Nat.mod_add_mod, Nat.add_assoc, Nat.add_comm 1]
          exact this
      obtain ⟨has, hempty⟩ := ih hrest (Nat.le_of_succ_le_succ hfuel)
      rw [BoundedRing.drain, if_neg hne]
      exact ⟨congrArg₂ List.cons hfirst has, hempty⟩

end BoundedRing
