import Mathlib.Data.List.Induction
import Mathlib.Order.Lattice

/-!
# The first of the greatest

A loop over candidates that replaces the best one so far only by a strictly better one
ends with the *first* of the greatest: the comparison is the tie-break. `FirstMax.step` is
one round, over any elements, any linear order of keys, and any condition on what counts
as a candidate; `FirstMax.foldl_eq_some_iff` says what a whole loop over an increasing
list ends with, and `FirstMax.foldl_eq_none_iff` when it ends with nothing.
-/

namespace FirstMax

variable {α β : Type*} [LinearOrder α] [LinearOrder β] (p : α → Prop) (key : α → β)

/-- One round: a candidate that is better than the best so far replaces it. -/
def step [DecidablePred p] (best : Option α) (a : α) : Option α :=
  if p a ∧ ∀ b ∈ best, key b < key a then some a else best

/-- **The first of the greatest** among the candidates of a list. -/
structure IsFirstMax (l : List α) (a : α) : Prop where
  mem : a ∈ l
  candidate : p a
  greatest : ∀ b ∈ l, p b → key b < key a ∨ key b = key a ∧ a ≤ b

/-- What a loop has found after a list. -/
def Found (l : List α) : Option α → Prop
  | none => ∀ a ∈ l, ¬p a
  | some a => IsFirstMax p key l a

variable {p key} {l : List α} {a b : α}

/-- There is only one. -/
theorem IsFirstMax.unique (ha : IsFirstMax p key l a) (hb : IsFirstMax p key l b) : a = b := by
  rcases ha.greatest b hb.mem hb.candidate with hlt | ⟨heq, hle⟩
  · rcases hb.greatest a ha.mem ha.candidate with hlt' | ⟨heq', -⟩
    · exact absurd hlt hlt'.asymm
    · exact absurd heq' hlt.ne'
  · rcases hb.greatest a ha.mem ha.candidate with hlt' | ⟨-, hle'⟩
    · exact absurd heq hlt'.ne'
    · exact le_antisymm hle hle'

theorem Found.iff_isFirstMax {r : Option α} (h : Found p key l r) :
    r = some a ↔ IsFirstMax p key l a := by
  cases r with
  | none => exact iff_of_false nofun fun ha => h a ha.mem ha.candidate
  | some b =>
    constructor
    · rintro ⟨⟩
      exact h
    · exact fun ha => congrArg some (h.unique ha)

theorem Found.iff_none {r : Option α} (h : Found p key l r) : r = none ↔ ∀ a ∈ l, ¬p a := by
  cases r with
  | none => exact iff_of_true rfl h
  | some b => exact iff_of_false nofun fun hnone => hnone b h.mem h.candidate

variable [DecidablePred p]

/-- **One round keeps what has been found**, when it comes to an element behind all
others. -/
theorem Found.step {r : Option α} (h : Found p key l r) (hlast : ∀ b ∈ l, b < a) :
    Found p key (l ++ [a]) (step p key r a) := by
  have hmem {b : α} : b ∈ l ++ [a] ↔ b ∈ l ∨ b = a := by simp
  by_cases ha : p a ∧ ∀ b ∈ r, key b < key a
  · -- a new best one: everything before it is smaller, or no candidate
    rw [FirstMax.step, if_pos ha]
    refine ⟨hmem.mpr (.inr rfl), ha.1, fun b hb hpb => ?_⟩
    rcases hmem.mp hb with hb | rfl
    · cases r with
      | none => exact absurd hpb (h b hb)
      | some c =>
        refine .inl (lt_of_le_of_lt ?_ (ha.2 c rfl))
        exact (h.greatest b hb hpb).elim le_of_lt fun heq => heq.1.le
    · exact .inr ⟨rfl, le_rfl⟩
  · -- the best one so far stays, and comes first
    rw [FirstMax.step, if_neg ha]
    cases r with
    | none =>
      intro b hb hpb
      rcases hmem.mp hb with hb | rfl
      · exact h b hb hpb
      · exact ha ⟨hpb, nofun⟩
    | some c =>
      refine ⟨hmem.mpr (.inl h.mem), h.candidate, fun b hb hpb => ?_⟩
      rcases hmem.mp hb with hb | rfl
      · exact h.greatest b hb hpb
      · have hle : key b ≤ key c := by
          by_contra hlt
          exact ha ⟨hpb, fun d hd => (Option.some.inj hd) ▸ not_le.mp hlt⟩
        exact hle.lt_or_eq.imp_right fun heq => ⟨heq, (hlast c h.mem).le⟩

/-- **The loop**, by induction from its end. -/
theorem found_foldl (hl : l.Pairwise (· < ·)) : Found p key l (l.foldl (step p key) none) := by
  induction l using List.reverseRecOn with
  | nil => exact nofun
  | append_singleton l a ih =>
    obtain ⟨hl, -, hlast⟩ := List.pairwise_append.mp hl
    rw [List.foldl_append]
    exact (ih hl).step fun b hb => hlast b hb a List.mem_cons_self

/-- **The loop ends with the first of the greatest.** -/
theorem foldl_eq_some_iff (hl : l.Pairwise (· < ·)) :
    l.foldl (step p key) none = some a ↔ IsFirstMax p key l a := (found_foldl hl).iff_isFirstMax

/-- **The loop ends with nothing if there is no candidate.** -/
theorem foldl_eq_none_iff (hl : l.Pairwise (· < ·)) :
    l.foldl (step p key) none = none ↔ ∀ a ∈ l, ¬p a := (found_foldl hl).iff_none

end FirstMax
