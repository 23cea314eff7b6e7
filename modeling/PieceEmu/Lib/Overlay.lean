import Mathlib.Data.List.Basic

/-!
# Overlays

An overlay is what one step of filling a memory writes: a value for some of the
indices, and nothing for the others. A memory that is filled by a list of overlays, one
after the other, holds at each index what the last overlay with a value there says.

| notion | what it is |
|---|---|
| `Overlay.on` | a memory under one overlay |
| `Overlay.onAll` | a memory under a list of them, the last on top |
-/

variable {ι α : Type*}

/-- A partial assignment of values to indices. -/
abbrev Overlay (ι α : Type*) := ι → Option α

namespace Overlay

/-- The memory under an overlay. -/
def on (o : Overlay ι α) (mem : ι → α) : ι → α := fun i => (o i).getD (mem i)

/-- The memory under a list of overlays. -/
def onAll (os : List (Overlay ι α)) (mem : ι → α) : ι → α := os.foldl (fun m o => o.on m) mem

variable {o : Overlay ι α} {os os' : List (Overlay ι α)} {mem : ι → α} {i : ι} {v : α}

@[simp] theorem onAll_nil : onAll [] mem = mem := rfl

@[simp] theorem onAll_cons : onAll (o :: os) mem = onAll os (o.on mem) := rfl

theorem onAll_append : onAll (os ++ os') mem = onAll os' (onAll os mem) := List.foldl_append

theorem on_of_none (h : o i = none) : o.on mem i = mem i := by rw [on, h, Option.getD_none]

theorem on_of_some (h : o i = some v) : o.on mem i = v := by rw [on, h, Option.getD_some]

/-- An index that no overlay covers keeps its value. -/
theorem onAll_of_none (h : ∀ o ∈ os, o i = none) : onAll os mem i = mem i := by
  induction os generalizing mem with
  | nil => rfl
  | cons o os ih =>
    rw [onAll_cons, ih fun o' ho' => h o' (List.mem_cons_of_mem _ ho'),
      on_of_none (h o List.mem_cons_self)]

/-- **The last overlay counts.** -/
theorem onAll_of_last (h : o i = some v) (hlast : ∀ o' ∈ os', o' i = none) :
    onAll (os ++ o :: os') mem i = v := by
  rw [onAll_append, onAll_cons, onAll_of_none hlast, on_of_some h]

/-- Overlays that agree on an index, where they cover it. -/
theorem onAll_of_agree (h : ∀ o ∈ os, o i = none ∨ o i = some v) (hsome : ∃ o ∈ os, o i = some v) :
    onAll os mem i = v := by
  induction os generalizing mem with
  | nil =>
    obtain ⟨o, ho, -⟩ := hsome
    exact absurd ho List.not_mem_nil
  | cons o os ih =>
    have htail := fun o' ho' => h o' (List.mem_cons_of_mem _ ho')
    by_cases hex : ∃ o' ∈ os, o' i = some v
    · exact ih htail hex
    · obtain ⟨o', ho', ho'v⟩ := hsome
      have hnone : ∀ o'' ∈ os, o'' i = none := fun o'' ho'' =>
        (htail o'' ho'').resolve_right fun hv => hex ⟨o'', ho'', hv⟩
      rcases List.mem_cons.mp ho' with rfl | ho'
      · rw [onAll_cons, onAll_of_none hnone, on_of_some ho'v]
      · exact absurd ⟨o', ho', ho'v⟩ hex

end Overlay
