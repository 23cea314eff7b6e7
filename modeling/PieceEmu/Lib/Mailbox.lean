import PieceEmu.Lib.Run

/-!
# A mailbox with one place

A sender puts things into it, and a receiver takes out what is there. What is put replaces
what has not been taken, so things are lost; but nothing is taken twice, nothing that was not
put, and what is taken is taken in the order it was put in (`Mailbox.taken_sublist`).
-/

namespace Mailbox

/-- What happens to a mailbox. -/
inductive Act (α : Type*)
  | put (a : α)
  | take

variable {α : Type*} (m : Option α) (as : List (Act α))

/-- What the mailbox has in it after an act. -/
def next (_ : Option α) : Act α → Option α
  | .put a => some a
  | .take => none

/-- What an act takes out. -/
def out : Act α → List α
  | .put _ => []
  | .take => m.toList

/-- What is taken out in a run. -/
def taken : Option α → List (Act α) → List α
  | _, [] => []
  | m, a :: as => out m a ++ taken (next m a) as

/-- What is put in. -/
def puts : List (Act α) → List α
  | [] => []
  | .put a :: as => a :: puts as
  | .take :: as => puts as

/-- **What is taken has been put**, in the same order, and nothing of it twice. -/
theorem taken_sublist : (taken m as).Sublist (m.toList ++ puts as) := by
  induction as generalizing m with
  | nil => exact List.nil_sublist _
  | cons a as ih =>
    cases a with
    | put a => exact (ih (some a)).trans (List.sublist_append_right _ _)
    | take => exact (ih none).append_left _

end Mailbox
