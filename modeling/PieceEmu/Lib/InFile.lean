import Mathlib.Data.List.Basic
import PieceEmu.Lib.Words

/-!
# Files open for reading

A file of bytes with a position: `fread` hands out the next bytes, as many as there are,
and `fseek` moves the position, also past the end. What one `fread` leaves is what the next one
finds (`InFile.fread_rest`).
-/

/-- A `FILE` open for reading. -/
structure InFile where
  bytes : List U8
  pos : ℕ

namespace InFile

/-- `fread` of single bytes: as many of the `n` as there are. -/
def fread (f : InFile) (n : ℕ) : List U8 × InFile :=
  let buf := (f.bytes.drop f.pos).take n
  (buf, { f with pos := f.pos + buf.length })

/-- `fseek` from the start: a position past the end is allowed, a negative one is not. -/
def fseek (f : InFile) (offset : ℤ) : Option InFile :=
  if offset < 0 then none else some { f with pos := offset.toNat }

/-- What is left to read. -/
def rest (f : InFile) : List U8 := f.bytes.drop f.pos

/-- A chunk that is read is the front of the rest, and the new rest what is behind it. -/
theorem fread_rest (f : InFile) (n : ℕ) :
    (f.fread n).1 = f.rest.take n ∧ (f.fread n).2.rest = f.rest.drop n := by
  refine ⟨rfl, ?_⟩
  change f.bytes.drop (f.pos + (f.rest.take n).length) = f.rest.drop n
  rw [← List.drop_drop, List.length_take]
  change f.rest.drop (min n f.rest.length) = f.rest.drop n
  rcases Nat.le_total n f.rest.length with h | h
  · rw [Nat.min_eq_left h]
  · rw [Nat.min_eq_right h, List.drop_length, List.drop_eq_nil_of_le h]

/-- A file in which the position is given has the bytes behind it left. -/
theorem fseek_natCast (f : InFile) (offset : ℕ) :
    f.fseek offset = some { f with pos := offset } := by
  rw [fseek, if_neg (by omega), Int.toNat_natCast]

end InFile
