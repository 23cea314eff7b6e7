import PieceEmu.Lib.BoundedRegex
import PieceEmu.Lib.CText
import PieceEmu.Tools.PffsName
import Mathlib.Data.List.TakeWhile

/-!
# What `CheckFileName` accepts

The comment above `CheckFileName` gives the names it accepts as a regular expression, and
the body is two rounds of one loop with a cursor of their own: each round counts name
characters and consumes the character that ends them, which is the dot between the parts
or the NUL behind the name.

`Pffs.readFileName` is the function once more, over memory that ends somewhere: a read
behind the end gives `none`. With a string and its NUL for that memory it always has a
value, which is 0 exactly for the words of the expression
(`Pffs.checkFileName_exact`).
-/

namespace Pffs

open CText BoundedRegex

/-! ### Reading -/

/-- The inner loop, in memory that ends. -/
def readPart : List U8 → Option (ℕ × U8 × List U8)
  | [] => none
  | c :: mem =>
    if nameChar c then (readPart mem).map fun r => (r.1 + 1, r.2) else some (0, c, mem)

/-- `CheckFileName`, in memory that ends. -/
def readFileName (mem : List U8) : Option ℕ := do
  let (length, c, rest) ← readPart mem
  if length = 0 ∨ length > 8 then return 1
  else if c = 0 then return 0
  else if c ≠ 0x2E then return 2
  else
    let (length, c, _) ← readPart rest
    if length = 0 ∨ length > 3 then return 3
    else if c = 0 then return 0
    else return 4

/-- The loop ends at a NUL, and what it has consumed ends there too if nothing else has
stopped it before. -/
theorem readPart_of_mem {mem : List U8} (h : 0 ∈ mem) :
    readPart mem = some (scanPart mem) ∧ ((scanPart mem).2.1 ≠ 0 → 0 ∈ (scanPart mem).2.2) := by
  induction mem with
  | nil => exact absurd h List.not_mem_nil
  | cons c mem ih =>
    rw [readPart, scanPart]
    by_cases hc : nameChar c = true
    · have hmem : 0 ∈ mem := (List.mem_cons.mp h).resolve_left (nameChar_ne_zero hc).symm
      rw [if_pos hc, if_pos hc, (ih hmem).1]
      exact ⟨rfl, (ih hmem).2⟩
    · rw [if_neg hc, if_neg hc]
      exact ⟨rfl, fun hne => (List.mem_cons.mp h).resolve_left hne.symm⟩

/-- **In memory that holds a NUL nothing is read behind the end.** -/
theorem readFileName_of_mem {mem : List U8} (h : 0 ∈ mem) :
    readFileName mem = some (checkFileName mem) := by
  obtain ⟨hread, hrest⟩ := readPart_of_mem h
  simp only [readFileName, checkFileName, hread, Option.pure_def, Option.bind_eq_bind,
    Option.bind_some]
  by_cases hc : (scanPart mem).2.1 = 0
  · simp only [hc, if_true, apply_ite some]
  · simp only [(readPart_of_mem (hrest hc)).1, Option.bind_some, apply_ite some]

/-! ### The expression -/

/-- `[a-z0-9_]`. -/
def nameSymbols : List U8 := str "abcdefghijklmnopqrstuvwxyz0123456789_"

/-- `[a-z0-9_]{1,8}(\.[a-z0-9_]{1,3})?`. -/
def nameRegex : RegularExpression U8 :=
  oneUpTo (charClass nameSymbols) 7 *
    optional (.char (ch '.') * oneUpTo (charClass nameSymbols) 2)

theorem nameChar_iff (c : U8) : nameChar c = true ↔ c ∈ nameSymbols := by
  revert c
  decide +kernel

/-- The words of the expression, by the characters in front of the first that is none of a
name. -/
theorem mem_nameRegex {s : List U8} :
    s ∈ nameRegex.matches' ↔
      (s.takeWhile nameChar ≠ [] ∧ (s.takeWhile nameChar).length ≤ 8) ∧
        (s.dropWhile nameChar = [] ∨ ∃ e, s.dropWhile nameChar = ch '.' :: e ∧
          e ≠ [] ∧ e.length ≤ 3 ∧ ∀ c ∈ e, nameChar c = true) := by
  have htail (b : List U8) :
      b ∈ (optional (.char (ch '.') * oneUpTo (charClass nameSymbols) 2)).matches' ↔
        b = [] ∨ ∃ e, b = ch '.' :: e ∧ e ≠ [] ∧ e.length ≤ 3 ∧ ∀ c ∈ e, nameChar c = true := by
    simp only [mem_optional, mem_char_mul, mem_oneUpTo, nameChar_iff]
  rw [nameRegex, RegularExpression.matches'_mul, Language.mem_mul]
  constructor
  · rintro ⟨a, ha, b, hb, rfl⟩
    obtain ⟨hne, hlen, hall⟩ := mem_oneUpTo.mp ha
    have hname : ∀ c ∈ a, nameChar c = true := fun c hc => (nameChar_iff c).mpr (hall c hc)
    rw [htail] at hb
    -- the part behind is empty or starts with a dot, which is no character of a name
    have hstop : b.takeWhile nameChar = [] ∧ b.dropWhile nameChar = b := by
      rcases hb with rfl | ⟨e, rfl, -⟩
      · exact ⟨rfl, rfl⟩
      · exact ⟨rfl, rfl⟩
    rw [List.takeWhile_append_of_pos hname, List.dropWhile_append_of_pos hname, hstop.1, hstop.2,
      List.append_nil]
    exact ⟨⟨hne, hlen⟩, hb⟩
  · rintro ⟨⟨hne, hlen⟩, hb⟩
    refine ⟨_, mem_oneUpTo.mpr ⟨hne, hlen, fun c hc => ?_⟩, _, (htail _).mpr hb,
      List.takeWhile_append_dropWhile⟩
    exact (nameChar_iff c).mp (List.mem_takeWhile_imp hc)

/-! ### The check -/

/-- The loop, by the characters in front of the first that is none of a name. -/
theorem scanPart_eq (s : List U8) :
    scanPart s = ((s.takeWhile nameChar).length, (s.dropWhile nameChar).headD 0,
      (s.dropWhile nameChar).tail) := by
  induction s with
  | nil => rfl
  | cons c s ih =>
    rw [scanPart]
    by_cases hc : nameChar c = true
    · rw [if_pos hc, List.takeWhile_cons_of_pos hc, List.dropWhile_cons_of_pos hc, ih]
      rfl
    · rw [if_neg hc, List.takeWhile_cons_of_neg hc, List.dropWhile_cons_of_neg hc]
      rfl

/-- The check succeeds with one part or with two. -/
theorem checkFileName_eq_zero_iff (s : List U8) :
    checkFileName s = 0 ↔ ((scanPart s).1 ≠ 0 ∧ (scanPart s).1 ≤ 8) ∧
      ((scanPart s).2.1 = 0 ∨ (scanPart s).2.1 = ch '.' ∧
        ((scanPart (scanPart s).2.2).1 ≠ 0 ∧ (scanPart (scanPart s).2.2).1 ≤ 3) ∧
          (scanPart (scanPart s).2.2).2.1 = 0) := by
  have hdot : (0x2E : U8) = ch '.' := by decide
  simp only [checkFileName, hdot]
  split_ifs with h1 h2 h3 h4 h5
  · exact iff_of_false (by decide) fun h => h1.elim h.1.1 fun h' => h'.not_ge h.1.2
  · exact iff_of_true rfl ⟨by omega, .inl h2⟩
  · exact iff_of_false (by decide) fun h => h.2.elim h2 fun h' => h3 h'.1
  · exact iff_of_false (by decide) fun h =>
      h.2.elim h2 fun h' => h4.elim h'.2.1.1 fun hlt => hlt.not_ge h'.2.1.2
  · exact iff_of_true rfl ⟨by omega, .inr
      ⟨not_not.mp h3, (not_or.mp h4).imp_right not_lt.mp, h5⟩⟩
  · exact iff_of_false (by decide) fun h => h.2.elim h2 fun h' => h5 h'.2.2

/-- A string without a NUL ends where its first character would be a NUL. -/
theorem headD_eq_zero_iff {s : List U8} (hs : 0 ∉ s) : s.headD 0 = 0 ↔ s = [] := by
  cases s with
  | nil => exact iff_of_true rfl rfl
  | cons c s => exact iff_of_false (fun h => hs (List.mem_cons.mpr (.inl h.symm))) nofun

/-- **File names are recognised exactly.** For every string without a NUL, the check reads
nothing behind the NUL that ends it, and returns 0 if and only if the whole string matches
`[a-z0-9_]{1,8}(\.[a-z0-9_]{1,3})?`. -/
theorem checkFileName_exact (s : List U8) (hs : 0 ∉ s) :
    readFileName (s ++ [0]) = some (checkFileName s) ∧
      (checkFileName s = 0 ↔ s ∈ nameRegex.matches') := by
  have hcstr : cstr (s ++ [0]) = s := by
    rw [cstr, List.takeWhile_append_of_pos fun c hc => ?_]
    · exact List.append_nil s
    · exact decide_eq_true fun h : c = 0 => hs (h ▸ hc)
  constructor
  · rw [readFileName_of_mem (List.mem_append_right s List.mem_cons_self), ← checkFileName_cstr,
      hcstr]
  · have hrest : 0 ∉ s.dropWhile nameChar := fun h => hs (List.dropWhile_subset _ h)
    rw [checkFileName_eq_zero_iff, mem_nameRegex, scanPart_eq s]
    refine and_congr (and_congr_left' List.length_eq_zero_iff.not) ?_
    dsimp only
    rw [headD_eq_zero_iff hrest]
    refine or_congr_right ?_
    cases hd : s.dropWhile nameChar with
    | nil => exact iff_of_false (fun h => absurd h.1 (by decide)) nofun
    | cons c e =>
      have he : 0 ∉ e := fun h => hrest (hd ▸ List.mem_cons_of_mem c h)
      have hend : (e.dropWhile nameChar).headD 0 = 0 ↔ ∀ c ∈ e, nameChar c = true := by
        rw [headD_eq_zero_iff fun h => he (List.dropWhile_subset _ h), List.dropWhile_eq_nil_iff]
      rw [List.headD_cons, List.tail_cons, scanPart_eq e]
      dsimp only
      rw [hend]
      constructor
      · rintro ⟨rfl, ⟨hne, hlen⟩, hall⟩
        rw [List.takeWhile_eq_self_iff.mpr hall] at hne hlen
        exact ⟨e, rfl, List.length_eq_zero_iff.not.mp hne, hlen, hall⟩
      · rintro ⟨e', heq, hne, hlen, hall⟩
        obtain ⟨rfl, rfl⟩ := List.cons.inj heq
        rw [List.takeWhile_eq_self_iff.mpr hall]
        exact ⟨rfl, ⟨List.length_eq_zero_iff.not.mpr hne, hlen⟩, hall⟩

/-- `a.fpe` is a name. -/
theorem checkFileName_exact_fpe :
    readFileName (str "a.fpe" ++ [0]) = some (checkFileName (str "a.fpe")) ∧
      (checkFileName (str "a.fpe") = 0 ↔ str "a.fpe" ∈ nameRegex.matches') :=
  checkFileName_exact (str "a.fpe") (by decide)

end Pffs
