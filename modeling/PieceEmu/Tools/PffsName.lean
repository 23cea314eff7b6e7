import PieceEmu.Tools.Pffs

/-!
# Names of the file system

A name is compared up to its NUL or its 24th character, checked up to its NUL, and
stored with NULs behind it. All three depend on the string alone and not on the
bytes behind its NUL, and a valid name has at most twelve characters; so that, for
valid names, being compared equal, being the same string, and being stored as the
same string are one thing:

* `Pffs.strncmpEq_iff_of_valid` – comparing is equality of strings;
* `Pffs.cstr_fresh` – a new entry bears the name it was made for.
-/

namespace Pffs

/-! ### Strings -/

@[simp] theorem cstr_nil : cstr [] = [] := rfl

theorem cstr_cons_zero (s : List U8) : cstr (0 :: s) = [] := rfl

theorem cstr_cons {c : U8} (h : c ≠ 0) (s : List U8) : cstr (c :: s) = c :: cstr s :=
  List.takeWhile_cons_of_pos (decide_eq_true h)

/-- A string whose first byte is NUL, or that has none, is empty. -/
theorem cstr_of_headD_eq {s : List U8} (h : s.headD 0 = 0) : cstr s = [] := by
  cases s with
  | nil => rfl
  | cons c s =>
    obtain rfl : c = 0 := h
    exact cstr_cons_zero s

/-- Any other string has a first character. -/
theorem cstr_of_headD_ne {s : List U8} (h : s.headD 0 ≠ 0) :
    cstr s = s.headD 0 :: cstr s.tail := by
  cases s with
  | nil => exact absurd rfl h
  | cons c s => exact cstr_cons h s

/-- `strncmp` compares the strings, up to the given length. -/
theorem strncmpEq_iff (n : ℕ) (s t : List U8) :
    strncmpEq n s t = true ↔ (cstr s).take n = (cstr t).take n := by
  induction n generalizing s t with
  | zero => simp [strncmpEq]
  | succ n ih =>
    rw [strncmpEq]
    by_cases hst : s.headD 0 = t.headD 0
    · rw [if_neg (not_not.mpr hst)]
      by_cases h0 : s.headD 0 = 0
      · rw [if_pos h0, cstr_of_headD_eq h0, cstr_of_headD_eq (hst ▸ h0)]
        exact iff_of_true rfl rfl
      · have ht : t.headD 0 ≠ 0 := hst ▸ h0
        rw [if_neg h0, ih, cstr_of_headD_ne (s := s) h0, cstr_of_headD_ne (s := t) ht, hst,
          List.take_succ_cons, List.take_succ_cons, List.cons_inj_right]
    · rw [if_pos hst]
      refine iff_of_false Bool.false_ne_true fun h => ?_
      -- the first characters differ, or one of the strings is empty
      by_cases hs : s.headD 0 = 0
      · have ht : t.headD 0 ≠ 0 := fun ht => hst (hs.trans ht.symm)
        rw [cstr_of_headD_eq hs, cstr_of_headD_ne ht] at h
        exact absurd h (by simp)
      · by_cases ht : t.headD 0 = 0
        · rw [cstr_of_headD_ne hs, cstr_of_headD_eq ht] at h
          exact absurd h (by simp)
        · rw [cstr_of_headD_ne hs, cstr_of_headD_ne ht, List.take_succ_cons,
            List.take_succ_cons] at h
          exact hst (List.cons.inj h).1

/-! ### The check -/

theorem nameChar_ne_zero {c : U8} (h : nameChar c = true) : c ≠ 0 := by
  rintro rfl
  exact absurd h (by decide)

/-- What the check sees of a string does not depend on the bytes behind its NUL. -/
theorem scanPart_cstr (s : List U8) :
    (scanPart (cstr s)).1 = (scanPart s).1 ∧ (scanPart (cstr s)).2.1 = (scanPart s).2.1 ∧
      ((scanPart s).2.1 ≠ 0 → (scanPart (cstr s)).2.2 = cstr (scanPart s).2.2) := by
  induction s with
  | nil => exact ⟨rfl, rfl, fun h => absurd rfl h⟩
  | cons c s ih =>
    by_cases hc : nameChar c = true
    · rw [cstr_cons (nameChar_ne_zero hc), scanPart, scanPart, if_pos hc, if_pos hc]
      exact ⟨by rw [ih.1], ih.2⟩
    · by_cases h0 : c = 0
      · subst h0
        rw [cstr_cons_zero, scanPart.eq_2, if_neg hc]
        exact ⟨rfl, rfl, fun h => absurd rfl h⟩
      · rw [cstr_cons h0, scanPart, scanPart, if_neg hc, if_neg hc]
        exact ⟨rfl, rfl, fun _ => rfl⟩

/-- The length of a string, by the parts the check splits it into. -/
theorem length_cstr (s : List U8) :
    ((scanPart s).2.1 = 0 → (cstr s).length = (scanPart s).1) ∧
      ((scanPart s).2.1 ≠ 0 →
        (cstr s).length = (scanPart s).1 + 1 + (cstr (scanPart s).2.2).length) := by
  induction s with
  | nil => exact ⟨fun _ => rfl, fun h => absurd rfl h⟩
  | cons c s ih =>
    by_cases hc : nameChar c = true
    · rw [cstr_cons (nameChar_ne_zero hc), scanPart, if_pos hc, List.length_cons]
      refine ⟨fun h => congrArg (· + 1) (ih.1 h), fun h => ?_⟩
      have := ih.2 h
      show (cstr s).length + 1 = (scanPart s).1 + 1 + 1 + (cstr (scanPart s).2.2).length
      omega
    · rw [scanPart, if_neg hc]
      refine ⟨fun h => ?_, fun h => ?_⟩
      · obtain rfl : c = 0 := h
        rfl
      · rw [cstr_cons h, List.length_cons, Nat.zero_add, Nat.add_comm]

/-- **The check depends on the string alone.** -/
theorem checkFileName_cstr (s : List U8) : checkFileName (cstr s) = checkFileName s := by
  obtain ⟨h1, h2, h3⟩ := scanPart_cstr s
  simp only [checkFileName, h1, h2]
  by_cases hc : (scanPart s).2.1 = 0
  · simp [hc]
  · obtain ⟨h1', h2', -⟩ := scanPart_cstr (scanPart s).2.2
    rw [h3 hc]
    simp only [h1', h2']

theorem checkFileName_congr {s t : List U8} (h : cstr s = cstr t) :
    checkFileName s = checkFileName t := by
  rw [← checkFileName_cstr s, h, checkFileName_cstr]

/-- **A valid name is short.** -/
theorem length_cstr_le_of_valid {s : List U8} (h : checkFileName s = 0) :
    (cstr s).length ≤ 12 := by
  obtain ⟨hz, hnz⟩ := length_cstr s
  simp only [checkFileName] at h
  split_ifs at h with h1 h2 h3 h4 h5
  · rw [hz h2]
    omega
  · rw [hnz h2, (length_cstr _).1 h5]
    omega

/-- **A valid name marks its entry as used.** -/
theorem headD_of_valid {s : List U8} (h : checkFileName s = 0) :
    s.headD 0 ≠ 0 ∧ s.headD 0 ≠ 0xFF := by
  cases s with
  | nil => exact absurd h (by decide)
  | cons c s =>
    have hc : nameChar c = true := by
      by_contra hc
      simp [checkFileName, scanPart, hc] at h
    refine ⟨nameChar_ne_zero hc, ?_⟩
    rintro heq
    obtain rfl : c = 0xFF := heq
    exact absurd hc (by decide)

/-! ### Comparing and storing valid names -/

theorem strncmpEq_iff_of_valid {s t : List U8} (hs : checkFileName s = 0)
    (ht : checkFileName t = 0) : strncmpEq 24 s t = true ↔ cstr s = cstr t := by
  have hs' := length_cstr_le_of_valid hs
  have ht' := length_cstr_le_of_valid ht
  rw [strncmpEq_iff, List.take_of_length_le (by omega), List.take_of_length_le (by omega)]

theorem cstr_append_replicate_zero (s : List U8) (n : ℕ) :
    cstr (cstr s ++ List.replicate n 0) = cstr s := by
  induction s with
  | nil =>
    cases n with
    | zero => rfl
    | succ n => rfl
  | cons c s ih =>
    by_cases hc : c = 0
    · subst hc
      cases n <;> rfl
    · rw [cstr_cons hc, List.cons_append, cstr_cons hc, ih]

/-- **A new entry bears its name.** -/
theorem cstr_fresh {name : List U8} (h : checkFileName name = 0) :
    cstr (Directory.fresh name).name = cstr name := by
  have hlen := length_cstr_le_of_valid h
  have htake : (cstr name).take 23 = cstr name := List.take_of_length_le (by omega)
  show cstr ((cstr name).take 23 ++ List.replicate (24 - ((cstr name).take 23).length) 0) = _
  rw [htake, cstr_append_replicate_zero]

end Pffs
