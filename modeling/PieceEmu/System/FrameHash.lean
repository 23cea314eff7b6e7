import PieceEmu.Board.S6b0741

/-!
# The hash of a frame

The headless front end prints, for each frame, `fnv1a64` of the 88 rows of 128 pixels; two
builds of a program are compared by the hashes they print, and the first frame whose
hashes differ is where to look. A hash of 64 bits cannot tell all pictures apart. It does
tell apart those that are closest: pictures that differ in one pixel have different hashes
(`frameHash_ne`), because every byte is absorbed by a step that is injective both
in the hash so far and in the byte.
-/

/-! ### Folds of injective steps -/

section InjectiveStep

variable {σ α : Type*} {step : σ → α → σ}

/-- What differs is never merged again. -/
theorem foldl_injective (hstate : ∀ a, Function.Injective (step · a)) (l : List α) :
    Function.Injective (List.foldl step · l) := by
  induction l with
  | nil => exact fun _ _ h => h
  | cons a l ih => exact fun _ _ h => hstate a (ih h)

/-- **Lists that differ in one place** are folded to different states. -/
theorem foldl_ne_of_change_one (hstate : ∀ a, Function.Injective (step · a))
    (hvalue : ∀ s, Function.Injective (step s)) {l l' : List α} {k : ℕ}
    (hlen : l'.length = l.length) (hk : k < l.length) (hne : l[k] ≠ l'[k])
    (hsame : ∀ j, j ≠ k → l[j]? = l'[j]?) (s : σ) : l.foldl step s ≠ l'.foldl step s := by
  have htake : l.take k = l'.take k := by
    refine List.ext_getElem? fun j => ?_
    rw [List.getElem?_take, List.getElem?_take]
    split_ifs with hj
    · exact hsame j (by omega)
    · rfl
  have hdrop : l.drop (k + 1) = l'.drop (k + 1) := by
    refine List.ext_getElem? fun j => ?_
    rw [List.getElem?_drop, List.getElem?_drop]
    exact hsame _ (by omega)
  have hsplit : l = l.take k ++ l[k] :: l.drop (k + 1) := by simp
  have hsplit' : l' = l.take k ++ l'[k] :: l.drop (k + 1) := by
    rw [htake, hdrop]
    simp
  rw [hsplit, hsplit', List.foldl_append, List.foldl_append, List.foldl_cons, List.foldl_cons]
  intro heq
  exact hne (hvalue _ (foldl_injective hstate _ heq))

end InjectiveStep

/-! ### FNV-1a -/

/-- The prime of `fnv1a64`. -/
def fnvPrime : U64 := 0x100000001B3

/-- The body of the loop of `fnv1a64`. -/
def fnvStep (h : U64) (b : U8) : U64 := (h ^^^ b.setWidth 64) * fnvPrime

/-- `fnv1a64`. -/
def fnv1a64 (data : List U8) : U64 := data.foldl fnvStep 0xCBF29CE484222325

/-- The prime is odd, so multiplying by it can be undone. -/
theorem mul_fnvPrime_injective : Function.Injective fun h : U64 => h * fnvPrime := by
  intro h h' heq
  have hinv : fnvPrime * 0xCE965057AFF6957B = 1#64 := by decide
  have := congrArg (· * (0xCE965057AFF6957B : U64)) heq
  simpa only [BitVec.mul_assoc, hinv, BitVec.mul_one] using this

theorem fnvStep_injective_state (b : U8) : Function.Injective (fnvStep · b) := by
  intro h h' heq
  exact BitVec.xor_left_inj _ |>.mp (mul_fnvPrime_injective heq)

theorem fnvStep_injective_byte (h : U64) : Function.Injective (fnvStep h) := by
  intro b b' heq
  have hwide : b.setWidth 64 = b'.setWidth 64 :=
    BitVec.xor_right_inj _ |>.mp (mul_fnvPrime_injective heq)
  have := congrArg (BitVec.setWidth 8) hwide
  simpa using this

/-! ### Frames -/

/-- The array `pixels[88][128]`, as the hash reads it: row by row. -/
def frameBytes (out : Raster) : List U8 :=
  (List.range (88 * 128)).map fun i => out (i / 128) (i % 128)

/-- The hash the front end prints for what the display shows; `pixels` is the array as the frame
before has left it. -/
def frameHash (lcd : S6b0741) (pixels : Raster) : U64 := fnv1a64 (frameBytes (lcd.toPixels pixels))

variable {lcd lcd' : S6b0741} {img img' : S6b0741.Picture}

/-- The bytes of a picture. -/
theorem frameBytes_of_shows (h : lcd.Shows img) (pixels : Raster) :
    frameBytes (lcd.toPixels pixels) =
      (List.range (88 * 128)).map fun i => (img (i / 128) (i % 128)).setWidth 8 := by
  refine List.map_congr_left fun i hi => ?_
  rw [List.mem_range] at hi
  exact h pixels _ (by omega) _ (by omega)

/-- **A pixel of difference shows in the hash.** Displays that show the same picture have the
same hash, whatever was drawn before; displays whose pictures differ in exactly one pixel
have different ones. -/
theorem frameHash_ne (h : lcd.Shows img) (h' : lcd'.Shows img') (pixels pixels' : Raster) :
    ((∀ y < 88, ∀ x < 128, img y x = img' y x) → frameHash lcd pixels = frameHash lcd' pixels') ∧
      ((∃ y < 88, ∃ x < 128, img y x ≠ img' y x ∧
          ∀ y' < 88, ∀ x' < 128, (y', x') ≠ (y, x) → img y' x' = img' y' x') →
        frameHash lcd pixels ≠ frameHash lcd' pixels') := by
  rw [frameHash, frameHash, frameBytes_of_shows h, frameBytes_of_shows h']
  refine ⟨fun hsame => congrArg fnv1a64 (List.map_congr_left fun i hi => ?_), ?_⟩
  · rw [List.mem_range] at hi
    rw [hsame _ (by omega) _ (by omega)]
  · rintro ⟨y, hy, x, hx, hne, hsame⟩
    have hk : y * 128 + x < 88 * 128 := by omega
    have hplace : (y * 128 + x) / 128 = y ∧ (y * 128 + x) % 128 = x := by omega
    refine foldl_ne_of_change_one (k := y * 128 + x) fnvStep_injective_state
      fnvStep_injective_byte (by simp) (by simpa using hk) ?_ ?_ _
    · simp only [List.getElem_map, List.getElem_range, hplace]
      intro heq
      have := congrArg (BitVec.setWidth 2) heq
      exact hne (by simpa using this)
    · intro j hj
      by_cases hlt : j < 88 * 128
      · have hpixel : (j / 128, j % 128) ≠ (y, x) := by
          rw [Ne, Prod.mk.injEq]
          omega
        simp [hlt, hsame _ (by omega) _ (by omega) hpixel]
      · simp [hlt]

/-- The display once it has been sent a picture. -/
def showing (img : S6b0741.Picture) : S6b0741 :=
  S6b0741.reset.receive (S6b0741.pictureStream img (Equiv.refl _) fun _ => true)

theorem showing_shows (img : S6b0741.Picture) : (showing img).Shows img :=
  S6b0741.shows_receive _ img _ _

/-- A dot on a blank picture. -/
def dot : S6b0741.Picture := fun y x => if (y, x) = (3, 5) then 1 else 0

theorem frameHash_ne_dot :
    frameHash (showing fun _ _ => 0) (fun _ _ => 0) ≠
      frameHash (showing dot) fun _ _ => 0 := by
  refine (frameHash_ne (showing_shows _) (showing_shows _) _ _).2
    ⟨3, by decide, 5, by decide, by decide, fun y _ x _ hne => ?_⟩
  exact (if_neg hne).symm
