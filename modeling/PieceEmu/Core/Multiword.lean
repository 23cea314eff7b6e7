import PieceEmu.Core.ArithState
import PieceEmu.Lib.Multiword

/-!
# Multiword arithmetic through the carry

An addition of numbers of several words: `add` on the least significant words, and `adc` on
each pair above, with whatever keeps the carry in between. The subtraction is the same with
`sub` and `sbc`. What the invariant says of the words added so far (`Summed`) is the equation
of the library, with the flag `C` for the carry, and that `V` is the overflow of the last
word; one more word keeps it (`Machine.WordStep.summed`).
-/

open Multiword

/-! ### Rows of words -/

/-- The operands of one step, and the word it leaves. -/
structure WordSum where
  a : U32
  b : U32
  s : U32

/-- The words of a row. -/
def words (f : WordSum → U32) (ws : List WordSum) : List ℕ := ws.map fun w => (f w).toNat

theorem words_concat (f : WordSum → U32) (ws : List WordSum) (w : WordSum) :
    words f (ws ++ [w]) = words f ws ++ [(f w).toNat] := List.map_append

@[simp] theorem length_words (f : WordSum → U32) (ws : List WordSum) :
    (words f ws).length = ws.length := List.length_map ..

theorem value_words_lt (f : WordSum → U32) (ws : List WordSum) :
    value (2 ^ 32) (words f ws) < (2 ^ 32) ^ (words f ws).length := by
  refine Nat.ofDigits_lt_base_pow_length (by decide) fun x hx => ?_
  obtain ⟨w, -, rfl⟩ := List.mem_map.mp hx
  exact (f w).isLt

theorem signed_word (v : U32) : signed (2 ^ 32) [v.toNat] = v.toInt := by
  have hone : value (2 ^ 32) [v.toNat] = v.toNat := Nat.ofDigits_singleton
  unfold signed
  rw [hone, BitVec.toInt_eq_toNat_cond]
  rfl

/-- **What has been added so far**, under the sign `ε`: the words are those of the sum, `C`
is the carry behind them, and `V` the overflow of the last. -/
structure Summed (ε : ℤ) (s : ArithState) (ws : List WordSum) : Prop where
  carries : Carries (2 ^ 32) ε (words WordSum.a ws) (words WordSum.b ws) (words WordSum.s ws)
    s.c.toNat
  overflow : ∃ low w, ∃ c : Bool, ws = low ++ [w] ∧
    Carries (2 ^ 32) ε (words WordSum.a low) (words WordSum.b low) (words WordSum.s low) c.toNat ∧
    s.v = decide (¬Psr.Fits (w.a.toInt + ε * (w.b.toInt + c.toNat)))

/-- The signed numbers of a row fit in its words. -/
def FitsIn (n : ℕ) (x : ℤ) : Prop := -2 ^ (32 * n - 1) ≤ x ∧ x < 2 ^ (32 * n - 1)

instance (n : ℕ) (x : ℤ) : Decidable (FitsIn n x) := inferInstanceAs (Decidable (_ ∧ _))

/-- **The overflow of the last word is that of the whole.** -/
theorem Summed.fits {ε : ℤ} {s : ArithState} {ws : List WordSum} (h : Summed ε s ws) :
    s.v = decide (¬FitsIn ws.length
      (signed (2 ^ 32) (words WordSum.a ws) + ε * signed (2 ^ 32) (words WordSum.b ws))) := by
  obtain ⟨low, w, c, rfl, hcarry, hv⟩ := h.overflow
  have hbase : 2 * 2 ^ 31 = 2 ^ 32 := rfl
  have hsigned (f : WordSum → U32) : signed (2 ^ 32) (words f (low ++ [w])) =
      value (2 ^ 32) (words f low) + ((2 ^ 32) ^ low.length : ℕ) * (f w).toInt := by
    have hconcat := signed_concat (h := 2 ^ 31) (w := (f w).toNat) (value_words_lt f low)
    rwa [hbase, length_words, signed_word, ← words_concat] at hconcat
  have hlow : ((value (2 ^ 32) (words WordSum.s low) : ℕ) : ℤ) < ((2 ^ 32) ^ low.length : ℕ) := by
    have := value_words_lt WordSum.s low
    rw [length_words] at this
    exact_mod_cast this
  -- the whole is the words below, and the last sum above them
  have hwhole : signed (2 ^ 32) (words WordSum.a (low ++ [w])) +
      ε * signed (2 ^ 32) (words WordSum.b (low ++ [w])) =
        value (2 ^ 32) (words WordSum.s low) +
          ((2 ^ 32) ^ low.length : ℕ) * (w.a.toInt + ε * (w.b.toInt + c.toNat)) := by
    unfold Carries at hcarry
    rw [hsigned, hsigned]
    rw [length_words] at hcarry
    push_cast
    linear_combination hcarry
  have hfits := fits_concat (t := w.a.toInt + ε * (w.b.toInt + c.toNat)) (h := 2 ^ 31)
    (Int.natCast_nonneg _) hlow
  have hpow : (((2 ^ 32) ^ low.length : ℕ) : ℤ) * 2 ^ 31 =
      2 ^ (32 * (low ++ [w]).length - 1) := by
    have hexp : 32 * (low ++ [w]).length - 1 = 32 * low.length + 31 := by
      rw [List.length_append, List.length_singleton]
      omega
    rw [hexp, pow_add, pow_mul]
    push_cast
    rfl
  rw [hpow] at hfits
  rw [hv, hwhole]
  exact decide_eq_decide.mpr (not_congr hfits.symm)

/-! ### The steps -/

namespace Machine

variable {D : Type} (io : IoSpace D)

/-- The machine executes a step with these operands and this result: `add`, `sub`, `adc` or
`sbc` of two registers, under no prefix. -/
structure WordStep (h : Handler) (m : Machine D) (w : WordSum) : Prop where
  running : m.running = true
  handler : m.handlerAtPc = h
  unprefixed : m.cpu.pendingExtCount = 0
  /-- No check stops the step. -/
  executed : m.cpu.inDelaySlot = false ∨ (m.step io).cpu.inHalt = false
  a : m.cpu.r m.insnAtPc.rd = w.a
  b : m.cpu.r m.insnAtPc.rs = w.b
  s : (m.step io).cpu.r m.insnAtPc.rd = w.s

/-- The sign of an operation, and whether it takes the carry in. -/
def wordSign : Handler → Option (ℤ × Bool)
  | .addRdRs => some (1, false)
  | .subRdRs => some (-1, false)
  | .adc => some (1, true)
  | .sbc => some (-1, true)
  | _ => none

variable {io}

/-- What an addition leaves. -/
theorem run_add {h : Handler} {takes : Bool} (hsign : wordSign h = some (1, takes)) (i : Insn)
    {m : Machine D} (hp : m.cpu.pendingExtCount = 0) :
    let r := Psr.sum64 (m.cpu.r i.rd) (m.cpu.r i.rs) (takes && m.cpu.psr.c)
    h.run io i m = (m.flushExt.setR i.rd (r.setWidth 32)).setPsr
      (m.cpu.psr.setNzvcAdd (m.cpu.r i.rd) (m.cpu.r i.rs) r) := by
  cases h with
  | addRdRs =>
    cases hsign
    have hsum : Psr.sum64 (m.cpu.r i.rd) (m.cpu.r i.rs) (false && m.cpu.psr.c) =
        (m.cpu.r i.rd).setWidth 64 + (m.cpu.r i.rs).setWidth 64 := BitVec.add_zero _
    rw [hsum]
    change m.doAluRr i .add true = _
    unfold doAluRr
    rw [hp]
    rfl
  | adc =>
    cases hsign
    rfl
  | _ => cases hsign

/-- What a subtraction leaves. -/
theorem run_sub {h : Handler} {takes : Bool} (hsign : wordSign h = some (-1, takes)) (i : Insn)
    {m : Machine D} (hp : m.cpu.pendingExtCount = 0) :
    let r := Psr.diff64 (m.cpu.r i.rd) (m.cpu.r i.rs) (takes && m.cpu.psr.c)
    h.run io i m = (m.flushExt.setR i.rd (r.setWidth 32)).setPsr
      (m.cpu.psr.setNzvcSub (m.cpu.r i.rd) (m.cpu.r i.rs) r) := by
  cases h with
  | subRdRs =>
    cases hsign
    have hdiff : Psr.diff64 (m.cpu.r i.rd) (m.cpu.r i.rs) (false && m.cpu.psr.c) =
        (m.cpu.r i.rd).setWidth 64 - (m.cpu.r i.rs).setWidth 64 := BitVec.sub_zero _
    rw [hdiff]
    change m.doAluRr i .sub true = _
    unfold doAluRr
    rw [hp]
    rfl
  | sbc =>
    cases hsign
    rfl
  | _ => cases hsign

/-- The arithmetic state after a step is the one its handler leaves. -/
theorem WordStep.arith {h : Handler} {m : Machine D} {w : WordSum} (hw : WordStep io h m w) :
    ∃ m₁ : Machine D, m₁.cpu = m.fetched.cpu ∧
      (m.step io).cpu.arith = (h.run io m.insnAtPc m₁).cpu.arith := by
  rw [← hw.handler]
  rcases hw.executed with hslot | hgo
  · refine ⟨m.fetched, rfl, (step_arith_of_boundary io hw.running ?_).1⟩
    exact m.inWindow_eq_false_iff.mpr ⟨hw.unprefixed, hslot⟩
  · exact step_arith io hw.running hgo

/-- **One step**: the word and the carry are those of the operands, and `V` says whether
their sum leaves the signed words. -/
theorem WordStep.spec {h : Handler} {m : Machine D} {w : WordSum} {ε : ℤ} {takes : Bool}
    (hw : WordStep io h m w) (hsign : wordSign h = some (ε, takes)) :
    ((w.a.toNat : ℤ) + ε * (w.b.toNat + (takes && m.cpu.psr.c).toNat) =
        w.s.toNat + ε * (2 ^ 32 : ℕ) * (m.step io).cpu.psr.c.toNat) ∧
      (m.step io).cpu.psr.v =
        decide (¬Psr.Fits (w.a.toInt + ε * (w.b.toInt + (takes && m.cpu.psr.c).toNat))) := by
  obtain ⟨m₁, hcpu, harith⟩ := hw.arith
  have hp : m₁.cpu.pendingExtCount = 0 := by
    rw [hcpu]
    exact hw.unprefixed
  have hc₁ : m₁.cpu.psr.c = m.cpu.psr.c := congrArg (fun s => s.psr.c) hcpu
  have ha : m₁.cpu.r m.insnAtPc.rd = w.a := (congrArg (fun s => s.r m.insnAtPc.rd) hcpu).trans hw.a
  have hb : m₁.cpu.r m.insnAtPc.rs = w.b := (congrArg (fun s => s.r m.insnAtPc.rs) hcpu).trans hw.b
  have hs : (m.step io).cpu.arith.r m.insnAtPc.rd = w.s := hw.s
  have hε : ε = 1 ∨ ε = -1 := by
    cases h <;> cases hsign <;> decide
  -- an addition, or a subtraction
  rcases hε with rfl | rfl
  · have hrun := harith.trans (congrArg (fun m => m.cpu.arith) (run_add hsign m.insnAtPc hp))
    rw [ha, hb, hc₁] at hrun
    obtain ⟨hc, hv, -⟩ := m₁.cpu.psr.setNzvcAdd_flags w.a w.b (takes && m.cpu.psr.c)
    have hC : (m.step io).cpu.psr.c = _ := (congrArg ArithState.c hrun).trans hc
    have hV : (m.step io).cpu.psr.v = _ := (congrArg ArithState.v hrun).trans hv
    have hS : w.s = (Psr.sum64 w.a w.b (takes && m.cpu.psr.c)).setWidth 32 :=
      hs.symm.trans ((congrFun (congrArg ArithState.r hrun) _).trans (Function.update_self ..))
    have hsum := Psr.sum64_eq w.a w.b (takes && m.cpu.psr.c)
    rw [← hC, ← hS] at hsum
    rw [one_mul, one_mul, one_mul, ← Int.add_assoc, ← Int.add_assoc]
    exact ⟨by exact_mod_cast hsum, hV⟩
  · have hrun := harith.trans (congrArg (fun m => m.cpu.arith) (run_sub hsign m.insnAtPc hp))
    rw [ha, hb, hc₁] at hrun
    obtain ⟨-, -, hc, hv, -⟩ := m₁.cpu.psr.setNzvcSub_flags w.a w.b (takes && m.cpu.psr.c)
    have hC : (m.step io).cpu.psr.c = _ := (congrArg ArithState.c hrun).trans hc
    have hV : (m.step io).cpu.psr.v = _ := (congrArg ArithState.v hrun).trans hv
    have hS : w.s = (Psr.diff64 w.a w.b (takes && m.cpu.psr.c)).setWidth 32 :=
      hs.symm.trans ((congrFun (congrArg ArithState.r hrun) _).trans (Function.update_self ..))
    have hdiff := Psr.diff64_eq w.a w.b (takes && m.cpu.psr.c)
    rw [← hC, ← hS] at hdiff
    rw [neg_one_mul (_ + _ : ℤ), neg_one_mul (_ + _ : ℤ), neg_add, neg_add, ← Int.add_assoc,
      ← Int.add_assoc]
    refine ⟨?_, hV⟩
    zify at hdiff
    push_cast
    linear_combination hdiff

/-! ### The chain -/

variable (io)

/-- The machine goes on to another state, and its carry flag is what it was: operands are
fetched and results put away by instructions that keep it. -/
def CarryKept (m m₁ : Machine D) : Prop :=
  ∃ k, m₁ = (step io)^[k] m ∧ m₁.cpu.psr.c = m.cpu.psr.c

/-- **The steps of a chain**, each with the instruction `h`, and what keeps the carry before
each of them. -/
inductive WordSteps (h : Handler) : Machine D → List WordSum → Machine D → Prop
  | nil (m : Machine D) : WordSteps h m [] m
  | cons {m m₁ m' : Machine D} {w : WordSum} {ws : List WordSum} (kept : CarryKept io m m₁)
      (first : WordStep io h m₁ w) (rest : WordSteps h (m₁.step io) ws m') :
      WordSteps h m (w :: ws) m'

variable {io}

/-- The first step of a chain. -/
theorem WordStep.summed_first {h : Handler} {m : Machine D} {w : WordSum} {ε : ℤ}
    (hw : WordStep io h m w) (hsign : wordSign h = some (ε, false)) :
    Summed ε (m.step io).cpu.arith [w] := by
  obtain ⟨hsum, hv⟩ := hw.spec hsign
  have hnil : Carries (2 ^ 32) ε [] [] [] 0 := by
    unfold Carries
    simp
  exact ⟨carry_concat hnil rfl rfl hsum, [], w, false, rfl, hnil, hv⟩

/-- **One more word.** -/
theorem WordStep.summed {h : Handler} {m m₁ : Machine D} {w : WordSum} {ws : List WordSum} {ε : ℤ}
    (hw : WordStep io h m₁ w) (hsign : wordSign h = some (ε, true)) (hkept : CarryKept io m m₁)
    (hs : Summed ε m.cpu.arith ws) : Summed ε (m₁.step io).cpu.arith (ws ++ [w]) := by
  obtain ⟨hsum, hv⟩ := hw.spec hsign
  obtain ⟨-, -, hc⟩ := hkept
  rw [Bool.true_and, hc] at hsum hv
  refine ⟨?_, ws, w, m.cpu.psr.c, rfl, hs.carries, hv⟩
  rw [words_concat, words_concat, words_concat]
  exact carry_concat hs.carries (by simp) (by simp) hsum

/-- **The chain**, by induction on its steps. -/
theorem WordSteps.summed {h : Handler} {m m' : Machine D} {ws done : List WordSum} {ε : ℤ}
    (hsteps : WordSteps io h m ws m') (hsign : wordSign h = some (ε, true))
    (hs : Summed ε m.cpu.arith done) : Summed ε m'.cpu.arith (done ++ ws) := by
  induction hsteps generalizing done with
  | nil => rwa [List.append_nil]
  | cons kept first rest ih =>
    rw [List.append_cons]
    exact ih (first.summed hsign kept hs)

/-- **Multiword arithmetic is exact.** For numbers of any number of words:

* `add` on the least significant words and `adc` on each pair above leaves the sum modulo
  `2^(32n)`, with `C` its carry and `V` its signed overflow;
* `sub` and `sbc` leave the difference, with `C` the borrow and `V` the signed overflow. -/
theorem multiword_exact (io : IoSpace D) (m m' : Machine D) (w : WordSum) (ws : List WordSum) :
    let n := (w :: ws).length
    let A := value (2 ^ 32) (words WordSum.a (w :: ws))
    let B := value (2 ^ 32) (words WordSum.b (w :: ws))
    let S := value (2 ^ 32) (words WordSum.s (w :: ws))
    let Aₛ := signed (2 ^ 32) (words WordSum.a (w :: ws))
    let Bₛ := signed (2 ^ 32) (words WordSum.b (w :: ws))
    (WordStep io .addRdRs m w → WordSteps io .adc (m.step io) ws m' →
      S = (A + B) % (2 ^ 32) ^ n ∧ (m'.cpu.psr.c = true ↔ (2 ^ 32) ^ n ≤ A + B) ∧
        (m'.cpu.psr.v = true ↔ ¬FitsIn n (Aₛ + Bₛ))) ∧
    (WordStep io .subRdRs m w → WordSteps io .sbc (m.step io) ws m' →
      (S : ℤ) = ((A : ℤ) - B) % ((2 ^ 32) ^ n : ℕ) ∧ (m'.cpu.psr.c = true ↔ A < B) ∧
        (m'.cpu.psr.v = true ↔ ¬FitsIn n (Aₛ - Bₛ))) := by
  have hS := value_words_lt WordSum.s (w :: ws)
  have hc : m'.cpu.psr.c = true ↔ m'.cpu.arith.c.toNat = 1 := by
    rw [Bool.toNat_eq_one]
    rfl
  constructor
  · intro hfirst hrest
    have hsum : Summed 1 m'.cpu.arith (w :: ws) := hrest.summed rfl (hfirst.summed_first rfl)
    obtain ⟨hval, hcarry⟩ := sum_of_carries hsum.carries (Bool.toNat_le _) hS
    have hv : m'.cpu.psr.v = _ := hsum.fits
    rw [length_words] at hval hcarry
    refine ⟨hval, hc.trans hcarry, ?_⟩
    rw [hv, one_mul, decide_eq_true_iff]
  · intro hfirst hrest
    have hsum : Summed (-1) m'.cpu.arith (w :: ws) := hrest.summed rfl (hfirst.summed_first rfl)
    obtain ⟨hval, hcarry⟩ := difference_of_carries hsum.carries (Bool.toNat_le _) hS
    have hv : m'.cpu.psr.v = _ := hsum.fits
    rw [length_words] at hval
    refine ⟨hval, hc.trans hcarry, ?_⟩
    rw [hv, neg_one_mul, ← sub_eq_add_neg, decide_eq_true_iff]

/-- A boot ROM with `add %r0, %r2` and `adc %r1, %r3`, about to add 1 to the greatest signed
number of two words. -/
def multiwordRom : Machine Unit :=
  { ofRom [0x2220, 0xB831] with cpu :=
      { pc := 0xC00000, r := fun n => [0xFFFFFFFF, 0x7FFFFFFF, 1, 0].getD n.toNat 0 } }

theorem multiword_exact_multiwordRom :
    ((step (IoSpace.empty Unit))^[2] multiwordRom).cpu.psr.v = true ↔
      ¬FitsIn 2 (signed (2 ^ 32) [0xFFFFFFFF, 0x7FFFFFFF] + signed (2 ^ 32) [1, 0]) :=
  ((multiword_exact (IoSpace.empty Unit) multiwordRom _ ⟨0xFFFFFFFF, 1, 0⟩
    [⟨0x7FFFFFFF, 0, 0x80000000⟩]).1
      ⟨rfl, rfl, rfl, .inl rfl, rfl, rfl, by decide +kernel⟩
      (.cons ⟨0, rfl, rfl⟩ ⟨rfl, rfl, rfl, .inl rfl, by decide +kernel, rfl, by decide +kernel⟩
        (.nil _))).2.2

end Machine
