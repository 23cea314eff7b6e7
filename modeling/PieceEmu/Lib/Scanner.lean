import PieceEmu.Lib.Run

/-!
# Scanning input that arrives in pieces

A receiver appends what arrives to a buffer and reads tokens off its front as long as
there is a complete one. `Scanner` is the reading of one token, with the two laws it needs:
a token takes something off the buffer, and what arrives behind a complete token does not
change it.

| notion | what it is | rule |
|---|---|---|
| `Scanner.consume` | all complete tokens of a buffer, acted on | `Scanner.consume_append` |
| `Scanner.feed` | a piece of input arrives | `Scanner.feed_append` |
| `Scanner.Settled` | no complete token is left | `Scanner.settled_feed` |
| a run of pieces | only their concatenation counts | `Scanner.exec_feed` |

An action may end the receiver (`halted`): the rest of the buffer is dropped, and so is
all further input.
-/

/-- **A scanner**: what it reads off the front of a buffer, if anything is complete. -/
structure Scanner (β α : Type*) where
  next : List β → Option (α × List β)
  next_length : ∀ {b a r}, next b = some (a, r) → r.length < b.length
  next_append : ∀ {b a r} (x : List β), next b = some (a, r) → next (b ++ x) = some (a, r ++ x)

namespace Scanner

variable {α β σ : Type*} (sc : Scanner β α) (halted : σ → Bool) (act : σ → α → σ)

/-- At most `n` tokens. -/
def drain : ℕ → σ → List β → σ × List β
  | 0, s, b => (s, b)
  | n + 1, s, b =>
    if halted s then (s, [])
    else match sc.next b with
      | none => (s, b)
      | some (a, r) => drain n (act s a) r

/-- All complete tokens of a buffer: each is longer than nothing. -/
def consume (s : σ) (b : List β) : σ × List β := sc.drain halted act b.length s b

/-- A piece of input arrives. -/
def feed (p : σ × List β) (x : List β) : σ × List β := sc.consume halted act p.1 (p.2 ++ x)

/-- No complete token is left. -/
def Settled (p : σ × List β) : Prop := sc.feed halted act p [] = p

theorem next_nil : sc.next [] = none := by
  cases h : sc.next [] with
  | none => rfl
  | some p => exact absurd (sc.next_length (a := p.1) (r := p.2) h) (Nat.not_lt_zero _)

/-- More steps than bytes make no difference. -/
theorem drain_eq {n m : ℕ} {s : σ} {b : List β} (hn : b.length ≤ n) (hm : b.length ≤ m) :
    sc.drain halted act n s b = sc.drain halted act m s b := by
  have hnil : ∀ k s, sc.drain halted act k s [] = (s, []) := by
    intro k s
    cases k with
    | zero => rfl
    | succ k => rw [drain, next_nil, ite_self]
  induction n generalizing m s b with
  | zero =>
    obtain rfl := List.length_eq_zero_iff.mp (Nat.le_zero.mp hn)
    rw [hnil, hnil]
  | succ n ih =>
    cases m with
    | zero =>
      obtain rfl := List.length_eq_zero_iff.mp (Nat.le_zero.mp hm)
      rw [hnil, hnil]
    | succ m =>
      rw [drain, drain]
      cases h : sc.next b with
      | none => rfl
      | some p =>
        have hlen := sc.next_length (a := p.1) (r := p.2) h
        exact if_congr Iff.rfl rfl (ih (by omega) (by omega))

variable {halted act} {s : σ} {b : List β}

/-! ### The equations of `consume` -/

theorem consume_halted (h : halted s = true) : sc.consume halted act s b = (s, []) := by
  cases b with
  | nil => rfl
  | cons c b => exact if_pos h

theorem consume_none (hs : halted s = false) (h : sc.next b = none) :
    sc.consume halted act s b = (s, b) := by
  cases b with
  | nil => rfl
  | cons c b =>
    rw [consume, List.length_cons, drain, h]
    exact if_neg (by rw [hs]; decide)

theorem consume_some (hs : halted s = false) {a : α} {r : List β} (h : sc.next b = some (a, r)) :
    sc.consume halted act s b = sc.consume halted act (act s a) r := by
  have hlen := sc.next_length h
  rw [consume, sc.drain_eq halted act le_rfl (Nat.le_succ _), drain, h, if_neg (by rw [hs]; decide)]
  exact sc.drain_eq halted act (Nat.le_of_lt hlen) le_rfl

variable (halted act)

/-- **Induction on the tokens of a buffer.** -/
theorem consume_induct {motive : σ → List β → Prop}
    (halt : ∀ s b, halted s = true → motive s b)
    (pending : ∀ s b, halted s = false → sc.next b = none → motive s b)
    (token : ∀ s b a r, halted s = false → sc.next b = some (a, r) → motive (act s a) r →
      motive s b) (s : σ) (b : List β) : motive s b := by
  induction hn : b.length using Nat.strong_induction_on generalizing s b with
  | _ n ih =>
    cases hs : halted s with
    | true => exact halt s b hs
    | false =>
      cases h : sc.next b with
      | none => exact pending s b hs h
      | some p =>
        have hlen := sc.next_length (a := p.1) (r := p.2) h
        exact token s b p.1 p.2 hs h (ih _ (hn ▸ hlen) _ _ rfl)

/-- **Input may wait in the buffer**: what arrives later is consumed from where the
receiver has come to. -/
theorem consume_append (s : σ) (b x : List β) :
    sc.consume halted act s (b ++ x) =
      sc.feed halted act (sc.consume halted act s b) x := by
  induction s, b using sc.consume_induct halted act with
  | halt s b hs => rw [feed, sc.consume_halted hs, sc.consume_halted hs, sc.consume_halted hs]
  | pending s b hs h => rw [sc.consume_none hs h, feed]
  | token s b a r hs h ih =>
    rw [sc.consume_some hs h, sc.consume_some hs (sc.next_append x h), ih]

/-- What every action keeps, the tokens of a buffer keep. -/
theorem consume_invariant {I : σ → Prop} (hact : ∀ s a, halted s = false → I s → I (act s a))
    (s : σ) (b : List β) (h : I s) : I (sc.consume halted act s b).1 := by
  induction s, b using sc.consume_induct halted act with
  | halt s b hs => rwa [sc.consume_halted hs]
  | pending s b hs hnext => rwa [sc.consume_none hs hnext]
  | token s b a r hs hnext ih =>
    rw [sc.consume_some hs hnext]
    exact ih (hact s a hs h)

/-- What is left is what no token can be read off, or nothing after the end. -/
theorem consume_pending (s : σ) (b : List β) :
    (halted (sc.consume halted act s b).1 = true ∧ (sc.consume halted act s b).2 = []) ∨
      (halted (sc.consume halted act s b).1 = false ∧
        sc.next (sc.consume halted act s b).2 = none) := by
  induction s, b using sc.consume_induct halted act with
  | halt s b hs =>
    rw [sc.consume_halted hs]
    exact .inl ⟨hs, rfl⟩
  | pending s b hs h =>
    rw [sc.consume_none hs h]
    exact .inr ⟨hs, h⟩
  | token s b a r hs h ih => rwa [sc.consume_some hs h]

/-! ### Pieces -/

theorem feed_append (p : σ × List β) (x y : List β) :
    sc.feed halted act p (x ++ y) = sc.feed halted act (sc.feed halted act p x) y := by
  rw [feed, ← List.append_assoc]
  exact sc.consume_append halted act p.1 (p.2 ++ x) y

theorem settled_feed (p : σ × List β) (x : List β) :
    sc.Settled halted act (sc.feed halted act p x) := by
  rw [Settled, ← feed_append, List.append_nil]

variable {halted act}

/-- **Pieces do not matter**: a settled receiver that is fed one piece after another comes
to where it comes when it is fed all of them at once. -/
theorem exec_feed {p : σ × List β} (hp : sc.Settled halted act p) (xs : List (List β)) :
    ActionRun.exec (sc.feed halted act) p xs = sc.feed halted act p xs.flatten := by
  induction xs generalizing p with
  | nil => exact hp.symm
  | cons x xs ih =>
    rw [ActionRun.exec_cons, ih (sc.settled_feed halted act p x), List.flatten_cons, feed_append]

/-- The buffer of a settled receiver. -/
theorem Settled.pending {p : σ × List β} (hp : sc.Settled halted act p) :
    (halted p.1 = true ∧ p.2 = []) ∨ (halted p.1 = false ∧ sc.next p.2 = none) := by
  have h := sc.consume_pending halted act p.1 (p.2 ++ [])
  have hfeed : sc.consume halted act p.1 (p.2 ++ []) = p := hp
  rwa [hfeed] at h

end Scanner
