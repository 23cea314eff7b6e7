import Mathlib.Data.List.Induction
import Mathlib.Data.Nat.Find

/-!
# Runs of an action system

A system that takes one action at a time is a function `step : σ → α → σ`; a
*run* is what a list of actions (or an infinite sequence of them) makes of a
state. Everything a safety argument needs of runs is settled here once, over an
arbitrary state and an arbitrary action:

| notion | what it says | rule |
|---|---|---|
| `ActionRun.exec` | the state a list of actions leads to | – |
| `ActionRun.Along` | every action meets a condition where it is taken | `ActionRun.along_append` |
| an invariant | what each step keeps, the whole run keeps | `ActionRun.exec_invariant` |
| – without a condition | the same, in all runs | `ActionRun.exec_preserves` |
| – exactly | what holds all along, by what steps meet | `ActionRun.along_iff_forall_prefix` |
| a history invariant | the same, with the actions so far in view | `ActionRun.exec_history` |
| `ActionRun.trace` | the states of an infinite run | `ActionRun.trace_const` |
| fairness | what happens again and again has a next time | `ActionRun.exists_next` |
| a rank | what raises a count or lowers a rank ends | `ActionRun.exists_ended` |
| `ActionRun.answers` | what a run answers, action by action | `ActionRun.answers_simulation` |

The conditional form of the invariant rule is the one used most: it speaks of
the runs whose every step meets a condition `C`, which is how a development says
“as long as the environment keeps this discipline”.
-/

namespace ActionRun

variable {σ α : Type*} (step : σ → α → σ)

/-! ### Finite runs -/

/-- The state a list of actions leads to. -/
def exec (s : σ) (as : List α) : σ := as.foldl step s

/-- **A condition met all along a run**: each action of the list meets `C` in the
state in which it is taken. -/
def Along (C : σ → α → Prop) : σ → List α → Prop
  | _, [] => True
  | s, a :: as => C s a ∧ Along C (step s a) as

variable {step}

@[simp] theorem exec_nil (s : σ) : exec step s [] = s := rfl

@[simp] theorem exec_cons (s : σ) (a : α) (as : List α) :
    exec step s (a :: as) = exec step (step s a) as := rfl

@[simp] theorem exec_append (s : σ) (as bs : List α) :
    exec step s (as ++ bs) = exec step (exec step s as) bs :=
  List.foldl_append

@[simp] theorem along_nil (C : σ → α → Prop) (s : σ) : Along step C s [] := trivial

@[simp] theorem along_cons (C : σ → α → Prop) (s : σ) (a : α) (as : List α) :
    Along step C s (a :: as) ↔ C s a ∧ Along step C (step s a) as := Iff.rfl

/-- Whether a condition is met all along a given run can be decided step by step. -/
instance decidableAlong (C : σ → α → Prop) [∀ s a, Decidable (C s a)] :
    (s : σ) → (as : List α) → Decidable (Along step C s as)
  | _, [] => .isTrue trivial
  | s, a :: as =>
    have := decidableAlong C (step s a) as
    inferInstanceAs (Decidable (C s a ∧ Along step C (step s a) as))

theorem along_append (C : σ → α → Prop) (s : σ) (as bs : List α) :
    Along step C s (as ++ bs) ↔ Along step C s as ∧ Along step C (exec step s as) bs := by
  induction as generalizing s with
  | nil => simp
  | cons a as ih => simp [ih, and_assoc]

theorem along_and {C D : σ → α → Prop} {s : σ} {as : List α} (hC : Along step C s as)
    (hD : Along step D s as) : Along step (fun s a => C s a ∧ D s a) s as := by
  induction as generalizing s with
  | nil => exact trivial
  | cons a as ih => exact ⟨⟨hC.1, hD.1⟩, ih hC.2 hD.2⟩

/-- **The invariant rule**, for the runs whose every step meets `C`: what each
such step keeps, the whole run keeps. -/
theorem exec_invariant {C : σ → α → Prop} {I : σ → Prop}
    (hstep : ∀ s a, I s → C s a → I (step s a)) {s : σ} {as : List α} (h0 : I s)
    (hC : Along step C s as) : I (exec step s as) := by
  induction as generalizing s with
  | nil => exact h0
  | cons a as ih => exact ih (hstep s a h0 hC.1) hC.2

/-- **The invariant rule** for all runs. -/
theorem exec_preserves {I : σ → Prop} (hstep : ∀ s a, I s → I (step s a)) {s : σ}
    (h0 : I s) (as : List α) : I (exec step s as) := by
  induction as generalizing s with
  | nil => exact h0
  | cons a as ih => exact ih (hstep s a h0)

/-- **The history rule**: an invariant that also sees the actions performed so
far, in the order in which they were performed. -/
theorem exec_history {I : List α → σ → Prop} {s : σ} (h0 : I [] s)
    (hstep : ∀ as t a, I as t → I (as ++ [a]) (step t a)) (as : List α) :
    I as (exec step s as) := by
  induction as using List.reverseRecOn with
  | nil => exact h0
  | append_singleton as a ih =>
    rw [exec_append]
    exact hstep as _ a ih

/-- **Conditions that agree under an invariant agree along a run** whose every step meets
`B`, which is what keeps the invariant. -/
theorem along_congr_of {B C D : σ → α → Prop} {I : σ → Prop}
    (hstep : ∀ s a, I s → B s a → I (step s a))
    (h : ∀ s a, I s → B s a → (C s a ↔ D s a)) {s : σ} {as : List α} (h0 : I s)
    (hB : Along step B s as) : Along step C s as ↔ Along step D s as := by
  induction as generalizing s with
  | nil => exact Iff.rfl
  | cons a as ih => exact and_congr (h s a h0 hB.1) (ih (hstep s a h0 hB.1) hB.2)

/-- A condition met wherever it is tried is met along every run. -/
theorem along_of_forall {C : σ → α → Prop} (h : ∀ s a, C s a) (s : σ) (as : List α) :
    Along step C s as := by
  induction as generalizing s with
  | nil => exact trivial
  | cons a as ih => exact ⟨h s a, ih _⟩

/-- A condition on the actions alone is met along a run of actions that meet it. -/
theorem along_of_mem {C : α → Prop} {as : List α} (h : ∀ a ∈ as, C a) (s : σ) :
    Along step (fun _ a => C a) s as := by
  induction as generalizing s with
  | nil => exact trivial
  | cons a as ih =>
    exact ⟨h a List.mem_cons_self, ih (fun x hx => h x (List.mem_cons_of_mem a hx)) _⟩

/-- **Conditions that agree under an invariant agree along every run.** -/
theorem along_congr {C D : σ → α → Prop} {I : σ → Prop}
    (hstep : ∀ s a, I s → I (step s a)) (h : ∀ s a, I s → (C s a ↔ D s a)) {s : σ}
    {as : List α} (h0 : I s) : Along step C s as ↔ Along step D s as :=
  along_congr_of (B := fun _ _ => True) (fun s a hs _ => hstep s a hs) (fun s a hs _ => h s a hs)
    h0 (along_of_forall (fun _ _ => trivial) s as)

/-- **The exact form of the invariant rule**: in a run whose every step meets `B`, a
property that an invariant gives holds all along if and only if a condition is met all
along, where a step from the invariant keeps the property exactly if it meets the
condition, and then the invariant as well. -/
theorem along_iff_forall_prefix_under {B C : σ → α → Prop} {I P : σ → Prop}
    (hI : ∀ s, I s → P s) (hstep : ∀ s a, I s → B s a → (P (step s a) ↔ C s a))
    (hkeep : ∀ s a, I s → B s a → C s a → I (step s a)) {s : σ} {as : List α} (h0 : I s)
    (hB : Along step B s as) :
    (∀ bs, bs <+: as → P (exec step s bs)) ↔ Along step C s as := by
  induction as generalizing s with
  | nil =>
    refine ⟨fun _ => trivial, fun _ bs hbs => ?_⟩
    rw [List.prefix_nil.mp hbs]
    exact hI s h0
  | cons a as ih =>
    obtain ⟨hBa, hBs⟩ := hB
    constructor
    · intro h
      have ha : P (step s a) := h [a] (List.prefix_cons_inj a |>.mpr (List.nil_prefix))
      have hC : C s a := (hstep s a h0 hBa).mp ha
      exact ⟨hC, (ih (hkeep s a h0 hBa hC) hBs).mp fun bs hbs =>
        h (a :: bs) ((List.prefix_cons_inj a).mpr hbs)⟩
    · rintro ⟨hC, hCs⟩ bs hbs
      cases bs with
      | nil => exact hI s h0
      | cons b bs =>
        obtain ⟨rfl, htail⟩ := List.cons_prefix_cons.mp hbs
        exact (ih (hkeep s b h0 hBa hC) hBs).mpr hCs bs htail

/-- The same of all runs. -/
theorem along_iff_forall_prefix_of {C : σ → α → Prop} {I P : σ → Prop} (hI : ∀ s, I s → P s)
    (hstep : ∀ s a, I s → (P (step s a) ↔ C s a)) (hkeep : ∀ s a, I s → C s a → I (step s a))
    {s : σ} {as : List α} (h0 : I s) :
    (∀ bs, bs <+: as → P (exec step s bs)) ↔ Along step C s as :=
  along_iff_forall_prefix_under (B := fun _ _ => True) hI (fun s a h _ => hstep s a h)
    (fun s a h _ => hkeep s a h) h0 (along_of_forall (fun _ _ => trivial) s as)

/-- The same of the invariant itself: where a step keeps it if and only if it meets a
condition, it holds all along a run if and only if the condition is met all along it. -/
theorem along_iff_forall_prefix {C : σ → α → Prop} {I : σ → Prop}
    (hstep : ∀ s a, I s → (I (step s a) ↔ C s a)) {s : σ} {as : List α} (h0 : I s) :
    (∀ bs, bs <+: as → I (exec step s bs)) ↔ Along step C s as :=
  along_iff_forall_prefix_of (fun _ h => h) hstep (fun s a h hC => (hstep s a h).mpr hC) h0

/-- A condition met along a run is met by each of its actions. -/
theorem Along.at {C : σ → α → Prop} {s : σ} {as bs : List α} {a : α}
    (h : Along step C s (as ++ a :: bs)) : C (exec step s as) a :=
  ((along_append C s as (a :: bs)).mp h).2.1

/-! ### Infinite runs -/

variable (step) in
/-- The states of the infinite run that performs `acts 0`, `acts 1`, … from `s`. -/
def trace (s : σ) (acts : ℕ → α) : ℕ → σ
  | 0 => s
  | n + 1 => step (trace s acts n) (acts n)

@[simp] theorem trace_zero (s : σ) (acts : ℕ → α) : trace step s acts 0 = s := rfl

theorem trace_succ (s : σ) (acts : ℕ → α) (n : ℕ) :
    trace step s acts (n + 1) = step (trace step s acts n) (acts n) := rfl

/-- Once a run reaches a state no action leaves, it stays there. -/
theorem trace_const {s : σ} {acts : ℕ → α} {n : ℕ} {t : σ} (h : trace step s acts n = t)
    (hfix : ∀ m, n ≤ m → step t (acts m) = t) (m : ℕ) (hm : n ≤ m) :
    trace step s acts m = t := by
  induction hm with
  | refl => exact h
  | step hm ih => rw [trace_succ, ih, hfix _ hm]

/-- **Fairness**: what happens again and again has a next time. -/
theorem exists_next {p : ℕ → Prop} (hfair : ∀ N, ∃ n ≥ N, p n) (j : ℕ) :
    ∃ n ≥ j, p n ∧ ∀ i, j ≤ i → i < n → ¬p i := by
  classical
  obtain ⟨hn, hp⟩ := Nat.find_spec (hfair j)
  exact ⟨Nat.find (hfair j), hn, hp, fun i hi hlt hp' => Nat.find_min (hfair j) hlt ⟨hi, hp'⟩⟩

/-! ### Runs that end -/

section Ranked

variable {ended : ℕ → Prop} (count rank : ℕ → ℕ)

/-- **As many steps as the rank allows raise the count**, or one more. -/
theorem count_lt_of_rank_lt
    (hstep : ∀ n, ¬ended n →
      count n < count (n + 1) ∨ count (n + 1) = count n ∧ rank (n + 1) < rank n)
    {i j : ℕ} (hbefore : ∀ n, i ≤ n → n < j → ¬ended n) (hlong : rank i < j - i) :
    count i < count j := by
  obtain ⟨d, rfl⟩ := Nat.exists_eq_add_of_le (show i ≤ j by omega)
  have hkey : ∀ e ≤ d, count i < count (i + e) ∨
      count (i + e) = count i ∧ rank (i + e) + e ≤ rank i := by
    intro e he
    induction e with
    | zero => exact .inr ⟨rfl, Nat.le_refl _⟩
    | succ e ih =>
      have hnext := hstep (i + e) (hbefore _ (by omega) (by omega))
      rw [Nat.add_assoc] at hnext
      rcases ih (by omega) with h | ⟨h, hrank⟩ <;> omega
  rcases hkey d le_rfl with h | ⟨-, h⟩
  · exact h
  · omega

/-- **A run ends** if each of its steps before raises a bounded count, or keeps the count
and lowers a rank. -/
theorem exists_ended {bound : ℕ} (hbound : ∀ n, count n ≤ bound)
    (hstep : ∀ n, ¬ended n →
      count n < count (n + 1) ∨ count (n + 1) = count n ∧ rank (n + 1) < rank n) :
    ∃ n, ended n := by
  by_contra hnever
  -- a run that does not end reaches every count
  have hreach (c : ℕ) : ∃ n, c ≤ count n := by
    induction c with
    | zero => exact ⟨0, Nat.zero_le _⟩
    | succ c ih =>
      obtain ⟨n, hn⟩ := ih
      have hlt : count n < count (n + rank n + 1) :=
        count_lt_of_rank_lt count rank hstep (fun m _ _ h => hnever ⟨m, h⟩) (by omega)
      exact ⟨n + rank n + 1, by omega⟩
  obtain ⟨n, hn⟩ := hreach (bound + 1)
  have := hbound n
  omega

end Ranked

/-! ### Runs that answer -/

variable {τ β : Type*}

/-- The answers of a system whose actions return a value. -/
def answers (f : σ → α → β × σ) : σ → List α → List β
  | _, [] => []
  | s, a :: as => (f s a).1 :: answers f (f s a).2 as

/-- **The simulation rule**: where every action a condition lets through answers as an
abstract system does and leads to the abstract successor, whole runs do. -/
theorem answers_simulation {f : σ → α → β × σ} {g : τ → α → β × τ} {abs : σ → τ}
    {C : σ → α → Prop}
    (hsim : ∀ s a, C s a → (f s a).1 = (g (abs s) a).1 ∧ abs (f s a).2 = (g (abs s) a).2)
    {s : σ} {as : List α} (hC : Along (fun s a => (f s a).2) C s as) :
    answers f s as = answers g (abs s) as ∧
      abs (exec (fun s a => (f s a).2) s as) = exec (fun t a => (g t a).2) (abs s) as := by
  induction as generalizing s with
  | nil => exact ⟨rfl, rfl⟩
  | cons a as ih =>
    obtain ⟨hans, habs⟩ := hsim s a hC.1
    obtain ⟨ihans, ihabs⟩ := ih hC.2
    rw [habs] at ihans ihabs
    exact ⟨congrArg₂ List.cons hans ihans, ihabs⟩

end ActionRun
