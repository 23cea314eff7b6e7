import PieceEmu.Lib.Run
import PieceEmu.Lib.Words

/-!
# The audio ring

The CPU thread pushes samples into a ring of `RING_SIZE` slots and the audio thread
pops them, with no lock: `ring_head_` is stored by the producer alone, `ring_tail_`
by the consumer alone, and one slot always stays free. This module takes
`Sound::try_push` and `Sound::pop` apart into their atomic steps and shows that in
every interleaving the ring is a queue (`SoundRing.fifo`). It does fill up, and then it
refuses (`SoundRing.refusing_full`).

| thread | its steps |
|---|---|
| producer | load the head; load the tail; give up, or write the slot; store the head |
| consumer | load the head; load the tail; read one slot at a time; store the tail |

The indices live modulo the size of the ring. The invariant `SoundRing.Inv` speaks of
the *counts* behind them, which never wrap: how many samples were published, how many
were read and how many slots were given back. A stale index is then an old count, and
two counts less than a ring apart are equal as soon as their indices are.
-/

/-- A sample, `int16_t`. -/
abbrev Sample := BitVec 16

/-- Where the producer is in `try_push(sample)`. -/
inductive RingProducer
  /-- Between calls. -/
  | idle
  /-- The head is loaded. -/
  | headLoaded (sample : Sample) (head : ℕ)
  /-- The tail is loaded too; ghost: the slots given back when it was. -/
  | tailLoaded (sample : Sample) (head tail : ℕ) (seen : ℕ)
  /-- The slot is written, the head is not yet stored. -/
  | written (sample : Sample) (head : ℕ)
  deriving DecidableEq

/-- Where the consumer is in `pop(dst, n)`. -/
inductive RingConsumer
  /-- Between calls. -/
  | idle
  /-- The head is loaded; ghost: the samples published when it was. -/
  | headLoaded (n head : ℕ) (seen : ℕ)
  /-- The tail is loaded too, and `popped` samples are copied. -/
  | copying (n head tail popped : ℕ) (seen : ℕ)
  deriving DecidableEq

/-- The ring, and where each of the two threads is. -/
structure SoundRing where
  /-- `ring_`. -/
  ring : ℕ → Sample := fun _ => 0
  /-- `ring_head_`. -/
  head : ℕ := 0
  /-- `ring_tail_`. -/
  tail : ℕ := 0
  producer : RingProducer := .idle
  consumer : RingConsumer := .idle
  /-- Ghost: the samples whose `try_push` returned true, in order. -/
  pushed : List Sample := []
  /-- Ghost: the samples `pop` has copied to its caller, in order. -/
  popped : List Sample := []
  /-- Ghost: how many slots the consumer has given back. -/
  released : ℕ := 0
  /-- Ghost: for each slot, the number of the sample that was written there last. -/
  author : ℕ → Option ℕ := fun _ => none

/-- One step of either thread. -/
inductive RingAct
  /-- The producer calls `try_push(sample)`. -/
  | tryPush (sample : Sample)
  /-- The producer goes on. -/
  | producer
  /-- The consumer calls `pop(dst, n)`. -/
  | pop (n : ℕ)
  /-- The consumer goes on. -/
  | consumer
  deriving DecidableEq

namespace SoundRing

/-! ### The steps -/

/-- `RING_SIZE`. -/
def ringSize : ℕ := 4096

/-- The index after `i`. -/
def next (i : ℕ) : ℕ := (i + 1) &&& (ringSize - 1)

/-- The next step of `try_push`. -/
def producerStep (s : SoundRing) : SoundRing :=
  match s.producer with
  | .idle => s
  | .headLoaded sample head =>
    { s with producer := .tailLoaded sample head s.tail s.released }
  | .tailLoaded sample head tail _ =>
    if next head = tail then { s with producer := .idle }
    else
      { s with
        ring := Function.update s.ring head sample
        author := Function.update s.author head (some s.pushed.length)
        producer := .written sample head }
  | .written sample head =>
    { s with head := next head, pushed := s.pushed ++ [sample], producer := .idle }

/-- The next step of `pop`. -/
def consumerStep (s : SoundRing) : SoundRing :=
  match s.consumer with
  | .idle => s
  | .headLoaded n head seen => { s with consumer := .copying n head s.tail 0 seen }
  | .copying n head tail popped seen =>
    if popped < n ∧ tail ≠ head then
      { s with
        popped := s.popped ++ [s.ring tail]
        consumer := .copying n head (next tail) (popped + 1) seen }
    else { s with tail := tail, released := s.popped.length, consumer := .idle }

/-- One step of either thread. A thread performs one call at a time: a call that
would start inside another one does nothing. -/
def step (s : SoundRing) : RingAct → SoundRing
  | .tryPush sample =>
    match s.producer with
    | .idle => { s with producer := .headLoaded sample s.head }
    | _ => s
  | .producer => s.producerStep
  | .pop n =>
    match s.consumer with
    | .idle => { s with consumer := .headLoaded n s.head s.pushed.length }
    | _ => s
  | .consumer => s.consumerStep

/-- `available`, in the arithmetic of a 64-bit `size_t`. -/
def available (s : SoundRing) : ℕ := (s.head + 2 ^ 64 - s.tail) % 2 ^ 64 &&& (ringSize - 1)

/-- The ring before the first call. -/
def init : SoundRing := {}

/-! ### The statement -/

/-- The slot the next step of the consumer reads. -/
def reading (s : SoundRing) : Option ℕ :=
  match s.consumer with
  | .copying n head tail popped _ => if popped < n ∧ tail ≠ head then some tail else none
  | _ => none

/-- The slot the next step of the producer writes. -/
def writing (s : SoundRing) : Option ℕ :=
  match s.producer with
  | .tailLoaded _ head tail _ => if next head = tail then none else some head
  | _ => none

/-- The next step of the producer makes `try_push` return false: it ends the call before it
has written. When it loaded the tail, `seen` slots had been given back. -/
def Refusing (s : SoundRing) (seen : ℕ) : Prop :=
  ∃ sample head tail, s.producer = .tailLoaded sample head tail seen ∧
    s.producerStep.producer = .idle

/-- **A correct queue**, as one state shows it. -/
structure Fifo (s : SoundRing) : Prop where
  /-- Nothing is lost, repeated or reordered. -/
  order : s.popped <+: s.pushed
  /-- A slot that is read holds the sample that comes next, published and not yet
  overwritten. -/
  fresh : ∀ i, s.reading = some i →
    s.author i = some s.popped.length ∧ s.pushed[s.popped.length]? = some (s.ring i)
  /-- No slot is read and written at the same time. -/
  exclusive : ∀ i, s.reading = some i → s.writing ≠ some i
  /-- One slot always stays free. -/
  stored : s.released ≤ s.pushed.length ∧ s.pushed.length - s.released ≤ ringSize - 1
  /-- A push is refused only if the tail it loaded leaves no slot free. -/
  refused : ∀ seen, s.Refusing seen →
    seen ≤ s.released ∧ s.pushed.length - seen = ringSize - 1

/-! ### The invariant -/

theorem next_eq (i : ℕ) : next i = (i + 1) % ringSize :=
  Nat.and_two_pow_sub_one_eq_mod (i + 1) 12

theorem next_mod (k : ℕ) : next (k % ringSize) = (k + 1) % ringSize := by
  rw [next_eq, Nat.mod_add_mod]

/-- Where the producer is, in counts. -/
def ProducerAt (s : SoundRing) : Prop :=
  match s.producer with
  | .idle => True
  | .headLoaded _ head => head = s.pushed.length % ringSize
  | .tailLoaded _ head tail seen =>
    head = s.pushed.length % ringSize ∧ tail = seen % ringSize ∧ seen ≤ s.released ∧
      s.pushed.length - seen ≤ ringSize - 1
  | .written sample head =>
    head = s.pushed.length % ringSize ∧ s.pushed.length - s.released < ringSize - 1 ∧
      s.ring head = sample ∧ s.author head = some s.pushed.length

/-- Where the consumer is, in counts. -/
def ConsumerAt (s : SoundRing) : Prop :=
  match s.consumer with
  | .idle => s.popped.length = s.released
  | .headLoaded _ head seen =>
    s.popped.length = s.released ∧ head = seen % ringSize ∧ seen ≤ s.pushed.length ∧
      s.released ≤ seen
  | .copying _ head tail _ seen =>
    head = seen % ringSize ∧ tail = s.popped.length % ringSize ∧ seen ≤ s.pushed.length ∧
      s.popped.length ≤ seen

/-- **The invariant of the ring.** -/
structure Inv (s : SoundRing) : Prop where
  head_eq : s.head = s.pushed.length % ringSize
  tail_eq : s.tail = s.released % ringSize
  released_le : s.released ≤ s.popped.length
  stored : s.pushed.length - s.released ≤ ringSize - 1
  order : s.popped <+: s.pushed
  /-- The slots not given back hold what was published last. -/
  held : ∀ k, s.released ≤ k → k < s.pushed.length →
    s.author (k % ringSize) = some k ∧ s.pushed[k]? = some (s.ring (k % ringSize))
  producerAt : s.ProducerAt
  consumerAt : s.ConsumerAt

/-- Two counts less than a ring apart have different indices, unless they are equal. -/
theorem mod_ringSize_ne {a b : ℕ} (h : a < b) (hb : b - a < ringSize) :
    a % ringSize ≠ b % ringSize := by
  unfold ringSize at *
  omega

theorem Inv.init : init.Inv where
  head_eq := rfl
  tail_eq := rfl
  released_le := le_refl 0
  stored := Nat.zero_le _
  order := List.nil_prefix
  held := fun _ _ h => absurd h (Nat.not_lt_zero _)
  producerAt := trivial
  consumerAt := rfl

variable {s : SoundRing}

theorem Inv.popped_le (h : s.Inv) : s.popped.length ≤ s.pushed.length := h.order.length_le

/-! ### The producer -/

theorem Inv.tryPush (h : s.Inv) (sample : Sample) : (s.step (.tryPush sample)).Inv := by
  unfold step
  dsimp only
  split
  · exact { h with producerAt := h.head_eq }
  · exact h

/-- The producer has found a free slot, and writes it: no slot in use is touched. -/
theorem Inv.write (h : s.Inv) {sample : Sample} {head tail seen : ℕ}
    (hp : s.producer = .tailLoaded sample head tail seen) (hfree : next head ≠ tail) :
    { s with
      ring := Function.update s.ring head sample
      author := Function.update s.author head (some s.pushed.length)
      producer := .written sample head : SoundRing }.Inv := by
  have hat := h.producerAt
  rw [ProducerAt, hp] at hat
  obtain ⟨hhead, htail, hseen, hcount⟩ := hat
  -- the tail it loaded is old, which leaves only more room than it thinks
  have hroom : s.pushed.length - seen < ringSize - 1 := by
    refine Nat.lt_of_le_of_ne hcount fun hfull => hfree ?_
    rw [hhead, htail, next_mod]
    unfold ringSize at *
    omega
  have hlt : s.pushed.length - s.released < ringSize - 1 := by omega
  have hother (k : ℕ) (hk : s.released ≤ k) (hk' : k < s.pushed.length) :
      k % ringSize ≠ head := by
    rw [hhead]
    exact mod_ringSize_ne hk' (by omega)
  exact
    { h with
      held := fun k hk hk' => by
        obtain ⟨ha, hr⟩ := h.held k hk hk'
        have hne := hother k hk hk'
        exact ⟨(Function.update_of_ne hne ..).trans ha,
          hr.trans (congrArg some (Function.update_of_ne hne ..).symm)⟩
      producerAt := ⟨hhead, hlt, Function.update_self .., Function.update_self ..⟩ }

/-- The producer publishes the slot it has written. -/
theorem Inv.publish (h : s.Inv) {sample : Sample} {head : ℕ}
    (hp : s.producer = .written sample head) :
    { s with
      head := next head, pushed := s.pushed ++ [sample], producer := .idle : SoundRing }.Inv := by
  have hat := h.producerAt
  rw [ProducerAt, hp] at hat
  obtain ⟨hhead, hlt, hring, hauthor⟩ := hat
  have hlen : (s.pushed ++ [sample]).length = s.pushed.length + 1 := List.length_append
  refine
    { h with
      head_eq := by rw [hhead, next_mod, hlen]
      stored := by dsimp only; omega
      order := h.order.trans (List.prefix_append ..)
      held := fun k hk hk' => ?_
      producerAt := trivial
      consumerAt := ?_ }
  · rw [hlen] at hk'
    rcases Nat.lt_or_ge k s.pushed.length with hold | hnew
    · rw [List.getElem?_append_left hold]
      exact h.held k hk hold
    · have hk : k = s.pushed.length := by omega
      subst hk
      rw [← hhead]
      exact ⟨hauthor, List.getElem?_concat_length.trans (congrArg some hring.symm)⟩
  · -- the samples the consumer knows of are still published
    have hc := h.consumerAt
    unfold ConsumerAt at hc ⊢
    dsimp only
    rw [hlen]
    split at hc
    · exact hc
    · exact ⟨hc.1, hc.2.1, Nat.le_succ_of_le hc.2.2.1, hc.2.2.2⟩
    · exact ⟨hc.1, hc.2.1, Nat.le_succ_of_le hc.2.2.1, hc.2.2.2⟩

theorem Inv.producerStep (h : s.Inv) : s.producerStep.Inv := by
  unfold SoundRing.producerStep
  split
  · exact h
  · rename_i sample head hp
    have hat := h.producerAt
    rw [ProducerAt, hp] at hat
    exact { h with producerAt := ⟨hat, h.tail_eq, le_refl _, h.stored⟩ }
  · rename_i sample head tail seen hp
    split_ifs with hfull
    · exact { h with producerAt := trivial }
    · exact h.write hp hfull
  · rename_i sample head hp
    exact h.publish hp

/-! ### The consumer -/

theorem Inv.pop (h : s.Inv) (n : ℕ) : (s.step (.pop n)).Inv := by
  unfold step
  dsimp only
  split
  · rename_i hc
    have hat := h.consumerAt
    rw [ConsumerAt, hc] at hat
    exact { h with consumerAt := ⟨hat, h.head_eq, le_refl _, hat ▸ h.popped_le⟩ }
  · exact h

/-- The consumer copies the slot at its tail: it holds the next sample. -/
theorem Inv.copy (h : s.Inv) {n head tail popped seen : ℕ}
    (hc : s.consumer = .copying n head tail popped seen) (hne : tail ≠ head) :
    { s with
      popped := s.popped ++ [s.ring tail]
      consumer := .copying n head (next tail) (popped + 1) seen : SoundRing }.Inv := by
  have hat := h.consumerAt
  rw [ConsumerAt, hc] at hat
  obtain ⟨hhead, htail, hseen, hle⟩ := hat
  have hlt : s.popped.length < seen := by
    refine Nat.lt_of_le_of_ne hle fun heq => hne ?_
    rw [hhead, htail, heq]
  obtain ⟨-, hnext⟩ := h.held s.popped.length h.released_le (Nat.lt_of_lt_of_le hlt hseen)
  have hlen : (s.popped ++ [s.ring tail]).length = s.popped.length + 1 := List.length_append
  exact
    { h with
      released_le := by rw [hlen]; exact Nat.le_succ_of_le h.released_le
      order := by
        obtain ⟨rest, hrest⟩ := h.order
        rw [← hrest, List.getElem?_append_right (le_refl _), Nat.sub_self, ← htail] at hnext
        cases rest with
        | nil => exact absurd hnext (by simp)
        | cons x rest =>
          rw [← hrest, ← Option.some.inj hnext]
          exact ⟨rest, by simp⟩
      consumerAt := ⟨hhead, hlen ▸ htail ▸ next_mod _, hseen, hlen ▸ hlt⟩ }

/-- The consumer gives back the slots it has copied. -/
theorem Inv.release (h : s.Inv) {n head tail popped seen : ℕ}
    (hc : s.consumer = .copying n head tail popped seen) :
    { s with tail := tail, released := s.popped.length, consumer := .idle : SoundRing }.Inv := by
  have hat := h.consumerAt
  rw [ConsumerAt, hc] at hat
  have hle := h.released_le
  have hpop := h.popped_le
  have hstored := h.stored
  refine
    { h with
      tail_eq := hat.2.1
      released_le := le_refl _
      stored := by dsimp only; omega
      held := fun k hk hk' => h.held k (Nat.le_trans hle hk) hk'
      producerAt := ?_
      consumerAt := rfl }
  -- the tail the producer loaded only gets older
  have hp := h.producerAt
  unfold ProducerAt at hp ⊢
  dsimp only
  split at hp
  · trivial
  · exact hp
  · exact ⟨hp.1, hp.2.1, Nat.le_trans hp.2.2.1 hle, hp.2.2.2⟩
  · exact ⟨hp.1, by omega, hp.2.2⟩

theorem Inv.consumerStep (h : s.Inv) : s.consumerStep.Inv := by
  unfold SoundRing.consumerStep
  split
  · exact h
  · rename_i n head seen hc
    have hat := h.consumerAt
    rw [ConsumerAt, hc] at hat
    obtain ⟨hpop, hhead, hseen, hle⟩ := hat
    exact
      { h with consumerAt := ⟨hhead, by rw [hpop]; exact h.tail_eq, hseen, hpop ▸ hle⟩ }
  · rename_i n head tail popped seen hc
    split_ifs with hmore
    · exact h.copy hc hmore.2
    · exact h.release hc

/-- **Every step of either thread keeps the invariant.** -/
theorem Inv.step (h : s.Inv) (a : RingAct) : (s.step a).Inv := by
  cases a with
  | tryPush sample => exact h.tryPush sample
  | producer => exact h.producerStep
  | pop n => exact h.pop n
  | consumer => exact h.consumerStep

/-! ### The queue -/

theorem Inv.reading (h : s.Inv) {i : ℕ} (hr : s.reading = some i) :
    i = s.popped.length % ringSize ∧ s.popped.length < s.pushed.length := by
  have hat := h.consumerAt
  unfold SoundRing.reading at hr
  split at hr
  · rename_i hc
    rw [ConsumerAt, hc] at hat
    obtain ⟨hhead, htail, hseen, hle⟩ := hat
    split_ifs at hr with hmore
    rw [← Option.some.inj hr]
    refine ⟨htail, Nat.lt_of_lt_of_le (Nat.lt_of_le_of_ne hle fun heq => hmore.2 ?_) hseen⟩
    rw [hhead, htail, heq]
  · exact nomatch hr

theorem Inv.writing (h : s.Inv) {i : ℕ} (hw : s.writing = some i) :
    i = s.pushed.length % ringSize := by
  have hat := h.producerAt
  unfold SoundRing.writing at hw
  split at hw
  · rename_i hp
    rw [ProducerAt, hp] at hat
    split_ifs at hw
    rw [← Option.some.inj hw]
    exact hat.1
  · exact nomatch hw

/-- The step that refuses leaves the ring alone, and has found it full. -/
theorem producerStep_refusing {sample : Sample} {head tail seen : ℕ}
    (hp : s.producer = .tailLoaded sample head tail seen)
    (hidle : s.producerStep.producer = .idle) :
    s.producerStep = { s with producer := .idle } ∧ next head = tail := by
  unfold producerStep at hidle ⊢
  rw [hp] at hidle ⊢
  dsimp only at hidle ⊢
  split_ifs at hidle ⊢ with hfull
  exact ⟨rfl, hfull⟩

theorem Inv.refusing (h : s.Inv) {seen : ℕ} (hr : s.Refusing seen) :
    seen ≤ s.released ∧ s.pushed.length - seen = ringSize - 1 := by
  obtain ⟨sample, head, tail, hp, hidle⟩ := hr
  obtain ⟨-, hfull⟩ := producerStep_refusing hp hidle
  have hat := h.producerAt
  rw [ProducerAt, hp] at hat
  obtain ⟨hhead, htail, hseen, hcount⟩ := hat
  refine ⟨hseen, ?_⟩
  have hle := h.released_le
  have hpop := h.popped_le
  rw [hhead, htail, next_mod] at hfull
  unfold ringSize at *
  omega

theorem Inv.queue (h : s.Inv) : s.Fifo where
  order := h.order
  fresh := fun i hr => by
    obtain ⟨rfl, hlt⟩ := h.reading hr
    exact h.held _ h.released_le hlt
  exclusive := fun i hr hw => by
    obtain ⟨hi, hlt⟩ := h.reading hr
    have hle := h.released_le
    have hstored := h.stored
    refine mod_ringSize_ne hlt ?_ (hi.symm.trans (h.writing hw))
    unfold ringSize at *
    omega
  stored := ⟨Nat.le_trans h.released_le h.popped_le, h.stored⟩
  refused := fun _ hr => h.refusing hr

/-- **`available` is the number of samples stored.** -/
theorem Inv.available_eq (h : s.Inv) : s.available = s.pushed.length - s.released := by
  have hle := Nat.le_trans h.released_le h.popped_le
  have hstored := h.stored
  have hmask : s.available = (s.head + 2 ^ 64 - s.tail) % 2 ^ 64 % ringSize :=
    Nat.and_two_pow_sub_one_eq_mod _ 12
  rw [hmask, h.head_eq, h.tail_eq]
  unfold ringSize at *
  omega

/-- **The audio ring is a correct queue**, in every interleaving of its two threads. -/
theorem fifo (as : List RingAct) : (ActionRun.exec step init as).Fifo := by
  have hinv : (ActionRun.exec step init as).Inv :=
    ActionRun.exec_preserves (fun _ a h => h.step a) Inv.init as
  exact hinv.queue

/-! ### A ring that is full -/

/-- The steps of one push. -/
def push (sample : Sample) : List RingAct :=
  [.tryPush sample, .producer, .producer, .producer]

/-- After some pushes nothing has been popped, and both threads are idle. -/
structure Pushed (s : SoundRing) (n : ℕ) : Prop where
  head : s.head = n
  tail : s.tail = 0
  producer : s.producer = .idle
  released : s.released = 0
  pushed : s.pushed.length = n

theorem Pushed.push {n : ℕ} (h : s.Pushed n) (hn : n < ringSize - 1) (sample : Sample) :
    (ActionRun.exec step s (SoundRing.push sample)).Pushed (n + 1) := by
  have hnext : next n = n + 1 := by
    rw [next_eq, Nat.mod_eq_of_lt]
    unfold ringSize at *
    omega
  have hroom : next s.head ≠ s.tail := by
    rw [h.head, h.tail, hnext]
    exact Nat.succ_ne_zero n
  have hcall : s.step (.tryPush sample) = { s with producer := .headLoaded sample s.head } := by
    unfold step
    rw [h.producer]
  have hloaded : ActionRun.exec step s (SoundRing.push sample) =
      producerStep (producerStep
        { s with producer := .tailLoaded sample s.head s.tail s.released }) := by
    change producerStep (producerStep (producerStep (s.step (.tryPush sample)))) = _
    rw [hcall]
    rfl
  have hwritten :
      producerStep { s with producer := .tailLoaded sample s.head s.tail s.released } =
        { s with
          ring := Function.update s.ring s.head sample
          author := Function.update s.author s.head (some s.pushed.length)
          producer := .written sample s.head } := if_neg hroom
  rw [hloaded, hwritten]
  refine ⟨?_, h.tail, rfl, h.released, ?_⟩
  · change next s.head = n + 1
    rw [h.head, hnext]
  · change (s.pushed ++ [sample]).length = n + 1
    rw [List.length_append, h.pushed]
    rfl

theorem pushed_pushes (sample : Sample) {n : ℕ} (hn : n ≤ ringSize - 1) :
    (ActionRun.exec step init (List.replicate n (push sample)).flatten).Pushed n := by
  induction n with
  | zero => exact ⟨rfl, rfl, rfl, rfl, rfl⟩
  | succ n ih =>
    rw [List.replicate_succ', List.flatten_concat, ActionRun.exec_append]
    exact (ih (Nat.le_of_succ_le hn)).push hn sample

theorem Pushed.refusing (h : s.Pushed (ringSize - 1)) (sample : Sample) :
    (ActionRun.exec step s [.tryPush sample, .producer]).Refusing 0 := by
  have hcall : s.step (.tryPush sample) = { s with producer := .headLoaded sample s.head } := by
    unfold step
    rw [h.producer]
  have hloaded : ActionRun.exec step s [.tryPush sample, .producer] =
      { s with producer := .tailLoaded sample s.head s.tail s.released } := by
    change producerStep (s.step (.tryPush sample)) = _
    rw [hcall]
    rfl
  have hnext : next s.head = s.tail := by
    rw [h.head, h.tail]
    decide
  rw [hloaded, h.released]
  exact ⟨sample, s.head, s.tail, rfl, congrArg SoundRing.producer (if_pos hnext)⟩

/-- **A ring with a sample in every place but one refuses the next**, and there is a run to
such a ring: as many pushes, without a pop. -/
theorem refusing_full (sample : Sample) :
    (ActionRun.exec step init
      ((List.replicate (ringSize - 1) (push sample)).flatten ++
        [.tryPush sample, .producer])).Refusing 0 := by
  rw [ActionRun.exec_append]
  exact (pushed_pushes sample (Nat.le_refl (ringSize - 1))).refusing sample

end SoundRing
