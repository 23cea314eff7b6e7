import PieceEmu.Soc.SoundRing

/-!
# Resetting the audio ring

`Sound::reset` empties the ring by storing the head into the tail. The tail belongs to the
consumer, and nothing stops the audio thread while the CPU thread resets the board: a
`pop` in progress has loaded the tail, and publishes its own when it is done. If that is
not the head, the samples behind it are back, and so is everything else in the ring once
the producer goes on.

| the pop in progress when the tail is stored | what it publishes |
|---|---|
| none | – |
| drains the ring up to the head the reset has stored | the same tail |
| has loaded an older head, or asks for less than is left | a tail behind the head |

Along the runs of the first two kinds a reset discards what was pushed before it
(`ResetRing.reset_discards`); one run of the third kind plays an old sample again
(`ResetRing.straddled_replays`).
-/

/-- The ring with a CPU thread that also calls `reset`. -/
structure ResetRing where
  ring : SoundRing := {}
  /-- The head that `reset` has loaded, until it stores the tail. -/
  resetting : Option ℕ := none
  /-- Ghost: the pop in progress began before the last reset returned. -/
  straddles : Bool := false
  /-- Ghost: how many samples had been pushed when the last reset returned. -/
  discarded : ℕ := 0

/-- One step of either thread. -/
inductive ResetAct
  /-- A step of `try_push` or of `pop`. -/
  | ring (a : RingAct)
  /-- The CPU thread calls `reset`, which loads the head. -/
  | resetLoad
  /-- `reset` stores the tail. -/
  | resetStore

namespace ResetRing

open SoundRing (ringSize next)

/-! ### The steps -/

/-- A step of the ring. The CPU thread does not push while it resets. The ghost counts of
what was popped do not follow a pop whose samples the reset has discarded. -/
def ringStep (s : ResetRing) (a : RingAct) : ResetRing :=
  match a, s.resetting with
  | .tryPush _, some _ => s
  | _, _ =>
    let r := s.ring.step a
    { s with
      ring :=
        if s.straddles then { r with popped := s.ring.popped, released := s.ring.released } else r
      straddles := s.straddles && r.consumer ≠ .idle }

/-- One step of either thread. Between its two accesses to the ring `reset` touches what only
the CPU thread uses. The ghost counts take what is discarded for popped. -/
def step (s : ResetRing) : ResetAct → ResetRing
  | .ring a => s.ringStep a
  | .resetLoad =>
    match s.ring.producer, s.resetting with
    | .idle, none => { s with resetting := some s.ring.head }
    | _, _ => s
  | .resetStore =>
    match s.resetting with
    | none => s
    | some head =>
      { ring :=
          { s.ring with
            tail := head, popped := s.ring.pushed, released := s.ring.pushed.length }
        resetting := none
        straddles := s.ring.consumer ≠ .idle
        discarded := s.ring.pushed.length }

/-- Before the first call. -/
def start : ResetRing := {}

/-! ### The statement -/

/-- **A reset discards**: a pop that began after it reads samples that were pushed after it,
and no more are available than that. -/
structure Discards (s : ResetRing) : Prop where
  fresh : s.straddles = false → ∀ i, s.ring.reading = some i →
    ∃ k, s.ring.author i = some k ∧ s.ring.pushed[k]? = some (s.ring.ring i) ∧ s.discarded ≤ k
  available : s.ring.available ≤ s.ring.pushed.length - s.discarded

/-- The pop in progress, if there is one, will publish the head as its tail: it has loaded
that head and asks for all samples between its own tail and the head, or it copies no more
samples and is there already. -/
def Drains (head : ℕ) : RingConsumer → Prop
  | .idle => True
  | .headLoaded n loaded _ => n = 0 ∨ loaded = head
  | .copying n loaded tail popped _ =>
    n ≤ popped ∧ tail = head ∨
      loaded = head ∧ (loaded + ringSize - tail) % ringSize ≤ n - popped

/-- **Settled**: when a reset stores the tail, the pop in progress drains the ring. -/
def Settled (s : ResetRing) : ResetAct → Prop
  | .resetStore => Drains s.ring.head s.ring.consumer
  | _ => True

instance (head : ℕ) : (c : RingConsumer) → Decidable (Drains head c)
  | .idle => .isTrue trivial
  | .headLoaded .. => inferInstanceAs (Decidable (_ ∨ _))
  | .copying .. => inferInstanceAs (Decidable (_ ∨ _))

instance (s : ResetRing) : (a : ResetAct) → Decidable (Settled s a)
  | .resetStore => inferInstanceAs (Decidable (Drains ..))
  | .ring _ | .resetLoad => .isTrue trivial

/-! ### The invariant -/

/-- The ring as if the pop in progress were over. -/
def quiet (r : SoundRing) : SoundRing := { r with consumer := .idle }

theorem quiet_of_idle {r : SoundRing} (h : r.consumer = .idle) : quiet r = r := by
  rw [quiet, ← h]

/-- There is a pop in progress, and it has no more to do than to come to the tail that is
stored already. -/
structure Trailing (r : SoundRing) : Prop where
  busy : r.consumer ≠ .idle
  drains : Drains r.tail r.consumer
  tail_lt : ∀ n head tail popped seen, r.consumer = .copying n head tail popped seen →
    tail < ringSize

/-- **The invariant**: the ring is a queue, if not for the pop that straddles the last reset,
which trails behind the tail that was stored. -/
structure Inv (s : ResetRing) : Prop where
  free : s.straddles = false → s.ring.Inv
  straddling : s.straddles = true → (quiet s.ring).Inv ∧ Trailing s.ring
  loaded : ∀ head, s.resetting = some head → head = s.ring.head ∧ s.ring.producer = .idle
  discarded : s.discarded ≤ s.ring.released

theorem Inv.start : start.Inv where
  free _ := SoundRing.Inv.init
  straddling h := Bool.noConfusion h
  loaded _ h := nomatch h
  discarded := le_refl 0

variable {s : ResetRing}

theorem Inv.head_eq (h : s.Inv) : s.ring.head = s.ring.pushed.length % ringSize := by
  cases hs : s.straddles with
  | false => exact (h.free hs).head_eq
  | true => exact (h.straddling hs).1.head_eq

/-- The tail that a pop works with is an index of the ring. -/
theorem Inv.tail_lt (h : s.Inv) {n head tail popped seen : ℕ}
    (hc : s.ring.consumer = .copying n head tail popped seen) : tail < ringSize := by
  cases hs : s.straddles with
  | false =>
    have hat := (h.free hs).consumerAt
    rw [SoundRing.ConsumerAt, hc] at hat
    exact hat.2.1 ▸ Nat.mod_lt _ (by decide)
  | true => exact (h.straddling hs).2.tail_lt _ _ _ _ _ hc

/-! ### The reset -/

/-- The ring after the store of the tail. -/
def emptied (r : SoundRing) : SoundRing :=
  { r with tail := r.head, popped := r.pushed, released := r.pushed.length }

theorem inv_quiet_emptied {r : SoundRing} (hhead : r.head = r.pushed.length % ringSize)
    (hidle : r.producer = .idle) : (quiet (emptied r)).Inv where
  head_eq := hhead
  tail_eq := hhead
  released_le := le_refl _
  stored := (Nat.sub_self r.pushed.length).le.trans (Nat.zero_le _)
  order := List.prefix_refl _
  held k hk hk' := absurd hk' (Nat.not_lt.mpr hk)
  producerAt := by
    have hp : (quiet (emptied r)).producer = .idle := hidle
    rw [SoundRing.ProducerAt, hp]
    trivial
  consumerAt := rfl

/-- **The store of the tail** empties the ring, and leaves a pop in progress trailing. -/
theorem Inv.resetStore (h : s.Inv) (hset : Drains s.ring.head s.ring.consumer) :
    (s.step .resetStore).Inv := by
  unfold step
  dsimp only
  split
  · exact h
  · rename_i head hres
    obtain ⟨rfl, hidle⟩ := h.loaded head hres
    have hquiet := inv_quiet_emptied h.head_eq hidle
    refine ⟨fun hs => ?_, fun hs => ⟨hquiet, ?_⟩, nofun, le_refl _⟩
    · have hc : s.ring.consumer = .idle := by simpa using hs
      change (emptied s.ring).Inv
      rwa [← quiet_of_idle (show (emptied s.ring).consumer = .idle from hc)]
    · exact ⟨by simpa using hs, hset, fun _ _ _ _ _ hc => h.tail_lt hc⟩

/-! ### The ring -/

/-- The CPU thread that resets takes no step of `try_push`. -/
theorem step_of_idle {r : SoundRing} {a : RingAct} (hidle : r.producer = .idle)
    (ha : ∀ sample, a ≠ .tryPush sample) :
    (r.step a).head = r.head ∧ (r.step a).producer = .idle := by
  cases a with
  | tryPush sample => exact absurd rfl (ha sample)
  | producer =>
    rw [SoundRing.step, SoundRing.producerStep, hidle]
    exact ⟨rfl, hidle⟩
  | pop n =>
    unfold SoundRing.step
    dsimp only
    split <;> exact ⟨rfl, hidle⟩
  | consumer =>
    unfold SoundRing.step SoundRing.consumerStep
    dsimp only
    split
    · exact ⟨rfl, hidle⟩
    · exact ⟨rfl, hidle⟩
    · split_ifs <;> exact ⟨rfl, hidle⟩

/-- The producer takes no notice of a pop in progress. -/
theorem quiet_producerStep (r : SoundRing) :
    quiet r.producerStep = (quiet r).producerStep ∧ r.producerStep.consumer = r.consumer ∧
      r.producerStep.tail = r.tail ∧ r.producerStep.popped = r.popped ∧
      r.producerStep.released = r.released := by
  unfold quiet SoundRing.producerStep
  dsimp only
  split
  · exact ⟨rfl, rfl, rfl, rfl, rfl⟩
  · exact ⟨rfl, rfl, rfl, rfl, rfl⟩
  · split_ifs <;> exact ⟨rfl, rfl, rfl, rfl, rfl⟩
  · exact ⟨rfl, rfl, rfl, rfl, rfl⟩

theorem quiet_tryPush (r : SoundRing) (sample : Sample) :
    quiet (r.step (.tryPush sample)) = (quiet r).step (.tryPush sample) ∧
      (r.step (.tryPush sample)).consumer = r.consumer ∧
      (r.step (.tryPush sample)).tail = r.tail ∧
      (r.step (.tryPush sample)).popped = r.popped ∧
      (r.step (.tryPush sample)).released = r.released := by
  unfold quiet SoundRing.step
  dsimp only
  split <;> exact ⟨rfl, rfl, rfl, rfl, rfl⟩

/-- What is given back is not taken again. -/
theorem released_le_step {r : SoundRing} (h : r.Inv) (a : RingAct) :
    r.released ≤ (r.step a).released := by
  cases a with
  | tryPush sample => exact (quiet_tryPush r sample).2.2.2.2.ge
  | producer => exact (quiet_producerStep r).2.2.2.2.ge
  | pop n =>
    unfold SoundRing.step
    dsimp only
    split <;> exact le_refl _
  | consumer =>
    unfold SoundRing.step SoundRing.consumerStep
    dsimp only
    split
    · exact le_refl _
    · exact le_refl _
    · split_ifs
      · exact le_refl _
      · exact h.released_le

/-- The tail of a pop that copies one more sample comes one closer to the head. -/
theorem distance_next {head tail : ℕ} (hhead : head < ringSize) (htail : tail < ringSize)
    (hne : tail ≠ head) :
    next tail < ringSize ∧
      (head + ringSize - next tail) % ringSize + 1 = (head + ringSize - tail) % ringSize := by
  rw [SoundRing.next_eq]
  unfold ringSize at *
  omega

/-- **A trailing pop** goes on trailing, or ends with the tail as it is. -/
theorem Trailing.consumer {r : SoundRing} (htail : r.tail < ringSize) (h : Trailing r) :
    quiet { r.step .consumer with popped := r.popped, released := r.released } = quiet r ∧
      ((r.step .consumer).consumer ≠ .idle → Trailing (r.step .consumer)) := by
  have hdrains := h.drains
  unfold SoundRing.step SoundRing.consumerStep
  dsimp only
  cases hc : r.consumer with
  | idle => exact absurd hc h.busy
  | headLoaded n head seen =>
    rw [hc] at hdrains
    refine ⟨rfl, fun _ => ⟨nofun, ?_, fun _ _ _ _ _ heq => ?_⟩⟩
    · rcases hdrains with hzero | rfl
      · exact .inl ⟨hzero.le, rfl⟩
      · refine .inr ⟨rfl, ?_⟩
        rw [Nat.add_sub_cancel_left, Nat.mod_self]
        exact Nat.zero_le _
    · injection heq with _ _ heq
      exact heq ▸ htail
  | copying n head tail popped seen =>
    rw [hc] at hdrains
    have hlt := h.tail_lt _ _ _ _ _ hc
    dsimp only
    split_ifs with hmore
    · obtain ⟨hle, -⟩ | ⟨rfl, hdist⟩ := hdrains
      · omega
      -- one more sample, which takes the tail of the pop closer to the head
      obtain ⟨hnext, hcloser⟩ := distance_next htail hlt hmore.2
      refine ⟨rfl, fun _ => ⟨nofun, .inr ⟨rfl, by omega⟩, fun _ _ _ _ _ heq => ?_⟩⟩
      injection heq with _ _ heq
      exact heq ▸ hnext
    · -- the pop ends at the head, where the reset has put the tail
      have hend : tail = r.tail := by
        obtain ⟨-, heq⟩ | ⟨rfl, hdist⟩ := hdrains
        · exact heq
        by_contra hne
        obtain ⟨-, hcloser⟩ := distance_next htail hlt hne
        exact hmore ⟨by omega, hne⟩
      rw [hend]
      exact ⟨rfl, fun hn => absurd rfl hn⟩

/-- A step of the ring, unless it is a push in the middle of a reset. -/
theorem ringStep_cases (s : ResetRing) (a : RingAct) :
    s.ringStep a = s ∨
      (∀ sample, a = .tryPush sample → s.resetting = none) ∧
        s.ringStep a =
          { s with
            ring :=
              if s.straddles then
                { s.ring.step a with popped := s.ring.popped, released := s.ring.released }
              else s.ring.step a
            straddles := s.straddles && (s.ring.step a).consumer ≠ .idle } := by
  unfold ringStep
  split
  · exact .inl rfl
  · rename_i hnot
    refine .inr ⟨fun sample ha => ?_, rfl⟩
    by_contra hne
    obtain ⟨head, hres⟩ := Option.ne_none_iff_exists'.mp hne
    exact hnot sample head ha hres

/-- A step beside a pop that trails. -/
theorem Trailing.step {r : SoundRing} (hq : (quiet r).Inv) (h : Trailing r) (a : RingAct) :
    (quiet { r.step a with popped := r.popped, released := r.released }).Inv ∧
      ((r.step a).consumer ≠ .idle →
        Trailing { r.step a with popped := r.popped, released := r.released }) := by
  -- the CPU thread does not touch what the pop goes by
  have hproducer {r' : SoundRing} (hinv : (quiet r').Inv) (hc : r'.consumer = r.consumer)
      (ht : r'.tail = r.tail) (hp : r'.popped = r.popped) (hrel : r'.released = r.released) :
      (quiet { r' with popped := r.popped, released := r.released }).Inv ∧
        (r'.consumer ≠ .idle →
          Trailing { r' with popped := r.popped, released := r.released }) := by
    rw [← hp, ← hrel]
    exact ⟨hinv, fun hbusy => ⟨hbusy, hc ▸ ht ▸ h.drains, hc ▸ h.tail_lt⟩⟩
  cases a with
  | tryPush sample =>
    obtain ⟨hquiet, hc, ht, hp, hrel⟩ := quiet_tryPush r sample
    exact hproducer (hquiet ▸ hq.tryPush sample) hc ht hp hrel
  | producer =>
    obtain ⟨hquiet, hc, ht, hp, hrel⟩ := quiet_producerStep r
    exact hproducer (hquiet ▸ hq.producerStep) hc ht hp hrel
  | pop n =>
    have hsame : r.step (.pop n) = r := by
      unfold SoundRing.step
      dsimp only
      split
      · rename_i hc
        exact absurd hc h.busy
      · rfl
    rw [hsame]
    exact ⟨hq, fun _ => h⟩
  | consumer =>
    have htail : r.tail < ringSize := by
      rw [show r.tail = _ from hq.tail_eq]
      exact Nat.mod_lt _ (by decide)
    obtain ⟨hquiet, htrail⟩ := h.consumer htail
    exact ⟨hquiet ▸ hq, fun hbusy => ⟨hbusy, (htrail hbusy).drains, (htrail hbusy).tail_lt⟩⟩

/-- **A step of either thread** between resets. -/
theorem Inv.ringStep (h : s.Inv) (a : RingAct) : (s.ringStep a).Inv := by
  rcases s.ringStep_cases a with heq | ⟨hpush, heq⟩
  · rw [heq]
    exact h
  · rw [heq]
    have hloaded (head : ℕ) (hres : s.resetting = some head) :
        head = (s.ring.step a).head ∧ (s.ring.step a).producer = .idle := by
      obtain ⟨hhead, hidle⟩ := h.loaded head hres
      obtain ⟨hkept, hidle'⟩ := step_of_idle hidle fun sample ha => by
        rw [hpush sample ha] at hres
        nomatch hres
      exact ⟨hhead.trans hkept.symm, hidle'⟩
    cases hs : s.straddles with
    | false =>
      have hinv := h.free hs
      exact
        { free := fun _ => hinv.step a
          straddling := fun hst => Bool.noConfusion hst
          loaded := hloaded
          discarded := Nat.le_trans h.discarded (released_le_step hinv a) }
    | true =>
      obtain ⟨hq, htrail⟩ := h.straddling hs
      obtain ⟨hq', htrail'⟩ := htrail.step hq a
      exact
        { free := fun hst =>
            quiet_of_idle (by simpa using hst) ▸ hq'
          straddling := fun hst => ⟨hq', htrail' (by simpa using hst)⟩
          loaded := hloaded
          discarded := h.discarded }

theorem Inv.resetLoad (h : s.Inv) : (s.step .resetLoad).Inv := by
  unfold step
  dsimp only
  split
  · rename_i hidle _
    exact { h with loaded := fun head hres => ⟨(Option.some.inj hres).symm, hidle⟩ }
  · exact h

theorem Inv.step (h : s.Inv) (a : ResetAct) (hset : Settled s a) : (s.step a).Inv := by
  cases a with
  | ring a => exact h.ringStep a
  | resetLoad => exact h.resetLoad
  | resetStore => exact h.resetStore hset

/-! ### The result -/

theorem Inv.discards (h : s.Inv) : s.Discards where
  fresh hs i hread := by
    have hinv := h.free hs
    obtain ⟨hauthor, hpushed⟩ := hinv.queue.fresh i hread
    exact ⟨_, hauthor, hpushed, Nat.le_trans h.discarded hinv.released_le⟩
  available := by
    have havail : s.ring.available = s.ring.pushed.length - s.ring.released := by
      cases hs : s.straddles with
      | false => exact (h.free hs).available_eq
      | true => exact (h.straddling hs).1.available_eq
    rw [havail]
    exact Nat.sub_le_sub_left h.discarded _

/-- **A reset discards what was pushed before it** along every interleaving in which, when a
reset stores the tail, the pop in progress drains the ring: a pop that begins afterwards
returns later samples only, and no more are available. -/
theorem reset_discards {as : List ResetAct} (h : ActionRun.Along step Settled start as) :
    (ActionRun.exec step start as).Discards := by
  have hinv := ActionRun.exec_invariant (I := Inv) (fun _ a hs hset => Inv.step hs a hset)
    Inv.start h
  exact hinv.discards

/-- One sample, pushed by the CPU thread. -/
def push (sample : Sample) : List ResetAct :=
  [.ring (.tryPush sample), .ring .producer, .ring .producer, .ring .producer]

/-- The consumer begins to pop one sample of two; the ring is reset; the consumer ends. -/
def straddled : List ResetAct :=
  push 0x1111 ++ push 0x2222 ++
    [.ring (.pop 1), .ring .consumer, .resetLoad, .resetStore, .ring .consumer, .ring .consumer]

/-- **An old sample is played again**: after the run nothing has been pushed since the reset,
but one sample is available, and the next pop reads the second one of those before. -/
theorem straddled_replays :
    ¬(ActionRun.exec step start straddled).Discards ∧
      ¬(ActionRun.exec step start (straddled ++ [.ring (.pop 1), .ring .consumer])).Discards := by
  refine ⟨fun h => absurd h.available (by decide +kernel), fun h => ?_⟩
  obtain ⟨k, hauthor, -, hk⟩ := h.fresh (by decide +kernel) 1 (by decide +kernel)
  have hold : (ActionRun.exec step start
      (straddled ++ [.ring (.pop 1), .ring .consumer])).ring.author 1 = some 1 := by
    decide +kernel
  rw [hold] at hauthor
  obtain rfl := Option.some.inj hauthor
  exact absurd hk (by decide +kernel)

/-- A pop of both samples straddles the reset and drains the ring, and a third is pushed. -/
def drained : List ResetAct :=
  push 0x1111 ++ push 0x2222 ++
    [.ring (.pop 2), .ring .consumer, .resetLoad, .resetStore, .ring .consumer,
      .ring .consumer, .ring .consumer] ++ push 0x3333

theorem reset_discards_drained :
    (ActionRun.exec step start drained).discarded = 2 ∧
      (ActionRun.exec step start drained).Discards :=
  ⟨by decide +kernel, reset_discards (by decide +kernel)⟩

end ResetRing
