import PieceEmu.Soc.SoundRing

/-!
# The audio callback

The audio device asks for samples at its own pace. `audio_cb` pops them from the ring while
the CPU thread goes on pushing, fills up with silence what the ring did not have, and hands
the buffer on.

What the device is given is, in every interleaving of the two threads, what was pushed, in
that order and without a gap or a repetition, with silence in between
(`AudioOutput.plays`); and there is silence only behind the last sample that was published
when the device asked. A reset of the sound unit is not among the steps here.
-/

/-- What one call of `audio_cb`, for so many bytes, hands on. The number of samples that were
published when it was called is not in the source. -/
structure AudioBlock where
  bytes : ℤ
  samples : List Sample
  asked : ℕ
  deriving DecidableEq

/-- Where the audio thread is in `audio_cb`. -/
inductive AudioThread
  | idle
  /-- In the call of `pop`, with `got` in `cb_buf_`. -/
  | popping (bytes : ℤ) (got : List Sample) (asked : ℕ)
  deriving DecidableEq

/-- The ring, the audio thread and the stream of the device. -/
structure AudioOutput where
  ring : SoundRing := .init
  thread : AudioThread := .idle
  /-- What `SDL_PutAudioStreamData` was given. -/
  stream : List Sample := []
  /-- Not in the source: the calls that have handed something on. -/
  blocks : List AudioBlock := []

/-- The steps of the two threads. -/
inductive AudioAct
  /-- The CPU thread calls `try_push`. -/
  | tryPush (sample : Sample)
  /-- The CPU thread goes on. -/
  | producer
  /-- The device asks for so many bytes. -/
  | audioCb (additionalAmount : ℤ)
  /-- The audio thread goes on. -/
  | consumer

/-- What the audio thread has got from the ring, and not yet handed on. -/
def AudioThread.got : AudioThread → List Sample
  | .idle => []
  | .popping _ got _ => got

/-- A call that ends before it has all it wants has emptied the ring. -/
theorem SoundRing.Inv.drained {r : SoundRing} (h : r.Inv) {want head popped asked : ℕ}
    (hc : r.consumer = .copying want head head popped asked) : r.popped.length = asked := by
  have hat := h.consumerAt
  rw [SoundRing.ConsumerAt, hc] at hat
  obtain ⟨hhead, htail, hseen, hle⟩ := hat
  have hreleased := h.released_le
  have hstored := h.stored
  by_contra hne
  refine SoundRing.mod_ringSize_ne (Nat.lt_of_le_of_ne hle hne) ?_ (htail.symm.trans hhead)
  unfold SoundRing.ringSize at *
  omega

namespace AudioOutput

/-- `CB_BUF_SAMPLES`. -/
def cbBufSamples : ℕ := 8192

/-- `want`, in samples of two bytes. -/
def want (additionalAmount : ℤ) : ℕ := min (additionalAmount / 2).toNat cbBufSamples

/-- The part of `audio_cb` in front of the loop of `pop`. The device has one audio thread, so
there is no call inside a call. -/
def audioCb (s : AudioOutput) (additionalAmount : ℤ) : AudioOutput :=
  match s.thread with
  | .popping .. => s
  | .idle =>
    if additionalAmount ≤ 0 ∨ additionalAmount / 2 ≤ 0 then s
    else
      { s with
        ring := s.ring.step (.pop (want additionalAmount))
        thread := .popping additionalAmount [] s.ring.pushed.length }

/-- A step of `pop`, and the rest of `audio_cb` when it returns. -/
def consumerStep (s : AudioOutput) : AudioOutput :=
  match s.thread with
  | .idle => s
  | .popping bytes got asked =>
    let ring := s.ring.consumerStep
    let got := got ++ ring.popped.drop s.ring.popped.length
    if ring.consumer = .idle then
      { s with
        ring
        thread := .idle
        stream := s.stream ++ (got ++ List.replicate (want bytes - got.length) 0)
        blocks := s.blocks ++ [⟨bytes, got, asked⟩] }
    else { s with ring, thread := .popping bytes got asked }

/-- One step of either thread. -/
def step (s : AudioOutput) : AudioAct → AudioOutput
  | .tryPush sample => { s with ring := s.ring.step (.tryPush sample) }
  | .producer => { s with ring := s.ring.producerStep }
  | .audioCb additionalAmount => s.audioCb additionalAmount
  | .consumer => s.consumerStep

/-- The samples of the ring that have been handed on. -/
def played (blocks : List AudioBlock) : List Sample := blocks.flatMap AudioBlock.samples

/-- The buffer that a call hands on. -/
def data (b : AudioBlock) : List Sample :=
  b.samples ++ List.replicate (want b.bytes - b.samples.length) 0

/-- **The device plays what was pushed.** -/
structure Plays (s : AudioOutput) : Prop where
  stream : s.stream = s.blocks.flatMap data
  /-- Nothing is lost, repeated or reordered. -/
  order : played s.blocks <+: s.ring.pushed
  /-- What has not been handed on fits in the ring. -/
  waiting : s.ring.pushed.length - (played s.blocks).length ≤ SoundRing.ringSize - 1
  /-- A call hands on as much as was asked for, up to its buffer. -/
  full : ∀ b ∈ s.blocks, (data b).length = want b.bytes
  /-- Silence comes behind all samples that were published when the device asked. -/
  silence : ∀ front b back, s.blocks = front ++ b :: back → b.samples.length < want b.bytes →
    (played (front ++ [b])).length = b.asked

/-! ### The invariant -/

/-- The audio thread and the consumer of the ring are at the same place. -/
def InStep (c : RingConsumer) : AudioThread → Prop
  | .idle => c = .idle
  | .popping bytes got asked =>
    got.length ≤ want bytes ∧
      ((∃ head, c = .headLoaded (want bytes) head asked ∧ got = []) ∨
        ∃ head tail, c = .copying (want bytes) head tail got.length asked)

/-- The invariant of the two threads. -/
structure Inv (s : AudioOutput) : Prop where
  ring : s.ring.Inv
  inStep : InStep s.ring.consumer s.thread
  popped : s.ring.popped = played s.blocks ++ s.thread.got
  released : s.ring.released = (played s.blocks).length
  stream : s.stream = s.blocks.flatMap data
  fits : ∀ b ∈ s.blocks, b.samples.length ≤ want b.bytes
  silence : ∀ front b back, s.blocks = front ++ b :: back → b.samples.length < want b.bytes →
    (played (front ++ [b])).length = b.asked

variable {s : AudioOutput}

theorem Inv.init : Inv {} where
  ring := SoundRing.Inv.init
  inStep := rfl
  popped := rfl
  released := rfl
  stream := rfl
  fits := fun _ hb => absurd hb List.not_mem_nil
  silence := fun front _ _ h => absurd h.symm (by simp)

/-- The CPU thread leaves alone what the audio thread has. -/
theorem Inv.of_producer (h : s.Inv) {ring : SoundRing} (hring : ring.Inv)
    (hconsumer : ring.consumer = s.ring.consumer) (hpopped : ring.popped = s.ring.popped)
    (hreleased : ring.released = s.ring.released) : Inv { s with ring } where
  ring := hring
  inStep := hconsumer ▸ h.inStep
  popped := hpopped.trans h.popped
  released := hreleased.trans h.released
  stream := h.stream
  fits := h.fits
  silence := h.silence

theorem Inv.tryPush (h : s.Inv) (sample : Sample) : (s.step (.tryPush sample)).Inv := by
  refine h.of_producer (h.ring.tryPush sample) ?_ ?_ ?_
  all_goals
    unfold SoundRing.step
    dsimp only
    split <;> rfl

theorem Inv.producer (h : s.Inv) : (s.step .producer).Inv := by
  refine h.of_producer h.ring.producerStep ?_ ?_ ?_
  all_goals
    unfold SoundRing.producerStep
    split
    · rfl
    · rfl
    · split_ifs <;> rfl
    · rfl

theorem Inv.audioCb (h : s.Inv) (n : ℤ) : (s.audioCb n).Inv := by
  unfold AudioOutput.audioCb
  cases hthread : s.thread with
  | popping bytes got asked => exact h
  | idle =>
    dsimp only
    split_ifs
    · exact h
    · have hidle : s.ring.consumer = .idle := by
        have := h.inStep
        rwa [hthread] at this
      have hpop : s.ring.step (.pop (want n)) =
          { s.ring with
            consumer := .headLoaded (want n) s.ring.head s.ring.pushed.length } := by
        unfold SoundRing.step
        dsimp only
        rw [hidle]
      have hpopped := h.popped
      rw [hthread] at hpopped
      have hring := h.ring.pop (want n)
      rw [hpop] at hring ⊢
      exact
        { ring := hring
          inStep := ⟨Nat.zero_le _, .inl ⟨_, rfl, rfl⟩⟩
          popped := hpopped
          released := h.released
          stream := h.stream
          fits := h.fits
          silence := h.silence }

theorem played_append (front back : List AudioBlock) :
    played (front ++ back) = played front ++ played back := List.flatMap_append

theorem played_singleton (b : AudioBlock) : played [b] = b.samples := List.flatMap_singleton ..

/-- `pop` returns, and the buffer is handed on. -/
theorem Inv.handOn (h : s.Inv) {bytes : ℤ} {head tail : ℕ} {got : List Sample} {asked : ℕ}
    (hthread : s.thread = .popping bytes got asked)
    (hc : s.ring.consumer = .copying (want bytes) head tail got.length asked)
    (hend : ¬(got.length < want bytes ∧ tail ≠ head)) :
    Inv
      { s with
        ring := { s.ring with
          tail := tail, released := s.ring.popped.length, consumer := .idle }
        thread := .idle
        stream := s.stream ++ (got ++ List.replicate (want bytes - got.length) 0)
        blocks := s.blocks ++ [⟨bytes, got, asked⟩] } := by
  have hin := h.inStep
  rw [hthread] at hin
  have hgot := hin.1
  have hpopped := h.popped
  rw [hthread] at hpopped
  -- the blocks together are what has been popped
  have hplayed : played (s.blocks ++ [⟨bytes, got, asked⟩]) = s.ring.popped := by
    rw [played_append, played_singleton, hpopped]
    rfl
  refine
    { ring := h.ring.release hc
      inStep := rfl
      popped := hplayed.symm.trans (List.append_nil _).symm
      released := congrArg List.length hplayed.symm
      stream := ?_
      fits := fun b hb => ?_
      silence := fun front b back heq hlt => ?_ }
  · rw [List.flatMap_append, ← h.stream, List.flatMap_singleton]
    rfl
  · rcases List.mem_append.mp hb with hb | hb
    · exact h.fits b hb
    · rw [List.mem_singleton.mp hb]
      exact hgot
  · -- the last block, or one of those before
    rcases List.eq_nil_or_concat back with rfl | ⟨back, c, rfl⟩
    · obtain ⟨hfront, hb⟩ := List.append_inj' heq rfl
      obtain rfl := List.singleton_inj.mp hb
      have heq : tail = head := by
        by_contra hne
        exact hend ⟨hlt, hne⟩
      subst heq
      rw [← hfront, hplayed]
      exact h.ring.drained hc
    · have hassoc : front ++ b :: (back ++ [c]) = (front ++ b :: back) ++ [c] := by simp
      rw [List.concat_eq_append, hassoc] at heq
      exact h.silence front b back (List.append_inj' heq rfl).1 hlt

theorem Inv.consumer (h : s.Inv) : s.consumerStep.Inv := by
  unfold AudioOutput.consumerStep
  cases hthread : s.thread with
  | idle => exact h
  | popping bytes got asked =>
    have hin := h.inStep
    have hpopped := h.popped
    have hring := h.ring.consumerStep
    rw [hthread] at hin hpopped
    obtain ⟨hgot, ⟨head, hc, rfl⟩ | ⟨head, tail, hc⟩⟩ := hin
    · -- the tail is loaded
      have hstep : s.ring.consumerStep =
          { s.ring with consumer := .copying (want bytes) head s.ring.tail 0 asked } := by
        unfold SoundRing.consumerStep
        rw [hc]
      rw [hstep] at hring ⊢
      dsimp only
      rw [if_neg RingConsumer.noConfusion, List.drop_length]
      exact
        { ring := hring
          inStep := ⟨Nat.zero_le _, .inr ⟨_, _, rfl⟩⟩
          popped := hpopped
          released := h.released
          stream := h.stream
          fits := h.fits
          silence := h.silence }
    · by_cases hmore : got.length < want bytes ∧ tail ≠ head
      · -- a sample is copied
        have hstep : s.ring.consumerStep =
            { s.ring with
              popped := s.ring.popped ++ [s.ring.ring tail]
              consumer :=
                .copying (want bytes) head (SoundRing.next tail) (got.length + 1) asked } := by
          unfold SoundRing.consumerStep
          rw [hc]
          exact if_pos hmore
        have hlen : (got ++ [s.ring.ring tail]).length = got.length + 1 := List.length_append
        rw [hstep] at hring ⊢
        dsimp only
        rw [if_neg RingConsumer.noConfusion, List.drop_left]
        exact
          { ring := hring
            inStep := ⟨hlen ▸ hmore.1, .inr ⟨_, _, by rw [hlen]⟩⟩
            popped := by
              dsimp only
              rw [hpopped, List.append_assoc]
              rfl
            released := h.released
            stream := h.stream
            fits := h.fits
            silence := h.silence }
      · -- the copy has come to its end, and the tail is published
        have hstep : s.ring.consumerStep =
            { s.ring with
              tail := tail, released := s.ring.popped.length, consumer := .idle } := by
          unfold SoundRing.consumerStep
          rw [hc]
          exact if_neg hmore
        rw [hstep]
        dsimp only
        rw [if_pos rfl, List.drop_length, List.append_nil]
        exact h.handOn hthread hc hmore

theorem Inv.step (h : s.Inv) (a : AudioAct) : (s.step a).Inv := by
  cases a with
  | tryPush sample => exact h.tryPush sample
  | producer => exact h.producer
  | audioCb n => exact h.audioCb n
  | consumer => exact h.consumer

theorem Inv.playing (h : s.Inv) : s.Plays where
  stream := h.stream
  order := (List.prefix_append _ _).trans (h.popped ▸ h.ring.order)
  waiting := h.released ▸ h.ring.stored
  full b hb := by
    have hle := h.fits b hb
    rw [data, List.length_append, List.length_replicate]
    omega
  silence := h.silence

/-- **The device plays what was pushed**, in every interleaving of the CPU thread, which
pushes one sample after the other, and the audio thread, which is asked for any amounts: what
the device is given is the samples that were pushed, in their order and without a gap, and
silence, which comes only where no sample was left of those published when it asked. -/
theorem plays (as : List AudioAct) : (ActionRun.exec step {} as).Plays := by
  have hinv : (ActionRun.exec step {} as).Inv :=
    ActionRun.exec_preserves (fun _ a h => h.step a) Inv.init as
  exact hinv.playing

/-- A device that asks for three samples when there is one. -/
example : (ActionRun.exec step {} [.tryPush 5, .producer, .producer, .producer, .audioCb 6,
    .consumer, .consumer, .consumer]).stream = [5, 0, 0] := by decide

end AudioOutput
