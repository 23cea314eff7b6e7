import PieceEmu.Lib.Run
import PieceEmu.Soc.RegisterFiles
import PieceEmu.Soc.WakePoints

/-!
# Continuous playback

A program plays sound by arming channel 1 of the DMA again and again: the buffer is taken
at once, its completion is scheduled a buffer duration (`SoundIrq.delta`) later, and the
handler of the completion interrupt arms the channel for the next buffer. Two delays come
in between that no two rounds have in common: the tick that completes a buffer is late by
whatever instruction was running, and the handler takes its time before it writes the
enable register.

Neither is carried over. A buffer that is armed less than a duration after the last
completion *was due* is counted from there, not from the write, so the completions stay
at whole multiples of the duration after the first start (`Playback.no_drift`). The one
value that could spoil this is the cycle 0, which stands for no completion at all; but a
duration is never zero, and the clock does not come round.
-/

/-- What is done with the sound channel. -/
inductive PlayAct
  /-- The program writes `rCNT`, `rSADR` and `rHSEN` of channel 1, at the cycle `now`. -/
  | arm (now : U64) (cnt sadr : U32) (en : U16)
  /-- `Sound::tick`. -/
  | tick (cycles : U64)

/-- The sound channel: its DMA, its schedule and the clock. -/
structure Playback where
  hsdma : Hsdma
  sound : SoundIrq
  clk : ClockControl
  /-- How often `raise` has been called for `HSDMA1`. -/
  raised : ℕ := 0
  /-- Ghost: how often the channel has been armed. -/
  starts : ℕ := 0
  /-- Ghost: the cycle of the last action. -/
  now : U64 := 0

namespace Playback

variable (p : Playback)

/-- The register writes of `PlayAct.arm`, with the calls of `on_ch1_start` they make. -/
def arm (now : U64) (cnt sadr : U32) (en : U16) : Playback :=
  let h := ((p.hsdma.writeCnt 1 fun _ => cnt).writeSadr 1 fun _ => sadr).onEnWrite 1 en
  { p with
    hsdma := h
    sound := (h.ch1Starts.drop p.hsdma.ch1Starts.length).foldl
      (fun s start => s.handleCh1Start p.clk now start.2) p.sound
    starts := p.starts + 1
    now }

/-- `Sound::tick`. -/
def tick (cycles : U64) : Playback :=
  let s := p.sound.tick cycles
  { p with
    sound := s.1
    hsdma := if s.2 then p.hsdma.finishCh1 else p.hsdma
    raised := if s.2 then p.raised + 1 else p.raised
    now := cycles }

/-- One action. -/
def step (p : Playback) : PlayAct → Playback
  | .arm now cnt sadr en => p.arm now cnt sadr en
  | .tick cycles => p.tick cycles

/-! ### The statement -/

/-- **Continuous playback** of buffers of `n` samples: time does not go back, and the channel
is armed when the last buffer has been completed, less than a duration after it was due. -/
def Continuous (n : U32) (p : Playback) : PlayAct → Prop
  | .arm now cnt _ en =>
    p.now ≤ now ∧ p.sound.pending = false ∧
      now.toNat < p.sound.completeCycle.toNat + (SoundIrq.delta p.clk n).toNat ∧
      cnt &&& 0x00FFFFFF = n ∧ en.getLsbD 0 = true
  | .tick cycles => p.now ≤ cycles

/-- Channel 1 is disabled, with nothing left to count. -/
structure AtRest (h : Hsdma) : Prop where
  live : h.ch1.en = false ∧ h.ch1.cnt = 0
  raw : (h.chan 1).en.getLsbD 0 = false ∧ (h.chan 1).cnt = 0

instance (n : U32) (p : Playback) : (a : PlayAct) → Decidable (Continuous n p a)
  | .arm .. => inferInstanceAs (Decidable (_ ∧ _ ∧ _ ∧ _ ∧ _))
  | .tick _ => inferInstanceAs (Decidable (_ ≤ _))

/-- **On schedule**: the last completion is due a whole number of durations after the first
start, each start has had or awaits one interrupt, and between a completion and the next
start the channel is at rest. -/
structure OnSchedule (first : U64) (n : U32) : Prop where
  due : p.sound.completeCycle =
    BitVec.ofNat 64 (first.toNat + p.starts * (SoundIrq.delta p.clk n).toNat)
  once : p.raised + (if p.sound.pending then 1 else 0) = p.starts
  /-- A tick completes a buffer at the cycle it is due, or as much later as it is late. -/
  fires : p.sound.pending = true → ∀ cycles,
    (p.tick cycles).raised = p.raised + 1 ↔ p.sound.completeCycle ≤ cycles
  rest : p.sound.pending = false → AtRest p.hsdma

/-! ### The duration -/

/-- A duration is neither zero nor long. -/
theorem delta_bounds (clk : ClockControl) {n : U32} (hn : n ≠ 0) (hlt : n.toNat < 2 ^ 24) :
    0 < (SoundIrq.delta clk n).toNat ∧ (SoundIrq.delta clk n).toNat < 2 ^ 36 := by
  obtain ⟨hlow, hhigh⟩ := clk.cpuClockHz_bounds
  have hpos : 1 ≤ n.toNat := by bv_omega
  have hprod : n.toNat * clk.cpuClockHz.toNat < 2 ^ 24 * 2 ^ 26 :=
    Nat.mul_lt_mul'' hlt (by omega)
  have hmin : 1 * 3000000 ≤ n.toNat * clk.cpuClockHz.toNat := Nat.mul_le_mul hpos hlow
  have hdelta : (SoundIrq.delta clk n).toNat = n.toNat * clk.cpuClockHz.toNat / 32000 := by
    have hn64 : n.toNat % 2 ^ 64 = n.toNat := Nat.mod_eq_of_lt (by omega)
    have hhz64 : clk.cpuClockHz.toNat % 2 ^ 64 = clk.cpuClockHz.toNat :=
      Nat.mod_eq_of_lt (by omega)
    rw [SoundIrq.delta, BitVec.toNat_udiv, BitVec.toNat_mul, BitVec.toNat_setWidth,
      BitVec.toNat_setWidth, hn64, hhz64, Nat.mod_eq_of_lt (by omega)]
    rfl
  rw [hdelta]
  omega

/-! ### The actions -/

theorem atRest_finishCh1 (h : Hsdma) : AtRest h.finishCh1 := by
  have hchan : h.finishCh1.chan 1 = { h.chan 1 with en := (h.chan 1).en &&& ~~~1, cnt := 0 } :=
    h.chan_setChan 1 fun c => { c with en := c.en &&& ~~~1, cnt := 0 }
  refine ⟨⟨rfl, rfl⟩, ?_, ?_⟩
  · rw [hchan, BitVec.getLsbD_and]
    exact Bool.and_false _
  · rw [hchan]

/-- The registers of channel 1, written before it is enabled. -/
theorem chan_writes (h : Hsdma) (cnt sadr : U32) :
    ((h.writeCnt 1 fun _ => cnt).writeSadr 1 fun _ => sadr).chan 1 =
        { h.chan 1 with cnt, sadr } ∧
      ((h.writeCnt 1 fun _ => cnt).writeSadr 1 fun _ => sadr).ch1Starts = h.ch1Starts := by
  refine ⟨?_, rfl⟩
  rw [Hsdma.writeSadr, Hsdma.chan_setLive, Hsdma.chan_setChan, Hsdma.writeCnt, Hsdma.chan_setLive,
    Hsdma.chan_setChan]

theorem ch1Starts_onEnWrite (h : Hsdma) {en : U16} (hold : (h.chan 1).en.getLsbD 0 = false)
    (hnew : en.getLsbD 0 = true) :
    (h.onEnWrite 1 en).ch1Starts =
      h.ch1Starts ++ [((h.chan 1).sadr &&& 0x0FFFFFFF, (h.chan 1).cnt &&& 0x00FFFFFF)] := by
  rw [Hsdma.onEnWrite, hold, hnew]
  change h.ch1Starts ++ [(Hsdma.liveSadr _ 1, Hsdma.liveCnt _ 1)] = _
  rw [Hsdma.liveSadr, Hsdma.liveCnt, Hsdma.chan_setChan]

/-- A disabled channel that is armed starts once, with the count it was given. -/
theorem sound_arm (now : U64) (cnt sadr : U32) {en : U16}
    (hold : (p.hsdma.chan 1).en.getLsbD 0 = false) (hnew : en.getLsbD 0 = true) :
    (p.arm now cnt sadr en).sound = p.sound.handleCh1Start p.clk now (cnt &&& 0x00FFFFFF) := by
  obtain ⟨hchan, hstarts⟩ := chan_writes p.hsdma cnt sadr
  rw [arm, ch1Starts_onEnWrite _ (by rw [hchan]; exact hold) hnew, hstarts, List.drop_left, hchan]
  rfl

/-! ### The schedule -/

/-- **The invariant** from the first start on: the schedule, and that the buffer that was
started last is counted from a cycle that has passed. -/
structure Inv (first : U64) (n : U32) : Prop where
  schedule : p.OnSchedule first n
  started : 1 ≤ p.starts
  base : first.toNat + (p.starts - 1) * (SoundIrq.delta p.clk n).toNat ≤ p.now.toNat
  completed : p.sound.pending = false →
    p.sound.lastIrqCycle = p.sound.completeCycle ∧ p.sound.completeCycle ≤ p.now

/-- **What a tick does**: it completes the buffer that is due, if one is. -/
theorem tick_cases (cycles : U64) :
    (p.sound.pending = true ∧ p.sound.completeCycle ≤ cycles ∧
      p.tick cycles =
        { p with
          sound := { p.sound with pending := false, lastIrqCycle := p.sound.completeCycle }
          hsdma := p.hsdma.finishCh1
          raised := p.raised + 1
          now := cycles }) ∨
    (p.sound.pending = true → cycles < p.sound.completeCycle) ∧
      p.tick cycles = { p with now := cycles } := by
  rw [tick, SoundIrq.tick]
  cases hp : p.sound.pending with
  | false => exact .inr ⟨nofun, rfl⟩
  | true =>
    rw [Bool.not_true, if_neg Bool.false_ne_true]
    by_cases hlt : cycles < p.sound.completeCycle
    · rw [if_pos hlt]
      exact .inr ⟨fun _ => hlt, rfl⟩
    · rw [if_neg hlt]
      exact .inl ⟨rfl, BitVec.not_lt.mp hlt, rfl⟩

theorem fires_tick (h : p.sound.pending = true) (cycles : U64) :
    (p.tick cycles).raised = p.raised + 1 ↔ p.sound.completeCycle ≤ cycles := by
  rcases p.tick_cases cycles with ⟨-, hle, heq⟩ | ⟨hlt, heq⟩
  · rw [heq]
    exact iff_of_true rfl hle
  · rw [heq]
    exact iff_of_false (Nat.succ_ne_self _).symm (BitVec.not_le.mpr (hlt h))

variable {p} {first : U64} {n : U32}

theorem Inv.tick (h : p.Inv first n) {cycles : U64} (hc : Continuous n p (.tick cycles)) :
    (p.tick cycles).Inv first n := by
  have hnow : p.now.toNat ≤ cycles.toNat := hc
  rcases p.tick_cases cycles with ⟨hp, hle, heq⟩ | ⟨hlt, heq⟩
  · have honce := h.schedule.once
    rw [hp, if_pos rfl] at honce
    rw [heq]
    exact
      { schedule :=
          { due := h.schedule.due
            once := honce
            fires := nofun
            rest := fun _ => atRest_finishCh1 _ }
        started := h.started
        base := Nat.le_trans h.base hnow
        completed := fun _ => ⟨rfl, hle⟩ }
  · rw [heq]
    exact
      { schedule :=
          { due := h.schedule.due
            once := h.schedule.once
            fires := fun hp => fires_tick _ hp
            rest := h.schedule.rest }
        started := h.started
        base := Nat.le_trans h.base hnow
        completed := fun hp => ⟨(h.completed hp).1, BitVec.le_trans (h.completed hp).2 hc⟩ }

/-- **A start**, counted from a cycle `base` that is a whole number of durations after the
first start and has passed. -/
theorem Inv.start {now : U64} {cnt sadr : U32} {en : U16} (hn : n ≠ 0)
    (hcnt : cnt &&& 0x00FFFFFF = n) (hold : (p.hsdma.chan 1).en.getLsbD 0 = false)
    (hnew : en.getLsbD 0 = true) (hraised : p.raised = p.starts) {base : U64}
    (hbase : (if p.sound.lastIrqCycle ≠ 0 ∧ p.sound.lastIrqCycle ≤ now ∧
      now - p.sound.lastIrqCycle < SoundIrq.delta p.clk n
      then p.sound.lastIrqCycle else now) = base)
    (hle : base ≤ now)
    (heq : base.toNat = first.toNat + p.starts * (SoundIrq.delta p.clk n).toNat) :
    (p.arm now cnt sadr en).Inv first n := by
  have hsound := p.sound_arm now cnt sadr hold hnew
  rw [hcnt, SoundIrq.handleCh1Start, if_neg hn] at hsound
  dsimp only at hsound
  rw [hbase] at hsound
  have hnext : base + SoundIrq.delta p.clk n =
      BitVec.ofNat 64 (first.toNat + (p.starts + 1) * (SoundIrq.delta p.clk n).toNat) := by
    apply BitVec.eq_of_toNat_eq
    rw [BitVec.toNat_add, BitVec.toNat_ofNat, heq, Nat.succ_mul, Nat.add_assoc]
  have hpending : (p.arm now cnt sadr en).sound.pending = true := by rw [hsound]
  exact
    { schedule :=
        { due := by rw [hsound]; exact hnext
          once := by rw [hpending, if_pos rfl]; exact congrArg (· + 1) hraised
          fires := fun hp => fires_tick _ hp
          rest := fun hp => absurd (hpending.symm.trans hp) Bool.noConfusion }
      started := Nat.succ_pos _
      base := heq ▸ hle
      completed := fun hp => absurd (hpending.symm.trans hp) Bool.noConfusion }

/-- **The first start**, which continues nothing. -/
theorem Inv.init {hsdma : Hsdma} {sound : SoundIrq} {clk : ClockControl} {cnt sadr : U32}
    {en : U16} (hn : n ≠ 0) (hcnt : cnt &&& 0x00FFFFFF = n)
    (hold : (hsdma.chan 1).en.getLsbD 0 = false) (hnew : en.getLsbD 0 = true)
    (hfresh : sound.lastIrqCycle = 0 ∨ first < sound.lastIrqCycle ∨
      sound.lastIrqCycle.toNat + (SoundIrq.delta clk n).toNat ≤ first.toNat) :
    ((Playback.mk hsdma sound clk 0 0 0).arm first cnt sadr en).Inv first n := by
  refine Inv.start hn hcnt hold hnew rfl (if_neg ?_) (BitVec.le_refl first) ?_
  · rintro ⟨hne, hle, hlt⟩
    rcases hfresh with hzero | hlater | hlong
    · exact hne hzero
    · exact absurd hle (BitVec.not_le.mpr hlater)
    · dsimp only at hle hlt
      bv_omega
  · rw [Nat.zero_mul, Nat.add_zero]

/-- **A start that continues** is counted from the last completion. -/
theorem Inv.arm (h : p.Inv first n) (hn : n ≠ 0) (hlt : n.toNat < 2 ^ 24) {now : U64}
    {cnt sadr : U32} {en : U16} (hc : Continuous n p (.arm now cnt sadr en)) :
    (p.arm now cnt sadr en).Inv first n := by
  obtain ⟨hnow, hp, hnear, hcnt, hnew⟩ := hc
  obtain ⟨hlast, hpast⟩ := h.completed hp
  have honce := h.schedule.once
  rw [hp, if_neg Bool.false_ne_true, Nat.add_zero] at honce
  obtain ⟨hpos, hshort⟩ := delta_bounds p.clk hn hlt
  -- had the schedule wrapped, the completion would lie further back than a duration
  have hdue : p.sound.completeCycle.toNat =
      first.toNat + p.starts * (SoundIrq.delta p.clk n).toNat := by
    have hwrap := congrArg BitVec.toNat h.schedule.due
    have hbase := h.base
    have hstarts : p.starts * (SoundIrq.delta p.clk n).toNat =
        (p.starts - 1) * (SoundIrq.delta p.clk n).toNat + (SoundIrq.delta p.clk n).toNat := by
      rw [← Nat.succ_mul, Nat.succ_eq_add_one, Nat.sub_add_cancel h.started]
    rw [BitVec.toNat_ofNat] at hwrap
    rw [hstarts] at hwrap ⊢
    have hle : p.now.toNat ≤ now.toNat := hnow
    have hnow64 := now.isLt
    omega
  have hlate : p.sound.completeCycle ≤ now := BitVec.le_trans hpast hnow
  have hne : p.sound.completeCycle ≠ 0 := by
    intro hzero
    have hmul := Nat.le_mul_of_pos_left (SoundIrq.delta p.clk n).toNat h.started
    rw [hzero] at hdue
    change 0 = _ at hdue
    omega
  refine Inv.start hn hcnt (h.schedule.rest hp).raw.1 hnew honce (if_pos ?_) (hlast ▸ hlate)
    (hlast ▸ hdue)
  rw [hlast]
  exact ⟨hne, hlate, by bv_omega⟩

theorem Inv.step (h : p.Inv first n) (hn : n ≠ 0) (hlt : n.toNat < 2 ^ 24) (a : PlayAct)
    (hc : Continuous n p a) : (p.step a).Inv first n := by
  cases a with
  | arm now cnt sadr en => exact h.arm hn hlt hc
  | tick cycles => exact h.tick hc

/-- **Continuous playback does not drift.** The channel is at rest and is armed for the first
time, which continues no earlier playback; whatever ticks and continuous starts follow, the
`k`-th completion is due `k` durations after the first start, has one interrupt and leaves the
channel at rest. -/
theorem no_drift {hsdma : Hsdma} {sound : SoundIrq} {clk : ClockControl} {cnt sadr : U32}
    {en : U16} (hn : n ≠ 0) (hcnt : cnt &&& 0x00FFFFFF = n)
    (hold : (hsdma.chan 1).en.getLsbD 0 = false) (hnew : en.getLsbD 0 = true)
    (hfresh : sound.lastIrqCycle = 0 ∨ first < sound.lastIrqCycle ∨
      sound.lastIrqCycle.toNat + (SoundIrq.delta clk n).toNat ≤ first.toNat)
    {as : List PlayAct}
    (hrun : ActionRun.Along step (Continuous n)
      ((Playback.mk hsdma sound clk 0 0 0).arm first cnt sadr en) as) :
    (ActionRun.exec step ((Playback.mk hsdma sound clk 0 0 0).arm first cnt sadr en)
      as).OnSchedule first n := by
  have hlt : n.toNat < 2 ^ 24 := by
    rw [← hcnt, BitVec.toNat_and]
    exact Nat.lt_of_le_of_lt Nat.and_le_right (by decide)
  have hinv := ActionRun.exec_invariant (I := fun p : Playback => p.Inv first n)
    (fun p a h hc => h.step hn hlt a hc) (Inv.init hn hcnt hold hnew hfresh) hrun
  exact hinv.schedule

/-- Three buffers of 128 samples at 24 MHz, with ticks that are late by 1, by 500 and not at
all, and a handler that takes 2000 cycles and then 40000. -/
def threeBuffers : List PlayAct :=
  [.tick 100001, .tick 196001, .arm 198001 128 0x100000 1, .tick 292500,
    .arm 332500 128 0x100200 1, .tick 388000]

/-- The third completion is due 288000 cycles after the first start. -/
theorem no_drift_threeBuffers :
    let p := ActionRun.exec step ((Playback.mk {} {} {} 0 0 0).arm 100000 128 0x100000 1)
      threeBuffers
    p.starts = 3 ∧ p.OnSchedule 100000 128 := by
  have hrun : ActionRun.Along step (Continuous 128)
      ((Playback.mk {} {} {} 0 0 0).arm 100000 128 0x100000 1) threeBuffers :=
    ⟨by decide +kernel, by decide +kernel, by decide +kernel, by decide +kernel,
      by decide +kernel, by decide +kernel, trivial⟩
  exact ⟨rfl, no_drift (by decide) (by decide) rfl rfl (.inl rfl) hrun⟩

end Playback
