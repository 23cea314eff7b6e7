import PieceEmu.System.CycleClock
import PieceEmu.System.RetroRun

/-!
# A libretro frame ends

Each step of the loop of `retro_run` either raises the cycle count or comes closer to one
that does: a burst runs if the next tick lies ahead, a tick puts the next one ahead, and a
halted CPU jumps ahead. `LibretroCore.rank` counts the steps that are left, and an
iteration takes three of them, so that no two iterations pass without the count rising.

What the loop does not look at is whether the instruction that halts the CPU has carried
the count past the end of the frame. A halted CPU then jumps *back* to it.
`LibretroCore.frame_ends_iff` says that the frame ends as it should exactly if no jump
starts behind its end, and `LibretroCore.nmiFrame_goes_back` is a frame in which one does.
-/

namespace LibretroCore

variable (io : IoSpace PiecePeripherals) (r : LibretroCore)

/-! ### The statement -/

/-- The next step executes an instruction. -/
def Executes : Prop := ∃ stop, r.phase = .burst stop ∧ r.inBurst stop = true

/-- The next step is a jump: the CPU is halted after the tick that was due. -/
def Jumps : Prop :=
  r.phase = .afterBurst ∧ r.machine.cpu.fault = false ∧
    (r.tickIfDue io).machine.cpu.inHalt = true

instance : Decidable r.Executes :=
  decidable_of_iff ((match r.phase with | .burst stop => r.inBurst stop | _ => false) = true) <| by
    unfold Executes
    cases r.phase <;> simp

instance : Decidable (r.Jumps io) := inferInstanceAs (Decidable (_ ∧ _ ∧ _))

/-- **A frame ends**: the loop is left, the cycle count never decreases, any two
consecutive iterations raise it, a jump does not overshoot the target, and when the loop
has been left, the target has been reached or the CPU has faulted. -/
structure FrameEnds (run : ℕ → LibretroCore) : Prop where
  ends : ∃ n, (run n).phase = .done
  monotone : ∀ n, (run n).totalCycles ≤ (run (n + 1)).totalCycles
  progress : ∀ i j k, i < j → j < k → (run i).phase = .head → (run j).phase = .head →
    (run k).phase = .head → (run i).totalCycles < (run k).totalCycles
  noOvershoot : ∀ n, (run n).Jumps io → (run (n + 1)).totalCycles ≤ (run n).target
  reached : ∀ n, (run n).phase = .done →
    (run n).target ≤ (run n).totalCycles ∨ (run n).machine.cpu.fault = true

/-! ### What the parts of the loop leave alone -/

/-- A clock change is noted, and nothing else. -/
theorem answerClockChanges_eq : ∃ hz, r.answerClockChanges =
    { r with
      cachedCpuHz := hz
      machine := r.machine.mapPeriph ({ · with clockChanges := [] }) } := by
  have hfold (changes : List ClockChange) (r : LibretroCore) :
      ∃ hz, changes.foldl onClockChange r = { r with cachedCpuHz := hz } := by
    induction changes generalizing r with
    | nil => exact ⟨r.cachedCpuHz, rfl⟩
    | cons change changes ih => exact ih (r.onClockChange change)
  obtain ⟨hz, h⟩ := hfold r.machine.periph.clockChanges r
  refine ⟨hz, ?_⟩
  rw [answerClockChanges, h]

/-- The tick decides when the next one is due, and leaves the rest of the loop alone. -/
structure Ticked (r r' : LibretroCore) : Prop where
  totalCycles : r'.totalCycles = r.totalCycles
  tickBurst : r'.tickBurst = r.tickBurst
  target : r'.target = r.target
  phase : r'.phase = r.phase
  wake : ∃ w, r'.nextTimerWake = r.timerWake w

theorem ticked_doTick : Ticked r (r.doTick io) := by
  obtain ⟨hz, h⟩ := (r.mapMachine (·.tickAndPoll io r.totalCycles)).answerClockChanges_eq
  constructor
  all_goals
    unfold doTick
    rw [h]
  · rfl
  · rfl
  · rfl
  · rfl
  · exact ⟨_, rfl⟩

theorem cpuStep_totalCycles : (r.cpuStep io).totalCycles =
    r.totalCycles + BitVec.ofInt 64 (r.machine.stepCycles io) := rfl

theorem cpuStep_frame : (r.cpuStep io).tickBurst = r.tickBurst ∧
    (r.cpuStep io).target = r.target ∧ (r.cpuStep io).phase = r.phase := by
  obtain ⟨hz, h⟩ := (r.mapMachine (·.step io)).answerClockChanges_eq
  unfold cpuStep
  rw [h]
  exact ⟨rfl, rfl, rfl⟩

variable {r}

/-! ### Cycles -/

/-- A frame of the loop, with room behind it: the count stays within an instruction of
the target, and no sum wraps. -/
structure InFrame (target tickBurst : U64) (r : LibretroCore) : Prop where
  target_eq : r.target = target
  tickBurst_eq : r.tickBurst = tickBurst
  tickBurst_pos : 0 < tickBurst.toNat
  room : target.toNat + 4 * tickBurst.toNat + 2 ^ 31 ≤ 2 ^ 64
  near : r.totalCycles.toNat < target.toNat + 2 ^ 31
  stop_le : ∀ stop, r.phase = .burst stop → stop.toNat ≤ target.toNat

/-- The count after an instruction that is executed. -/
theorem toNat_cpuStep {target tickBurst : U64} (h : InFrame target tickBurst r)
    (hlt : r.totalCycles.toNat < target.toNat) (hpos : 0 < r.machine.stepCycles io) :
    (r.cpuStep io).totalCycles.toNat =
      r.totalCycles.toNat + (r.machine.stepCycles io).toNat := by
  have := h.room
  rw [cpuStep_totalCycles, Machine.toNat_add_stepCycles hpos.le (by omega)]

/-- **A tick puts the next one ahead.** -/
theorem lt_timerWake {target tickBurst : U64} (h : InFrame target tickBurst r) (w : U64) :
    r.totalCycles.toNat < (r.timerWake w).toNat := by
  obtain ⟨-, rfl, hpos, hroom, hnear, -⟩ := h
  have hearliest : (r.totalCycles + r.tickBurst).toNat =
      r.totalCycles.toNat + r.tickBurst.toNat := by
    rw [BitVec.toNat_add]
    exact Nat.mod_eq_of_lt (by omega)
  have hlatest : (r.totalCycles + r.eventInterval).toNat =
      r.totalCycles.toNat + 4 * r.tickBurst.toNat := by
    rw [eventInterval, BitVec.toNat_add, BitVec.toNat_mul]
    change (_ + r.tickBurst.toNat * 4 % 2 ^ 64) % 2 ^ 64 = _
    omega
  unfold timerWake CpuRunner.clamp
  dsimp only
  split_ifs with _ hlo
  · omega
  · omega
  · omega
  · have := Nat.not_lt.mp fun hlt => hlo (BitVec.lt_def.mpr hlt)
    omega

/-- The jump of a halted CPU ends at the target, or ahead. -/
theorem toNat_advanceTo {target tickBurst : U64} (h : InFrame target tickBurst r) :
    r.advanceTo.toNat ≤ target.toNat ∧
      (r.totalCycles.toNat < r.advanceTo.toNat ∨ r.advanceTo.toNat = target.toNat) := by
  obtain ⟨rfl, rfl, hpos, hroom, hnear, -⟩ := h
  have hearliest : (r.totalCycles + r.tickBurst).toNat =
      r.totalCycles.toNat + r.tickBurst.toNat := by
    rw [BitVec.toNat_add]
    exact Nat.mod_eq_of_lt (by omega)
  unfold advanceTo
  rw [Words.toNat_stdMin, Words.toNat_stdMax, hearliest]
  omega

/-! ### One step stays in the frame -/

theorem InFrame.of_eq {target tickBurst : U64} (h : InFrame target tickBurst r)
    {r' : LibretroCore} (htarget : r'.target = r.target) (hburst : r'.tickBurst = r.tickBurst)
    (hnear : r'.totalCycles.toNat < target.toNat + 2 ^ 31)
    (hstop : ∀ stop, r'.phase = .burst stop → stop.toNat ≤ target.toNat) :
    InFrame target tickBurst r' where
  target_eq := htarget.trans h.target_eq
  tickBurst_eq := hburst.trans h.tickBurst_eq
  tickBurst_pos := h.tickBurst_pos
  room := h.room
  near := hnear
  stop_le := hstop

theorem InFrame.ticked {target tickBurst : U64} (h : InFrame target tickBurst r)
    {r' : LibretroCore} (ht : Ticked r r') : InFrame target tickBurst r' := by
  refine h.of_eq ht.target ht.tickBurst ?_ ?_
  · rw [ht.totalCycles]
    exact h.near
  · rw [ht.phase]
    exact h.stop_le

/-- After the tick that was due, the next one lies ahead. -/
theorem tickIfDue_spec {target tickBurst : U64} (h : InFrame target tickBurst r) :
    InFrame target tickBurst (r.tickIfDue io) ∧
      (r.tickIfDue io).totalCycles = r.totalCycles ∧
      r.totalCycles.toNat < (r.tickIfDue io).nextTimerWake.toNat := by
  unfold tickIfDue
  split_ifs with hdue
  · have ht := ticked_doTick io r
    obtain ⟨w, hw⟩ := ht.wake
    refine ⟨h.ticked ht, ht.totalCycles, ?_⟩
    rw [hw]
    exact lt_timerWake h w
  · exact ⟨h, rfl, Nat.not_le.mp fun hle => hdue (BitVec.le_def.mpr hle)⟩

/-- The jump ends where `advance_to` says. -/
theorem jump_spec {target tickBurst : U64} (h : InFrame target tickBurst r) :
    InFrame target tickBurst (r.jump io) ∧ (r.jump io).totalCycles = r.advanceTo := by
  have hjumped : InFrame target tickBurst
      { r.mapMachine Machine.askedWakePoint with totalCycles := r.advanceTo } :=
    h.of_eq rfl rfl (by have := (toNat_advanceTo h).1; dsimp only; omega) h.stop_le
  have ht := ticked_doTick io
    { r.mapMachine Machine.askedWakePoint with totalCycles := r.advanceTo }
  exact ⟨hjumped.ticked ht, ht.totalCycles⟩

/-- **What a step can do.** The count rises with an instruction and jumps with a halted
CPU; else the loop goes from phase to phase. -/
inductive FrameStep (r r' : LibretroCore) : Prop
  | leaves (phase : r.phase = .head)
      (reached : r.target ≤ r.totalCycles ∨ r.machine.cpu.fault = true)
      (next : r' = r.leave)
  | faults (phase : r.phase = .afterBurst) (fault : r.machine.cpu.fault = true)
      (next : r' = r.leave)
  | enters (phase : r.phase = .head) (before : r.totalCycles < r.target)
      (running : r.machine.cpu.fault = false)
      (next : r' = { r with phase := .burst (Words.stdMin r.nextTimerWake r.target) })
  | executes (stop : U64) (phase : r.phase = .burst stop) (go : r.inBurst stop = true)
      (next : r' = r.cpuStep io)
  | endsBurst (stop : U64) (phase : r.phase = .burst stop) (stay : r.inBurst stop = false)
      (next : r' = { r with phase := .afterBurst })
  | goesOn (phase : r.phase = .afterBurst) (running : r.machine.cpu.fault = false)
      (awake : (r.tickIfDue io).machine.cpu.inHalt = false)
      (next : r' = { r.tickIfDue io with phase := .head })
  | jumps (jump : r.Jumps io) (next : r' = { (r.tickIfDue io).jump io with phase := .head })
  | stays (phase : r.phase = .done) (next : r' = r)

/-- **The inversion lemma of the loop.** -/
theorem frameStep : FrameStep io r (r.step io) := by
  unfold step
  split
  case h_1 hphase =>
    unfold stepHead
    split_ifs with hgo
    · rw [Bool.and_eq_true, decide_eq_true_eq, Bool.not_eq_true'] at hgo
      exact .enters hphase hgo.1 hgo.2 rfl
    · refine .leaves hphase ?_ rfl
      by_cases hlt : r.totalCycles < r.target
      · exact .inr (by simpa [hlt] using hgo)
      · exact .inl (BitVec.not_lt.mp hlt)
  case h_2 stop hphase =>
    unfold stepBurst
    split_ifs with hgo
    · exact .executes stop hphase hgo rfl
    · exact .endsBurst stop hphase (Bool.eq_false_iff.mpr hgo) rfl
  case h_3 hphase =>
    unfold stepAfterBurst
    dsimp only
    split_ifs with hfault hhalt
    · exact .faults hphase hfault rfl
    · exact .jumps ⟨hphase, Bool.eq_false_iff.mpr hfault, hhalt⟩ rfl
    · exact .goesOn hphase (Bool.eq_false_iff.mpr hfault) (Bool.eq_false_iff.mpr hhalt) rfl
  case h_4 hphase => exact .stays hphase rfl

theorem InFrame.lt_target {target tickBurst : U64} (h : InFrame target tickBurst r) {stop : U64}
    (hphase : r.phase = .burst stop) (hgo : r.inBurst stop = true) :
    r.totalCycles.toNat < target.toNat := by
  unfold inBurst at hgo
  rw [Bool.and_eq_true, decide_eq_true_eq] at hgo
  exact Nat.lt_of_lt_of_le (BitVec.lt_def.mp hgo.2) (h.stop_le stop hphase)

/-- A step stays in the frame. -/
theorem InFrame.step {target tickBurst : U64} (h : InFrame target tickBurst r)
    (hpos : r.Executes → 0 < r.machine.stepCycles io) :
    InFrame target tickBurst (r.step io) := by
  cases frameStep io (r := r) with
  | leaves _ _ next | faults _ _ next =>
    rw [next]
    exact h.of_eq rfl rfl h.near nofun
  | enters _ _ _ next =>
    rw [next]
    refine h.of_eq rfl rfl h.near fun stop hstop => ?_
    obtain rfl := LibretroPhase.burst.inj hstop
    rw [← h.target_eq]
    exact BitVec.le_def.mp (Words.stdMin_le_right ..)
  | executes stop phase go next =>
    have hlt := h.lt_target phase go
    have hcount := toNat_cpuStep io h hlt (hpos ⟨stop, phase, go⟩)
    have hcost := Machine.stepCycles_lt r.machine io
    obtain ⟨hburst, htarget, hphase⟩ := cpuStep_frame io r
    rw [next]
    refine h.of_eq htarget hburst (by omega) ?_
    rw [hphase]
    exact h.stop_le
  | endsBurst _ _ _ next =>
    rw [next]
    exact h.of_eq rfl rfl h.near nofun
  | goesOn _ _ _ next =>
    obtain ⟨hticked, -, -⟩ := tickIfDue_spec io h
    rw [next]
    exact hticked.of_eq rfl rfl hticked.near nofun
  | jumps _ next =>
    obtain ⟨hticked, -, -⟩ := tickIfDue_spec io h
    obtain ⟨hjumped, -⟩ := jump_spec io hticked
    rw [next]
    exact hjumped.of_eq rfl rfl hjumped.near nofun
  | stays _ next =>
    rw [next]
    exact h

/-! ### One step gets on -/

variable (r) in
/-- **The steps that are left** until the count rises or the loop is left, at most. -/
def rank : ℕ :=
  match r.phase with
  | .head =>
    if r.target ≤ r.totalCycles ∨ r.machine.cpu.fault = true then 1
    else if r.inBurst (Words.stdMin r.nextTimerWake r.target) then 2 else 5
  | .burst stop => if r.inBurst stop then 1 else 4
  | .afterBurst => 3
  | .done => 0

theorem rank_of_done (hphase : r.phase = .done) : r.rank = 0 := by rw [rank, hphase]

theorem rank_of_afterBurst (hphase : r.phase = .afterBurst) : r.rank = 3 := by rw [rank, hphase]

theorem rank_of_leaves (hphase : r.phase = .head)
    (hleave : r.target ≤ r.totalCycles ∨ r.machine.cpu.fault = true) : r.rank = 1 := by
  rw [rank, hphase]
  exact if_pos hleave

/-- A head with a running CPU and the next tick ahead is close to an instruction. -/
theorem rank_head_le (hphase : r.phase = .head)
    (hahead : r.target ≤ r.totalCycles ∨
      r.machine.cpu.inHalt = false ∧ r.totalCycles < r.nextTimerWake) : r.rank ≤ 2 := by
  unfold rank
  rw [hphase]
  dsimp only
  split_ifs with hleave hgo
  · decide
  · exact Nat.le_refl _
  · rw [not_or, Bool.not_eq_true] at hleave
    obtain ⟨hhalt, hwake⟩ := hahead.resolve_left hleave.1
    refine absurd ?_ hgo
    unfold inBurst
    rw [hhalt, hleave.2]
    exact decide_eq_true (Words.lt_stdMin_iff.mpr ⟨hwake, BitVec.not_le.mp hleave.1⟩)

/-- The head of a burst is one step behind the head of the loop. -/
theorem rank_burst_lt (hphase : r.phase = .head) (hbefore : r.totalCycles < r.target)
    (hrunning : r.machine.cpu.fault = false) :
    rank { r with phase := .burst (Words.stdMin r.nextTimerWake r.target) } < r.rank := by
  have hleave : ¬(r.target ≤ r.totalCycles ∨ r.machine.cpu.fault = true) := by
    rw [hrunning]
    exact fun h => h.elim (fun hle => BitVec.not_le.mpr hbefore hle) Bool.noConfusion
  unfold rank
  rw [hphase]
  dsimp only
  rw [if_neg hleave]
  change (if r.inBurst _ = true then 1 else 4) < _
  split_ifs <;> decide

/-- **A jump gets on**, when it does not start behind the target. -/
theorem jump_getsOn {target tickBurst : U64} (h : InFrame target tickBurst r)
    (hstart : r.totalCycles ≤ r.target) :
    r.totalCycles.toNat < (r.jump io).totalCycles.toNat ∨
      (r.jump io).totalCycles.toNat = r.totalCycles.toNat ∧
        (r.jump io).target ≤ (r.jump io).totalCycles := by
  obtain ⟨hjumped, hto⟩ := jump_spec io h
  obtain ⟨hle, hahead⟩ := toNat_advanceTo h
  rw [BitVec.le_def, h.target_eq] at hstart
  rw [hjumped.target_eq, hto, BitVec.le_def]
  -- a jump that ends at the target is one only if it starts before
  omega

/-- **A step gets on**: unless a jump starts behind the target, the count rises, or it
stays and the rank falls. -/
theorem step_getsOn {target tickBurst : U64} (h : InFrame target tickBurst r)
    (hpos : r.Executes → 0 < r.machine.stepCycles io) (hrun : r.phase ≠ .done)
    (hjump : r.Jumps io → r.totalCycles ≤ r.target) :
    r.totalCycles.toNat < (r.step io).totalCycles.toNat ∨
      (r.step io).totalCycles.toNat = r.totalCycles.toNat ∧ (r.step io).rank < r.rank := by
  cases frameStep io (r := r) with
  | leaves phase reached next =>
    rw [next, rank_of_leaves phase reached, rank_of_done rfl]
    exact .inr ⟨rfl, Nat.zero_lt_succ _⟩
  | faults phase _ next =>
    rw [next, rank_of_afterBurst phase, rank_of_done rfl]
    exact .inr ⟨rfl, Nat.zero_lt_succ _⟩
  | enters phase before running next =>
    rw [next]
    exact .inr ⟨rfl, rank_burst_lt phase before running⟩
  | executes stop phase go next =>
    have hcount := toNat_cpuStep io h (h.lt_target phase go) (hpos ⟨stop, phase, go⟩)
    have := hpos ⟨stop, phase, go⟩
    rw [next]
    exact .inl (by omega)
  | endsBurst stop phase stay next =>
    have hfour : r.rank = 4 := by
      rw [rank, phase]
      exact if_neg (Bool.eq_false_iff.mp stay)
    rw [next, hfour, rank_of_afterBurst rfl]
    exact .inr ⟨rfl, Nat.lt_succ_self _⟩
  | goesOn phase running awake next =>
    obtain ⟨-, htotal, hwake⟩ := tickIfDue_spec io h
    rw [next, rank_of_afterBurst phase]
    refine .inr ⟨congrArg _ htotal, Nat.lt_succ_of_le (rank_head_le rfl (.inr ⟨awake, ?_⟩))⟩
    change (r.tickIfDue io).totalCycles < (r.tickIfDue io).nextTimerWake
    rw [htotal]
    exact BitVec.lt_def.mpr hwake
  | jumps jump next =>
    obtain ⟨hticked, htotal, -⟩ := tickIfDue_spec io h
    have hgo := jump_getsOn io hticked (by
      rw [htotal, hticked.target_eq, ← h.target_eq]
      exact hjump jump)
    rw [next, rank_of_afterBurst jump.1]
    rw [htotal] at hgo
    -- where the count stays, it was at the target already, and the loop is left
    exact hgo.imp_right fun hstay =>
      ⟨hstay.1, Nat.lt_succ_of_le (rank_head_le rfl (.inl hstay.2))⟩
  | stays phase _ => exact absurd phase hrun

/-! ### Frames -/

variable (r) (k5 k6 : U8)

/-- A frame has nearly 2 ^ 27 cycles at most. -/
theorem toNat_frameCycles_lt (hz : U32) : (CpuRunner.frameCycles hz).toNat < 2 ^ 27 := by
  unfold CpuRunner.frameCycles
  rw [BitVec.toNat_udiv, BitVec.toNat_setWidth]
  have := hz.isLt
  change hz.toNat % 2 ^ 64 / 60 < 2 ^ 27
  omega

/-- The buttons, and what the CPU makes of them, leave the loop alone. -/
theorem start_spec : ∃ hz, (r.start io k5 k6).totalCycles = r.totalCycles ∧
    (r.start io k5 k6).tickBurst = r.tickBurst ∧
    (r.start io k5 k6).target = r.totalCycles + CpuRunner.frameCycles hz ∧
    (r.start io k5 k6).phase = .head := by
  let press (m : Machine PiecePeripherals) (k : PortCtrl × List IrqSource) :=
    (m.mapPeriph ({ · with portctrl := k.1 })).raiseAll io k.2
  obtain ⟨hz, h⟩ := (r.mapMachine fun m =>
    let m := press m (m.periph.portctrl.setK5 k5)
    press m (m.periph.portctrl.setK6 k6)).answerClockChanges_eq
  refine ⟨hz, ?_⟩
  unfold start
  dsimp only [press] at h
  dsimp only
  rw [h]
  exact ⟨rfl, rfl, rfl, rfl⟩

variable {io r k5 k6}

theorem inFrame_start (hburst : 0 < r.tickBurst)
    (hroom : r.totalCycles.toNat + 4 * r.tickBurst.toNat + 2 ^ 32 ≤ 2 ^ 64) :
    InFrame (r.start io k5 k6).target r.tickBurst (r.start io k5 k6) := by
  obtain ⟨hz, htotal, htick, htarget, hphase⟩ := start_spec io r k5 k6
  have hframe := toNat_frameCycles_lt hz
  have hsum : (r.start io k5 k6).target.toNat =
      r.totalCycles.toNat + (CpuRunner.frameCycles hz).toNat := by
    rw [htarget, BitVec.toNat_add]
    exact Nat.mod_eq_of_lt (by omega)
  constructor
  · rfl
  · exact htick
  · exact BitVec.lt_def.mp hburst
  · omega
  · rw [htotal]
    omega
  · rw [hphase]
    exact nofun

/-- The heads of a loop are three steps apart at least. -/
theorem three_le_of_heads {run : ℕ → LibretroCore} (hrun : ∀ n, run (n + 1) = (run n).step io)
    {i j : ℕ} (hij : i < j) (hi : (run i).phase = .head) (hj : (run j).phase = .head) :
    i + 3 ≤ j := by
  have hbefore {n : ℕ} (h : (run (n + 1)).phase = .head) : (run n).phase = .afterBurst := by
    rw [hrun] at h
    cases frameStep io (r := run n) with
    | goesOn phase _ _ _ => exact phase
    | jumps jump _ => exact jump.1
    | leaves _ _ next | faults _ _ next | enters _ _ _ next | endsBurst _ _ _ next =>
      rw [next] at h
      exact LibretroPhase.noConfusion h
    | executes stop phase _ next =>
      rw [next, (cpuStep_frame io _).2.2, phase] at h
      exact LibretroPhase.noConfusion h
    | stays phase next =>
      rw [next, phase] at h
      exact LibretroPhase.noConfusion h
  have hafter : (run (i + 1)).phase ≠ .afterBurst := by
    rw [hrun]
    cases frameStep io (r := run i) with
    | leaves _ _ next | enters _ _ _ next =>
      rw [next]
      exact LibretroPhase.noConfusion
    | faults phase _ _ | executes _ phase _ _ | endsBurst _ phase _ _ | goesOn phase _ _ _
    | stays phase _ =>
      rw [hi] at phase
      exact LibretroPhase.noConfusion phase
    | jumps jump _ => exact LibretroPhase.noConfusion (hi.symm.trans jump.1)
  have hone : j ≠ i + 1 := by
    rintro rfl
    exact LibretroPhase.noConfusion (hi.symm.trans (hbefore hj))
  have htwo : j ≠ i + 2 := by
    rintro rfl
    exact hafter (hbefore hj)
  omega

/-- The rank is 5 at most. -/
theorem rank_le (r : LibretroCore) : r.rank ≤ 5 := by
  unfold rank
  split
  · split_ifs <;> decide
  · split_ifs <;> decide
  · decide
  · decide

variable (io) in
theorem step_of_done (h : r.phase = .done) : r.step io = r := by rw [step, h]

/-- The loop that has been left is not entered again. -/
theorem frame_done_of_le {n m : ℕ} (hn : (frame io r k5 k6 n).phase = .done) (hnm : n ≤ m) :
    (frame io r k5 k6 m).phase = .done := by
  induction m, hnm using Nat.le_induction with
  | base => exact hn
  | succ m _ ih =>
    change ((frame io r k5 k6 m).step io).phase = .done
    rwa [step_of_done io ih]

theorem not_executes_of_done (h : r.phase = .done) : ¬r.Executes := by
  rintro ⟨stop, hphase, -⟩
  exact LibretroPhase.noConfusion (h.symm.trans hphase)

theorem not_jumps_of_done (h : r.phase = .done) : ¬r.Jumps io := by
  rintro ⟨hphase, -⟩
  exact LibretroPhase.noConfusion (h.symm.trans hphase)

/-- A jump ends at the target at the latest. -/
theorem step_le_of_jumps {target tickBurst : U64} (h : InFrame target tickBurst r)
    (hjump : r.Jumps io) : (r.step io).totalCycles ≤ r.target := by
  cases frameStep io (r := r) with
  | jumps _ next =>
    obtain ⟨hticked, -, -⟩ := tickIfDue_spec io h
    obtain ⟨-, hto⟩ := jump_spec io hticked
    rw [next, h.target_eq, BitVec.le_def]
    exact (congrArg BitVec.toNat hto).trans_le (toNat_advanceTo hticked).1
  | goesOn _ _ awake _ => exact absurd hjump.2.2 (by rw [awake]; decide)
  | faults _ fault _ => exact Bool.noConfusion (fault.symm.trans hjump.2.1)
  | leaves phase _ _ | enters phase _ _ _ | executes _ phase _ _ | endsBurst _ phase _ _
  | stays phase _ =>
    exact LibretroPhase.noConfusion (phase.symm.trans hjump.1)

/-- The loop is left with the target reached, or the CPU faulted. -/
theorem reached_step
    (h : r.phase = .done → r.target ≤ r.totalCycles ∨ r.machine.cpu.fault = true)
    (hdone : (r.step io).phase = .done) :
    (r.step io).target ≤ (r.step io).totalCycles ∨ (r.step io).machine.cpu.fault = true := by
  cases frameStep io (r := r) with
  | leaves _ reached next =>
    rw [next]
    exact reached
  | faults _ fault next =>
    rw [next]
    exact .inr fault
  | stays phase next =>
    rw [next]
    exact h phase
  | executes stop phase _ next =>
    rw [next, (cpuStep_frame io r).2.2, phase] at hdone
    exact LibretroPhase.noConfusion hdone
  | enters _ _ _ next | endsBurst _ _ _ next | goesOn _ _ _ next | jumps _ next =>
    rw [next] at hdone
    exact LibretroPhase.noConfusion hdone

/-- **A frame ends as it should** if and only if no halted CPU jumps when its count has
passed the end of the frame: for every state of the machine, every program and every
setting of the tick burst that leaves the cycle count room below `2 ^ 64`, as long as
every instruction that is executed costs a positive number of cycles. -/
theorem frame_ends_iff (io : IoSpace PiecePeripherals) (r : LibretroCore) (k5 k6 : U8)
    (hburst : 0 < r.tickBurst)
    (hroom : r.totalCycles.toNat + 4 * r.tickBurst.toNat + 2 ^ 32 ≤ 2 ^ 64)
    (hpos : ∀ n, (frame io r k5 k6 n).Executes →
      0 < (frame io r k5 k6 n).machine.stepCycles io) :
    FrameEnds io (frame io r k5 k6) ↔
      ∀ n, (frame io r k5 k6 n).Jumps io →
        (frame io r k5 k6 n).totalCycles ≤ (frame io r k5 k6 n).target := by
  have hrun (n : ℕ) : frame io r k5 k6 (n + 1) = (frame io r k5 k6 n).step io := rfl
  have hframe (n : ℕ) :
      InFrame (r.start io k5 k6).target r.tickBurst (frame io r k5 k6 n) := by
    induction n with
    | zero => exact inFrame_start hburst hroom
    | succ n ih => exact ih.step io (hpos n)
  have hjumped (n : ℕ) (hj : (frame io r k5 k6 n).Jumps io) :
      (frame io r k5 k6 (n + 1)).totalCycles ≤ (frame io r k5 k6 n).target := by
    rw [hrun]
    exact step_le_of_jumps (hframe n) hj
  constructor
  · intro h n hj
    exact BitVec.le_trans (h.monotone n) (hjumped n hj)
  · intro hstart
    -- the count goes up, or stands while the rank of the phase goes down
    let count (n : ℕ) : ℕ := (frame io r k5 k6 n).totalCycles.toNat
    let steps (n : ℕ) : ℕ := (frame io r k5 k6 n).rank
    have hstep (n : ℕ) (hn : ¬(frame io r k5 k6 n).phase = .done) :
        count n < count (n + 1) ∨ count (n + 1) = count n ∧ steps (n + 1) < steps n :=
      step_getsOn io (hframe n) (hpos n) hn (hstart n)
    constructor
    · exact ActionRun.exists_ended count steps (fun n => (hframe n).near.le) hstep
    · intro n
      by_cases hn : (frame io r k5 k6 n).phase = .done
      · rw [hrun, step_of_done io hn]
        exact BitVec.le_refl _
      · rw [BitVec.le_def]
        rcases hstep n hn with h | ⟨h, -⟩
        · exact h.le
        · exact h.ge
    · intro i j k hij hjk hi hj hk
      have hij' := three_le_of_heads hrun hij hi hj
      have hjk' := three_le_of_heads hrun hjk hj hk
      have hrank : steps i ≤ 5 := rank_le _
      refine BitVec.lt_def.mpr
        (ActionRun.count_lt_of_rank_lt count steps hstep (fun n _ hn h => ?_) (by omega))
      rw [frame_done_of_le h hn.le] at hk
      exact LibretroPhase.noConfusion hk
    · exact hjumped
    · intro n
      induction n with
      | zero =>
        intro hn
        obtain ⟨_, -, -, -, hphase⟩ := start_spec io r k5 k6
        exact LibretroPhase.noConfusion (hphase.symm.trans hn)
      | succ n ih =>
        rw [hrun]
        exact reached_step ih

/-! ### Two frames -/

/-- What holds when the loop has been left is to be checked only until then. -/
theorem forall_frame {N : ℕ} {P : LibretroCore → Prop}
    (hN : (frame io r k5 k6 N).phase = .done) (hdone : ∀ r, r.phase = .done → P r)
    (hbefore : ∀ n < N, P (frame io r k5 k6 n)) (n : ℕ) : P (frame io r k5 k6 n) := by
  rcases Nat.lt_or_ge n N with hlt | hge
  · exact hbefore n hlt
  · exact hdone _ (frame_done_of_le hN hge)

/-- A frame of a board that boots into a halt. -/
def haltFrame : ℕ → LibretroCore :=
  frame (IoSpace.empty _) { machine := CpuRunner.haltBoard.reset (IoSpace.empty _) } 0xFF 0xFF

theorem frame_ends_halt : FrameEnds (IoSpace.empty _) haltFrame := by
  have hdone : (haltFrame 20).phase = .done := by decide +kernel
  refine (frame_ends_iff (IoSpace.empty _) _ 0xFF 0xFF (by decide) (by decide) ?_).mpr ?_
  · exact forall_frame (P := fun r => r.Executes → 0 < r.machine.stepCycles (IoSpace.empty _)) hdone
      (fun r hr h => absurd h (not_executes_of_done hr)) (by decide +kernel)
  · exact forall_frame (P := fun r => r.Jumps (IoSpace.empty _) → r.totalCycles ≤ r.target) hdone
      (fun r hr h => absurd h (not_jumps_of_done hr)) (by decide +kernel)

/-- A board with a halted CPU, whose watchdog asserts an NMI one cycle before the frame
ends. The handler of the NMI halts the CPU again. -/
def nmiBoard : Machine PiecePeripherals where
  cpu := { pc := 0xC00022, sp := 0x1000, inHalt := true, haltMode := .hlt, ttbr := 0xC00000 }
  bus :=
    { iram := fun _ => 0, sram := fun _ => 0, sramSize := 0x40000
      dev := { PiecePeripherals.attach {} with wdt := { ewd := 0x02, nextNmiCycle := 399999 } }
      flash := .flat ⟨0x80000, fun i =>
        -- the vector of the NMI, between halts
        if i = 28 then 0x20 else if i = 30 then 0xC0 else if i % 2 = 0 then 0x80 else 0⟩ }

/-- The frame of that board. -/
def nmiFrame : ℕ → LibretroCore :=
  frame (IoSpace.empty _) { machine := nmiBoard } 0xFF 0xFF

/-- **The count goes back**: the halt of the handler ends two cycles behind the frame, and
the CPU jumps to the end of the frame, which has been passed. -/
theorem nmiFrame_goes_back :
    (∀ n, (nmiFrame n).Executes → 0 < (nmiFrame n).machine.stepCycles (IoSpace.empty _)) ∧
      (nmiFrame 18).totalCycles = 400002 ∧ (nmiFrame 19).totalCycles = 400000 ∧
      ¬FrameEnds (IoSpace.empty _) nmiFrame := by
  have hpos : ∀ n, (nmiFrame n).Executes → 0 < (nmiFrame n).machine.stepCycles (IoSpace.empty _) :=
    forall_frame (N := 20) (P := fun r => r.Executes → 0 < r.machine.stepCycles (IoSpace.empty _))
      (by decide +kernel) (fun r hr h => absurd h (not_executes_of_done hr)) (by decide +kernel)
  have hbefore : (nmiFrame 18).totalCycles = 400002 := by decide +kernel
  have hafter : (nmiFrame 19).totalCycles = 400000 := by decide +kernel
  refine ⟨hpos, hbefore, hafter, fun h => ?_⟩
  have hle := h.monotone 18
  rw [hbefore, hafter] at hle
  exact absurd hle (by decide)

end LibretroCore
