import PieceEmu.System.HaltLoop
import PieceEmu.System.RunnerInvariant

/-!
# The clock never goes back

A halted CPU jumps to the first of three points: its wake point, the next frame and the next
poll of the buttons. The jump does not look at the clock, so what keeps the clock from going
back is that a CPU that comes to a jump has all three ahead. While it is halted that is kept
by itself: a jump goes no further than the first point, the tick it takes moves every schedule
past the clock, and so do the poll and the frame (`CpuRunner.Timely.step`). It can be lost in
five ways (`CpuRunner.Punctual`):

* the instruction that halts the CPU has carried the clock past the end of the frame;
* the CPU halts while a tick is *put off* (`CpuRunner.PutOff`): the loop lets `minTickBurst`
  cycles pass after a tick, a reset or a change of the clock, and does not look at a timer
  started since, so that a wake point that lies nearer than the next tick has been passed;
* a tick finds a 16-bit timer that has been *left behind* (`Timer16bit.Behind`): its clock was
  stopped by a write while it was running, and it keeps the wake point cached before;
* the debugger goes away from a halted CPU that it has let run past the end of the frame or
  the poll (`CpuRunner.Overrun`) or has left with a tick put off, or the main thread quits
  while the debugger lets the CPU run and a tick is put off;
* an instruction costs so much that its cost is negative as an `int`.

`CpuRunner.clock_monotone` says that the clock never goes back in a run in which none of this
happens, and `CpuRunner.resetRun_goes_back` is a run with a reset in which it does.
-/

/-! ### The timers stay scheduled -/

/-- The timers of the board are scheduled. -/
def Bus.TimersScheduled (b : Bus PiecePeripherals) (_ : U32) : Prop := b.dev.Scheduled

namespace PiecePeripherals

variable {p p' : PiecePeripherals}

theorem Scheduled.congr (h : p.Scheduled) (ht8 : p'.t8 = p.t8) (ht16 : p'.t16 = p.t16) :
    p'.Scheduled := by
  refine ⟨fun i => ?_, fun i => ?_⟩
  · rw [ht16]
    exact h.t16 i
  · rw [ht8]
    exact h.t8 i

theorem Scheduled.askedWake (h : p.Scheduled) : p.askedWake.Scheduled := h.act .askWake trivial

end PiecePeripherals

/-- A write to the clock control, and the callback it makes, keep the timers scheduled. -/
theorem Frontend.clkWrite_scheduled (fe : Frontend) (f : ClockControl → ClockControl × Option U32)
    {b : Bus PiecePeripherals} (h : b.dev.Scheduled) : (fe.clkWrite f b).dev.Scheduled := by
  have hclk : ({ b.dev with clk := (f b.dev.clk).1 } : PiecePeripherals).Scheduled := ⟨h.t16, h.t8⟩
  unfold Frontend.clkWrite
  dsimp only
  cases (f b.dev.clk).2 with
  | none => exact hclk
  | some newHz =>
    cases fe with
    | libretro => exact hclk
    | cpuRunner => exact hclk.askedWake.congr rfl rfl

theorem PortReg.notifying_scheduled (fe : Frontend) (f : PortCtrl → PortCtrl) (r : PortReg)
    {b : Bus PiecePeripherals} (h : b.dev.Scheduled) : (r.notifying fe f b).dev.Scheduled := by
  have hports : ({ b.dev with portctrl := f b.dev.portctrl } : PiecePeripherals).Scheduled :=
    h.congr rfl rfl
  unfold notifying p07Notify
  dsimp only
  split_ifs
  · exact Frontend.clkWrite_scheduled fe _
      (b := { b with dev := { b.dev with portctrl := f b.dev.portctrl } }) hports
  · exact hports
  · exact hports

/-- **The register handlers of the board keep the timers scheduled.** -/
theorem RegSlot.keeps_scheduled (fe : Frontend) (s : RegSlot) :
    (s.handler fe).Keeps Bus.TimersScheduled := by
  cases s with
  | intc i =>
    refine ⟨fun _ _ _ h => h, fun _ _ _ _ h => h.congr rfl rfl, ?_⟩
    rintro f ⟨⟩
    exact fun _ _ _ _ h => h.congr rfl rfl
  | clk r => exact ClkReg.keeps_handler (fun reg v b t h => fe.clkWrite_scheduled _ h) r
  | t8 ch r =>
    cases r with
    | ctl =>
      refine ⟨fun _ _ _ h => h, fun _ v b _ h => h.setT8 ch ((h.t8 ch).writeCtl v), ?_⟩
      rintro f ⟨⟩
      exact fun addr v b _ h => h.setT8 ch ((h.t8 ch).writeCtlByte addr v)
    | ptd => exact ⟨fun _ _ _ h => h, fun _ _ _ _ h => h, fun _ hf => by cases hf⟩
  | t16 ch r =>
    refine ⟨fun _ _ _ h => h, fun _ v b _ h => h.setT16 ch ?_, fun _ hf => by cases hf⟩
    cases r with
    | cra => exact (h.t16 ch).writeCra v
    | crb => exact (h.t16 ch).writeCrb v
    | tc => exact (h.t16 ch).writeTc v
    | ctl => exact (h.t16 ch).writeCtl v
  | port r =>
    refine ⟨fun _ _ _ h => h, fun addr v b t h => r.notifying_scheduled fe _ h, ?_⟩
    intro f hf addr v b t h
    obtain ⟨g, hg, rfl⟩ := Option.map_eq_some_iff.mp hf
    exact r.notifying_scheduled fe _ h
  | bcu r =>
    refine ⟨fun _ _ _ h => h, fun _ v b t h => ?_, fun _ hf => by cases hf⟩
    cases r <;> exact h.congr rfl rfl
  | wdt =>
    refine ⟨fun _ _ _ h => h, fun _ _ _ _ h => h.congr rfl rfl, ?_⟩
    rintro f ⟨⟩
    exact fun _ _ _ _ h => h.congr rfl rfl
  | hsdma ch r =>
    exact ⟨fun _ _ _ h => h, fun _ _ _ _ h => h.congr rfl rfl, fun _ hf => by cases hf⟩

/-- So do the registers of the board, if the other devices do. -/
theorem OtherDevices.attach_scheduled {o : OtherDevices}
    (ho : DeviceInvariant o.io Bus.TimersScheduled) (fe : Frontend) :
    DeviceInvariant (o.attach fe) Bus.TimersScheduled :=
  attach_invariant (RegSlot.keeps_scheduled fe) ho

/-- Without registers nothing changes the timers. -/
theorem DeviceInvariant.scheduled_empty :
    DeviceInvariant (.empty PiecePeripherals) Bus.TimersScheduled where
  congr h hdev _ _ := h.congr (congrArg _ hdev) (congrArg _ hdev)
  flashWrite h _ _ := h
  read h := by cases h
  write h := by cases h
  writeByte h := by cases h

/-- **The loop keeps the timers scheduled**, as long as it ticks them early. -/
theorem DeviceInvariant.scheduled_loop {io : IoSpace PiecePeripherals}
    (hio : DeviceInvariant io Bus.TimersScheduled) :
    LoopInvariant io Wake.Early Bus.TimersScheduled where
  toDeviceInvariant := hio
  quiet _ ht8 ht16 h := h.congr ht8 ht16
  askedWake h := h.askedWake
  t16 hat _ _ i h := h.act (.tickT16 i _) hat
  t8 hat _ _ i h := h.act (.tickT8 i _) hat

/-! ### The condition -/

namespace CpuRunner

variable (cfg : RunnerConfig) (io : IoSpace PiecePeripherals) (r : CpuRunner) (inp : RunnerInput)

/-- The thread is about to end. -/
def ending : Bool := r.machine.cpu.fault || r.quit

/-- **The tick is put off**: the wake point of the machine has been passed, and the tick is
not due yet. -/
def PutOff : Prop := r.machine.wakePoint < r.totalCycles ∧ r.totalCycles < r.nextTimerWake

instance : Decidable r.PutOff := inferInstanceAs (Decidable (_ ∧ _))

/-- **The clock has overrun** what the loop of the debugger does not wait for: the end of the
frame or the poll has been passed, or the tick is put off. -/
def Overrun : Prop :=
  r.nextRender < r.totalCycles ∨ r.nextEventPoll < r.totalCycles ∨ r.PutOff

instance : Decidable r.Overrun := inferInstanceAs (Decidable (_ ∨ _ ∨ _))

/-- No 16-bit timer has been left behind at a cycle count, or the CPU sleeps, and only the
clock timer can wake it. -/
def NoneBehind (now : U64) : Prop :=
  r.machine.sleeping = true ∨
    ∀ i, ¬(r.machine.periph.t16 i).Behind r.machine.periph.clk now

instance (now : U64) : Decidable (r.NoneBehind now) := inferInstanceAs (Decidable (_ ∨ _))

/-- The state in which a step looks whether the tick is due: at the end of a burst, and after
an instruction that the debugger lets the CPU execute. -/
def tickPoint : Option CpuRunner :=
  match r.phase with
  | .afterBurst _ => if (r.step cfg io inp).ending then none else some r
  | .asyncLoop => (r.executes cfg inp).map fun m => (r.mapMachine fun _ => m).cpuStep io
  | _ => none

/-- The CPU is halted in the state `s` of a step, without a fault, and nothing wakes it before
the end of the step. -/
def StaysHalted (s : CpuRunner) : Prop :=
  s.machine.cpu.inHalt = true ∧ (r.step cfg io inp).machine.cpu.inHalt = true ∧
    (r.step cfg io inp).machine.cpu.fault = false

instance (s : CpuRunner) : Decidable (r.StaysHalted cfg io inp s) :=
  inferInstanceAs (Decidable (_ ∧ _ ∧ _))

/-- **The condition on a step** of a thread that the debugger has stopped or not, with the
accesses the debugger makes in it. -/
structure Punctual (debugged : Bool) (accesses : List DebuggerAccess) : Prop where
  /-- The clock is far from its end. -/
  early : Wake.Early r.totalCycles
  /-- The instruction does not cost `2 ^ 31` cycles or more. -/
  cost : ∀ m ∈ r.executes cfg inp, 0 ≤ m.stepCycles io
  /-- No burst that halts the CPU goes past the end of the frame. -/
  frame : ∀ s ∈ r.tickPoint cfg io inp, r.StaysHalted cfg io inp s → s.phase ≠ .asyncLoop →
    s.totalCycles ≤ s.nextRender
  /-- The CPU does not halt while a tick is put off. -/
  putOff : ∀ s ∈ r.tickPoint cfg io inp, r.StaysHalted cfg io inp s → ¬s.PutOff
  /-- A tick that a halted CPU comes to finds no timer left behind. -/
  ticked : ∀ s ∈ r.tickPoint cfg io inp, r.StaysHalted cfg io inp s →
    s.nextTimerWake ≤ s.totalCycles → s.NoneBehind s.totalCycles
  /-- Nor does the tick of a jump. -/
  jumped : r.phase = .afterFrame → r.jumpPoints ≠ [] → r.StaysHalted cfg io inp r →
    r.NoneBehind r.haltTarget
  /-- The main thread does not quit while the debugger lets the CPU run and a tick is put off. -/
  quits : r.phase = .asyncLoop → (r.step cfg io inp).quit = true → ¬(r.step cfg io inp).PutOff
  /-- The debugger does not go away from a halted CPU whose clock has overrun. -/
  leaves : r.phase = .outer → r.ending = false → inp.resetRequest = none →
    inp.asyncClient = false → debugged = true ∨ accesses ≠ [] →
    (inp.debugger r.machine).cpu.inHalt = true → ¬(r.mapMachine inp.debugger).Overrun

/-- Whether a debugger that is there has let the CPU run, or changed anything. -/
def debuggedAfter (debugged : Bool) (accesses : List DebuggerAccess) : Bool :=
  if r.phase = .outer then
    inp.asyncClient && inp.resetRequest.isNone &&
      (debugged || inp.asyncRunCmd.isSome || !accesses.isEmpty)
  else debugged

/-- The same, along a run. -/
def debuggedAt (inputs : ℕ → RunnerInput) (accesses : ℕ → List DebuggerAccess) : ℕ → Bool
  | 0 => false
  | n + 1 => (run cfg io r inputs n).debuggedAfter (inputs n)
      (debuggedAt inputs accesses n) (accesses n)

/-! ### The invariant -/

/-- The points a halted CPU jumps to the first of lie ahead. -/
structure AtPoints : Prop where
  wake : r.totalCycles ≤ r.machine.wakePoint
  render : r.totalCycles ≤ r.nextRender
  poll : r.totalCycles ≤ r.nextEventPoll

/-- What a halted CPU has ahead, where the thread is on its way to a jump. -/
def Ahead (debugged : Bool) : Prop :=
  match r.phase with
  | .outer => debugged = false → r.ending = false → r.AtPoints
  | .frame _ | .afterFrame => r.ending = false → r.AtPoints
  | .asyncLoop | .asyncStop => r.machine.cpu.fault = false → r.totalCycles ≤ r.machine.wakePoint
  | .burst _ _ | .afterBurst _ | .done => True

/-- Outside a burst the tick lies ahead. -/
def TickAhead : Prop :=
  match r.phase with
  | .burst _ _ | .afterBurst _ => True
  | _ => r.ending = false → r.totalCycles < r.nextTimerWake

/-- **The invariant of the clock.** -/
structure Timely (debugged : Bool) : Prop where
  scheduled : r.machine.periph.Scheduled
  tick : r.TickAhead
  debugger : r.phase = .asyncLoop ∨ r.phase = .asyncStop → debugged = true
  ahead : r.machine.cpu.inHalt = true → r.Ahead debugged

/-! ### What lies ahead stays ahead -/

variable {r} {r' r'' : CpuRunner}

theorem le_add_of_early {t d : U64} (ht : Wake.Early t) (hd : d.toNat < 2 ^ 32) : t ≤ t + d := by
  unfold Wake.Early at ht
  rw [BitVec.le_def, BitVec.toNat_add]
  omega

theorem toNat_frameCycles_lt (hz : U32) : (frameCycles hz).toNat < 2 ^ 32 := by
  unfold frameCycles
  rw [BitVec.toNat_udiv, BitVec.toNat_setWidth]
  exact Nat.lt_of_le_of_lt ((Nat.div_le_self _ _).trans (Nat.mod_le _ _)) hz.isLt

/-- A tick is put ahead. -/
theorem lt_timerWake (hearly : Wake.Early r.totalCycles) (w : U64) :
    r.totalCycles < r.timerWake w := by
  have hburst : (r.totalCycles + minTickBurst).toNat = r.totalCycles.toNat + 2000 := by
    unfold Wake.Early at hearly
    rw [BitVec.toNat_add]
    exact Nat.mod_eq_of_lt (by change _ + 2000 < _; omega)
  have hinterval : (r.totalCycles + eventInterval).toNat = r.totalCycles.toNat + 10000 := by
    unfold Wake.Early at hearly
    rw [BitVec.toNat_add]
    exact Nat.mod_eq_of_lt (by change _ + 10000 < _; omega)
  unfold timerWake clamp
  rw [BitVec.lt_def]
  split_ifs with hmax hlow
  · omega
  · omega
  · omega
  · rw [BitVec.lt_def] at hlow
    omega

/-- The clock stands, and of the points in time those that lie ahead stay ahead. -/
structure Later (r r' : CpuRunner) : Prop where
  totalCycles : r'.totalCycles = r.totalCycles
  tick : r.totalCycles < r.nextTimerWake → r.totalCycles < r'.nextTimerWake
  render : r.totalCycles ≤ r.nextRender → r.totalCycles ≤ r'.nextRender
  poll : r.totalCycles ≤ r.nextEventPoll → r.totalCycles ≤ r'.nextEventPoll

theorem Later.refl (r : CpuRunner) : r.Later r := ⟨rfl, id, id, id⟩

theorem Later.trans (h : r.Later r') (h' : r'.Later r'') : r.Later r'' := by
  obtain ⟨hclock, htick, hrender, hpoll⟩ := h'
  rw [h.totalCycles] at hclock htick hrender hpoll
  exact ⟨hclock, htick ∘ h.tick, hrender ∘ h.render, hpoll ∘ h.poll⟩

theorem Later.lt_nextTimerWake (h : r.Later r') (hlt : r.totalCycles < r.nextTimerWake) :
    r'.totalCycles < r'.nextTimerWake := by
  rw [h.totalCycles]
  exact h.tick hlt

theorem later_foldl (hearly : Wake.Early r.totalCycles) (changes : List ClockChange) :
    r.Later (changes.foldl onClockChange r) := by
  induction changes generalizing r with
  | nil => exact .refl r
  | cons change changes ih =>
    have hchange : r.Later (r.onClockChange change) :=
      ⟨rfl, fun _ => lt_timerWake hearly _,
        fun _ => le_add_of_early hearly (toNat_frameCycles_lt _), id⟩
    exact hchange.trans (ih hearly)

/-- An answered callback puts the next frame and the next tick ahead. -/
theorem later_answerClockChanges (hearly : Wake.Early r.totalCycles) :
    r.Later r.answerClockChanges := by
  obtain ⟨hclock, htick, hrender, hpoll⟩ :=
    later_foldl hearly r.machine.periph.clockChanges
  exact ⟨hclock, htick, hrender, hpoll⟩

theorem later_setButtons (hearly : Wake.Early r.totalCycles) (k5 k6 : U8) :
    r.Later (r.setButtons io k5 k6) := by
  obtain ⟨hclock, htick, hrender, hpoll⟩ :=
    later_answerClockChanges (r := r.mapMachine fun m =>
      let m := (m.mapPeriph ({ · with portctrl := (m.periph.portctrl.setK5 k5).1 })).raiseAll io
        (m.periph.portctrl.setK5 k5).2
      (m.mapPeriph ({ · with portctrl := (m.periph.portctrl.setK6 k6).1 })).raiseAll io
        (m.periph.portctrl.setK6 k6).2) hearly
  exact ⟨hclock, htick, hrender, hpoll⟩

theorem later_pollButtons (hearly : Wake.Early r.totalCycles) :
    r.Later (r.pollButtons io inp) := by
  obtain ⟨hclock, htick, hrender, hpoll⟩ := later_setButtons io hearly
    ((inp.sharedButtons >>> 8).setWidth 8) (inp.sharedButtons.setWidth 8)
  exact ⟨hclock, htick, hrender, hpoll⟩

theorem later_pollIfDue (hearly : Wake.Early r.totalCycles) :
    r.Later (r.pollIfDue io inp) ∧ r.totalCycles ≤ (r.pollIfDue io inp).nextEventPoll := by
  unfold pollIfDue
  split_ifs with hdue
  · obtain ⟨hclock, htick, hrender, -⟩ := later_pollButtons io inp hearly
    have hnext : r.totalCycles ≤ r.totalCycles + eventInterval :=
      le_add_of_early hearly (by decide)
    exact ⟨⟨hclock, htick, hrender, fun _ => hnext⟩, hnext⟩
  · exact ⟨.refl r, BitVec.le_of_lt (BitVec.not_le.mp hdue)⟩

/-- A tick puts the next one ahead. -/
theorem later_doTick (hearly : Wake.Early r.totalCycles) :
    r.Later (r.doTick io) ∧ r.totalCycles < (r.doTick io).nextTimerWake := by
  obtain ⟨hclock, -, hrender, hpoll⟩ :=
    later_answerClockChanges (r := r.mapMachine (·.tickAndPoll io r.totalCycles)) hearly
  have hnext : r.totalCycles < (r.doTick io).nextTimerWake := by
    unfold doTick updateTimerWake
    generalize (r.mapMachine (·.tickAndPoll io r.totalCycles)).answerClockChanges = answered
      at hclock ⊢
    have hlt := lt_timerWake (by rw [hclock]; exact hearly) answered.machine.periph.nextWakeCycle
    rw [hclock] at hlt
    exact hlt
  exact ⟨⟨hclock, fun _ => hnext, hrender, hpoll⟩, hnext⟩

theorem lt_nextTimerWake_doTick (hearly : Wake.Early r.totalCycles) :
    (r.doTick io).totalCycles < (r.doTick io).nextTimerWake := by
  obtain ⟨hlater, hlt⟩ := later_doTick io hearly
  rw [hlater.totalCycles]
  exact hlt

/-- A reset puts the next tick ahead. -/
theorem lt_nextTimerWake_handleReset (hearly : Wake.Early r.totalCycles) (cold : Bool) :
    (r.handleReset io inp cold).totalCycles < (r.handleReset io inp cold).nextTimerWake := by
  unfold handleReset
  dsimp only [mapMachine, updateTimerWake]
  refine lt_timerWake ?_ _
  simpa using hearly

/-- After the tick that is due, or none, the next one lies ahead. -/
theorem later_tickIfDue (hearly : Wake.Early r.totalCycles) :
    r.Later (r.tickIfDue io) ∧ r.totalCycles < (r.tickIfDue io).nextTimerWake := by
  unfold tickIfDue
  split_ifs with hdue
  · exact later_doTick io hearly
  · exact ⟨.refl r, BitVec.not_le.mp hdue⟩

theorem le_nextRender_renderIfDue (hearly : Wake.Early r.totalCycles)
    (h : r.totalCycles ≤ r.nextRender) : r.totalCycles ≤ r.renderIfDue.nextRender := by
  unfold renderIfDue
  split_ifs with hdue
  · have heq : r.nextRender = r.totalCycles := BitVec.le_antisymm hdue h
    dsimp only
    rw [heq]
    exact le_add_of_early hearly (toNat_frameCycles_lt _)
  · exact h

/-! ### A CPU that stays halted -/

/-- Who leaves the CPU halted has found it halted, with the same wake point. -/
def Waits (r r' : CpuRunner) : Prop :=
  r'.machine.cpu.inHalt = true →
    r.machine.cpu.inHalt = true ∧ r'.machine.wakePoint = r.machine.wakePoint

theorem Waits.of_machine (h : r.Waits r') (hm : r''.machine = r'.machine) : r.Waits r'' := by
  unfold Waits
  rwa [hm]

/-- The buttons change no schedule unless they wake the CPU. -/
theorem keepsHalt_setButtons (r : CpuRunner) (k5 k6 : U8) :
    Machine.KeepsHalt id r.machine (r.setButtons io k5 k6).machine := by
  have hpress (m : Machine PiecePeripherals) (k : PortCtrl × List IrqSource) :
      Machine.KeepsHalt id m ((m.mapPeriph ({ · with portctrl := k.1 })).raiseAll io k.2) :=
    Machine.KeepsHalt.trans (f := id) (fun hhalt => ⟨hhalt, rfl, rfl⟩)
      (Machine.keepsHalt_raiseAll io _ _)
  have hanswer (m : Machine PiecePeripherals) :
      Machine.KeepsHalt id m (m.mapPeriph ({ · with clockChanges := [] })) :=
    fun hhalt => ⟨hhalt, rfl, rfl⟩
  exact ((hpress _ _).trans (hpress _ _)).trans (hanswer _)

theorem waits_setButtons (k5 k6 : U8) : r.Waits (r.setButtons io k5 k6) := by
  intro hhalt
  obtain ⟨hbefore, hsleep, hsched⟩ := keepsHalt_setButtons io r k5 k6 hhalt
  exact ⟨hbefore, Machine.wakePoint_congr hsleep hsched⟩

theorem waits_pollButtons : r.Waits (r.pollButtons io inp) :=
  (waits_setButtons io ((inp.sharedButtons >>> 8).setWidth 8)
    (inp.sharedButtons.setWidth 8)).of_machine rfl

theorem waits_pollIfDue : r.Waits (r.pollIfDue io inp) := by
  unfold pollIfDue
  split_ifs
  · exact (waits_pollButtons io inp).of_machine rfl
  · exact fun hhalt => ⟨hhalt, rfl⟩

/-- A reset leaves the CPU running. -/
theorem handleReset_inHalt (cold : Bool) :
    (r.handleReset io inp cold).machine.cpu.inHalt = false := by
  by_contra hhalt
  rw [Bool.not_eq_false] at hhalt
  have hbuttons := (waits_pollButtons io inp (r := (r.mapMachine fun m =>
    (m.resetPeripherals cold).reset io).setButtons io 0xFF 0xFF) hhalt).1
  have hreset := (waits_setButtons io 0xFF 0xFF hbuttons).1
  exact Bool.noConfusion (hreset : false = true)

/-- **A tick that leaves the CPU halted** leaves its wake point ahead, unless a timer has been
left behind. -/
theorem le_wakePoint_doTick (h : r.machine.periph.Scheduled) (hearly : Wake.Early r.totalCycles)
    (hhalt : (r.doTick io).machine.cpu.inHalt = true) :
    r.machine.cpu.inHalt = true ∧ (r.NoneBehind r.totalCycles →
      r.totalCycles ≤ (r.doTick io).machine.wakePoint) := by
  refine ⟨(Machine.keepsHalt_tickAndPoll io _ _ hhalt).1, fun hnone => ?_⟩
  have hwake := Machine.le_wakePoint_tick io h hearly hhalt hnone
  have hasked : (r.doTick io).machine.wakePoint =
      (r.machine.tickAndPoll io r.totalCycles).wakePoint :=
    (Machine.wakePoint_askedWake _).trans (Machine.wakePoint_congr rfl rfl)
  rwa [hasked]

/-! ### A step -/

variable {cfg io inp} {debugged : Bool} {accesses : List DebuggerAccess}

/-- What lies ahead stays ahead, also when the buttons are polled. -/
theorem AtPoints.of_later (h : r.AtPoints) (hlater : r.Later r') (hwaits : r.Waits r')
    (hhalt : r'.machine.cpu.inHalt = true) : r'.AtPoints := by
  obtain ⟨hclock, -, hrender, hpoll⟩ := hlater
  constructor
  · rw [hclock, (hwaits hhalt).2]
    exact h.wake
  · rw [hclock]
    exact hrender h.render
  · rw [hclock]
    exact hpoll h.poll

/-- **From the tick to the next jump**: the poll puts its next one ahead, and leaves the rest
ahead. -/
theorem atPoints_pollIfDue (hearly : Wake.Early r.totalCycles)
    (hwake : r.totalCycles ≤ r.machine.wakePoint) (hrender : r.totalCycles ≤ r.nextRender)
    (hhalt : (r.pollIfDue io inp).machine.cpu.inHalt = true) : (r.pollIfDue io inp).AtPoints := by
  obtain ⟨hlater, hpoll⟩ := later_pollIfDue io inp hearly
  constructor
  · rw [hlater.totalCycles, (waits_pollIfDue io inp hhalt).2]
    exact hwake
  · rw [hlater.totalCycles]
    exact hlater.render hrender
  · rw [hlater.totalCycles]
    exact hpoll

theorem AtPoints.renderIfDue (h : r.AtPoints) (hearly : Wake.Early r.totalCycles) :
    r.renderIfDue.AtPoints := by
  have hmachine : r.renderIfDue.machine = r.machine ∧
      r.renderIfDue.nextEventPoll = r.nextEventPoll := by
    unfold CpuRunner.renderIfDue
    split_ifs <;> exact ⟨rfl, rfl⟩
  constructor
  · rw [renderIfDue_totalCycles, hmachine.1]
    exact h.wake
  · rw [renderIfDue_totalCycles]
    exact le_nextRender_renderIfDue hearly h.render
  · rw [renderIfDue_totalCycles, hmachine.2]
    exact h.poll

theorem le_wakePoint_of_not_putOff (hoff : ¬r.PutOff) (hlt : r.totalCycles < r.nextTimerWake) :
    r.totalCycles ≤ r.machine.wakePoint :=
  BitVec.not_lt.mp fun hpassed => hoff ⟨hpassed, hlt⟩

theorem atPoints_of_not_overrun (hover : ¬r.Overrun) (hlt : r.totalCycles < r.nextTimerWake) :
    r.AtPoints := by
  unfold Overrun at hover
  rw [not_or, not_or] at hover
  exact ⟨le_wakePoint_of_not_putOff hover.2.2 hlt, BitVec.not_lt.mp hover.1,
    BitVec.not_lt.mp hover.2.1⟩

theorem TickAhead.lt_of_outer (h : r.TickAhead) (hphase : r.phase = .outer)
    (hend : r.ending = false) : r.totalCycles < r.nextTimerWake := by
  unfold TickAhead at h
  rw [hphase] at h
  exact h hend

theorem ahead_stepOuter (h : r.Timely debugged) (hp : r.Punctual cfg io inp debugged accesses)
    (hdebugger : inp.debugger = DebuggerAccess.session io accesses) (hphase : r.phase = .outer)
    (hhalt : (r.stepOuter cfg io inp).machine.cpu.inHalt = true) :
    (r.stepOuter cfg io inp).Ahead (r.debuggedAfter inp debugged accesses) := by
  -- a debugger that has done nothing leaves the points where they are
  have hidle (hend : (r.quit || r.machine.cpu.fault) = false)
      (hnone : ¬(debugged = true ∨ accesses ≠ []))
      (hhalt : (inp.debugger r.machine).cpu.inHalt = true) :
      (r.mapMachine inp.debugger).AtPoints := by
    rw [not_or, Bool.not_eq_true, not_not] at hnone
    obtain ⟨hnever, rfl⟩ := hnone
    rw [hdebugger] at hhalt ⊢
    rw [Bool.or_comm] at hend
    have hahead := h.ahead hhalt
    unfold Ahead at hahead
    rw [hphase] at hahead
    exact hahead hnever hend
  rcases r.outerCase cfg io inp with ⟨-, heq⟩ | ⟨cold, -, -, heq⟩ |
    ⟨hend, hreset, hclient, _, heq⟩ | ⟨hend, hreset, hclient, hcmd, heq⟩ | ⟨-, -, -, -, heq⟩ |
    ⟨-, hreset, hclient, hcmd, heq⟩
  all_goals rw [heq] at hhalt ⊢
  · exact trivial
  · rw [handleReset_inHalt] at hhalt
    exact Bool.noConfusion hhalt
  · by_cases hdone : debugged = true ∨ accesses ≠ []
    · have hover := hp.leaves hphase ((Bool.or_comm _ _).trans hend) hreset hclient hdone hhalt
      have htick : (r.mapMachine inp.debugger).totalCycles <
          (r.mapMachine inp.debugger).nextTimerWake :=
        h.tick.lt_of_outer hphase ((Bool.or_comm _ _).trans hend)
      obtain ⟨hwake, hrender, hpoll⟩ := atPoints_of_not_overrun hover htick
      exact fun _ => ⟨hwake, hrender, hpoll⟩
    · obtain ⟨hwake, hrender, hpoll⟩ := hidle hend hdone hhalt
      exact fun _ => ⟨hwake, hrender, hpoll⟩
  · have hlater := later_pollButtons io inp (r := r.mapMachine inp.debugger) hp.early
    have hwaits := waits_pollButtons io inp (r := r.mapMachine inp.debugger)
    unfold Ahead
    rw [pollButtons_phase, mapMachine_phase, hphase]
    intro hafter _
    refine (hidle hend ?_ (hwaits hhalt).1).of_later hlater hwaits hhalt
    unfold debuggedAfter at hafter
    rw [if_pos hphase, hreset, hclient, hcmd] at hafter
    simpa [Bool.or_eq_false_iff] using hafter
  · exact Bool.noConfusion hhalt
  · unfold Ahead
    rw [doTick_phase, cpuStep_phase,
      show ((r.mapMachine inp.debugger).resume.traceInsn cfg).phase = .outer from hphase]
    intro hafter
    unfold debuggedAfter at hafter
    rw [if_pos hphase, hreset, hclient, hcmd] at hafter
    simp at hafter

/-- **A tick that is due, or none**, leaves the wake point of a halted CPU ahead. -/
theorem le_wakePoint_tickIfDue (io : IoSpace PiecePeripherals)
    (h : r.machine.periph.Scheduled) (hearly : Wake.Early r.totalCycles)
    (hhalt : (r.tickIfDue io).machine.cpu.inHalt = true) :
    r.machine.cpu.inHalt = true ∧ (¬r.PutOff →
      (r.nextTimerWake ≤ r.totalCycles → r.NoneBehind r.totalCycles) →
        (r.tickIfDue io).totalCycles ≤ (r.tickIfDue io).machine.wakePoint) := by
  rw [tickIfDue_totalCycles]
  revert hhalt
  unfold tickIfDue
  split_ifs with hdue
  · intro hhalt
    obtain ⟨hbefore, hwake⟩ := le_wakePoint_doTick io h hearly hhalt
    exact ⟨hbefore, fun _ hnone => hwake (hnone hdue)⟩
  · intro hhalt
    exact ⟨hhalt, fun hoff _ => le_wakePoint_of_not_putOff hoff (BitVec.not_le.mp hdue)⟩

theorem atPoints_stepAfterBurst (h : r.Timely debugged)
    (hp : r.Punctual cfg io inp debugged accesses) {fastPath : Bool}
    (hphase : r.phase = .afterBurst fastPath)
    (hend : (r.stepAfterBurst io inp fastPath).ending = false)
    (hhalt : (r.stepAfterBurst io inp fastPath).machine.cpu.inHalt = true) :
    (r.stepAfterBurst io inp fastPath).AtPoints := by
  have hstep : r.step cfg io inp = r.stepAfterBurst io inp fastPath := by
    unfold step
    rw [hphase]
  have hpoint : r ∈ r.tickPoint cfg io inp := by
    unfold tickPoint
    rw [hphase]
    dsimp only
    rw [hstep, hend, if_neg Bool.false_ne_true]
    rfl
  have hstays (hbefore : r.machine.cpu.inHalt = true) : r.StaysHalted cfg io inp r :=
    ⟨hbefore, hstep ▸ hhalt, hstep ▸ (Bool.or_eq_false_iff.mp hend).1⟩
  revert hend hhalt
  unfold stepAfterBurst
  cases hended : r.machine.cpu.fault || r.quit with
  | true =>
    intro hend
    exact absurd (hended.symm.trans hend) (by decide)
  | false =>
    rw [if_neg Bool.false_ne_true]
    intro _ hhalt
    have hticked := (waits_pollIfDue io inp hhalt).1
    obtain ⟨hbefore, hwake⟩ := le_wakePoint_tickIfDue io h.scheduled hp.early hticked
    have hrender := hp.frame r hpoint (hstays hbefore)
      (by rw [hphase]; exact RunnerPhase.noConfusion)
    have hlater := (later_tickIfDue io hp.early).1
    have hearly : Wake.Early (r.tickIfDue io).totalCycles := by
      rw [hlater.totalCycles]
      exact hp.early
    obtain ⟨hwake', hrender', hpoll'⟩ := atPoints_pollIfDue hearly
      (hwake (hp.putOff r hpoint (hstays hbefore)) (hp.ticked r hpoint (hstays hbefore)))
      (hlater.totalCycles ▸ hlater.render hrender) hhalt
    exact ⟨hwake', hrender', hpoll'⟩

theorem atPoints_stepAfterFrame (hP : LoopInvariant io Wake.Early Bus.TimersScheduled)
    (h : r.Timely debugged) (hp : r.Punctual cfg io inp debugged accesses)
    (hphase : r.phase = .afterFrame) (hearly : Wake.Early (r.stepAfterFrame io inp).totalCycles)
    (hnext : (r.stepAfterFrame io inp).phase = .outer)
    (hend' : (r.stepAfterFrame io inp).ending = false)
    (hhalt : (r.stepAfterFrame io inp).machine.cpu.inHalt = true) :
    (r.stepAfterFrame io inp).AtPoints := by
  have hstep : r.step cfg io inp = r.stepAfterFrame io inp := by
    unfold step
    rw [hphase]
  have hrender (r : CpuRunner) : r.renderIfDue.machine = r.machine := by
    unfold CpuRunner.renderIfDue
    split_ifs <;> rfl
  rcases r.afterFrameCase io inp with ⟨-, heq⟩ | ⟨-, hruns, heq⟩ | ⟨-, -, -, heq⟩ |
    ⟨hend, hbefore, halive, heq⟩
  · rw [heq] at hnext
    exact RunnerPhase.noConfusion hnext
  · rw [heq] at hhalt
    have hhalt' : r.renderIfDue.machine.cpu.inHalt = true := hhalt
    rw [hrender, hruns] at hhalt'
    exact Bool.noConfusion hhalt'
  · rw [heq] at hnext
    exact RunnerPhase.noConfusion hnext
  · have hnone := hp.jumped hphase (by rw [jumpPoints_afterFrame hphase hend hbefore halive]; simp)
      ⟨hbefore, hstep ▸ hhalt, hstep ▸ (Bool.or_eq_false_iff.mp hend').1⟩
    rw [heq] at hearly hhalt ⊢
    rw [totalCycles_jumped] at hearly
    obtain ⟨hsleep, hclk, ht16, -⟩ := Machine.askedWakePoint_schedule h.scheduled
    obtain ⟨-, hframe, -⟩ := haltTarget_le (r := r)
    generalize r.haltTarget = target at hnone hearly hframe hhalt ⊢
    have hclock := jumpTo_totalCycles io (r.mapMachine Machine.askedWakePoint) target
    have hpolled : (((r.mapMachine Machine.askedWakePoint).jumpTo io target).pollIfDue io
        inp).machine.cpu.inHalt = true := hrender _ ▸ hhalt
    have hjumped := (waits_pollIfDue io inp hpolled).1
    -- the thread at the target of the jump, before the tick
    obtain ⟨s, hs⟩ : ∃ s : CpuRunner, s = { r.mapMachine Machine.askedWakePoint with
      totalCycles := target } := ⟨_, rfl⟩
    have hlanded : s.NoneBehind s.totalCycles := by
      rw [hs]
      refine hnone.imp hsleep.trans fun hall i => ?_
      have ht : r.machine.askedWakePoint.periph.t16 i = r.machine.periph.t16 i := congrFun ht16 i
      have hc : r.machine.askedWakePoint.periph.clk = r.machine.periph.clk := hclk
      change ¬(r.machine.askedWakePoint.periph.t16 i).Behind r.machine.askedWakePoint.periph.clk _
      rw [ht, hc]
      exact hall i
    have hscheduled : s.machine.periph.Scheduled := by
      rw [hs]
      exact hP.askedWakePoint (m := r.machine) h.scheduled
    have hticked : (r.mapMachine Machine.askedWakePoint).jumpTo io target = s.doTick io := by
      rw [hs]
      rfl
    have hearly' : Wake.Early s.totalCycles := by
      rw [hs]
      exact hearly
    rw [hticked] at hclock hpolled hjumped ⊢
    have hwake := (le_wakePoint_doTick io hscheduled hearly' hjumped).2 hlanded
    have hlater := (later_doTick io hearly').1
    have hat := atPoints_pollIfDue (hclock ▸ hearly) (hlater.totalCycles ▸ hwake)
      (hlater.totalCycles ▸ hlater.render (hs ▸ hframe)) hpolled
    have hat' := hat.renderIfDue (by rw [pollIfDue_totalCycles, hclock]; exact hearly)
    exact ⟨hat'.wake, hat'.render, hat'.poll⟩

/-- A burst goes on, or ends. -/
theorem stepBurst_phase (cfg : RunnerConfig) (io : IoSpace PiecePeripherals) {fastPath : Bool}
    {stop : U64} (hphase : r.phase = .burst fastPath stop) :
    (r.stepBurst cfg io fastPath stop).phase = .burst fastPath stop ∨
      (r.stepBurst cfg io fastPath stop).phase = .afterBurst fastPath := by
  unfold stepBurst
  dsimp only
  split_ifs
  · exact .inl ((cpuStep_phase io r).trans hphase)
  · exact .inr rfl
  · exact .inl ((cpuStep_phase io _).trans hphase)
  · exact .inr rfl

theorem stepAfterBurst_phase (io : IoSpace PiecePeripherals) (inp : RunnerInput) (r : CpuRunner)
    (fastPath : Bool) :
    (r.stepAfterBurst io inp fastPath).phase = .frame fastPath ∨
      (r.stepAfterBurst io inp fastPath).phase = .afterFrame := by
  unfold stepAfterBurst
  split_ifs
  · exact .inr rfl
  · exact .inl rfl

theorem stepAfterFrame_phase (io : IoSpace PiecePeripherals) (inp : RunnerInput) (r : CpuRunner) :
    (r.stepAfterFrame io inp).phase = .done ∨ (r.stepAfterFrame io inp).phase = .outer := by
  rcases r.afterFrameCase io inp with ⟨-, heq⟩ | ⟨-, -, heq⟩ | ⟨-, -, -, heq⟩ | ⟨-, -, -, heq⟩
  all_goals rw [heq]
  · exact .inl rfl
  · exact .inr rfl
  · exact .inl rfl
  · exact .inr rfl

theorem TickAhead.of_lt (h : r.ending = false → r.totalCycles < r.nextTimerWake) :
    r.TickAhead := by
  unfold TickAhead
  split
  · exact trivial
  · exact trivial
  · exact h

theorem tickAhead_stepOuter (h : r.TickAhead) (hphase : r.phase = .outer)
    (hearly : Wake.Early r.totalCycles)
    (hearly' : Wake.Early (r.stepOuter cfg io inp).totalCycles) :
    (r.stepOuter cfg io inp).TickAhead := by
  rcases r.outerCase cfg io inp with ⟨-, heq⟩ | ⟨cold, -, -, heq⟩ | ⟨hend, -, -, _, heq⟩ |
    ⟨hend, -, -, -, heq⟩ | ⟨hend, -, -, -, heq⟩ | ⟨-, -, -, -, heq⟩
  all_goals rw [heq] at hearly' ⊢
  · exact .of_lt fun hend => h.lt_of_outer hphase hend
  · exact .of_lt fun _ => lt_nextTimerWake_handleReset io inp hearly cold
  · exact .of_lt fun _ => h.lt_of_outer hphase ((Bool.or_comm _ _).trans hend)
  · exact .of_lt fun _ => (later_pollButtons io inp (r := r.mapMachine inp.debugger)
      hearly).lt_nextTimerWake (h.lt_of_outer hphase ((Bool.or_comm _ _).trans hend))
  · exact .of_lt fun _ => h.lt_of_outer hphase ((Bool.or_comm _ _).trans hend)
  · rw [doTick_totalCycles] at hearly'
    exact .of_lt fun _ => lt_nextTimerWake_doTick io hearly'

theorem tickAhead_stepAfterFrame (h : r.ending = false → r.totalCycles < r.nextTimerWake)
    (hearly' : Wake.Early (r.stepAfterFrame io inp).totalCycles) :
    (r.stepAfterFrame io inp).TickAhead := by
  have hrender (r : CpuRunner) : r.renderIfDue.nextTimerWake = r.nextTimerWake := by
    unfold renderIfDue
    split_ifs <;> rfl
  refine .of_lt ?_
  rcases r.afterFrameCase io inp with ⟨hend, heq⟩ | ⟨hend, -, heq⟩ | ⟨hend, -, -, heq⟩ |
    ⟨-, -, -, heq⟩
  all_goals rw [heq] at hearly' ⊢
  · exact fun hend => h hend
  · intro _
    have hlt := h hend
    rw [← renderIfDue_totalCycles r, ← hrender r] at hlt
    exact hlt
  · exact fun hend => h hend
  · intro _
    rw [totalCycles_jumped] at hearly'
    have hticked := lt_nextTimerWake_doTick io
      (r := { r.mapMachine Machine.askedWakePoint with totalCycles := r.haltTarget }) hearly'
    have hpolled := (later_pollIfDue io inp
      (r := (r.mapMachine Machine.askedWakePoint).jumpTo io r.haltTarget)
      (by rw [jumpTo_totalCycles]; exact hearly')).1.lt_nextTimerWake hticked
    rw [← renderIfDue_totalCycles, ← hrender] at hpolled
    exact hpolled

theorem traceInsn_fault (r : CpuRunner) :
    (r.traceInsn cfg).machine.cpu.fault = r.machine.cpu.fault := by
  unfold traceInsn
  dsimp only
  cases cfg.trace <;> rfl

theorem tickAhead_stepAsyncLoop (h : r.ending = false → r.totalCycles < r.nextTimerWake)
    (hearly' : Wake.Early (r.stepAsyncLoop cfg io inp).totalCycles) :
    (r.stepAsyncLoop cfg io inp).TickAhead := by
  -- after an instruction the tick that is due has been taken
  have hticked (hearly : Wake.Early (r.asyncTicked cfg io).totalCycles) :
      (r.asyncTicked cfg io).totalCycles < (r.asyncTicked cfg io).nextTimerWake := by
    rw [asyncTicked_totalCycles] at hearly
    obtain ⟨hlater, hlt⟩ := later_tickIfDue io hearly
    rw [asyncTicked_totalCycles]
    exact hlt
  have hpolled (hearly : Wake.Early (r.asyncTicked cfg io).totalCycles) :=
    (later_pollIfDue io inp hearly).1.lt_nextTimerWake (hticked hearly)
  refine .of_lt ?_
  rcases r.asyncLoopCase cfg io inp with ⟨-, heq⟩ | ⟨-, -, heq⟩ | ⟨-, -, -, heq⟩ |
    ⟨-, -, -, heq⟩ | ⟨-, -, heq⟩
  all_goals rw [heq] at hearly' ⊢
  · exact fun hend => h hend
  · intro hend
    refine h (Eq.trans ?_ hend)
    change _ = ((r.traceInsn cfg).machine.cpu.fault || r.quit)
    unfold ending
    rw [traceInsn_fault]
  · change Wake.Early (r.asyncTicked cfg io).totalCycles at hearly'
    exact fun _ => hticked hearly'
  · change Wake.Early ((r.asyncTicked cfg io).pollIfDue io inp).totalCycles at hearly'
    rw [pollIfDue_totalCycles] at hearly'
    have hlt := hpolled hearly'
    generalize (r.asyncTicked cfg io).pollIfDue io inp = polled at hlt ⊢
    exact fun _ => hlt
  · rw [pollIfDue_totalCycles] at hearly'
    exact fun _ => hpolled hearly'

theorem tickAhead_stepAsyncStop (h : r.ending = false → r.totalCycles < r.nextTimerWake)
    (hearly' : Wake.Early (r.stepAsyncStop io).totalCycles) : (r.stepAsyncStop io).TickAhead := by
  refine .of_lt ?_
  rcases r.asyncStopCase io with ⟨-, heq⟩ | ⟨-, -, -, heq⟩ | ⟨-, -, -, heq⟩
  all_goals rw [heq] at hearly' ⊢
  · exact fun hend => h hend
  · intro hend
    have hcpu : r.machine.askedWakePoint.cpu = r.machine.cpu := by
      unfold Machine.askedWakePoint
      split_ifs <;> rfl
    refine h (Eq.trans ?_ hend)
    change _ = (r.machine.askedWakePoint.cpu.fault || r.quit)
    rw [hcpu]
    rfl
  · rw [totalCycles_asyncJumped] at hearly'
    exact fun _ => lt_nextTimerWake_doTick io
      (r := { r.mapMachine Machine.askedWakePoint with totalCycles := r.machine.wakePoint }) hearly'

/-- **Outside a burst the tick stays ahead.** -/
theorem TickAhead.step (h : r.TickAhead) (hearly : Wake.Early r.totalCycles)
    (hearly' : Wake.Early (r.step cfg io inp).totalCycles) :
    (r.step cfg io inp).TickAhead := by
  revert hearly'
  unfold CpuRunner.step
  cases hphase : r.phase with
  | outer => exact tickAhead_stepOuter h hphase hearly
  | frame fastPath =>
    intro _
    unfold TickAhead at h
    rw [hphase] at h
    dsimp only
    unfold stepFrame
    split_ifs
    · exact trivial
    · exact fun hend => h hend
  | burst fastPath stop =>
    intro _
    unfold TickAhead
    rcases stepBurst_phase cfg io hphase with heq | heq
    · dsimp only
      rw [heq]
      exact trivial
    · dsimp only
      rw [heq]
      exact trivial
  | afterBurst fastPath =>
    intro _
    -- a tick that was due has run, so that the next wake point lies ahead
    refine .of_lt ?_
    dsimp only
    unfold stepAfterBurst
    split_ifs with hend
    · intro hnot
      exact absurd (hend.symm.trans hnot) (by decide)
    · obtain ⟨hlater, hlt⟩ := later_tickIfDue io hearly
      rw [← hlater.totalCycles] at hlt
      have hpolled := (later_pollIfDue io inp (by rw [hlater.totalCycles]; exact hearly)).1
      exact fun _ => hpolled.lt_nextTimerWake hlt
  | afterFrame =>
    unfold TickAhead at h
    rw [hphase] at h
    exact tickAhead_stepAfterFrame h
  | asyncLoop =>
    unfold TickAhead at h
    rw [hphase] at h
    exact tickAhead_stepAsyncLoop h
  | asyncStop =>
    unfold TickAhead at h
    rw [hphase] at h
    exact tickAhead_stepAsyncStop h
  | done =>
    intro _
    exact h

theorem traceInsn_inHalt (r : CpuRunner) :
    (r.traceInsn cfg).machine.cpu.inHalt = r.machine.cpu.inHalt := by
  unfold traceInsn
  dsimp only
  cases cfg.trace <;> rfl

theorem ahead_stepAsyncLoop (hP : LoopInvariant io Wake.Early Bus.TimersScheduled)
    (h : r.Timely debugged) (hp : r.Punctual cfg io inp debugged accesses)
    (hphase : r.phase = .asyncLoop) (hearly : Wake.Early (r.stepAsyncLoop cfg io inp).totalCycles)
    (hhalt : (r.stepAsyncLoop cfg io inp).machine.cpu.inHalt = true) :
    (r.stepAsyncLoop cfg io inp).Ahead debugged := by
  have hstep : r.step cfg io inp = r.stepAsyncLoop cfg io inp := by
    unfold step
    rw [hphase]
  -- where the instruction and the tick leave the thread
  have hrun (hrun : (r.machine.cpu.inHalt || r.machine.cpu.fault) = false)
      (hmiss : cfg.breakAddrs.contains (r.traceInsn cfg).machine.cpu.pc = false)
      (hearly : Wake.Early ((r.traceInsn cfg).cpuStep io).totalCycles) :
      ((r.asyncTicked cfg io).machine.cpu.inHalt = true →
        (r.step cfg io inp).machine.cpu.fault = false →
        (r.asyncTicked cfg io).totalCycles ≤ (r.asyncTicked cfg io).machine.wakePoint) ∧
      (r.asyncTicked cfg io).totalCycles < (r.asyncTicked cfg io).nextTimerWake := by
    have hscheduled := satisfies_cpuStep hP (satisfies_traceInsn hP cfg (r := r) h.scheduled)
    have hpoint : (r.traceInsn cfg).cpuStep io ∈ r.tickPoint cfg io inp := by
      unfold tickPoint
      rw [hphase]
      dsimp only
      rw [executes_asyncLoop cfg inp hphase hrun hmiss]
      rfl
    constructor
    · intro hticked hfault
      obtain ⟨hbefore, hwake⟩ := le_wakePoint_tickIfDue io hscheduled hearly hticked
      have hstays : r.StaysHalted cfg io inp ((r.traceInsn cfg).cpuStep io) :=
        ⟨hbefore, hstep ▸ hhalt, hfault⟩
      exact hwake (hp.putOff _ hpoint hstays) (hp.ticked _ hpoint hstays)
    · rw [asyncTicked_totalCycles]
      exact (later_tickIfDue io hearly).2
  rcases r.asyncLoopCase cfg io inp with ⟨-, heq⟩ | ⟨hgo, -, heq⟩ | ⟨-, -, hruns, heq⟩ |
    ⟨hgo, hmiss, hquit, heq⟩ | ⟨hgo, hmiss, heq⟩
  · rw [heq] at hhalt ⊢
    have hahead := h.ahead hhalt
    unfold Ahead at hahead
    rw [hphase] at hahead
    exact hahead
  · rw [heq] at hhalt
    rw [Bool.or_eq_false_iff] at hgo
    have hhalt' : (r.traceInsn cfg).machine.cpu.inHalt = true := hhalt
    rw [traceInsn_inHalt, hgo.1] at hhalt'
    exact Bool.noConfusion hhalt'
  · rw [heq] at hhalt
    rw [show (r.asyncTicked cfg io).machine.cpu.inHalt = true from hhalt] at hruns
    exact Bool.noConfusion hruns
  · have hoff := hp.quits hphase (by rw [hstep, heq]; exact hquit)
    rw [hstep, heq] at hoff
    rw [heq] at hearly ⊢
    have hnext (hearly : Wake.Early (r.asyncTicked cfg io).totalCycles) :=
      (later_pollIfDue io inp hearly).1
    have hclock := pollIfDue_totalCycles io (r.asyncTicked cfg io) inp
    generalize (r.asyncTicked cfg io).pollIfDue io inp = polled at hoff hearly hnext hclock ⊢
    have hearly' : Wake.Early (r.asyncTicked cfg io).totalCycles := hclock ▸ hearly
    have hlt := (hnext hearly').tick (hrun hgo hmiss (asyncTicked_totalCycles cfg io ▸ hearly')).2
    rw [← hclock] at hlt
    exact fun _ => le_wakePoint_of_not_putOff hoff hlt
  · rw [heq] at hearly hhalt ⊢
    rw [pollIfDue_totalCycles, asyncTicked_totalCycles] at hearly
    obtain ⟨hticked, hwake⟩ := waits_pollIfDue io inp hhalt
    unfold Ahead
    rw [show ((r.asyncTicked cfg io).pollIfDue io inp).phase = .asyncLoop by
      rw [pollIfDue_phase, asyncTicked, tickIfDue_phase, cpuStep_phase]
      exact hphase]
    intro hfault
    rw [pollIfDue_totalCycles, hwake]
    rw [← heq, ← hstep] at hfault
    exact (hrun hgo hmiss hearly).1 hticked hfault

theorem ahead_stepAsyncStop (h : r.Timely debugged) (hphase : r.phase = .asyncStop) :
    (r.stepAsyncStop io).Ahead debugged := by
  have hthere : debugged = true := h.debugger (.inr hphase)
  rcases r.asyncStopCase io with ⟨-, heq⟩ | ⟨-, -, -, heq⟩ | ⟨-, -, -, heq⟩
  all_goals
    rw [heq, hthere]
    exact fun hnever => Bool.noConfusion hnever

/-- A step that a debugger does not begin leaves the debugger's loop to it. -/
theorem debugger_step (h : r.Timely debugged)
    (hphase' : (r.step cfg io inp).phase = .asyncLoop ∨ (r.step cfg io inp).phase = .asyncStop) :
    r.debuggedAfter inp debugged accesses = true := by
  revert hphase'
  unfold debuggedAfter CpuRunner.step
  cases hphase : r.phase with
  | outer =>
    rw [if_pos rfl]
    dsimp only
    rcases r.outerCase cfg io inp with ⟨-, heq⟩ | ⟨cold, -, -, heq⟩ | ⟨-, -, -, _, heq⟩ |
      ⟨-, -, -, -, heq⟩ | ⟨-, hreset, hclient, hcmd, heq⟩ | ⟨-, -, -, -, heq⟩
    all_goals rw [heq]
    · simp
    · simp [hphase]
    · simp
    · simp [hphase]
    · simp [hreset, hclient, hcmd]
    · simp [hphase, resume, traceInsn]
  | asyncLoop => exact fun _ => h.debugger (.inl hphase)
  | asyncStop => exact fun _ => h.debugger (.inr hphase)
  | frame fastPath =>
    dsimp only
    unfold stepFrame
    split_ifs <;> simp
  | burst fastPath stop =>
    dsimp only
    rcases stepBurst_phase cfg io hphase with heq | heq <;> simp [heq]
  | afterBurst fastPath =>
    dsimp only
    rcases stepAfterBurst_phase io inp r fastPath with heq | heq <;> simp [heq]
  | afterFrame =>
    dsimp only
    rcases stepAfterFrame_phase io inp r with heq | heq <;> simp [heq]
  | done => simp [hphase]

/-- **What a halted CPU has ahead** after a punctual step. -/
theorem ahead_step (hP : LoopInvariant io Wake.Early Bus.TimersScheduled)
    (h : r.Timely debugged) (hp : r.Punctual cfg io inp debugged accesses)
    (hdebugger : inp.debugger = DebuggerAccess.session io accesses)
    (hearly : Wake.Early (r.step cfg io inp).totalCycles)
    (hhalt : (r.step cfg io inp).machine.cpu.inHalt = true) :
    (r.step cfg io inp).Ahead (r.debuggedAfter inp debugged accesses) := by
  have hother (hne : r.phase ≠ .outer) : r.debuggedAfter inp debugged accesses = debugged :=
    if_neg hne
  revert hhalt hearly
  unfold CpuRunner.step
  cases hphase : r.phase with
  | outer => exact fun _ hhalt => ahead_stepOuter h hp hdebugger hphase hhalt
  | frame fastPath =>
    dsimp only
    unfold stepFrame
    split_ifs
    · exact fun _ _ => trivial
    · intro _ hhalt
      have hahead := h.ahead hhalt
      unfold Ahead at hahead
      rw [hphase] at hahead
      exact fun hend => ⟨(hahead hend).wake, (hahead hend).render, (hahead hend).poll⟩
  | burst fastPath stop =>
    intro _ _
    unfold Ahead
    rcases stepBurst_phase cfg io hphase with heq | heq
    · dsimp only
      rw [heq]
      exact trivial
    · dsimp only
      rw [heq]
      exact trivial
  | afterBurst fastPath =>
    intro _ hhalt
    have hat (hend : _ = false) := atPoints_stepAfterBurst h hp hphase hend hhalt
    unfold Ahead
    rcases stepAfterBurst_phase io inp r fastPath with heq | heq
    · rw [heq]
      exact hat
    · rw [heq]
      exact hat
  | afterFrame =>
    intro hearly hhalt
    unfold Ahead
    rcases stepAfterFrame_phase io inp r with heq | heq
    · dsimp only
      rw [heq]
      exact trivial
    · dsimp only
      rw [heq]
      exact fun _ hend => atPoints_stepAfterFrame hP h hp hphase hearly heq hend hhalt
  | asyncLoop =>
    rw [hother (by rw [hphase]; exact RunnerPhase.noConfusion)]
    exact ahead_stepAsyncLoop hP h hp hphase
  | asyncStop =>
    rw [hother (by rw [hphase]; exact RunnerPhase.noConfusion)]
    exact fun _ _ => ahead_stepAsyncStop h hphase
  | done =>
    intro _ _
    unfold Ahead
    rw [hphase]
    exact trivial

/-- **A punctual step keeps the invariant of the clock.** -/
theorem Timely.step (hio : DeviceInvariant io Bus.TimersScheduled) (h : r.Timely debugged)
    (hp : r.Punctual cfg io inp debugged accesses)
    (hdebugger : inp.debugger = DebuggerAccess.session io accesses)
    (hearly : Wake.Early (r.step cfg io inp).totalCycles) :
    (r.step cfg io inp).Timely (r.debuggedAfter inp debugged accesses) where
  scheduled := by
    refine satisfies_step hio.scheduled_loop cfg inp (r := r) h.scheduled (fun cold _ => ?_) ?_
      hearly
    · have hreset : (r.machine.resetPeripherals cold).periph.Scheduled := by
        cases cold <;> exact h.scheduled.act (.reset _) trivial
      exact hio.read32 (t := 0x400) hreset Bus.flashBase
    · rw [hdebugger]
      exact hio.session accesses h.scheduled
  tick := h.tick.step hp.early hearly
  debugger := debugger_step h
  ahead hhalt := ahead_step hio.scheduled_loop h hp hdebugger hearly hhalt

/-! ### The clock over a run -/

/-- **No jump is to a point that has been passed.** -/
theorem Timely.le_of_mem_jumpPoints (h : r.Timely debugged) {t : U64} (ht : t ∈ r.jumpPoints) :
    r.totalCycles ≤ t := by
  unfold jumpPoints at ht
  split at ht
  case h_1 hphase =>
    split_ifs at ht with hgo
    · exact absurd ht List.not_mem_nil
    · exact absurd ht List.not_mem_nil
    · rw [Bool.or_eq_true, not_or, Bool.not_eq_true, Bool.not_eq_true', Bool.not_eq_false] at hgo
      have hahead := h.ahead hgo.2
      unfold Ahead at hahead
      rw [hphase] at hahead
      obtain ⟨hwake, hrender, hpoll⟩ := hahead hgo.1
      simp only [List.mem_cons, List.not_mem_nil, or_false] at ht
      rcases ht with rfl | rfl | rfl
      · exact hwake
      · exact hrender
      · exact hpoll
  case h_2 hphase =>
    split_ifs at ht with hgo
    · exact absurd ht List.not_mem_nil
    · rw [Bool.or_eq_true, not_or, Bool.not_eq_true, Bool.not_eq_false', Bool.not_eq_true] at hgo
      have hahead := h.ahead hgo.1
      unfold Ahead at hahead
      rw [hphase] at hahead
      rw [List.mem_singleton.mp ht]
      exact hahead hgo.2
  case h_3 => exact absurd ht List.not_mem_nil

/-- **A punctual step moves the clock forward**, or not at all. -/
theorem Timely.le_step (h : r.Timely debugged) (hp : r.Punctual cfg io inp debugged accesses) :
    r.totalCycles ≤ (r.step cfg io inp).totalCycles := by
  rcases clockStep cfg io inp r with heq | ⟨m, hm, heq⟩ | ⟨hmem, -⟩
  · exact BitVec.le_of_eq heq.symm
  · have hearly : r.totalCycles.toNat < 2 ^ 63 := hp.early
    rw [heq, BitVec.le_def, Machine.toNat_add_stepCycles (hp.cost m hm) (by omega)]
    exact Nat.le_add_right _ _
  · exact h.le_of_mem_jumpPoints hmem

/-- At the start the clock stands at its beginning, and all the rest lies ahead. -/
theorem timely_start (hio : DeviceInvariant io Bus.TimersScheduled)
    (h : r.machine.periph.Scheduled) (hclock : r.totalCycles = 0) :
    (r.start io).Timely false where
  scheduled := satisfies_start hio.scheduled_loop h
  tick := by
    refine .of_lt fun _ => lt_timerWake ?_ _
    have hstart := (setButtons_totalCycles io r 0xFF 0xFF).trans hclock
    exact hstart ▸ (by decide : Wake.Early 0)
  debugger hphase := by
    rcases hphase with hphase | hphase
    · exact RunnerPhase.noConfusion (hphase : RunnerPhase.outer = .asyncLoop)
    · exact RunnerPhase.noConfusion (hphase : RunnerPhase.outer = .asyncStop)
  ahead _ _ _ := by
    have hstart : (r.start io).totalCycles = 0 :=
      (setButtons_totalCycles io r 0xFF 0xFF).trans hclock
    have hle (t : U64) : (r.start io).totalCycles ≤ t := by
      rw [hstart, BitVec.le_def]
      exact Nat.zero_le _
    exact ⟨hle _, hle _, hle _⟩

/-- **The invariant over a run** whose steps are punctual. -/
theorem timely_run (hio : DeviceInvariant io Bus.TimersScheduled) (hr : r.Timely false)
    {inputs : ℕ → RunnerInput} {accesses : ℕ → List DebuggerAccess}
    (hdebugger : ∀ n, (inputs n).debugger = DebuggerAccess.session io (accesses n))
    (hp : ∀ n, (run cfg io r inputs n).Punctual cfg io (inputs n)
      (debuggedAt cfg io r inputs accesses n) (accesses n)) (n : ℕ) :
    (run cfg io r inputs n).Timely (debuggedAt cfg io r inputs accesses n) := by
  induction n with
  | zero => exact hr
  | succ n ih => exact ih.step hio (hp n) (hdebugger n) (hp (n + 1)).early

/-- **The clock never goes back** in a run of the CPU thread, over every program, register
write, reset, debugger session and state of the buttons, as long as every step is
punctual. -/
theorem clock_monotone (hio : DeviceInvariant io Bus.TimersScheduled)
    (m : Machine PiecePeripherals) (hm : m.periph.Scheduled) (inputs : ℕ → RunnerInput)
    (accesses : ℕ → List DebuggerAccess)
    (hdebugger : ∀ n, (inputs n).debugger = DebuggerAccess.session io (accesses n))
    (hp : ∀ n,
      let r := ({ machine := m } : CpuRunner).start io
      (run cfg io r inputs n).Punctual cfg io (inputs n) (debuggedAt cfg io r inputs accesses n)
        (accesses n)) {i j : ℕ} (hij : i ≤ j) :
    (run cfg io (({ machine := m } : CpuRunner).start io) inputs i).totalCycles ≤
      (run cfg io (({ machine := m } : CpuRunner).start io) inputs j).totalCycles := by
  have hr := timely_start (r := { machine := m }) hio hm rfl
  induction j, hij using Nat.le_induction with
  | base => exact BitVec.le_refl _
  | succ j _ ih => exact BitVec.le_trans ih ((timely_run hio hr hdebugger hp j).le_step (hp j))

/-! ### Two runs -/

/-- The registers of a board without other devices. -/
def bareIo : IoSpace PiecePeripherals := OtherDevices.absent.attach .cpuRunner

/-- The CPU thread of a board that boots into halts. -/
def haltRunner : CpuRunner :=
  ({ machine := haltBoard.reset bareIo } : CpuRunner).start bareIo

/-- The main thread quits after the second jump. -/
def quitInputs (n : ℕ) : RunnerInput := { quitFlag := decide (9 ≤ n) }

set_option synthInstance.maxSize 1000 in
set_option synthInstance.maxHeartbeats 200000 in
instance (cfg : RunnerConfig) (io : IoSpace PiecePeripherals) (r : CpuRunner) (inp : RunnerInput)
    (debugged : Bool) (accesses : List DebuggerAccess) :
    Decidable (r.Punctual cfg io inp debugged accesses) :=
  decidable_of_iff (Wake.Early r.totalCycles ∧ (∀ m ∈ r.executes cfg inp, 0 ≤ m.stepCycles io) ∧
      (∀ s ∈ r.tickPoint cfg io inp, r.StaysHalted cfg io inp s →
        (s.phase ≠ .asyncLoop → s.totalCycles ≤ s.nextRender) ∧ ¬s.PutOff ∧
          (s.nextTimerWake ≤ s.totalCycles → s.NoneBehind s.totalCycles)) ∧
      (r.phase = .afterFrame → r.jumpPoints ≠ [] → r.StaysHalted cfg io inp r →
        r.NoneBehind r.haltTarget) ∧
      (r.phase = .asyncLoop → (r.step cfg io inp).quit = true →
        ¬(r.step cfg io inp).PutOff) ∧
      (r.phase = .outer → r.ending = false → inp.resetRequest = none →
        inp.asyncClient = false → debugged = true ∨ accesses ≠ [] →
        (inp.debugger r.machine).cpu.inHalt = true → ¬(r.mapMachine inp.debugger).Overrun))
    ⟨fun ⟨early, cost, point, jumped, quits, leaves⟩ =>
      ⟨early, cost, fun s hs hh => (point s hs hh).1, fun s hs hh => (point s hs hh).2.1,
        fun s hs hh => (point s hs hh).2.2, jumped, quits, leaves⟩,
    fun h => ⟨h.early, h.cost, fun s hs hh => ⟨h.frame s hs hh, h.putOff s hs hh,
      h.ticked s hs hh⟩, h.jumped, h.quits, h.leaves⟩⟩

/-- A thread that has ended is punctual. -/
theorem Punctual.of_done {inp : RunnerInput} {debugged : Bool} {accesses : List DebuggerAccess}
    (h : r.phase = .done) (hearly : Wake.Early r.totalCycles) :
    r.Punctual cfg io inp debugged accesses := by
  have hpoint : r.tickPoint cfg io inp = none := by
    unfold tickPoint
    rw [h]
  have hexecutes : r.executes cfg inp = none := by
    unfold executes
    rw [h]
  constructor
  case early => exact hearly
  all_goals simp [hpoint, hexecutes, h]

/-- The thread of that run has ended. -/
theorem quitRun_done (n : ℕ) (hn : 11 ≤ n) :
    (run {} bareIo haltRunner quitInputs n).phase = .done ∧
      Wake.Early (run {} bareIo haltRunner quitInputs n).totalCycles := by
  induction n, hn using Nat.le_induction with
  | base => decide +kernel
  | succ n hn ih =>
    change ((run {} bareIo haltRunner quitInputs n).step {} bareIo (quitInputs n)).phase = .done ∧
      Wake.Early ((run {} bareIo haltRunner quitInputs n).step {} bareIo (quitInputs n)).totalCycles
    unfold step
    rw [ih.1]
    exact ih

theorem quitRun_punctual (n : ℕ) :
    (run {} bareIo haltRunner quitInputs n).Punctual {} bareIo (quitInputs n)
      (debuggedAt {} bareIo haltRunner quitInputs (fun _ => []) n) [] := by
  by_cases hn : n < 11
  · revert n
    decide +kernel
  · obtain ⟨hphase, hearly⟩ := quitRun_done n (Nat.not_lt.mp hn)
    exact .of_done hphase hearly

/-- The CPU halts, jumps to two polls of the buttons, and the main thread quits. -/
theorem clock_monotone_jumps :
    (run {} bareIo haltRunner quitInputs 5).totalCycles ≤
      (run {} bareIo haltRunner quitInputs 11).totalCycles :=
  clock_monotone (OtherDevices.attach_scheduled .scheduled_empty _) (haltBoard.reset bareIo)
    (PiecePeripherals.Reachable.scheduled ⟨[], trivial, rfl⟩) quitInputs (fun _ => [])
    (fun _ => rfl) quitRun_punctual (i := 5) (j := 11) (by decide)

/-- The debugger lets the CPU go on again and again, and once there is a hot start. -/
def resetInputs (n : ℕ) : RunnerInput :=
  if n = 8 then { resetRequest := some false }
  else { asyncClient := true, asyncRunCmd := some false }

/-- **After the reset the clock goes back**, from one head of the outer loop to another:
the first halt jumps to the first point of the clock timer, which has been passed. -/
theorem resetRun_goes_back :
    (run {} bareIo haltRunner resetInputs 8).phase = .outer ∧
      (run {} bareIo haltRunner resetInputs 13).phase = .outer ∧
      (run {} bareIo haltRunner resetInputs 8).totalCycles = 187500 ∧
      (run {} bareIo haltRunner resetInputs 13).totalCycles = 93750 := by
  decide +kernel

end CpuRunner
