import PieceEmu.Core.StepCases
import PieceEmu.Lib.Blit
import PieceEmu.Lib.Run
import PieceEmu.Soc.WakePoints
import PieceEmu.System.PiecePeripherals

/-!
# The loop of a halted CPU

While the CPU is halted, the headless loop jumps to the next wake point when it lies
ahead, ticks the peripherals, polls the interrupt controller, and goes round again.
Each round either wakes the CPU or must leave a wake point that lies ahead; else all
further rounds do the same at the same cycle count.

What could leave a passed wake point behind is a 16-bit timer that is *stuck*
(`Timer16bit.Stuck`): its clock was stopped while it was running, and its tick gives up
before it comes to the cache of the wake point. `Machine.haltLoop_progress_iff` says
that nothing else does, in any state that register writes and ticks can lead to.
-/

/-! ### The states of the peripherals -/

/-- What can happen to the peripherals: a call of a register handler, a call between
two of them, or the tick of one of them. A tick of the board is ticks of these, between
which a trap entry may have written registers. -/
inductive PeriphAction
  | t16Cra (ch : Fin 6) (v : U16)
  | t16Crb (ch : Fin 6) (v : U16)
  | t16Tc (ch : Fin 6) (v : U16)
  | t16Ctl (ch : Fin 6) (v : U16)
  | t8Ctl (ch : Fin 4) (v : U16)
  | t8CtlByte (ch : Fin 4) (addr : U32) (v : U8)
  | clkWrite (addr : U32) (val : U8)
  | setP07 (slow : Bool)
  | wdtWrite (v : U16)
  | wdtWriteByte (addr : U32) (v : U8)
  | rtcstop (v : U8)
  | ch1Start (nowCyc : U64) (cnt : U32)
  /-- Anything to the peripherals that keep no schedule. -/
  | files (intc : InterruptController) (portctrl : PortCtrl) (bcuArea : BcuAreaCtrl)
      (hsdma : Hsdma)
  | tickT16 (ch : Fin 6) (cycles : U64)
  | tickT8 (ch : Fin 4) (cycles : U64)
  | tickWdt (cycles : U64)
  | tickRtc (cycles : U64)
  | tickSound (cycles : U64)
  /-- The end of a tick of the board. -/
  | ticked
  | askWake
  | reset (cold : Bool)

namespace PiecePeripherals

variable (p : PiecePeripherals)

/-- A 16-bit timer, replaced. -/
def setT16 (i : Fin 6) (t : Timer16bit) : PiecePeripherals :=
  { p with t16 := Function.update p.t16 i t }

/-- An 8-bit timer, replaced. -/
def setT8 (i : Fin 4) (t : Timer8bit) : PiecePeripherals :=
  { p with t8 := Function.update p.t8 i t }

/-- One action. -/
def act : PeriphAction → PiecePeripherals
  | .t16Cra ch v => p.setT16 ch ((p.t16 ch).writeCra p.clk v)
  | .t16Crb ch v => p.setT16 ch ((p.t16 ch).writeCrb p.clk v)
  | .t16Tc ch v => p.setT16 ch ((p.t16 ch).writeTc p.clk v)
  | .t16Ctl ch v => p.setT16 ch ((p.t16 ch).writeCtl p.clk v)
  | .t8Ctl ch v => p.setT8 ch ((p.t8 ch).writeCtl v)
  | .t8CtlByte ch addr v => p.setT8 ch ((p.t8 ch).writeCtlByte addr v)
  | .clkWrite addr val => { p with clk := (p.clk.writeSingle addr val).1 }
  | .setP07 slow => { p with clk := (p.clk.setP07 slow).1 }
  | .wdtWrite v => { p with wdt := p.wdt.write v }
  | .wdtWriteByte addr v => { p with wdt := p.wdt.writeByte addr v }
  | .rtcstop v => { p with rtc := p.rtc.writeRtcstop v }
  | .ch1Start nowCyc cnt => { p with sound := p.sound.handleCh1Start p.clk nowCyc cnt }
  | .files intc portctrl bcuArea hsdma =>
    { p with intc := intc, portctrl := portctrl, bcuArea := bcuArea, hsdma := hsdma }
  | .tickT16 ch cycles => p.setT16 ch ((p.t16 ch).tick p.clk cycles).1
  | .tickT8 ch cycles => p.setT8 ch ((p.t8 ch).tick p.clk cycles).1
  | .tickWdt cycles => { p with wdt := (p.wdt.tick p.clk cycles).1 }
  | .tickRtc cycles => { p with rtc := p.rtc.tick p.clk cycles }
  | .tickSound cycles => { p with sound := (p.sound.tick cycles).1 }
  | .ticked => { p with wakeValid := false }
  | .askWake => p.askedWake
  | .reset cold => p.reset cold

/-- A tick takes place long before the clock could wrap. -/
def EarlyTick : PeriphAction → Prop
  | .tickT16 _ cycles | .tickT8 _ cycles | .tickWdt cycles | .tickRtc cycles
  | .tickSound cycles => Wake.Early cycles
  | _ => True

/-- **The reachable states**: what actions make of the peripherals of a fresh board. -/
def Reachable : Prop :=
  ∃ acts, ActionRun.Along act (fun _ a => EarlyTick a) (attach {}) acts ∧
    p = ActionRun.exec act (attach {}) acts

/-- What the timers of a reachable state keep. -/
structure Scheduled : Prop where
  t16 : ∀ i, (p.t16 i).Scheduled
  t8 : ∀ i, (p.t8 i).Scheduled

/-- What a question for the wake point caches is what it answers. -/
theorem askedWake_nextWakeCycle : p.askedWake.nextWakeCycle = p.nextWakeCycle := by
  unfold askedWake
  cases hvalid : p.wakeValid with
  | true => rw [if_pos rfl]
  | false =>
    rw [if_neg Bool.false_ne_true]
    unfold nextWakeCycle
    rw [hvalid, if_neg Bool.false_ne_true]
    dsimp only
    rw [if_pos rfl]

variable {p}

theorem Scheduled.setT16 (h : p.Scheduled) (i : Fin 6) {t : Timer16bit} (ht : t.Scheduled) :
    (p.setT16 i t).Scheduled :=
  ⟨(Function.forall_update_iff p.t16 fun _ t => t.Scheduled).mpr ⟨ht, fun j _ => h.t16 j⟩, h.t8⟩

theorem Scheduled.setT8 (h : p.Scheduled) (i : Fin 4) {t : Timer8bit} (ht : t.Scheduled) :
    (p.setT8 i t).Scheduled :=
  ⟨h.t16, (Function.forall_update_iff p.t8 fun _ t => t.Scheduled).mpr ⟨ht, fun j _ => h.t8 j⟩⟩

/-- Every action keeps the timers scheduled. -/
theorem Scheduled.act (h : p.Scheduled) (a : PeriphAction) (ha : EarlyTick a) :
    (p.act a).Scheduled := by
  cases a with
  | t16Cra ch v => exact h.setT16 ch ((h.t16 ch).writeCra v)
  | t16Crb ch v => exact h.setT16 ch ((h.t16 ch).writeCrb v)
  | t16Tc ch v => exact h.setT16 ch ((h.t16 ch).writeTc v)
  | t16Ctl ch v => exact h.setT16 ch ((h.t16 ch).writeCtl v)
  | t8Ctl ch v => exact h.setT8 ch ((h.t8 ch).writeCtl v)
  | t8CtlByte ch addr v => exact h.setT8 ch ((h.t8 ch).writeCtlByte addr v)
  | tickT16 ch cycles => exact h.setT16 ch ((h.t16 ch).tick ha).1
  | tickT8 ch cycles => exact h.setT8 ch ((h.t8 ch).tick ha).1
  | askWake =>
    change p.askedWake.Scheduled
    unfold askedWake
    split_ifs
    · exact h
    · exact ⟨h.t16, fun i => (h.t8 i).askedWake⟩
  | reset cold =>
    exact ⟨fun i => Timer16bit.scheduled_reset _, fun i => Timer8bit.scheduled_reset _⟩
  | clkWrite | setP07 | wdtWrite | wdtWriteByte | rtcstop | ch1Start | files | tickWdt | tickRtc
  | tickSound | ticked => exact ⟨h.t16, h.t8⟩

theorem Reachable.scheduled (h : p.Reachable) : p.Scheduled := by
  obtain ⟨acts, halong, rfl⟩ := h
  refine ActionRun.exec_invariant (fun p a hp ha => hp.act a ha) ?_ halong
  exact ⟨fun i => Timer16bit.scheduled_reset { ch := i },
    fun i => Timer8bit.scheduled_reset { ch := i }⟩

end PiecePeripherals

/-! ### The loop -/

namespace Machine

variable (io : IoSpace PiecePeripherals) (m : Machine PiecePeripherals)

/-- The cycle count a round of the loop ticks at: the wake point, if it lies ahead. -/
def haltCycles (totalCycles : U64) : U64 :=
  if totalCycles < m.wakePoint then m.wakePoint else totalCycles

/-- One round of the loop, with `do_tick` up to the taking of the new wake point. -/
def haltRound (totalCycles : U64) : Machine PiecePeripherals :=
  m.askedWakePoint.tickAndPoll io (m.haltCycles totalCycles)

/-- **The round makes progress**: it wakes the CPU, or the wake point it leaves lies
ahead. -/
def Progress (totalCycles : U64) : Prop :=
  (m.haltRound io totalCycles).cpu.inHalt = false ∨
    m.haltCycles totalCycles < (m.haltRound io totalCycles).wakePoint

/-! ### A round that does not wake the CPU -/

/-- What the wake points depend on. -/
structure Schedule where
  clk : ClockControl
  t8 : Fin 4 → Timer8bit
  t16 : Fin 6 → Timer16bit
  wdt : WatchdogTimer
  rtc : ClockTimer
  sound : SoundIrq
  wakeCached : U64
  wakeValid : Bool

/-- The schedule of the peripherals. -/
def schedule : Schedule :=
  ⟨m.periph.clk, m.periph.t8, m.periph.t16, m.periph.wdt, m.periph.rtc, m.periph.sound,
    m.periph.wakeCached, m.periph.wakeValid⟩

variable {m} in
/-- The wake point depends on the schedule alone. -/
theorem wakePoint_congr {m' : Machine PiecePeripherals} (hsleep : m'.sleeping = m.sleeping)
    (hsched : m'.schedule = m.schedule) : m'.wakePoint = m.wakePoint := by
  have hclk : m'.periph.clk = m.periph.clk := congrArg Schedule.clk hsched
  have ht8 : m'.periph.t8 = m.periph.t8 := congrArg Schedule.t8 hsched
  have ht16 : m'.periph.t16 = m.periph.t16 := congrArg Schedule.t16 hsched
  have hwdt : m'.periph.wdt = m.periph.wdt := congrArg Schedule.wdt hsched
  have hrtc : m'.periph.rtc = m.periph.rtc := congrArg Schedule.rtc hsched
  have hsound : m'.periph.sound = m.periph.sound := congrArg Schedule.sound hsched
  have hcached : m'.periph.wakeCached = m.periph.wakeCached := congrArg Schedule.wakeCached hsched
  have hvalid : m'.periph.wakeValid = m.periph.wakeValid := congrArg Schedule.wakeValid hsched
  unfold wakePoint PiecePeripherals.sleepWakeCycle PiecePeripherals.nextWakeCycle
    PiecePeripherals.computeWake
  rw [hsleep, hclk, ht8, ht16, hwdt, hrtc, hsound, hcached, hvalid]

/-- A question for the wake point does not move it. -/
theorem wakePoint_askedWake : (m.mapPeriph PiecePeripherals.askedWake).wakePoint = m.wakePoint := by
  have hnext : m.periph.askedWake.nextWakeCycle = m.periph.nextWakeCycle :=
    m.periph.askedWake_nextWakeCycle
  have hrtc : m.periph.askedWake.sleepWakeCycle = m.periph.sleepWakeCycle := by
    unfold PiecePeripherals.askedWake
    split_ifs <;> rfl
  unfold wakePoint
  rw [← hnext, ← hrtc]
  rfl

/-- **An operation that leaves the CPU halted** has entered no trap: all it has done is
`f`, to the schedule. -/
def KeepsHalt (f : Schedule → Schedule) (m m' : Machine PiecePeripherals) : Prop :=
  m'.cpu.inHalt = true →
    m.cpu.inHalt = true ∧ m'.sleeping = m.sleeping ∧ m'.schedule = f m.schedule

variable {m} {m' m'' : Machine PiecePeripherals}

theorem KeepsHalt.trans {f g : Schedule → Schedule} (h : KeepsHalt f m m')
    (h' : KeepsHalt g m' m'') : KeepsHalt (g ∘ f) m m'' := by
  intro hhalt
  obtain ⟨hhalt', hsleep', hsched'⟩ := h' hhalt
  obtain ⟨hhalt, hsleep, hsched⟩ := h hhalt'
  exact ⟨hhalt, hsleep'.trans hsleep, hsched'.trans (congrArg g hsched)⟩

theorem KeepsHalt.foldl {ι : Type*} {op : Machine PiecePeripherals → ι → Machine PiecePeripherals}
    {f : Schedule → ι → Schedule} (h : ∀ m i, KeepsHalt (f · i) m (op m i)) (l : List ι)
    (m : Machine PiecePeripherals) : KeepsHalt (l.foldl f ·) m (l.foldl op m) := by
  induction l generalizing m with
  | nil => exact fun hhalt => ⟨hhalt, rfl, rfl⟩
  | cons i l ih => exact (h m i).trans (ih (op m i))

theorem keepsHalt_assertTrap (m : Machine PiecePeripherals) (no level : ℤ) :
    KeepsHalt id m (m.assertTrap io no level) := by
  rcases m.doTrap_cases io no level with ⟨-, h⟩ | ⟨-, -, h⟩ | ⟨-, -, h⟩
  · rw [assertTrap, h]
    exact fun hhalt => ⟨hhalt, rfl, rfl⟩
  · rw [assertTrap, h]
    exact fun hhalt => ⟨hhalt, rfl, rfl⟩
  · rw [assertTrap, h]
    exact fun hhalt => Bool.noConfusion hhalt

theorem keepsHalt_deliver (m : Machine PiecePeripherals)
    (c : InterruptController × Option (ℤ × ℤ)) : KeepsHalt id m (m.deliver io c) := by
  have hintc : KeepsHalt id m (m.mapPeriph ({ · with intc := c.1 })) :=
    fun hhalt => ⟨hhalt, rfl, rfl⟩
  unfold deliver
  cases c.2 with
  | none => exact hintc
  | some trap => exact hintc.trans (keepsHalt_assertTrap io _ trap.1 trap.2)

theorem keepsHalt_raiseAll (m : Machine PiecePeripherals) (srcs : List IrqSource) :
    KeepsHalt id m (m.raiseAll io srcs) := by
  induction srcs generalizing m with
  | nil => exact fun hhalt => ⟨hhalt, rfl, rfl⟩
  | cons src srcs ih => exact (keepsHalt_deliver io m _).trans (ih (m.raise io src (-1)))

/-! The ticks, as they act on the schedule. -/

/-- `t16_ch[i].tick`. -/
def Schedule.tickT16 (cycles : U64) (s : Schedule) (i : Fin 6) : Schedule :=
  { s with t16 := Function.update s.t16 i ((s.t16 i).tick s.clk cycles).1 }

/-- `t8_ch[i].tick`. -/
def Schedule.tickT8 (cycles : U64) (s : Schedule) (i : Fin 4) : Schedule :=
  { s with t8 := Function.update s.t8 i ((s.t8 i).tick s.clk cycles).1 }

/-- The ticks of the watchdog, the clock timer and the sound channel; the cache of the
wake point is dropped. -/
def Schedule.tickRest (cycles : U64) (s : Schedule) : Schedule :=
  { s with
    wdt := (s.wdt.tick s.clk cycles).1
    rtc := s.rtc.tick s.clk cycles
    sound := (s.sound.tick cycles).1
    wakeValid := false }

theorem keepsHalt_tickT16 (cycles : U64) (m : Machine PiecePeripherals) (i : Fin 6) :
    KeepsHalt (Schedule.tickT16 cycles · i) m (tickT16 io cycles m i) := by
  refine KeepsHalt.trans (f := (Schedule.tickT16 cycles · i)) ?_ (keepsHalt_raiseAll io _ _)
  exact fun hhalt => ⟨hhalt, rfl, rfl⟩

theorem keepsHalt_tickT8 (cycles : U64) (m : Machine PiecePeripherals) (i : Fin 4) :
    KeepsHalt (Schedule.tickT8 cycles · i) m (tickT8 io cycles m i) := by
  refine KeepsHalt.trans (f := (Schedule.tickT8 cycles · i)) ?_ (keepsHalt_raiseAll io _ _)
  exact fun hhalt => ⟨hhalt, rfl, rfl⟩

theorem keepsHalt_tickWdt (cycles : U64) (m : Machine PiecePeripherals) :
    KeepsHalt (fun s => { s with wdt := (s.wdt.tick s.clk cycles).1 }) m (m.tickWdt io cycles) := by
  unfold tickWdt
  dsimp only
  split_ifs
  · refine KeepsHalt.trans (f := fun s => { s with wdt := (s.wdt.tick s.clk cycles).1 }) ?_
      (keepsHalt_assertTrap io _ 7 0)
    exact fun hhalt => ⟨hhalt, rfl, rfl⟩
  · exact fun hhalt => ⟨hhalt, rfl, rfl⟩

theorem keepsHalt_tickSound (cycles : U64) (m : Machine PiecePeripherals) :
    KeepsHalt (fun s => { s with sound := (s.sound.tick cycles).1 }) m (m.tickSound io cycles) := by
  unfold tickSound
  dsimp only
  split_ifs
  · refine KeepsHalt.trans (f := fun s => { s with sound := (s.sound.tick cycles).1 }) ?_
      (keepsHalt_deliver io _ _)
    exact fun hhalt => ⟨hhalt, rfl, rfl⟩
  · exact fun hhalt => ⟨hhalt, rfl, rfl⟩

/-- **The tick of the board**, as it acts on the schedule when it leaves the CPU halted. -/
def Schedule.tick (cycles : U64) (s : Schedule) : Schedule :=
  (((List.finRange 4).filter fun i => (s.t8 i).active).foldl (Schedule.tickT8 cycles)
    (((List.finRange 6).filter fun i => (s.t16 i).active).foldl (Schedule.tickT16 cycles)
      s)).tickRest cycles

theorem keepsHalt_tickPeripherals (cycles : U64) (m : Machine PiecePeripherals) :
    KeepsHalt (Schedule.tick cycles) m (m.tickPeripherals io cycles) := by
  have h16 := KeepsHalt.foldl (keepsHalt_tickT16 io cycles)
    ((List.finRange 6).filter fun i => (m.periph.t16 i).active) m
  have h8 := h16.trans (KeepsHalt.foldl (keepsHalt_tickT8 io cycles)
    ((List.finRange 4).filter fun i => (m.periph.t8 i).active) _)
  have hwdt := h8.trans (keepsHalt_tickWdt io cycles _)
  have hrtc (m' : Machine PiecePeripherals) :
      KeepsHalt (fun s => { s with rtc := s.rtc.tick s.clk cycles }) m' (m'.tickRtc cycles) :=
    fun hhalt => ⟨hhalt, rfl, rfl⟩
  have hsound := (hwdt.trans (hrtc _)).trans (keepsHalt_tickSound io cycles _)
  exact hsound.trans (g := fun s => { s with wakeValid := false }) fun hhalt => ⟨hhalt, rfl, rfl⟩

theorem keepsHalt_tickAndPoll (cycles : U64) (m : Machine PiecePeripherals) :
    KeepsHalt (Schedule.tick cycles) m (m.tickAndPoll io cycles) := by
  have hil (m' : Machine PiecePeripherals) (il : U32) :
      KeepsHalt id m' (m'.mapPeriph fun p => { p with intc := p.intc.setCurrentIl il }) :=
    fun hhalt => ⟨hhalt, rfl, rfl⟩
  exact ((keepsHalt_tickPeripherals io cycles m).trans (hil _ _)).trans (keepsHalt_deliver io _ _)

/-! ### The wake points after a tick -/

namespace Schedule

variable (s : Schedule) (cycles : U64)

theorem foldl_tickT16 (l : List (Fin 6)) : l.foldl (tickT16 cycles) s =
    { s with
      t16 := l.foldl (fun f i => Function.update f i ((f i).tick s.clk cycles).1) s.t16 } := by
  induction l generalizing s with
  | nil => rfl
  | cons i l ih => exact ih (s.tickT16 cycles i)

theorem foldl_tickT8 (l : List (Fin 4)) : l.foldl (tickT8 cycles) s =
    { s with t8 := l.foldl (fun f i => Function.update f i ((f i).tick s.clk cycles).1) s.t8 } := by
  induction l generalizing s with
  | nil => rfl
  | cons i l ih => exact ih (s.tickT8 cycles i)

theorem tick_eq : s.tick cycles = ({ s with
    t16 := ((List.finRange 6).filter fun i => (s.t16 i).active).foldl
      (fun f i => Function.update f i ((f i).tick s.clk cycles).1) s.t16
    t8 := ((List.finRange 4).filter fun i => (s.t8 i).active).foldl
      (fun f i => Function.update f i ((f i).tick s.clk cycles).1) s.t8 } : Schedule).tickRest
        cycles := by
  unfold tick
  rw [foldl_tickT16, foldl_tickT8]

variable {s}

/-- A timer that is not in the mask of its parent does not run, and its tick does
nothing. -/
theorem tick_t16 (h : ∀ i, (s.t16 i).Scheduled) (i : Fin 6) :
    (s.tick cycles).t16 i = ((s.t16 i).tick s.clk cycles).1 := by
  rw [tick_eq]
  refine (foldl_update (fun t => (t.tick s.clk cycles).1)
    ((List.nodup_finRange 6).filter _) s.t16 i).trans ?_
  split_ifs with hmem
  · rfl
  · have hrun : (s.t16 i).prun = false := by
      rw [← (h i).active]
      simpa using hmem
    unfold Timer16bit.tick
    rw [hrun]
    rfl

theorem tick_t8 (h : ∀ i, (s.t8 i).Scheduled) (i : Fin 4) :
    (s.tick cycles).t8 i = ((s.t8 i).tick s.clk cycles).1 := by
  rw [tick_eq]
  refine (foldl_update (fun t => (t.tick s.clk cycles).1)
    ((List.nodup_finRange 4).filter _) s.t8 i).trans ?_
  split_ifs with hmem
  · rfl
  · have hrun : (s.t8 i).ptrun = false := by
      rw [← (h i).active]
      simpa using hmem
    unfold Timer8bit.tick
    rw [hrun]
    rfl

variable (s)

theorem tick_clk : (s.tick cycles).clk = s.clk := by
  rw [tick_eq]
  rfl

theorem tick_rtc : (s.tick cycles).rtc = s.rtc.tick s.clk cycles := by
  rw [tick_eq]
  rfl

theorem tick_wdt : (s.tick cycles).wdt = (s.wdt.tick s.clk cycles).1 := by
  rw [tick_eq]
  rfl

theorem tick_sound : (s.tick cycles).sound = (s.sound.tick cycles).1 := by
  rw [tick_eq]
  rfl

theorem tick_wakeValid : (s.tick cycles).wakeValid = false := by
  rw [tick_eq]
  rfl

end Schedule

/-- The wake point lies ahead when that of every peripheral does. -/
theorem lt_computeWake_iff (p : PiecePeripherals) {now : U64} (hnow : Wake.Early now) :
    now < p.computeWake ↔ (∀ i, now < (p.t8 i).nextWakeCycle p.clk) ∧
      (∀ i, now < (p.t16 i).cachedWake) ∧ now < p.rtc.nextWakeCycle ∧
        now < p.wdt.nextWakeCycle ∧ now < p.sound.nextWakeCycle := by
  unfold PiecePeripherals.computeWake
  simp only [Words.lt_stdMin_iff, Words.lt_foldl_stdMin_iff, List.mem_finRange, true_implies,
    hnow.lt_uint64Max, true_and, and_assoc]
  rfl

/-- What a tick at `now` leaves of the schedule `s`: every peripheral but the 16-bit timers
wakes after it. -/
structure Ticked (m' : Machine PiecePeripherals) (s : Schedule) (now : U64) : Prop where
  t8 : ∀ i, now < (m'.periph.t8 i).nextWakeCycle m'.periph.clk
  t16 : ∀ i, m'.periph.t16 i = ((s.t16 i).tick s.clk now).1
  rtc : now < m'.periph.rtc.nextWakeCycle
  wdt : now < m'.periph.wdt.nextWakeCycle
  sound : now < m'.periph.sound.nextWakeCycle
  wakeValid : m'.periph.wakeValid = false

theorem ticked_of_schedule {now : U64} (hnow : Wake.Early now) {s : Schedule}
    (h16 : ∀ i, (s.t16 i).Scheduled) (h8 : ∀ i, (s.t8 i).Scheduled)
    (hsched : m'.schedule = s.tick now) : Ticked m' s now := by
  have hclk : m'.periph.clk = s.clk :=
    (congrArg Schedule.clk hsched).trans (s.tick_clk now)
  constructor
  · intro i
    have heq : m'.periph.t8 i = _ :=
      (congrArg (fun s => Schedule.t8 s i) hsched).trans (s.tick_t8 now h8 i)
    rw [hclk, heq]
    exact ((h8 i).tick hnow).2
  · intro i
    exact (congrArg (fun s => Schedule.t16 s i) hsched).trans (s.tick_t16 now h16 i)
  · have heq : m'.periph.rtc = s.rtc.tick s.clk now :=
      (congrArg Schedule.rtc hsched).trans (s.tick_rtc now)
    rw [heq]
    exact s.rtc.tick_wake s.clk hnow
  · have heq : m'.periph.wdt = (s.wdt.tick s.clk now).1 :=
      (congrArg Schedule.wdt hsched).trans (s.tick_wdt now)
    rw [heq]
    exact s.wdt.tick_wake s.clk hnow
  · have heq : m'.periph.sound = (s.sound.tick now).1 :=
      (congrArg Schedule.sound hsched).trans (s.tick_sound now)
    rw [heq]
    exact s.sound.tick_wake hnow
  · exact (congrArg Schedule.wakeValid hsched).trans (s.tick_wakeValid now)

/-- **After a tick only a stuck timer can be due.** -/
theorem Ticked.lt_computeWake_iff {now : U64} (hnow : Wake.Early now) {s : Schedule}
    (h16 : ∀ i, (s.t16 i).Scheduled) (h : Ticked m' s now) :
    now < m'.periph.computeWake ↔ ∀ i, ¬(s.t16 i).Stuck s.clk now := by
  have ht16 (i : Fin 6) :
      now < (m'.periph.t16 i).cachedWake ↔ ¬(s.t16 i).Stuck s.clk now := by
    rw [h.t16 i]
    exact ((h16 i).tick hnow).2
  rw [Machine.lt_computeWake_iff _ hnow]
  exact ⟨fun h' i => (ht16 i).mp (h'.2.1 i), fun h' =>
    ⟨h.t8, fun i => (ht16 i).mpr (h' i), h.rtc, h.wdt, h.sound⟩⟩

/-- After a tick only a timer that has been left behind can be overdue. -/
theorem Ticked.le_computeWake {now : U64} (hnow : Wake.Early now) {s : Schedule}
    (h16 : ∀ i, (s.t16 i).Scheduled) (h : Ticked m' s now)
    (hbehind : ∀ i, ¬(s.t16 i).Behind s.clk now) : now ≤ m'.periph.computeWake := by
  have ht16 (i : Fin 6) : now ≤ (m'.periph.t16 i).nextWakeCycle := by
    rw [h.t16 i]
    exact (h16 i).le_wake_tick hnow (hbehind i)
  unfold PiecePeripherals.computeWake
  refine Words.le_stdMin_iff.mpr ⟨?_, BitVec.le_of_lt h.sound⟩
  refine Words.le_stdMin_iff.mpr ⟨?_, BitVec.le_of_lt h.wdt⟩
  refine Words.le_stdMin_iff.mpr ⟨?_, BitVec.le_of_lt h.rtc⟩
  refine (Words.le_foldl_stdMin_iff _ _).mpr ⟨?_, fun i _ => ht16 i⟩
  exact (Words.le_foldl_stdMin_iff _ _).mpr
    ⟨BitVec.le_of_lt hnow.lt_uint64Max, fun i _ => BitVec.le_of_lt (h.t8 i)⟩

/-- Asking for the wake point keeps the timers scheduled, and the 16-bit timers as they
are. -/
theorem askedWakePoint_schedule (h : m.periph.Scheduled) :
    m.askedWakePoint.sleeping = m.sleeping ∧ m.askedWakePoint.schedule.clk = m.periph.clk ∧
      m.askedWakePoint.schedule.t16 = m.periph.t16 ∧
        ∀ i, (m.askedWakePoint.schedule.t8 i).Scheduled := by
  unfold askedWakePoint
  split_ifs
  · exact ⟨rfl, rfl, rfl, h.t8⟩
  · have hasked := h.act .askWake trivial
    refine ⟨rfl, ?_, ?_, hasked.t8⟩
    · change m.periph.askedWake.clk = m.periph.clk
      unfold PiecePeripherals.askedWake
      split_ifs <;> rfl
    · change m.periph.askedWake.t16 = m.periph.t16
      unfold PiecePeripherals.askedWake
      split_ifs <;> rfl

/-- What a tick that leaves the CPU halted has made of the schedule. -/
theorem ticked_tickAndPoll {now : U64} (hnow : Wake.Early now)
    (h16 : ∀ i, (m.periph.t16 i).Scheduled)
    (h8 : ∀ i, (m.periph.t8 i).Scheduled) (hhalt : (m.tickAndPoll io now).cpu.inHalt = true) :
    Ticked (m.tickAndPoll io now) m.schedule now :=
  ticked_of_schedule hnow h16 h8 (keepsHalt_tickAndPoll io now m hhalt).2.2

/-- A tick that leaves the CPU halted leaves its wake point ahead, unless a timer has been
left behind. -/
theorem le_wakePoint_tick (h : m.periph.Scheduled) {now : U64} (hnow : Wake.Early now)
    (hhalt : (m.tickAndPoll io now).cpu.inHalt = true)
    (hnone : m.sleeping = true ∨ ∀ i, ¬(m.periph.t16 i).Behind m.periph.clk now) :
    now ≤ (m.tickAndPoll io now).wakePoint := by
  obtain ⟨-, hsleep, -⟩ := keepsHalt_tickAndPoll io now m hhalt
  have hticked := ticked_tickAndPoll io hnow h.t16 h.t8 hhalt
  unfold wakePoint
  rw [hsleep]
  cases hs : m.sleeping with
  | true => exact BitVec.le_of_lt hticked.rtc
  | false =>
    rw [if_neg Bool.false_ne_true]
    unfold PiecePeripherals.nextWakeCycle
    rw [hticked.wakeValid, if_neg Bool.false_ne_true]
    refine hticked.le_computeWake hnow h.t16 (hnone.resolve_left ?_)
    rw [hs]
    exact Bool.false_ne_true

/-- **A round of the loop of a halted CPU makes progress** if and only if it wakes the CPU,
or the CPU sleeps, or no 16-bit timer is stuck at the cycle count it ticks at. -/
theorem haltLoop_progress_iff (m : Machine PiecePeripherals) (totalCycles : U64)
    (hreach : m.periph.Reachable) (hearly : Wake.Early (m.haltCycles totalCycles)) :
    m.Progress io totalCycles ↔
      ((m.haltRound io totalCycles).cpu.inHalt = true → m.sleeping = true ∨
        ∀ i, ¬(m.periph.t16 i).Stuck m.periph.clk (m.haltCycles totalCycles)) := by
  cases hhalt : (m.haltRound io totalCycles).cpu.inHalt with
  | false => exact iff_of_true (.inl hhalt) fun h => Bool.noConfusion h
  | true =>
    obtain ⟨hsleep, hclk, ht16, ht8⟩ := askedWakePoint_schedule hreach.scheduled
    have h16 (i : Fin 6) : (m.askedWakePoint.schedule.t16 i).Scheduled := by
      rw [ht16]
      exact hreach.scheduled.t16 i
    have hticked := ticked_tickAndPoll io hearly h16 ht8 hhalt
    have hiff := hticked.lt_computeWake_iff hearly h16
    rw [ht16, hclk] at hiff
    obtain ⟨-, hsleep', -⟩ := keepsHalt_tickAndPoll io (m.haltCycles totalCycles)
      m.askedWakePoint hhalt
    have hprogress : m.Progress io totalCycles ↔
        m.haltCycles totalCycles < (m.haltRound io totalCycles).wakePoint := by
      unfold Progress
      rw [hhalt]
      exact ⟨fun h => h.resolve_left Bool.noConfusion, .inr⟩
    rw [hprogress, forall_prop_of_true rfl]
    unfold wakePoint
    rw [show (m.haltRound io totalCycles).sleeping = m.sleeping from hsleep'.trans hsleep]
    cases m.sleeping with
    | true => exact iff_of_true hticked.rtc (.inl rfl)
    | false =>
      rw [if_neg Bool.false_ne_true]
      unfold PiecePeripherals.nextWakeCycle
      rw [show (m.haltRound io totalCycles).periph.wakeValid = false from hticked.wakeValid,
        if_neg Bool.false_ne_true]
      exact hiff.trans ⟨.inr, fun h => h.resolve_left Bool.noConfusion⟩

/-! ### A timer whose clock is stopped -/

/-- A board with a halted CPU, after the given actions. -/
def haltedBoard (acts : List PeriphAction) : Machine PiecePeripherals where
  cpu := { inHalt := true, haltMode := .hlt }
  bus :=
    { iram := fun _ => 0, sram := fun _ => 0, sramSize := 0x40000
      flash := .flat ⟨0x80000, fun _ => 0xFF⟩
      dev := ActionRun.exec PiecePeripherals.act (PiecePeripherals.attach {}) acts }

/-- Channel 0 of the 16-bit timer is set going. -/
def startTimer : List PeriphAction := [.clkWrite 0x040147 0x08, .t16Crb 0 100, .t16Ctl 0 1]

theorem haltLoop_progress_running :
    (haltedBoard startTimer).Progress (IoSpace.empty _) 50 := by
  refine (haltLoop_progress_iff (IoSpace.empty _) (haltedBoard startTimer) 50
    ⟨startTimer, ?_, rfl⟩ ?_).mpr fun _ => .inr ?_
  · exact ⟨trivial, trivial, trivial, trivial⟩
  · unfold Wake.Early
    decide +kernel
  · decide +kernel

/-- **A timer whose clock is stopped while it runs** keeps the wake point it has cached,
and the loop ticks at the same cycle count again and again. -/
theorem haltLoop_stuck :
    (haltedBoard (startTimer ++ [.clkWrite 0x040147 0x00])).periph.Reachable ∧
      (haltedBoard (startTimer ++ [.clkWrite 0x040147 0x00])).wakePoint = 100 ∧
      ¬(haltedBoard (startTimer ++ [.clkWrite 0x040147 0x00])).Progress (IoSpace.empty _) 200 := by
  refine ⟨⟨startTimer ++ [.clkWrite 0x040147 0x00], ?_, rfl⟩, by decide +kernel, ?_⟩
  · exact ⟨trivial, trivial, trivial, trivial, trivial⟩
  · unfold Progress
    decide +kernel

end Machine
