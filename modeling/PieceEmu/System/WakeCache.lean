import PieceEmu.System.HaltLoop

/-!
# The cache of the wake point

`next_wake_cycle` computes the earliest of the wake points of all peripherals and keeps it
until the next tick or reset. While the CPU runs this does no harm, since the runner comes
back for a tick before long whatever the cache says. But a halted CPU is moved on to the
cached point, in a jump: when a register write between the last query and the `halt`
(of a timer that is started, say) has moved a wake point to before it, the jump goes past
the event.

The runs of this module are those of a board whose CPU writes registers, halts and comes to
the halt path (`WakeCache.Event`). The writes that can do harm are those that set an event
(`PiecePeripherals.setsEvent`); a write of any other kind brings no wake point forward
(`PiecePeripherals.BeforeAll.act`). A CPU that never halts on a cache filled before such a
write is never advanced past an event: `WakeCache.haltsInTime`.
-/

/-- A call of a register handler, an HSDMA start or a change of the clock: what an
instruction does to the board. -/
def PeriphAction.isWrite : PeriphAction → Bool
  | .tickT16 _ _ | .tickT8 _ _ | .tickWdt _ | .tickRtc _ | .tickSound _ | .ticked | .askWake
  | .reset _ => false
  | _ => true

namespace PiecePeripherals

variable (p : PiecePeripherals)

/-- A cycle count that is not later than any of the wake points. -/
structure BeforeAll (x : U64) : Prop where
  t8 : ∀ i, x ≤ (p.t8 i).nextWakeCycle p.clk
  t16 : ∀ i, x ≤ (p.t16 i).nextWakeCycle
  rtc : x ≤ p.rtc.nextWakeCycle
  wdt : x ≤ p.wdt.nextWakeCycle
  sound : x ≤ p.sound.nextWakeCycle

/-- **The target of the jump** of a halted CPU is at most the earliest wake point there is
now. -/
def NotLate : Prop := p.BeforeAll p.nextWakeCycle

/-- Another clock changes the time a count takes in an 8-bit timer that runs. The wake point
of a 16-bit timer is not computed anew for another clock. -/
def reclocks (clk : ClockControl) : Bool :=
  decide (∃ i, (p.t8 i).ptrun = true ∧ (p.t8 i).cpc clk ≠ (p.t8 i).cpc p.clk)

/-- **The writes that set an event**: a 16-bit timer is set going, or a register of one that
runs is written; an 8-bit timer is set going, or preset while it runs, or given another
clock; the watchdog is set going; a burst of samples is started. -/
def setsEvent : PeriphAction → Bool
  | .t16Cra ch _ | .t16Crb ch _ | .t16Tc ch _ => (p.t16 ch).prun
  | .t16Ctl _ v => v.getLsbD 0
  | .t8Ctl ch v => v.getLsbD 0 && (!(p.t8 ch).ptrun || v.getLsbD 1)
  | .t8CtlByte ch addr v => !addr.getLsbD 0 && (v.getLsbD 0 && (!(p.t8 ch).ptrun || v.getLsbD 1))
  | .clkWrite addr val => p.reclocks (p.clk.writeSingle addr val).1
  | .setP07 slow => p.reclocks (p.clk.setP07 slow).1
  | .wdtWrite v => !p.wdt.running && v.getLsbD 9
  | .wdtWriteByte addr v => addr.getLsbD 0 && (!p.wdt.running && v.getLsbD 1)
  | .ch1Start _ cnt => cnt ≠ 0
  | _ => false

variable {p}

/-! ### The earliest wake point -/

theorem beforeAll_computeWake (p : PiecePeripherals) : p.BeforeAll p.computeWake := by
  obtain ⟨h, hsound⟩ := Words.le_stdMin_iff.mp (BitVec.le_refl p.computeWake)
  obtain ⟨h, hwdt⟩ := Words.le_stdMin_iff.mp h
  obtain ⟨h, hrtc⟩ := Words.le_stdMin_iff.mp h
  obtain ⟨h, ht16⟩ := (Words.le_foldl_stdMin_iff _ _).mp h
  obtain ⟨-, ht8⟩ := (Words.le_foldl_stdMin_iff _ _).mp h
  exact ⟨fun i => ht8 i (List.mem_finRange i), fun i => ht16 i (List.mem_finRange i), hrtc, hwdt,
    hsound⟩

/-- Without a cache, the target is computed. -/
theorem notLate_of_invalid (h : p.wakeValid = false) : p.NotLate := by
  unfold NotLate nextWakeCycle
  rw [h, if_neg Bool.false_ne_true]
  exact p.beforeAll_computeWake

theorem notLate_iff_cached (h : p.wakeValid = true) : p.NotLate ↔ p.BeforeAll p.wakeCached := by
  unfold NotLate nextWakeCycle
  rw [h, if_pos rfl]

/-! ### The events -/

theorem beforeAll_setT16 {x : U64} (h : p.BeforeAll x) (i : Fin 6) (t : Timer16bit) :
    (p.setT16 i t).BeforeAll x ↔ x ≤ ((p.setT16 i t).t16 i).nextWakeCycle := by
  refine ⟨fun h' => h'.t16 i, fun hi => ⟨h.t8, fun j => ?_, h.rtc, h.wdt, h.sound⟩⟩
  rcases eq_or_ne j i with rfl | hne
  · exact hi
  · have hother : (p.setT16 i t).t16 j = p.t16 j := Function.update_of_ne hne _ _
    rw [hother]
    exact h.t16 j

theorem beforeAll_setT8 {x : U64} (h : p.BeforeAll x) (i : Fin 4) (t : Timer8bit) :
    (p.setT8 i t).BeforeAll x ↔ x ≤ ((p.setT8 i t).t8 i).nextWakeCycle p.clk := by
  refine ⟨fun h' => h'.t8 i, fun hi => ⟨fun j => ?_, h.t16, h.rtc, h.wdt, h.sound⟩⟩
  rcases eq_or_ne j i with rfl | hne
  · exact hi
  · have hother : (p.setT8 i t).t8 j = p.t8 j := Function.update_of_ne hne _ _
    rw [hother]
    exact h.t8 j

theorem nextWakeCycle_askedWake (t : Timer8bit) (clk : ClockControl) :
    (t.askedWake clk).nextWakeCycle clk = t.nextWakeCycle clk := by
  unfold Timer8bit.askedWake
  split_ifs with hrun
  · have hrun' : (t.fillCpc clk).ptrun = true := hrun
    unfold Timer8bit.nextWakeCycle
    rw [hrun, hrun', Timer8bit.fillCpc_cpc]
    rfl
  · rfl

/-- A query leaves what it answers in the cache. -/
theorem notLate_askedWake (h : p.NotLate) : p.askedWake.NotLate := by
  unfold askedWake
  by_cases hvalid : p.wakeValid = true
  · rw [if_pos hvalid]
    exact h
  · rw [if_neg hvalid]
    have hall := p.beforeAll_computeWake
    generalize p.computeWake = x at hall
    rw [notLate_iff_cached rfl]
    constructor
    · intro i
      have hle := hall.t8 i
      rw [← nextWakeCycle_askedWake (p.t8 i) p.clk] at hle
      exact hle
    · exact hall.t16
    · exact hall.rtc
    · exact hall.wdt
    · exact hall.sound

/-- A stopped timer has no wake point, whatever is written. -/
theorem refreshWake_of_stopped {t : Timer16bit} {clk : ClockControl} (h : t.prun = false) :
    (t.refreshWake clk).nextWakeCycle = Words.uint64Max := by
  unfold Timer16bit.refreshWake
  rw [h]
  rfl

theorem le_uint64Max (x : U64) : x ≤ Words.uint64Max := by
  have := x.isLt
  rw [BitVec.le_def]
  exact Nat.le_of_lt_succ this

/-- A write to the control register of an 8-bit timer that sets no event. -/
theorem le_nextWakeCycle_onCtlWrite {x : U64} {t : Timer8bit} {clk : ClockControl} {v : U8}
    (h : x ≤ t.nextWakeCycle clk) (hv : (v.getLsbD 0 && (!t.ptrun || v.getLsbD 1)) = false) :
    x ≤ (t.onCtlWrite v).nextWakeCycle clk := by
  have hbit0 : (v &&& 0x07).getLsbD 0 = v.getLsbD 0 :=
    BitVec.getLsbD_and.trans (Bool.and_true _)
  have hbit1 : (v &&& 0x07).getLsbD 1 = v.getLsbD 1 :=
    BitVec.getLsbD_and.trans (Bool.and_true _)
  have hrun' : (t.onCtlWrite v).ptrun = v.getLsbD 0 := hbit0
  cases hgo : v.getLsbD 0 with
  | false =>
    unfold Timer8bit.nextWakeCycle
    rw [hrun', hgo]
    exact le_uint64Max x
  | true =>
    rw [hgo, Bool.true_and, Bool.or_eq_false_iff, Bool.not_eq_false'] at hv
    obtain ⟨hrun, hpset⟩ := hv
    have hptd : (t.onCtlWrite v).ptd = t.ptd :=
      if_neg (by rw [hbit1, hpset]; exact Bool.false_ne_true)
    unfold Timer8bit.nextWakeCycle at h ⊢
    rw [hrun] at h
    rw [hrun', hgo, hptd]
    exact h

/-- Another clock that sets no event. -/
theorem le_nextWakeCycle_of_not_reclocks {x : U64} {clk : ClockControl}
    (h : ∀ i, x ≤ (p.t8 i).nextWakeCycle p.clk) (hclk : p.reclocks clk = false) (i : Fin 4) :
    x ≤ (p.t8 i).nextWakeCycle clk := by
  have hi := h i
  unfold Timer8bit.nextWakeCycle at hi ⊢
  cases hrun : (p.t8 i).ptrun with
  | false => exact le_uint64Max x
  | true =>
    have hcpc : (p.t8 i).cpc clk = (p.t8 i).cpc p.clk := by
      by_contra hne
      exact absurd ⟨i, hrun, hne⟩ (of_decide_eq_false hclk)
    rw [hrun] at hi
    rw [hcpc]
    exact hi

/-- A write to the watchdog that sets no event. -/
theorem le_nextWakeCycle_wdt {x : U64} {w w' : WatchdogTimer} (h : x ≤ w.nextWakeCycle)
    (hcycle : w'.nextNmiCycle = w.nextNmiCycle) (hrun : w'.running = true → w.running = true) :
    x ≤ w'.nextWakeCycle := by
  unfold WatchdogTimer.nextWakeCycle at h ⊢
  cases hrun' : w'.running with
  | false => exact le_uint64Max x
  | true =>
    rw [hrun hrun'] at h
    rw [hcycle]
    exact h

/-- **A write that sets no event brings no wake point forward.** -/
theorem BeforeAll.act {x : U64} (h : p.BeforeAll x) {a : PeriphAction} (hw : a.isWrite = true)
    (ha : p.setsEvent a = false) : (p.act a).BeforeAll x := by
  -- the condition leaves writes to a T16 that is stopped, and that has no wake point
  have hstopped (ch : Fin 6) {t : Timer16bit} (ht : t.prun = false) :
      (p.setT16 ch (t.refreshWake p.clk)).BeforeAll x := by
    refine (beforeAll_setT16 h ch _).mpr ?_
    have hself : (p.setT16 ch (t.refreshWake p.clk)).t16 ch = t.refreshWake p.clk :=
      Function.update_self ..
    rw [hself, refreshWake_of_stopped ht]
    exact le_uint64Max x
  have ht8 (ch : Fin 4) {t : Timer8bit} (ht : x ≤ t.nextWakeCycle p.clk) :
      (p.setT8 ch t).BeforeAll x := by
    refine (beforeAll_setT8 h ch t).mpr ?_
    have hself : (p.setT8 ch t).t8 ch = t := Function.update_self ..
    rw [hself]
    exact ht
  have hwdt {w : WatchdogTimer} (ht : x ≤ w.nextWakeCycle) :
      ({ p with wdt := w } : PiecePeripherals).BeforeAll x :=
    ⟨h.t8, h.t16, h.rtc, ht, h.sound⟩
  cases a with
  | t16Cra ch v | t16Crb ch v | t16Tc ch v => exact hstopped ch ha
  | t16Ctl ch v =>
    have hv : v.getLsbD 0 = false := ha
    refine hstopped ch ?_
    show (v.setWidth 8 &&& ~~~0x02).getLsbD 0 = false
    rw [BitVec.getLsbD_and, BitVec.getLsbD_setWidth, hv]
    rfl
  | t8Ctl ch v =>
    refine ht8 ch (le_nextWakeCycle_onCtlWrite (v := v.setWidth 8) (h.t8 ch) ?_)
    rw [BitVec.getLsbD_setWidth, BitVec.getLsbD_setWidth]
    exact ha
  | t8CtlByte ch addr v =>
    have hv : (!addr.getLsbD 0 && (v.getLsbD 0 && (!(p.t8 ch).ptrun || v.getLsbD 1))) = false := ha
    refine ht8 ch ?_
    unfold Timer8bit.writeCtlByte
    split_ifs with hodd
    · exact h.t8 ch
    · rw [Bool.eq_false_of_not_eq_true hodd, Bool.not_false, Bool.true_and] at hv
      exact le_nextWakeCycle_onCtlWrite (h.t8 ch) hv
  | clkWrite | setP07 =>
    exact ⟨fun i => le_nextWakeCycle_of_not_reclocks h.t8 ha i, h.t16, h.rtc, h.wdt, h.sound⟩
  | wdtWrite v =>
    -- bit 9 of the halfword is bit 1 of the register, which sets the watchdog going
    refine hwdt (le_nextWakeCycle_wdt h.wdt rfl fun hrun => ?_)
    have hv : (!p.wdt.running && v.getLsbD 9) = false := ha
    have hbit : v.getLsbD 9 = true := by
      have hhigh : ((v >>> 8).setWidth 8).getLsbD 1 = true := hrun
      rwa [BitVec.getLsbD_setWidth, BitVec.getLsbD_ushiftRight] at hhigh
    rwa [hbit, Bool.and_true, Bool.not_eq_false'] at hv
  | wdtWriteByte addr v =>
    have hv : (addr.getLsbD 0 && (!p.wdt.running && v.getLsbD 1)) = false := ha
    refine hwdt (le_nextWakeCycle_wdt h.wdt ?_ fun hrun => ?_)
    · unfold WatchdogTimer.writeByte
      split_ifs <;> rfl
    · unfold WatchdogTimer.writeByte at hrun
      split_ifs at hrun with hodd
      · have hbit : v.getLsbD 1 = true := hrun
        rwa [hodd, hbit, Bool.true_and, Bool.and_true, Bool.not_eq_false'] at hv
      · exact hrun
  | rtcstop v => exact ⟨h.t8, h.t16, h.rtc, h.wdt, h.sound⟩
  | ch1Start nowCyc cnt =>
    have hcnt : cnt = 0 := by
      by_contra hne
      exact absurd (of_decide_eq_false ha) (not_not.mpr hne)
    have hsame : p.sound.handleCh1Start p.clk nowCyc cnt = p.sound := if_pos hcnt
    refine ⟨h.t8, h.t16, h.rtc, h.wdt, ?_⟩
    show x ≤ (p.sound.handleCh1Start p.clk nowCyc cnt).nextWakeCycle
    rw [hsame]
    exact h.sound
  | files => exact ⟨h.t8, h.t16, h.rtc, h.wdt, h.sound⟩
  | tickT16 | tickT8 | tickWdt | tickRtc | tickSound | ticked | askWake | reset =>
    exact absurd hw Bool.false_ne_true

end PiecePeripherals

/-! ### The runs -/

/-- The board, and what the cache of its wake point knows of it. -/
structure WakeCache where
  board : PiecePeripherals
  /-- Ghost: an event has been set since the cache was filled. -/
  stale : Bool := false

namespace WakeCache

/-- What happens to the board: a write; a query of the runner; a whole tick, which is ticks
of the peripherals with the writes of the trap entries between them; a reset; and a halted
CPU that comes to the halt path, which takes `next_wake_cycle` as the target of its jump. -/
inductive Event
  | write (a : {a : PeriphAction // a.isWrite = true})
  | query
  | tick (acts : List PeriphAction)
  | reset (cold : Bool)
  | halt

/-- The answer of `next_wake_cycle`: an empty cache is filled. -/
def asked (w : WakeCache) : WakeCache :=
  ⟨w.board.askedWake, w.board.wakeValid && w.stale⟩

/-- One event. -/
def step (w : WakeCache) : Event → WakeCache
  | .write a => ⟨w.board.act a, w.stale || w.board.wakeValid && w.board.setsEvent a⟩
  | .query | .halt => w.asked
  | .tick acts => ⟨(ActionRun.exec PiecePeripherals.act w.board acts).act .ticked, false⟩
  | .reset cold => ⟨w.board.reset cold, false⟩

/-- **No halt on a stale cache**: since the cache was filled, no write has set an event when
the CPU comes to the halt path. -/
def HaltsFresh (w : WakeCache) (e : Event) : Prop := e = .halt → w.stale = false

/-- **A halted CPU is not advanced past an event**: where it comes to the halt path, its
target is at most the earliest wake point there is. -/
def HaltsInTime (w : WakeCache) (e : Event) : Prop := e = .halt → w.board.NotLate

/-- The invariant: a cache that is not stale is not late. -/
def Sound (w : WakeCache) : Prop := w.stale = false → w.board.NotLate

theorem Sound.asked {w : WakeCache} (h : w.Sound) : w.asked.Sound := by
  intro hstale
  unfold WakeCache.asked at hstale ⊢
  cases hvalid : w.board.wakeValid with
  | false => exact PiecePeripherals.notLate_askedWake (PiecePeripherals.notLate_of_invalid hvalid)
  | true =>
    rw [hvalid] at hstale
    exact PiecePeripherals.notLate_askedWake (h hstale)

/-- A write leaves the cache as it is. -/
theorem act_wake (p : PiecePeripherals) {a : PeriphAction} (hw : a.isWrite = true) :
    (p.act a).wakeValid = p.wakeValid ∧ (p.act a).wakeCached = p.wakeCached := by
  cases a with
  | tickT16 | tickT8 | tickWdt | tickRtc | tickSound | ticked | askWake | reset =>
    exact absurd hw Bool.false_ne_true
  | _ => exact ⟨rfl, rfl⟩

theorem Sound.write {w : WakeCache} (h : w.Sound) (a : {a : PeriphAction // a.isWrite = true}) :
    (w.step (.write a)).Sound := by
  intro hstale
  obtain ⟨hfresh, hset⟩ := Bool.or_eq_false_iff.mp hstale
  obtain ⟨hvalid', hcached'⟩ := act_wake w.board a.2
  cases hvalid : w.board.wakeValid with
  | false => exact PiecePeripherals.notLate_of_invalid (hvalid'.trans hvalid)
  | true =>
    rw [hvalid, Bool.true_and] at hset
    refine (PiecePeripherals.notLate_iff_cached (hvalid'.trans hvalid)).mpr ?_
    rw [hcached']
    exact ((PiecePeripherals.notLate_iff_cached hvalid).mp (h hfresh)).act a.2 hset

/-- **Every event keeps the invariant.** -/
theorem Sound.step {w : WakeCache} (h : w.Sound) (e : Event) : (w.step e).Sound := by
  cases e with
  | write a => exact h.write a
  | query => exact h.asked
  | halt => exact h.asked
  | tick acts => exact fun _ => PiecePeripherals.notLate_of_invalid rfl
  | reset cold => exact fun _ => PiecePeripherals.notLate_of_invalid rfl

/-- The board when it is switched on. -/
def fresh : WakeCache := ⟨.attach {}, false⟩

theorem sound_fresh : fresh.Sound := fun _ => PiecePeripherals.notLate_of_invalid rfl

/-- **A halted CPU is never advanced past an event** in a run in which it never halts on a
stale cache. -/
theorem haltsInTime (events : List Event) (hfresh : ActionRun.Along step HaltsFresh fresh events) :
    ActionRun.Along step HaltsInTime fresh events := by
  refine (ActionRun.along_congr_of (I := Sound) (B := HaltsFresh) (C := HaltsInTime)
    (D := fun _ _ => True) (fun w e hw _ => hw.step e) (fun w e hw he => ?_) sound_fresh
    hfresh).mpr (ActionRun.along_of_forall (fun _ _ => trivial) _ _)
  exact iff_of_true (fun hhalt => hw (he hhalt)) trivial

instance (w : WakeCache) (e : Event) : Decidable (w.HaltsFresh e) :=
  match e with
  | .halt => decidable_of_iff (w.stale = false) ⟨fun h _ => h, fun h => h rfl⟩
  | .write _ | .query | .tick _ | .reset _ => .isTrue fun h => nomatch h

/-- Behind a query of the runner, an 8-bit timer is given a clock and a reload value of 100,
and is set going. -/
def startT8 : List Event :=
  [.query, .write ⟨.clkWrite 0x04014D 0x08, rfl⟩, .write ⟨.t8CtlByte 0 1 100, rfl⟩,
    .write ⟨.t8CtlByte 0 0 3, rfl⟩]

/-- The timer is set going, and there is a tick before the CPU halts: on the cache that the
query behind the tick has filled, and again behind the next tick. -/
theorem haltsInTime_startT8 :
    ActionRun.Along step HaltsInTime fresh
      (startT8 ++ [.tick [], .query, .halt, .tick [], .halt]) :=
  haltsInTime _ (by decide +kernel)

/-- **The defect**: after a query an 8-bit timer is started, which is going to run out at
cycle 100. The target of the CPU that halts is still the first count of the clock timer,
at cycle 93750. -/
theorem not_haltsInTime_startT8 :
    ¬ActionRun.Along step HaltsInTime fresh (startT8 ++ [.halt]) := by
  intro h
  have hhalt : (ActionRun.exec step fresh startT8).HaltsInTime .halt :=
    ((ActionRun.along_append HaltsInTime fresh startT8 [.halt]).mp h).2.1
  exact absurd ((hhalt rfl).t8 0) (by decide +kernel)

end WakeCache
