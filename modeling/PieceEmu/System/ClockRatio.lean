import PieceEmu.Lib.Run
import PieceEmu.System.CycleClock
import PieceEmu.System.RunnerInvariant

/-!
# The ratio of the two clocks

External memory is clocked at 24 MHz whatever the frequency of the CPU, so an external
access costs the more cycles the faster the CPU runs: `bus_clock_div` is the ratio of the
two clocks. It is set by the callback of the clock control, which every register write
that changes the frequency calls. A reset puts the clock control back to 24 MHz and
calls nobody: the divisor of a CPU that ran at 48 MHz stays behind.

`CpuRunner.ratio_current` says that the divisor is current all along every run whose
resets find the CPU below 48 MHz, and `CpuRunner.resetRun_ratio` is a run in which it is
not.
-/

/-- The ratio of the clock of the CPU to that of the external bus, at least 1. -/
def ClockControl.ratio (c : ClockControl) : ℤ := max 1 (c.cpuClockHz / Bus.pieceBclkHz).toNat

/-- The divisor of the bus clock is the ratio of the clocks. -/
def Bus.RatioCurrent (b : Bus PiecePeripherals) : Prop := b.busClockDiv = b.dev.clk.ratio

instance (b : Bus PiecePeripherals) : Decidable b.RatioCurrent :=
  inferInstanceAs (Decidable (_ = _))

/-! ### The frequency -/

namespace ClockControl

variable (c : ClockControl)

/-- The frequency depends on the selected oscillator and on `CLKDT`. -/
theorem cpuClockHz_congr {c c' : ClockControl} (hslow : c'.p07Slow = c.p07Slow)
    (hdt : (c'.pwrctl >>> 6) &&& (0x03 : U8) = (c.pwrctl >>> 6) &&& 0x03) :
    c'.cpuClockHz = c.cpuClockHz := by
  unfold cpuClockHz osc3Hz
  rw [hslow, hdt]

/-- Two values of `PWRCTL` that agree in the bits that are watched have one `CLKDT`. -/
theorem clkdt_eq {a v : U8} (h : (a ^^^ v) &&& 0xC4 = 0) :
    (v >>> 6) &&& (0x03 : U8) = (a >>> 6) &&& 0x03 := by
  have hwatched : ∀ x : U8, x &&& 0xC4 = 0 → x >>> 6 = 0 := by decide
  have hx := hwatched (a ^^^ v) h
  rw [BitVec.ushiftRight_xor_distrib] at hx
  rw [BitVec.xor_eq_zero_iff.mp hx]

/-- What a register write tells is the new frequency, and one that tells nothing has not
changed it. -/
structure TellsFrequency (r : ClockControl × Option U32) : Prop where
  told : ∀ newHz, r.2 = some newHz → newHz = r.1.cpuClockHz
  untold : r.2 = none → r.1.cpuClockHz = c.cpuClockHz

theorem tellsFrequency_writeSingle (reg : U32) (v : U8) :
    c.TellsFrequency (c.writeSingle reg v) := by
  by_cases h : reg = 0x040180
  · rw [h, writeSingle_pwrctl]
    refine ⟨fun newHz hnew => ?_, fun hnone => ?_⟩
    · dsimp only at hnew
      split_ifs at hnew
      exact (Option.some.inj hnew).symm
    · have hbits : (c.pwrctl ^^^ v) &&& 0xC4 = 0 := by
        by_contra hne
        rw [if_pos hne] at hnone
        cases hnone
      exact cpuClockHz_congr (c := c) rfl (clkdt_eq hbits)
  · have hkeeps := c.keepsFrequency_writeSingle h v
    refine ⟨fun newHz hnew => ?_, fun _ => ?_⟩
    · rw [hkeeps.untold] at hnew
      cases hnew
    · exact cpuClockHz_congr hkeeps.p07Slow (by rw [hkeeps.pwrctl])

theorem tellsFrequency_setP07 (slow : Bool) : c.TellsFrequency (c.setP07 slow) := by
  unfold setP07
  split_ifs
  · exact ⟨fun _ hnew => (nomatch hnew), fun _ => rfl⟩
  · exact ⟨fun _ hnew => (Option.some.inj hnew).symm, fun hnone => (nomatch hnone)⟩

/-- The ratio is 1 below 48 MHz. -/
theorem ratio_eq_one (h : c.cpuClockHz < 48000000) : c.ratio = 1 := by
  have hdiv : (c.cpuClockHz / Bus.pieceBclkHz).toNat ≤ 1 := by
    have h24 : Bus.pieceBclkHz.toNat = 24000000 := by decide
    have h48 : c.cpuClockHz.toNat < 48000000 := h
    rw [BitVec.toNat_udiv, h24]
    omega
  unfold ratio
  omega

/-- A reset puts the CPU back to 24 MHz. -/
theorem ratio_reset : c.reset.ratio = 1 := by
  have hhz : c.reset.cpuClockHz = cpuClockNorm >>> ((0 : U8) >>> 6 &&& 0x03).toNat := rfl
  exact ratio_eq_one _ (by rw [hhz]; decide)

end ClockControl

/-! ### The invariant -/

/-- **The callback makes the divisor current**: a register write of the clock control
that tells the frequency keeps it so. -/
theorem Frontend.clkWrite_ratioCurrent {f : ClockControl → ClockControl × Option U32}
    {b : Bus PiecePeripherals} (hf : b.dev.clk.TellsFrequency (f b.dev.clk))
    (h : b.RatioCurrent) : (Frontend.cpuRunner.clkWrite f b).RatioCurrent := by
  unfold Bus.RatioCurrent ClockControl.ratio at h ⊢
  rw [Frontend.clkWrite_clk]
  unfold Frontend.clkWrite
  dsimp only
  cases hr : (f b.dev.clk).2 with
  | none =>
    dsimp only
    rw [hf.untold hr]
    exact h
  | some newHz =>
    rw [← hf.told newHz hr]
    change (if ((newHz / Bus.pieceBclkHz).toNat : ℤ) < 1 then (1 : ℤ)
      else ((newHz / Bus.pieceBclkHz).toNat : ℤ)) = _
    omega

/-- A write to the ports tells the clock control of `P07`, if anything. -/
theorem PortReg.notifying_ratioCurrent (f : PortCtrl → PortCtrl) (b : Bus PiecePeripherals)
    (r : PortReg) (h : b.RatioCurrent) : (r.notifying .cpuRunner f b).RatioCurrent := by
  unfold notifying p07Notify
  dsimp only
  split_ifs
  · exact Frontend.clkWrite_ratioCurrent (b.dev.clk.tellsFrequency_setP07 _)
      (b := { b with dev := { b.dev with portctrl := f b.dev.portctrl } }) h
  · exact h
  · exact h

/-- **The ratio is an invariant of the registers** under the callback of the CPU thread. -/
theorem Bus.ratioCurrent_invariant : ControlInvariant .cpuRunner fun b _ => b.RatioCurrent where
  congr := by
    intro b b' t hsame h
    change b'.busClockDiv = b'.dev.clk.ratio
    rw [hsame.clk, hsame.busClockDiv]
    exact h
  clk := by
    intro reg v b t h
    exact Frontend.clkWrite_ratioCurrent (b.dev.clk.tellsFrequency_writeSingle reg v) h
  port := by
    intro addr v b t r h
    exact PortReg.notifying_ratioCurrent _ b r h
  portByte := by
    intro addr v b t r f hf h
    exact PortReg.notifying_ratioCurrent _ b r h
  bcu := by
    intro v b t r h
    cases r <;> exact h

/-! ### Runs of the loop -/

namespace CpuRunner

variable (o : OtherDevices) (cfg : RunnerConfig) (r : CpuRunner)

/-- A reset below 48 MHz keeps the divisor current: it was 1, and stays 1. -/
theorem ratioCurrent_reset {m : Machine PiecePeripherals} (cold : Bool)
    (hslow : m.periph.clk.cpuClockHz < 48000000) (h : m.bus.RatioCurrent) :
    ((m.resetPeripherals cold).reset (o.attach .cpuRunner)).Satisfies
      fun b _ => b.RatioCurrent := by
  have hdiv : m.bus.busClockDiv = 1 := h.trans (m.periph.clk.ratio_eq_one hslow)
  have hreset : (m.resetPeripherals cold).bus.RatioCurrent := by
    cases cold <;> exact hdiv.trans m.periph.clk.ratio_reset.symm
  exact (Bus.ratioCurrent_invariant.attach o).read32 (t := 0x400) hreset Bus.flashBase

/-- **The ratio of the clocks is current** in every state of a run of the CPU thread, from
the peripherals as they are attached and over every program, debugger session, buttons and
hot or cold resets, as long as no reset is handled while the CPU runs at 48 MHz. -/
theorem ratio_current (hperiph : r.machine.periph = ({} : PiecePeripherals).attach)
    (hdiv : r.machine.bus.busClockDiv = 1) (inputs : ℕ → RunnerInput)
    (hdebugger : ∀ n, ∃ as, (inputs n).debugger = DebuggerAccess.session (o.attach .cpuRunner) as)
    (hreset : ∀ n,
      let rn := run cfg (o.attach .cpuRunner) (r.start (o.attach .cpuRunner)) inputs n
      (rn.takesReset (inputs n)).isSome → rn.cpuClockHz < 48000000) (n : ℕ) :
    (run cfg (o.attach .cpuRunner) (r.start (o.attach .cpuRunner)) inputs
      n).machine.bus.RatioCurrent := by
  have hP := Bus.ratioCurrent_invariant.loop o
  have h0 : r.Satisfies fun b _ => b.RatioCurrent := by
    change r.machine.bus.busClockDiv = r.machine.periph.clk.ratio
    rw [hdiv, hperiph]
    exact (ClockControl.ratio_reset {}).symm
  induction n with
  | zero => exact satisfies_start hP h0
  | succ n ih =>
    refine satisfies_step hP cfg (inputs n) ih (fun cold hcold => ?_) ?_ trivial
    · exact ratioCurrent_reset o cold (hreset n (Option.isSome_of_mem hcold)) ih
    · obtain ⟨as, has⟩ := hdebugger n
      rw [has]
      exact hP.session as ih

/-- A program that clears `P07` and halts, in a ROM. -/
def fastRom : List U16 :=
  [0x0004, 0x00C0, 0xC000, 0xD00B, 0x6D11, 0x6C00, 0x3410, 0x0080]

/-- The registers of a board without other devices. -/
def boardIo : IoSpace PiecePeripherals := OtherDevices.absent.attach .cpuRunner

/-- The CPU thread of a board with that program. -/
def fastRunner : CpuRunner := { machine := (Machine.boardOfRom fastRom).reset boardIo }

/-- A hot start, requested once. -/
def hotStartAt (k n : ℕ) : RunnerInput :=
  if n = k then { resetRequest := some false } else {}

theorem hotStartAt_debugger (k n : ℕ) :
    ∃ as, (hotStartAt k n).debugger = DebuggerAccess.session boardIo as := by
  refine ⟨[], ?_⟩
  unfold hotStartAt
  split_ifs <;> rfl

theorem takesReset_of_ne (r : CpuRunner) {k n : ℕ} (h : n ≠ k) :
    r.takesReset (hotStartAt k n) = none := by
  unfold takesReset hotStartAt
  rw [if_neg h]
  exact ite_self none

/-- The hot start comes before the program has switched to the fast oscillator. -/
theorem ratio_current_early :
    (run {} boardIo (fastRunner.start boardIo) (hotStartAt 0) 8).machine.bus.RatioCurrent := by
  refine ratio_current .absent {} fastRunner rfl rfl (hotStartAt 0) (hotStartAt_debugger 0)
    (fun n => ?_) 8
  by_cases hn : n = 0
  · rw [hn]
    exact fun _ => by decide +kernel
  · intro rn hsome
    rw [takesReset_of_ne rn hn] at hsome
    cases hsome

set_option maxRecDepth 100000 in
/-- **After the reset the divisor is that of 48 MHz**: the program has switched to the fast
oscillator and halted, and the hot start has put the CPU back to 24 MHz. -/
theorem resetRun_ratio :
    (run {} boardIo (fastRunner.start boardIo) (hotStartAt 12) 12).phase = .outer ∧
      ¬(run {} boardIo (fastRunner.start boardIo) (hotStartAt 12) 13).machine.bus.RatioCurrent := by
  decide +kernel

end CpuRunner
