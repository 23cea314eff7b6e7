import PieceEmu.Core.DebugErasure
import PieceEmu.Lib.Run
import PieceEmu.System.RegisterAccess

/-!
# A run under a debugger

A debugger installs watchpoints, and lists the instruction at the program counter before a
step (`Machine.debugStep`). The program is not meant to see either: `disasm` is declared to
consume neither state nor cycles, and the callback of a watchpoint only observes. It does
see both:

* a listing fetches the word it prints, and a fetch is charged for, so that every listing
  puts the clock of the bus ahead (`Bus.not_freeFetch`);
* under watchpoints `mac` takes its slow loop, which is not what its shortcuts do on a
  layout that is not sound (`MacLayout.paths_agree_iff`).

Where neither happens, the run is the run without the debugger
(`Machine.debug_invisible`): the same cycles step by step, and the same machine in the end,
but for the watchpoints and what was noted of them.
-/

/-! ### The registers of the board -/

/-- Handlers of a halfword that are blind to debugging. -/
structure IoHandler.Blind {D : Type} (h : IoHandler D) : Prop where
  read : ∀ addr (b : Bus D) d, h.read addr (b.bare d) = h.read addr b
  write : ∀ addr v (b : Bus D) d,
    h.write addr v (b.bare d) = (h.write addr v b).map (Bus.bare · d) id
  writeByte : ∀ f, h.writeByte = some f → ∀ addr v (b : Bus D) d,
    f addr v (b.bare d) = (f addr v b).map (Bus.bare · d) id

section Handlers

variable (fe : Frontend) (b : Bus PiecePeripherals) {d : DebugNotes}

/-- A handler that works on the bus. -/
theorem PiecePeripherals.onBus_bare {V : Type}
    {f : U32 → V → Bus PiecePeripherals → Bus PiecePeripherals} {addr : U32} {v : V}
    (h : f addr v (b.bare d) = (f addr v b).bare d) :
    onBus f addr v (b.bare d) = (onBus f addr v b).map (Bus.bare · d) id :=
  Prod.ext h rfl

theorem Frontend.clkWrite_bare (f : ClockControl → ClockControl × Option U32) :
    fe.clkWrite f (b.bare d) = (fe.clkWrite f b).bare d := by
  have hc : (f (b.bare d).dev.clk).2 = (f b.dev.clk).2 := rfl
  unfold clkWrite
  dsimp only
  rw [hc]
  cases (f b.dev.clk).2 with
  | none => rfl
  | some newHz => cases fe <;> rfl

theorem ClkReg.writeLow_bare (reg addr : U32) (v : U16) :
    writeLow fe reg addr v (b.bare d) = (writeLow fe reg addr v b).bare d := by
  unfold writeLow
  rw [apply_ite (Bus.bare · d), fe.clkWrite_bare]

theorem ClkReg.write_bare (r : ClkReg) (addr : U32) (v : U16) :
    r.write fe addr v (b.bare d) = (r.write fe addr v b).bare d := by
  have hpair (reg : U32) : write.writePair fe v (b.bare d) reg =
      (write.writePair fe v b reg).bare d := by
    unfold write.writePair
    rw [fe.clkWrite_bare, fe.clkWrite_bare]
  cases r with
  | clkselT8_45 => exact writeLow_bare fe b 0x040140 addr v
  | clkctlT8_45 => exact fe.clkWrite_bare b (·.writeSingle 0x040145 ((v >>> 8).setWidth 8))
  | clkselT8 => exact hpair 0x040146
  | clkctlT16_1 => exact hpair 0x040148
  | clkctlT16_3 => exact hpair 0x04014A
  | clkctlT16_5 => exact hpair 0x04014C
  | clkctlT8_23 => exact writeLow_bare fe b 0x04014E addr v
  | pwrctl => exact writeLow_bare fe b 0x040180 addr v

theorem ClkReg.writeByte_bare (r : ClkReg)
    {f : U32 → U8 → Bus PiecePeripherals → Bus PiecePeripherals} (hf : r.writeByte fe = some f)
    (addr : U32) (v : U8) : f addr v (b.bare d) = (f addr v b).bare d := by
  cases r with
  | clkselT8_45 | clkctlT8_23 | pwrctl => cases hf
  | clkctlT8_45 =>
    cases hf
    dsimp only
    rw [apply_ite (Bus.bare · d), fe.clkWrite_bare]
  | clkselT8 | clkctlT16_1 | clkctlT16_3 | clkctlT16_5 =>
    cases hf
    exact fe.clkWrite_bare b (·.writeSingle addr v)

theorem PortReg.notifying_bare (f : PortCtrl → PortCtrl) (r : PortReg) :
    notifying fe f (b.bare d) r = (notifying fe f b r).bare d := by
  unfold notifying p07Notify
  dsimp only
  rw [apply_ite (Bus.bare · d), apply_ite (Bus.bare · d), ← fe.clkWrite_bare]
  rfl

theorem BcuReg.write_bare (v : U16) (r : BcuReg) :
    r.write v (b.bare d) = (r.write v b).map (Bus.bare · d) id := by
  cases r <;> rfl

/-- **The handlers of every slot are blind to debugging.** -/
theorem RegSlot.handler_blind (s : RegSlot) : (s.handler fe).Blind := by
  cases s with
  | intc i =>
    refine ⟨fun _ _ _ => rfl, fun _ _ _ _ => rfl, ?_⟩
    rintro f ⟨⟩
    exact fun _ _ _ _ => rfl
  | clk r =>
    refine ⟨fun _ _ _ => rfl, fun addr v b d => ?_, ?_⟩
    · exact PiecePeripherals.onBus_bare b (f := fun addr v b => r.write fe addr v b)
        (r.write_bare fe b addr v)
    · intro f hf addr v b d
      obtain ⟨g, hg, rfl⟩ := Option.map_eq_some_iff.mp hf
      exact PiecePeripherals.onBus_bare b (r.writeByte_bare fe b hg addr v)
  | t8 ch r =>
    cases r with
    | ctl =>
      refine ⟨fun _ _ _ => rfl, fun _ _ _ _ => rfl, ?_⟩
      rintro f ⟨⟩
      exact fun _ _ _ _ => rfl
    | ptd => exact ⟨fun _ _ _ => rfl, fun _ _ _ _ => rfl, fun _ hf => by cases hf⟩
  | t16 ch r => exact ⟨fun _ _ _ => rfl, fun _ _ _ _ => rfl, fun _ hf => by cases hf⟩
  | port r =>
    refine ⟨fun _ _ _ => rfl, fun addr v b d => ?_, ?_⟩
    · exact PiecePeripherals.onBus_bare b
        (f := fun addr v b => r.notifying fe (PortReg.write addr v · r) b)
        (PortReg.notifying_bare fe b (PortReg.write addr v · r) r)
    · intro f hf addr v b d
      obtain ⟨g, -, rfl⟩ := Option.map_eq_some_iff.mp hf
      exact PiecePeripherals.onBus_bare b (PortReg.notifying_bare fe b (g addr v) r)
  | bcu r => exact ⟨fun _ _ _ => rfl, fun _ v b _ => r.write_bare b v, fun _ hf => by cases hf⟩
  | wdt =>
    refine ⟨fun _ _ _ => rfl, fun _ _ _ _ => rfl, ?_⟩
    rintro f ⟨⟩
    exact fun _ _ _ _ => rfl
  | hsdma ch r => exact ⟨fun _ _ _ => rfl, fun _ _ _ _ => rfl, fun _ hf => by cases hf⟩

end Handlers

/-- **The registers of the board are blind to debugging**, if those of the other devices
are. -/
theorem OtherDevices.attach_blind (o : OtherDevices) (ho : o.io.Blind) (fe : Frontend) :
    (o.attach fe).Blind where
  read {i h} hf := by
    rcases o.attach_cases fe i with ⟨s, hr, -, -⟩ | ⟨hr, -, -⟩
    · obtain rfl := Option.some.inj (hr.symm.trans hf)
      exact (s.handler_blind fe).read
    · exact ho.read (hr ▸ hf)
  write {i h} hf := by
    rcases o.attach_cases fe i with ⟨s, -, hw, -⟩ | ⟨-, hw, -⟩
    · obtain rfl := Option.some.inj (hw.symm.trans hf)
      exact (s.handler_blind fe).write
    · exact ho.write (hw ▸ hf)
  writeByte {i h} hf := by
    rcases o.attach_cases fe i with ⟨s, -, -, hw⟩ | ⟨-, -, hw⟩
    · exact (s.handler_blind fe).writeByte h (hw.symm.trans hf)
    · exact ho.writeByte (hw ▸ hf)

theorem OtherDevices.absent_blind : OtherDevices.absent.io.Blind where
  read h := by cases h
  write h := by cases h
  writeByte h := by cases h

/-! ### Listing an instruction -/

namespace Bus

variable {D : Type} (b : Bus D)

/-- A fetch at an address leaves the clock of the bus where it is. -/
def FreeFetch (addr : U32) : Prop := BitVec.ofInt 32 (b.fetchCycles addr) = 0

/-- **No fetch is free** with the wait states an area register holds and a divisor a change
of the clock can set. -/
theorem not_freeFetch (hsram : 0 ≤ b.sramWait ∧ b.sramWait ≤ 7)
    (hflash : 0 ≤ b.flashWait ∧ b.flashWait ≤ 7)
    (hdiv : 1 ≤ b.busClockDiv ∧ b.busClockDiv ≤ 2 ^ 28) (addr : U32) : ¬b.FreeFetch addr := by
  have hread {wait : ℤ} (hw : 0 ≤ wait ∧ wait ≤ 7) :
      0 < b.extReadCycles wait ∧ b.extReadCycles wait < 2 ^ 32 := by
    unfold extReadCycles
    constructor
    · exact Int.mul_pos (by omega) (by omega)
    · calc (wait + 1) * b.busClockDiv ≤ 8 * b.busClockDiv :=
          Int.mul_le_mul_of_nonneg_right (by omega) (by omega)
        _ < 2 ^ 32 := by omega
  have hbounds : 0 < b.fetchCycles addr ∧ b.fetchCycles addr < 2 ^ 32 := by
    unfold fetchCycles
    dsimp only
    split_ifs
    · exact hread hflash
    · exact hread hsram
    · decide
  intro hfree
  have h := congrArg BitVec.toNat hfree
  rw [BitVec.toNat_ofInt] at h
  change (b.fetchCycles addr % 2 ^ 32).toNat = 0 at h
  omega

end Bus

namespace Machine

variable {D : Type} (io : IoSpace D) (m : Machine D)

/-- What `disasm` does to the machine before a step, if it is called. -/
def listed (list : Bool) : Machine D := if list then m.disasm m.cpu.pc else m

/-- **A listing is free exactly if its fetch is.** -/
theorem listed_eq_iff (list : Bool) :
    m.listed list = m ↔ (list = true → m.bus.FreeFetch m.cpu.pc) := by
  cases list with
  | false => exact ⟨fun _ h => absurd h Bool.false_ne_true, fun _ => rfl⟩
  | true =>
    have hl : m.listed true = { m with bus := m.bus.charge (m.bus.fetchCycles m.cpu.pc) } :=
      m.disasm_eq m.cpu.pc
    rw [hl]
    constructor
    · intro h _
      have hc : m.bus.cycles + BitVec.ofInt 32 (m.bus.fetchCycles m.cpu.pc) = m.bus.cycles :=
        congrArg (fun m : Machine D => m.bus.cycles) h
      exact BitVec.add_right_eq_self.mp hc
    · intro h
      have hc : m.bus.cycles + BitVec.ofInt 32 (m.bus.fetchCycles m.cpu.pc) = m.bus.cycles :=
        BitVec.add_right_eq_self.mpr (h rfl)
      exact congrArg (fun c => { m with bus := { m.bus with cycles := c } }) hc

/-! ### The two runs -/

/-- A step of a machine without a debugger, with what it returns. -/
def plainStep (m : Machine D) (_ : Bool) : ℤ × Machine D := (m.stepCycles io, m.step io)

/-- A step under a debugger, which may list the instruction first. -/
def debugStep (m : Machine D) (list : Bool) : ℤ × Machine D := plainStep io (m.listed list) list

/-- `add_watchpoint`: a machine with watchpoints installed. -/
def watch (wps : List Watchpoint) : Machine D := { m with bus := { m.bus with watchpoints := wps } }

/-- What is noted of the watchpoints. -/
def notes : DebugNotes := ⟨m.bus.wpCalls, m.bus.shadowSram⟩

/-- **The debugger is not seen**: under watchpoints, and with a listing before the steps
that are marked, the run returns the same cycles, step by step, as without watchpoints and
listings, and ends in the same machine, but for the watchpoints and the notes of them. -/
structure Invisible (wps : List Watchpoint) (lists : List Bool) : Prop where
  cycles : ActionRun.answers (debugStep io) (m.watch wps) lists =
    ActionRun.answers (plainStep io) (m.watch []) lists
  state :
    (ActionRun.exec (fun m list => (debugStep io m list).2) (m.watch wps) lists).bare m.notes =
      ActionRun.exec (fun m list => (plainStep io m list).2) (m.watch []) lists

/-- **A step the debugger does not disturb**: a listing before it is free, and a `mac` it
dispatches under watchpoints has a layout on which its shortcut is one. -/
structure Undisturbed (m : Machine D) (list : Bool) : Prop where
  listing : list = true → m.bus.FreeFetch m.cpu.pc
  mac : m.DispatchesMac → m.bus.hasWatchpoints = true → m.macLayout.Sound m.insnAtPc.rs

/-- Such a step is the step of the bare machine. -/
theorem debugStep_bare {io : IoSpace D} (hio : io.Blind) {m : Machine D} {list : Bool}
    (h : Undisturbed m list) (d : DebugNotes) :
    (debugStep io m list).1 = (plainStep io (m.bare d) list).1 ∧
      (debugStep io m list).2.bare d = (plainStep io (m.bare d) list).2 := by
  have hstep := step_bare hio (d := d) m h.mac
  rw [debugStep, (m.listed_eq_iff list).mpr h.listing]
  refine ⟨?_, hstep.symm⟩
  unfold plainStep stepCycles
  rw [hstep]
  rfl

/-- **Debugging is not seen** in a run none of whose steps the debugger disturbs. -/
theorem debug_invisible {io : IoSpace D} (hio : io.Blind) (m : Machine D) (wps : List Watchpoint)
    (lists : List Bool)
    (h : ActionRun.Along (fun m list => (debugStep io m list).2) Undisturbed (m.watch wps) lists) :
    m.Invisible io wps lists := by
  obtain ⟨hcycles, hstate⟩ :=
    ActionRun.answers_simulation (fun _ _ hu => debugStep_bare hio hu m.notes) h
  exact ⟨hcycles, hstate⟩

/-- A board with `mac %r0` at address 0, and operands in `%r1` and `%r2`. -/
def macBoard (count p1 p2 : U32) : Machine PiecePeripherals where
  cpu := { r := fun n => match n.toNat with | 0 => count | 1 => p1 | 2 => p2 | _ => 0 }
  bus := { (boardOfRom []).bus with iram := Words.putLe16 (fun _ => 0) 0 0xB200 }

/-- **Both are seen**: one listing of a `nop` puts the clock of the bus ahead, without any
watchpoint; and one watchpoint has a `mac` on odd pointers raise a fault, without any
listing. -/
theorem debug_seen :
    ¬(boardOfRom []).Invisible (OtherDevices.absent.attach .cpuRunner) [] [true] ∧
      ¬(macBoard 1 0x100001 0x100001).Invisible (OtherDevices.absent.attach .cpuRunner)
        [{ addr := 0x100000 }] [false] := by
  constructor
  · intro h
    have hcycles := congrArg (fun m => m.bus.cycles) h.state
    revert hcycles
    decide +kernel
  · intro h
    have hfault := congrArg (fun m => m.cpu.fault) h.state
    revert hfault
    decide +kernel

/-- A `mac` over two halfwords of SRAM with a watchpoint on the first, and a `nop`. -/
theorem debug_invisible_mac :
    (OtherDevices.absent.attach .cpuRunner).Blind ∧
      (macBoard 2 0x100000 0x100100).Invisible (OtherDevices.absent.attach .cpuRunner)
        [{ addr := 0x100000, type := .read }] [false, false] := by
  have hio := OtherDevices.absent.attach_blind OtherDevices.absent_blind .cpuRunner
  refine ⟨hio, debug_invisible hio _ _ _ ⟨⟨nofun, fun _ _ => ?_⟩, ⟨nofun, fun _ _ => ?_⟩, trivial⟩⟩
  · decide +kernel
  · decide +kernel

end Machine
