import PieceEmu.Core.DelaySlot
import PieceEmu.Core.Transparency

/-!
# The return from a debug trap

`brk` enters its trap as every other trap is entered: `PC` is pushed, and then `PSR`, so
that `PSR` is on top. `reti` pops the two in that order (`Machine.reti_after_entry`).
`retd` pops the return address first:

| word | pushed by `brk` | popped by `reti` | popped by `retd` |
|---|---|---|---|
| at `sp - 8` | `PSR` | into `PSR` | into the target of the slot |
| at `sp - 4` | `PC` | into `PC` | into `PSR` |

So `brk`, `retd` and its slot instruction return to the address that the old `PSR` spells,
with the return address for a `PSR`: the stack pointer comes back, and the rest does
exactly if the two words are equal (`Machine.debug_return_iff`).
-/

namespace Machine

variable {D : Type} (io : IoSpace D) {m : Machine D}

/-! ### The three steps -/

/-- Outside a slot, only a prefix can stop an instruction in front of dispatch, and only
in strict mode. -/
theorem check_outside_slot (pc : U32) (insn : Insn) (hh : m.cpu.inHalt = false)
    (hext : m.cpu.pendingExtCount = 0 ∨ m.strict = false) :
    ∃ cycles, m.check pc insn false = .ok { m with bus := m.bus.withCycles cycles } := by
  have hcheck : m.check pc insn false = m.checkExt pc insn := rfl
  rw [hcheck]
  unfold checkExt
  split_ifs with hcond
  · have hstrict : m.strict = false :=
      hext.resolve_left (Nat.ne_of_gt hcond.1)
    obtain ⟨cycles, hbus⟩ := m.bus.fetch16_withCycles pc
    have hwarn : (m.disasm pc).diagWarnOrFault = m.disasm pc :=
      if_neg (Bool.eq_false_iff.mp hstrict)
    have hmach : m.disasm pc = { m with bus := m.bus.withCycles cycles } := by
      rw [← hbus]
      rfl
    refine ⟨cycles, ?_⟩
    rw [hwarn, hmach]
    exact if_neg (Bool.eq_false_iff.mp hh)
  · exact ⟨m.bus.cycles, rfl⟩

/-- A machine that still runs after the check for a bus fault was not faulted by it. -/
theorem checkBusFault_cpu_of_running (h : m.checkBusFault.cpu.inHalt = false) :
    m.checkBusFault.cpu = m.cpu := by
  rcases m.checkBusFault_cpu with heq | heq
  · exact heq
  · rw [heq] at h
    exact Bool.noConfusion h

theorem checkBusFault_sameCells : m.checkBusFault.bus.SameCells m.bus := by
  unfold checkBusFault
  dsimp only
  split_ifs <;> exact ⟨rfl, rfl, rfl, rfl⟩

/-- The machine `brk` enters its trap from: past the instruction, without prefixes. -/
def atBrk (m : Machine D) (cycles : U32) : Machine D :=
  { m.fetched.flushExt with bus := m.fetched.bus.withCycles cycles }

/-- **`brk` enters trap 0.** -/
theorem step_brk (hrun : m.running = true) (hslot : m.cpu.inDelaySlot = false)
    (hext : m.cpu.pendingExtCount = 0 ∨ m.strict = false)
    (hd : m.cpu.deferredTrapValid = false) (hbrk : m.handlerAtPc = .brk)
    (hh : (m.step io).cpu.inHalt = false) :
    ∃ cycles, (m.step io).cpu = ((m.atBrk cycles).enterTrap io 0 0).cpu ∧
      (m.step io).bus.SameCells ((m.atBrk cycles).enterTrap io 0 0).bus := by
  obtain ⟨hrunning, hbreak⟩ := m.running_iff.mp hrun
  obtain ⟨cycles, hcheck⟩ := check_outside_slot (m := m.fetched) m.cpu.pc m.insnAtPc
    hrunning hext
  refine ⟨cycles, ?_⟩
  have hentry : m.handlerAtPc.run io m.insnAtPc
      { m.fetched with bus := m.fetched.bus.withCycles cycles } =
        (m.atBrk cycles).enterTrap io 0 0 := by
    rw [hbrk]
    have hwin : (m.atBrk cycles).inWindow = false :=
      (m.atBrk cycles).inWindow_eq_false_iff.mpr ⟨rfl, hslot⟩
    change (m.atBrk cycles).doTrap io 0 0 = _
    unfold doTrap
    rw [hwin]
    rfl
  have hstep : m.step io = ((m.atBrk cycles).enterTrap io 0 0).checkBusFault.fireDeferred io := by
    unfold step
    rw [hrunning, if_neg Bool.false_ne_true, hbreak, if_neg Bool.false_ne_true]
    unfold execute
    rw [hslot, hcheck]
    exact congrArg (fun q : Machine D => q.checkBusFault.fireDeferred io) hentry
  have hdefer :
      ((m.atBrk cycles).enterTrap io 0 0).checkBusFault.cpu.deferredTrapValid = false := by
    rcases ((m.atBrk cycles).enterTrap io 0 0).checkBusFault_cpu with h | h
    · exact (congrArg CpuState.deferredTrapValid h :).trans hd
    · exact (congrArg CpuState.deferredTrapValid h :).trans hd
  rw [fireDeferred_eq io hdefer] at hstep
  rw [hstep] at hh ⊢
  exact ⟨checkBusFault_cpu_of_running hh, checkBusFault_sameCells⟩

/-- What `retd` pops: the target of its slot, and above it `PSR`. -/
theorem hRetd_eq (m : Machine D) :
    m.hRetd io =
      { m with
        bus := ((m.bus.read32 io m.cpu.sp).2.read32 io (m.cpu.sp + 4)).2
        cpu := { m.cpu with
          pendingExtCount := 0
          psr := ⟨((m.bus.read32 io m.cpu.sp).2.read32 io (m.cpu.sp + 4)).1⟩
          sp := m.cpu.sp + 4 + 4
          inDelaySlot := true
          delayTarget := (m.bus.read32 io m.cpu.sp).1 } } := rfl

/-- **`retd` after the entry of a trap** swaps the two words of its frame. -/
theorem step_retd {m₀ e : Machine D} (hroom : m₀.RoomBelow) (hcount : m₀.cpu.pendingExtCount = 0)
    (hslot : m₀.cpu.inDelaySlot = false) (hd : m₀.cpu.deferredTrapValid = false)
    (hcpu : e.cpu = (m₀.enterTrap io 0 0).cpu) (hcells : e.bus.SameCells (m₀.enterTrap io 0 0).bus)
    (hrun : e.running = true) (hvec : e.handlerAtPc = .retd)
    (hh : (e.step io).cpu.inHalt = false) :
    (e.step io).cpu.psr = ⟨m₀.cpu.pc⟩ ∧ (e.step io).cpu.sp = m₀.cpu.sp ∧
      (e.step io).cpu.inDelaySlot = true ∧ (e.step io).cpu.delayTarget = m₀.cpu.psr.raw := by
  have hcount' : e.cpu.pendingExtCount = 0 := by rw [hcpu]; exact hcount
  have hslot' : e.cpu.inDelaySlot = false := by rw [hcpu]; exact hslot
  have hd' : e.cpu.deferredTrapValid = false := by rw [hcpu]; exact hd
  have hsp : e.fetched.cpu.sp = m₀.cpu.sp - 8 := by
    change e.cpu.sp = _
    rw [hcpu, enterTrap_eq io hroom 0 0]
  have hsp4 : m₀.cpu.sp - 8 + 4 = m₀.cpu.sp - 4 := by bv_omega
  have hsp0 : m₀.cpu.sp - 4 + 4 = m₀.cpu.sp := BitVec.sub_add_cancel ..
  -- the words under the stack pointer are those the entry stored
  have hfcells := e.fetched_sameCells.trans hcells
  have hpsr := (entry_words io hroom 0 0 hfcells).1
  have hpc := (entry_words io hroom 0 0
    ((Bus.read32_sameCells io e.fetched.bus (m₀.cpu.sp - 8)).trans hfcells)).2
  have hstep : e.step io = (e.fetched.hRetd io).checkBusFault := by
    rw [step_outside_slot io hrun hslot' (.inl hcount'), hvec]
    refine fireDeferred_of_not_valid io ?_
    rcases (e.fetched.hRetd io).checkBusFault_cpu with h | h
    · exact (congrArg CpuState.deferredTrapValid h :).trans hd'
    · exact (congrArg CpuState.deferredTrapValid h :).trans hd'
  rw [hstep] at hh ⊢
  rw [checkBusFault_cpu_of_running hh, hRetd_eq, hsp, hsp4, hsp0, hpsr, hpc]
  exact ⟨rfl, rfl, rfl, rfl⟩

/-! ### The slot -/

/-- In a delay slot, the machine executes an instruction that may stand there, that
writes none of `PC`, `PSR` and `SP`, and after which the program runs on. -/
structure SlotKeeps (m : Machine D) : Prop where
  running : m.running = true
  executes : ∃ m', m.fetched.check m.cpu.pc m.insnAtPc m.cpu.inDelaySlot = .ok m' ∧
    let q := (m.handlerAtPc.run io m.insnAtPc m').checkBusFault
    q.cpu.pc = m.fetched.cpu.pc ∧ q.cpu.psr = m.cpu.psr ∧ q.cpu.sp = m.cpu.sp ∧
      q.cpu.inHalt = false ∧ q.cpu.deferredTrapValid = false

/-- **After the slot instruction the program continues at the target.** -/
theorem SlotKeeps.step {s : Machine D} (h : s.SlotKeeps io) (hslot : s.cpu.inDelaySlot = true) :
    (s.step io).cpu.pc = s.cpu.delayTarget ∧ (s.step io).cpu.psr = s.cpu.psr ∧
      (s.step io).cpu.sp = s.cpu.sp := by
  obtain ⟨hrunning, hbreak⟩ := s.running_iff.mp h.running
  obtain ⟨m', hcheck, -, hpsr, hsp, hh, hd⟩ := h.executes
  set q := (s.handlerAtPc.run io s.insnAtPc m').checkBusFault with hq
  have hstep : s.step io = (q.completeSlot true s.cpu.delayTarget).fireDeferred io := by
    unfold Machine.step
    rw [hrunning, if_neg Bool.false_ne_true, hbreak, if_neg Bool.false_ne_true]
    unfold execute
    rw [hcheck, hslot]
    rfl
  have hdone : q.completeSlot true s.cpu.delayTarget = q.mapCpu fun c =>
      { c with inDelaySlot := false, delayCaller := .other, pc := s.cpu.delayTarget } := by
    unfold completeSlot
    rw [hh, Bool.not_false, Bool.and_true, if_pos rfl]
  have hfire : (q.completeSlot true s.cpu.delayTarget).fireDeferred io = _ :=
    fireDeferred_eq io (hdone ▸ hd)
  rw [hstep, hfire, hdone]
  exact ⟨rfl, hpsr, hsp⟩

/-- An instruction of class `DC_OK` that writes neither `PSR` nor `SP` keeps them in the
slot. -/
theorem slotKeeps_of_ok {s : Machine D} (hrun : s.running = true)
    (hslot : s.cpu.inDelaySlot = true) (hp : s.cpu.pendingExtCount = 0)
    (hd : s.cpu.deferredTrapValid = false) (hb : s.bus.faultPending = false)
    (hok : delaySlotClass s.insnAtPc = .ok) (hdef : s.handlerAtPc ≠ .undef)
    (hpsr : (s.handlerAtPc.run io s.insnAtPc s.fetched).cpu.psr = s.cpu.psr)
    (hsp : (s.handlerAtPc.run io s.insnAtPc s.fetched).cpu.sp = s.cpu.sp) : s.SlotKeeps io := by
  have hi : s.handlerAtPc.isInternal = true := Handler.isInternal_of_ok hok hdef
  have hctl := s.handlerAtPc.run_ctl io (Handler.isPlain_of_isInternal hi) s.insnAtPc s.fetched
  obtain ⟨cycles, hcheck⟩ := check_slot_ok (m := s.fetched) s.cpu.pc hp hok
  set o : Outside D := { s.fetched.outside with bus := s.fetched.bus.withCycles cycles }
  have hblind := Handler.run_withOutside io hi s.insnAtPc s.fetched o
  obtain ⟨fetchCycles, hfetch⟩ := s.bus.fetch16_withCycles s.cpu.pc
  have hfault : ((s.handlerAtPc.run io s.insnAtPc s.fetched).withOutside o).bus.faultPending =
      false := by
    change (s.bus.fetch16 s.cpu.pc).2.faultPending = false
    rw [hfetch]
    exact hb
  refine ⟨hrun, _, hslot ▸ hcheck, ?_⟩
  dsimp only
  rw [hblind, checkBusFault_eq hfault]
  exact ⟨rfl, hpsr, hsp, (running_iff s).mp hrun |>.1,
    (congrArg Ctl.deferredTrapValid hctl :).trans hd⟩

/-! ### The round trip -/

/-- **The return from a debug trap**: `brk`, the `retd` its vector points to, and a slot
instruction come back to the instruction after `brk`, with the `PSR` and `SP` of `brk`,
if and only if that `PSR` is the address of the instruction. -/
theorem debug_return_iff (m : Machine D) (hrun : m.running = true)
    (hslot : m.cpu.inDelaySlot = false) (hext : m.cpu.pendingExtCount = 0 ∨ m.strict = false)
    (hd : m.cpu.deferredTrapValid = false) (hroom : m.RoomBelow) (hbrk : m.handlerAtPc = .brk)
    (he : (m.step io).running = true) (hvec : (m.step io).handlerAtPc = .retd)
    (hkeeps : ((step io)^[2] m).SlotKeeps io) :
    (((step io)^[3] m).cpu.pc = m.cpu.pc + 2 ∧ ((step io)^[3] m).cpu.psr = m.cpu.psr ∧
        ((step io)^[3] m).cpu.sp = m.cpu.sp) ↔
      m.cpu.psr.raw = m.cpu.pc + 2 := by
  obtain ⟨cycles, hcpu, hcells⟩ := step_brk io hrun hslot hext hd hbrk
    ((m.step io).running_iff.mp he).1
  have hroom' : (m.atBrk cycles).RoomBelow :=
    ⟨m.fetched_sameCells.stackWord hroom.1, m.fetched_sameCells.stackWord hroom.2⟩
  obtain ⟨hpsr, hsp, hin, htarget⟩ := step_retd io hroom' rfl hslot hd hcpu hcells he hvec
    (((step io)^[2] m).running_iff.mp hkeeps.running).1
  obtain ⟨hpc', hpsr', hsp'⟩ := hkeeps.step io hin
  have hpc : ((step io)^[3] m).cpu.pc = m.cpu.psr.raw := hpc'.trans htarget
  have hpsr : ((step io)^[3] m).cpu.psr = ⟨m.cpu.pc + 2⟩ := hpsr'.trans hpsr
  have hsp : ((step io)^[3] m).cpu.sp = m.cpu.sp := hsp'.trans hsp
  rw [hpc, hpsr, hsp]
  constructor
  · exact fun h => h.1
  · intro h
    exact ⟨h, congrArg Psr.mk h.symm, rfl⟩

/-- A boot ROM with a `brk`, and with `retd; nop` where its vector points, about to run on
a stack in SRAM with a clear `PSR`. -/
def debugRom : Machine Unit :=
  { ofRom [0x0400, 0x0000, 0x0440, 0x0000, 0x0004, 0x00C0] with
    cpu := { pc := 0xC00000, sp := 0x102000, ttbr := 0xC00008 } }

theorem debugRom_room : debugRom.RoomBelow :=
  ⟨⟨rfl, .inr ⟨rfl, by decide⟩⟩, ⟨rfl, .inr ⟨rfl, by decide⟩⟩⟩

theorem debug_return_iff_debugRom :
    let m := debugRom
    let m' := (step (IoSpace.empty Unit))^[3] m
    (m'.cpu.pc = m.cpu.pc + 2 ∧ m'.cpu.psr = m.cpu.psr ∧ m'.cpu.sp = m.cpu.sp) ↔
      m.cpu.psr.raw = m.cpu.pc + 2 :=
  debug_return_iff (IoSpace.empty Unit) debugRom rfl rfl (.inl rfl) rfl debugRom_room rfl rfl rfl
    (slotKeeps_of_ok (IoSpace.empty Unit) rfl rfl rfl rfl rfl rfl (by decide +kernel) rfl rfl)

/-- **A return that is lost**: the program goes on at address 0, with the address after
`brk` for a `PSR`. -/
theorem debugRom_lost :
    debugRom.handlerAtPc = .brk ∧ (debugRom.step (IoSpace.empty Unit)).handlerAtPc = .retd ∧
      ((step (IoSpace.empty Unit))^[2] debugRom).handlerAtPc = .nop ∧
      ((step (IoSpace.empty Unit))^[3] debugRom).cpu.pc ≠ debugRom.cpu.pc + 2 ∧
      ((step (IoSpace.empty Unit))^[3] debugRom).cpu.psr ≠ debugRom.cpu.psr := by
  refine ⟨rfl, rfl, rfl, ?_, ?_⟩
  · have hpc : ((step (IoSpace.empty Unit))^[3] debugRom).cpu.pc = 0 := rfl
    rw [hpc]
    decide
  · have hpsr : ((step (IoSpace.empty Unit))^[3] debugRom).cpu.psr = ⟨0xC00002⟩ := rfl
    rw [hpsr]
    decide

end Machine
