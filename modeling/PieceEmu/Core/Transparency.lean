import PieceEmu.Core.StackWords
import PieceEmu.Core.StepCases

/-!
# Interrupts and the interrupted program

A trap asserted while a prefix or a delay slot is open is deferred, and entered at the
first *boundary*, where neither is. Up to there the program does not notice it: a step
commutes with setting the deferral (`Machine.step_withDeferral`), so the interrupted
run is the uninterrupted one with the trap waiting. At the boundary the entry pushes
`PC` and `PSR`, and `reti` pops them in the opposite order
(`Machine.EntersFrom.reti`).
-/

/-- The slot of the deferred trap. -/
structure Deferral where
  valid : Bool
  no : ℤ
  level : ℤ

namespace Machine

variable {D : Type} (io : IoSpace D) (m : Machine D) (insn : Insn) (d : Deferral)

/-- A machine with its deferred trap replaced. -/
def withDeferral : Machine D :=
  m.mapCpu fun s => { s with
    deferredTrapValid := d.valid
    deferredTrapNo := d.no
    deferredTrapLevel := d.level }

/-- The deferred trap. -/
def deferral : Deferral :=
  ⟨m.cpu.deferredTrapValid, m.cpu.deferredTrapNo, m.cpu.deferredTrapLevel⟩

@[simp] theorem withDeferral_deferral : m.withDeferral m.deferral = m := rfl

@[simp] theorem deferral_withDeferral : (m.withDeferral d).deferral = d := rfl

/-- No check notices the deferred trap. -/
theorem unnoticed_withDeferral : Unnoticed fun m : Machine D => m.withDeferral d where
  pendingExtCount _ := rfl
  inHalt _ := rfl
  delayCaller _ := rfl
  strict _ := rfl
  disasm _ _ := rfl
  diagFault _ := rfl

/-! ### Handlers and the deferral -/

theorem hJr_withDeferral (taken : Bool) :
    (m.withDeferral d).hJr insn taken = (m.hJr insn taken).withDeferral d := by
  unfold hJr doC0Jump
  cases taken <;> cases insn.d <;> rfl

theorem hCallRb_withDeferral :
    (m.withDeferral d).hCallRb io insn = (m.hCallRb io insn).withDeferral d := by
  unfold hCallRb doC0Jump
  cases insn.d <;> rfl

theorem hCallSimm8_withDeferral :
    (m.withDeferral d).hCallSimm8 io insn = (m.hCallSimm8 io insn).withDeferral d := by
  unfold hCallSimm8 doC0Jump
  cases insn.d <;> rfl

theorem hRet_withDeferral : (m.withDeferral d).hRet io insn = (m.hRet io insn).withDeferral d := by
  unfold hRet doC0Jump
  cases insn.d <;> rfl

theorem hJpRb_withDeferral : (m.withDeferral d).hJpRb insn = (m.hJpRb insn).withDeferral d := by
  unfold hJpRb
  cases insn.d <;> rfl

theorem hJpSimm8_withDeferral :
    (m.withDeferral d).hJpSimm8 insn = (m.hJpSimm8 insn).withDeferral d := by
  unfold hJpSimm8 doC0Jump
  cases insn.d <;> rfl

theorem hExt_withDeferral : (m.withDeferral d).hExt insn = (m.hExt insn).withDeferral d := by
  unfold hExt
  rw [(unnoticed_withDeferral d).diagWarnOrFault, apply_ite (withDeferral · d),
    apply_ite (withDeferral · d)]
  rfl

/-- The prefixes an undefined instruction prints. -/
theorem hUndef_eq : m.hUndef =
    if 2 ≤ m.cpu.pendingExtCount then
      ((m.disasm (m.cpu.pc - 2 - 4)).disasm (m.cpu.pc - 2 - 2)).diagFault
    else if 1 ≤ m.cpu.pendingExtCount then (m.disasm (m.cpu.pc - 2 - 2)).diagFault
    else m.diagFault := by
  unfold hUndef
  dsimp only
  split_ifs with h2 h1 h1
  · rfl
  · exact absurd (Nat.le_trans (by decide) h2) h1
  · rfl
  · rfl

theorem hUndef_withDeferral : (m.withDeferral d).hUndef = m.hUndef.withDeferral d := by
  rw [hUndef_eq, hUndef_eq, apply_ite (withDeferral · d), apply_ite (withDeferral · d)]
  rfl

/-- A plain handler is blind to the deferred trap, as it is to all control state. -/
theorem run_withDeferral_of_isPlain {h : Handler} (hp : h.isPlain = true) :
    h.run io insn (m.withDeferral d) = (h.run io insn m).withDeferral d := by
  have hctl := Handler.run_ctl io hp insn m
  have hwith (m' : Machine D) (hm' : m'.ctl = m.ctl) :
      m'.withDeferral d = m'.withCtl { m.ctl with
        deferredTrapValid := d.valid, deferredTrapNo := d.no, deferredTrapLevel := d.level } := by
    rw [← hm']
    rfl
  rw [hwith m rfl, Handler.run_withCtl io hp, hwith _ hctl]

/-- **An instruction that asserts no trap is blind to the deferred one.** -/
theorem run_withDeferral (h : Handler) (hr : h.raisesTrap insn m = false) :
    h.run io insn (m.withDeferral d) = (h.run io insn m).withDeferral d := by
  by_cases hp : h.isPlain = true
  · exact run_withDeferral_of_isPlain io m insn d hp
  cases h with
  | slp | halt | retd => rfl
  | callRb => exact hCallRb_withDeferral io m insn d
  | callSimm8 => exact hCallSimm8_withDeferral io m insn d
  | ret => exact hRet_withDeferral io m insn d
  | jpRb => exact hJpRb_withDeferral m insn d
  | jpSimm8 => exact hJpSimm8_withDeferral m insn d
  | jrgt | jrge | jrlt | jrle | jrugt | jruge | jrult | jrule | jreq | jrne =>
    exact hJr_withDeferral m insn d _
  | ext => exact hExt_withDeferral m insn d
  | undef => exact hUndef_withDeferral m d
  | brk | int => exact Bool.noConfusion (hr : true = false)
  | div0s =>
    have h0 : ¬m.cpu.r insn.rs = 0 := of_decide_eq_false hr
    have hne : (m.withDeferral d).hDiv0s io insn = _ := if_neg h0
    have hne' : m.hDiv0s io insn = _ := if_neg h0
    change (m.withDeferral d).hDiv0s io insn = (m.hDiv0s io insn).withDeferral d
    rw [hne, hne']
    rfl
  | div0u =>
    have h0 : ¬m.cpu.r insn.rs = 0 := of_decide_eq_false hr
    have hne : (m.withDeferral d).hDiv0u io insn = _ := if_neg h0
    have hne' : m.hDiv0u io insn = _ := if_neg h0
    change (m.withDeferral d).hDiv0u io insn = (m.hDiv0u io insn).withDeferral d
    rw [hne, hne']
    rfl
  | _ => exact absurd rfl hp

/-! ### The stages and the deferral -/

/-- What a check returns, with its deferred trap replaced. -/
def checkedWithDeferral : Except (Machine D) (Machine D) → Except (Machine D) (Machine D)
  | .error m => .error (m.withDeferral d)
  | .ok m => .ok (m.withDeferral d)

theorem check_withDeferral (pc : U32) (inSlot : Bool) :
    (m.withDeferral d).check pc insn inSlot =
      checkedWithDeferral d (m.check pc insn inSlot) := by
  rw [(unnoticed_withDeferral d).check m pc insn inSlot]
  cases m.check pc insn inSlot <;> rfl

theorem checkBusFault_withDeferral :
    (m.withDeferral d).checkBusFault = m.checkBusFault.withDeferral d := by
  unfold checkBusFault
  rw [apply_ite (withDeferral · d)]
  rfl

theorem completeSlot_withDeferral (inSlot : Bool) (target : U32) :
    (m.withDeferral d).completeSlot inSlot target =
      (m.completeSlot inSlot target).withDeferral d := by
  unfold completeSlot
  rw [apply_ite (withDeferral · d)]
  rfl

theorem retire_withDeferral (inSlot : Bool) (target : U32)
    (hr : (Handler.ofInsn insn).raisesTrap insn m = false) :
    (m.withDeferral d).retire io insn inSlot target =
      (m.retire io insn inSlot target).withDeferral d := by
  unfold retire
  rw [run_withDeferral io m insn d _ hr, checkBusFault_withDeferral, completeSlot_withDeferral]

theorem retire_deferral (inSlot : Bool) (target : U32)
    (hr : (Handler.ofInsn insn).raisesTrap insn m = false) :
    (m.retire io insn inSlot target).deferral = m.deferral := by
  have := congrArg deferral (retire_withDeferral io m insn m.deferral inSlot target hr)
  simpa using this

/-! ### A step inside a window -/

/-- The step asserts a trap of its own. -/
def StepRaises : Prop := m.running = true ∧ m.handlerAtPc.raisesTrap m.insnAtPc m = true

variable {m}

theorem fireDeferred_of_not_valid (hv : m.cpu.deferredTrapValid = false) :
    m.fireDeferred io = m := by
  unfold fireDeferred
  rw [hv, Bool.and_false, Bool.false_and]
  rfl

/-- Whether an instruction asserts a trap depends on the registers. -/
theorem raisesTrap_congr {m' : Machine D} (h : m'.cpu.r = m.cpu.r) (hd : Handler) :
    hd.raisesTrap insn m' = hd.raisesTrap insn m := by
  unfold Handler.raisesTrap
  rw [h]

/-- **A step inside a window commutes with setting the deferral**, as far as to where the
deferred trap may fire; and it sets no deferral of its own. -/
theorem step_withDeferral (hw : m.inWindow = true) (hv : m.cpu.deferredTrapValid = false)
    (hr : ¬m.StepRaises) :
    (m.withDeferral d).step io = ((m.step io).withDeferral d).fireDeferred io ∧
      (m.step io).cpu.deferredTrapValid = false := by
  have hkeep {m' : Machine D} (h : m'.inWindow = m.inWindow) :
      m'.withDeferral d = (m'.withDeferral d).fireDeferred io :=
    (fireDeferred_of_inWindow io (m := m'.withDeferral d) (h.trans hw)).symm
  -- the cases of `step`: halted, at a breakpoint, and else the instruction is checked and executed
  by_cases hh : m.cpu.inHalt = true
  · have hstep : m.step io = m := if_pos hh
    have hstep' : (m.withDeferral d).step io = m.withDeferral d := if_pos hh
    rw [hstep, hstep']
    exact ⟨hkeep rfl, hv⟩
  by_cases hb : m.breakpoints m.cpu.pc = true
  · have hstep : m.step io = m.mapCpu ({ · with inHalt := true }) :=
      (if_neg hh).trans (if_pos hb)
    have hstep' : (m.withDeferral d).step io =
        (m.mapCpu ({ · with inHalt := true })).withDeferral d :=
      (if_neg hh).trans (if_pos hb)
    rw [hstep, hstep']
    exact ⟨hkeep rfl, hv⟩
  have hstep : m.step io = m.execute io := (if_neg hh).trans (if_neg hb)
  have hstep' : (m.withDeferral d).step io = (m.withDeferral d).execute io :=
    (if_neg hh).trans (if_neg hb)
  have hcheck : (m.withDeferral d).fetched.check m.cpu.pc m.insnAtPc m.cpu.inDelaySlot =
      checkedWithDeferral d (m.fetched.check m.cpu.pc m.insnAtPc m.cpu.inDelaySlot) :=
    check_withDeferral m.fetched m.insnAtPc d m.cpu.pc m.cpu.inDelaySlot
  have hraises : m.handlerAtPc.raisesTrap m.insnAtPc m = false := by
    by_contra hne
    exact hr ⟨m.running_iff.mpr ⟨by simpa using hh, by simpa using hb⟩, by simpa using hne⟩
  rw [hstep, hstep']
  have hexec : (m.withDeferral d).execute io =
      match (m.withDeferral d).fetched.check m.cpu.pc m.insnAtPc m.cpu.inDelaySlot with
      | .error m' => m'
      | .ok m' => (m'.retire io m.insnAtPc m.cpu.inDelaySlot m.cpu.delayTarget).fireDeferred io :=
    rfl
  rw [hexec, hcheck]
  unfold execute
  cases hc : m.fetched.check m.cpu.pc m.insnAtPc m.cpu.inDelaySlot with
  | error m' =>
    have hcpu := check_error (m := m.fetched) (Bool.eq_false_iff.mpr hh) hc
    have hwin : m'.inWindow = m.inWindow := by
      unfold inWindow
      rw [hcpu]
      rfl
    exact ⟨hkeep hwin, (congrArg CpuState.deferredTrapValid hcpu).trans hv⟩
  | ok m' =>
    obtain ⟨hcpu, -⟩ := check_ok (m := m.fetched) hc
    have hr' : (Handler.ofInsn m.insnAtPc).raisesTrap m.insnAtPc m' = false :=
      (raisesTrap_congr m.insnAtPc (congrArg CpuState.r hcpu) _).trans hraises
    have hdef := retire_deferral io m' m.insnAtPc m.cpu.inDelaySlot m.cpu.delayTarget hr'
    have hvalid : (m'.retire io m.insnAtPc m.cpu.inDelaySlot
        m.cpu.delayTarget).cpu.deferredTrapValid = false :=
      (congrArg Deferral.valid hdef).trans ((congrArg CpuState.deferredTrapValid hcpu).trans hv)
    have hret := retire_withDeferral io m' m.insnAtPc d m.cpu.inDelaySlot m.cpu.delayTarget hr'
    change ((m'.withDeferral d).retire io m.insnAtPc m.cpu.inDelaySlot
      m.cpu.delayTarget).fireDeferred io = _ ∧ _
    dsimp only
    rw [hret, fireDeferred_of_not_valid io hvalid]
    exact ⟨rfl, hvalid⟩

/-! ### The interrupted run up to the boundary -/

/-- The run from a machine up to step `n` asserts no trap of its own. -/
def RaisesNoTrap (m : Machine D) (n : ℕ) : Prop := ∀ j < n, ¬((step io)^[j] m).StepRaises

/-- Step `b` is the first boundary of a run: the first state with no prefix pending and
no delay slot open. -/
structure FirstBoundary (m : Machine D) (b : ℕ) : Prop where
  closed : ((step io)^[b] m).inWindow = false
  open_before : ∀ j < b, ((step io)^[j] m).inWindow = true

/-- **Inside the window the interrupted run is the uninterrupted one**, with the trap
waiting. -/
theorem steps_withDeferral (hv : m.cpu.deferredTrapValid = false) {n : ℕ}
    (hw : ∀ j ≤ n, ((step io)^[j] m).inWindow = true) (hr : m.RaisesNoTrap io n) :
    (step io)^[n] (m.withDeferral d) = ((step io)^[n] m).withDeferral d ∧
      ((step io)^[n] m).cpu.deferredTrapValid = false := by
  induction n with
  | zero => exact ⟨rfl, hv⟩
  | succ n ih =>
    obtain ⟨heq, hvn⟩ := ih (fun j hj => hw j (by omega)) fun j hj => hr j (by omega)
    obtain ⟨hstep, hvalid⟩ := step_withDeferral io d (hw n (by omega)) hvn (hr n (by omega))
    have hw' : ((step io)^[n + 1] m).inWindow = true := hw (n + 1) le_rfl
    rw [Function.iterate_succ_apply', Function.iterate_succ_apply', heq, hstep]
    rw [Function.iterate_succ_apply'] at hw'
    exact ⟨fireDeferred_of_inWindow io hw', hvalid⟩

/-- **At the boundary the waiting trap fires.** -/
theorem steps_to_boundary (hv : m.cpu.deferredTrapValid = false) {b : ℕ} (hb : m.FirstBoundary io b)
    (hpos : 0 < b) (hr : m.RaisesNoTrap io b) :
    (step io)^[b] (m.withDeferral d) = (((step io)^[b] m).withDeferral d).fireDeferred io ∧
      ((step io)^[b] m).cpu.deferredTrapValid = false := by
  obtain ⟨n, rfl⟩ : ∃ n, b = n + 1 := ⟨b - 1, by omega⟩
  obtain ⟨heq, hvn⟩ := steps_withDeferral io d hv (n := n)
    (fun j hj => hb.open_before j (by omega)) fun j hj => hr j (by omega)
  rw [Function.iterate_succ_apply', Function.iterate_succ_apply', heq]
  exact step_withDeferral io d (hb.open_before n (by omega)) hvn (hr n (by omega))

/-! ### Entry and return -/

/-- The two words below the stack pointer are words of RAM. -/
def RoomBelow (m : Machine D) : Prop :=
  m.bus.StackWord (m.cpu.sp - 4) ∧ m.bus.StackWord (m.cpu.sp - 8)

/-- The bytes of these two words. -/
def BelowSp (m : Machine D) (i : ℕ) : Prop :=
  Bus.flatIndex (m.cpu.sp - 8) ≤ i ∧ i < Bus.flatIndex (m.cpu.sp - 8) + 4 ∨
    Bus.flatIndex (m.cpu.sp - 4) ≤ i ∧ i < Bus.flatIndex (m.cpu.sp - 4) + 4

/-- **The entry of a trap, in full**, on a stack with room. -/
theorem enterTrap_eq (hroom : m.RoomBelow) (no level : ℤ) :
    m.enterTrap io no level =
      { m with
        bus := (((m.bus.read32 io (m.vectorAddr no)).2.write32 io (m.cpu.sp - 4)
          m.cpu.pc).1.write32 io (m.cpu.sp - 8) m.cpu.psr.raw).1
        cpu := { m.cpu with
          sp := m.cpu.sp - 8
          pc := (m.bus.read32 io (m.vectorAddr no)).1
          psr := if 16 ≤ no then (m.cpu.psr.setIe false).setIl (BitVec.ofInt 32 level)
            else m.cpu.psr.setIe false
          inHalt := false
          haltMode := .none } } := by
  have hcells := Bus.read32_sameCells io m.bus (m.vectorAddr no)
  have h4 := hcells.stackWord hroom.1
  have h8 := (h4.write32 io m.cpu.pc).mpr (hcells.stackWord hroom.2)
  have hsp : m.cpu.sp - 4 - 4 = m.cpu.sp - 8 := BitVec.sub_sub ..
  rw [← hsp] at h8 ⊢
  set m₁ := (m.read32 io (m.vectorAddr no)).2 with hm₁
  have hfst : m₁.push io m₁.cpu.pc =
      { m₁.setSp (m.cpu.sp - 4) with
        bus := (m₁.bus.write32 io (m.cpu.sp - 4) m.cpu.pc).1 } :=
    push_eq io (h4.write32_quiet io _).1
  have hsnd : (m₁.push io m₁.cpu.pc).push io m.cpu.psr.raw =
      { m₁.setSp (m.cpu.sp - 4 - 4) with
        bus := ((m₁.bus.write32 io (m.cpu.sp - 4) m.cpu.pc).1.write32 io (m.cpu.sp - 4 - 4)
          m.cpu.psr.raw).1 } := by
    rw [hfst]
    exact push_eq io (h8.write32_quiet io _).1
  have hentry : m.enterTrap io no level =
      ((m₁.push io m₁.cpu.pc).push io (m₁.push io m₁.cpu.pc).cpu.psr.raw).mapCpu fun s => { s with
        pc := (m.bus.read32 io (m.vectorAddr no)).1
        psr := if 16 ≤ no then (s.psr.setIe false).setIl (BitVec.ofInt 32 level)
          else s.psr.setIe false
        inHalt := false
        haltMode := .none } := rfl
  have hpsr : (m₁.push io m₁.cpu.pc).cpu.psr.raw = m.cpu.psr.raw := by rw [hfst]; rfl
  rw [hentry, hpsr, hsnd]
  rfl

/-- **The frame of a trap**: the entry stores `PC`, and below it `PSR`. -/
theorem enterTrap_flatByte (hroom : m.RoomBelow) (no level : ℤ) :
    (m.enterTrap io no level).bus.flatByte = Words.putLe32
      (Words.putLe32 m.bus.flatByte (Bus.flatIndex (m.cpu.sp - 4)) m.cpu.pc)
      (Bus.flatIndex (m.cpu.sp - 8)) m.cpu.psr.raw := by
  have hcells := Bus.read32_sameCells io m.bus (m.vectorAddr no)
  have h4 := hcells.stackWord hroom.1
  have h8 := (h4.write32 io m.cpu.pc).mpr (hcells.stackWord hroom.2)
  rw [enterTrap_eq io hroom no level]
  exact (h8.flatByte_write32 io _).trans (by rw [h4.flatByte_write32, hcells.flatByte])

/-- **The two words of the frame**, read back from a bus that holds the same bytes. -/
theorem entry_words (hroom : m.RoomBelow) (no level : ℤ) {b : Bus D}
    (hb : b.SameCells (m.enterTrap io no level).bus) :
    (b.read32 io (m.cpu.sp - 8)).1 = m.cpu.psr.raw ∧
      (b.read32 io (m.cpu.sp - 4)).1 = m.cpu.pc := by
  have hbytes := hb.flatByte.trans (enterTrap_flatByte io hroom no level)
  have hcells := Bus.read32_sameCells io m.bus (m.vectorAddr no)
  have h4 := hcells.stackWord hroom.1
  have h8 := (h4.write32 io m.cpu.pc).mpr (hcells.stackWord hroom.2)
  have hword {a : U32} (h : (m.bus.read32 io (m.vectorAddr no)).2.StackWord a) :
      b.StackWord a := by
    refine hb.stackWord ?_
    rw [enterTrap_eq io hroom no level]
    exact (h8.write32 io _).mpr ((h4.write32 io _).mpr h)
  have hapart : Bus.flatIndex (m.cpu.sp - 4) + 4 ≤ Bus.flatIndex (m.cpu.sp - 8) ∨
      Bus.flatIndex (m.cpu.sp - 8) + 4 ≤ Bus.flatIndex (m.cpu.sp - 4) := by
    have h := @Bus.StackWord.apart D m.bus (m.cpu.sp - 4) hroom.1
    rw [BitVec.sub_sub] at h
    exact h hroom.2
  constructor
  · rw [(hword (hcells.stackWord hroom.2)).read32_eq io, hbytes]
    exact Words.le32_putLe32 ..
  · rw [(hword h4).read32_eq io, hbytes,
      Words.le32_congr fun j hlo hhi => Words.putLe32_of_ne (by omega)]
    exact Words.le32_putLe32 ..

/-- The machine `m'` is back where `m` was: the registers, the prefixes and the delay
slot are those of `m`, and so is every byte of memory but those below its stack
pointer. -/
structure ReturnedTo (m' m : Machine D) : Prop where
  r : m'.cpu.r = m.cpu.r
  pc : m'.cpu.pc = m.cpu.pc
  sp : m'.cpu.sp = m.cpu.sp
  psr : m'.cpu.psr = m.cpu.psr
  alr : m'.cpu.alr = m.cpu.alr
  ahr : m'.cpu.ahr = m.cpu.ahr
  pendingExt0 : m'.cpu.pendingExt0 = m.cpu.pendingExt0
  pendingExt1 : m'.cpu.pendingExt1 = m.cpu.pendingExt1
  pendingExtCount : m'.cpu.pendingExtCount = m.cpu.pendingExtCount
  inDelaySlot : m'.cpu.inDelaySlot = m.cpu.inDelaySlot
  delayTarget : m'.cpu.delayTarget = m.cpu.delayTarget
  delayCaller : m'.cpu.delayCaller = m.cpu.delayCaller
  memory : ∀ i, ¬m.BelowSp i → m'.bus.flatByte i = m.bus.flatByte i

/-- What `reti` pops from a stack that holds `psr` and above it `pc`. -/
theorem hReti_eq (m : Machine D) :
    m.hReti io =
      { m with
        bus := ((m.bus.read32 io m.cpu.sp).2.read32 io (m.cpu.sp + 4)).2
        cpu := { m.cpu with
          pendingExtCount := 0
          psr := ⟨(m.bus.read32 io m.cpu.sp).1⟩
          sp := m.cpu.sp + 4 + 4
          pc := ((m.bus.read32 io m.cpu.sp).2.read32 io (m.cpu.sp + 4)).1 } } := by
  unfold hReti
  rfl

/-- **`reti` undoes the entry of a trap.** -/
theorem reti_after_entry (hroom : m.RoomBelow) {no level : ℤ} (hw : m.inWindow = false)
    (hv : m.cpu.deferredTrapValid = false)
    (hvec : (m.enterTrap io no level).handlerAtPc = .reti)
    (hrun : (m.enterTrap io no level).running = true) :
    ((m.enterTrap io no level).step io).ReturnedTo m := by
  obtain ⟨hcount, hslot⟩ := m.inWindow_eq_false_iff.mp hw
  have hentry := enterTrap_eq io hroom no level
  set e := m.enterTrap io no level
  -- the fetch of `reti` and its first pop leave the frame as the entry stored it
  have hebytes : e.bus.flatByte = _ := enterTrap_flatByte io hroom no level
  have hfcells := e.fetched_sameCells
  have hcells₁ := Bus.read32_sameCells io e.fetched.bus (m.cpu.sp - 8)
  have hcells₂ := Bus.read32_sameCells io (e.fetched.bus.read32 io (m.cpu.sp - 8)).2 (m.cpu.sp - 4)
  have hpsr := (entry_words io hroom no level hfcells).1
  have hpc := (entry_words io hroom no level (hcells₁.trans hfcells)).2
  -- the machine after `reti`, before the check for a fault
  set q := e.fetched.hReti io with hq
  have hesp : e.fetched.cpu.sp = m.cpu.sp - 8 := by
    change e.cpu.sp = _
    rw [hentry]
  have hsp4 : m.cpu.sp - 8 + 4 = m.cpu.sp - 4 := by bv_omega
  have hsp0 : m.cpu.sp - 4 + 4 = m.cpu.sp := BitVec.sub_add_cancel ..
  have hqcpu : q.cpu = { e.cpu with
      pc := m.cpu.pc, pendingExtCount := 0, psr := m.cpu.psr, sp := m.cpu.sp } := by
    rw [hq, hReti_eq, hesp, hsp4, hsp0, hpsr, hpc]
    rfl
  have hqbytes : q.bus.flatByte = e.bus.flatByte := by
    rw [hq, hReti_eq, hesp, hsp4]
    exact (hcells₂.trans (hcells₁.trans hfcells)).flatByte
  have hqcpu' : q.cpu = { m.cpu with inHalt := false, haltMode := .none } := by
    rw [hqcpu, hentry, ← hcount]
  have hfinal : e.step io = q.checkBusFault := by
    have hslot' : e.cpu.inDelaySlot = false := by rw [hentry]; exact hslot
    have hcount' : e.cpu.pendingExtCount = 0 := by rw [hentry]; exact hcount
    rw [step_outside_slot io hrun hslot' (.inl hcount'), hvec]
    refine fireDeferred_of_not_valid io ?_
    rcases q.checkBusFault_cpu with h | h
    · exact (congrArg CpuState.deferredTrapValid (h.trans hqcpu') :).trans hv
    · rw [hqcpu'] at h
      exact (congrArg CpuState.deferredTrapValid h :).trans hv
  have hbytes : q.checkBusFault.bus.flatByte = e.bus.flatByte := by
    rw [← hqbytes]
    unfold checkBusFault
    dsimp only
    split_ifs <;> rfl
  have hmemory (i : ℕ) (hi : ¬m.BelowSp i) : q.checkBusFault.bus.flatByte i = m.bus.flatByte i := by
    unfold BelowSp at hi
    rw [hbytes, hebytes, Words.putLe32_of_ne (by omega), Words.putLe32_of_ne (by omega)]
  rw [hfinal]
  rcases q.checkBusFault_cpu with h | h
  all_goals
    rw [hqcpu'] at h
    constructor
    case memory => exact hmemory
    all_goals rw [h]

/-! ### Faults halt -/

/-- A faulted CPU is halted. -/
def FaultHalts (m : Machine D) : Prop := m.cpu.fault = true → m.cpu.inHalt = true

theorem doTrap_fault (no level : ℤ) : (m.doTrap io no level).cpu.fault = m.cpu.fault := by
  rcases m.doTrap_cases io no level with ⟨-, h⟩ | ⟨-, -, h⟩ | ⟨-, -, h⟩
  · rw [h]
  · rw [h]
    rfl
  · rw [h]
    exact congrArg Ctl.fault (m.enterTrap_ctl io no level)

theorem FaultHalts.run (hf : m.cpu.fault = false) (h : Handler) (i : Insn) :
    (h.run io i m).FaultHalts := by
  have hf' : m.ctl.fault = false := hf
  have hkeep {m' : Machine D} (h : m'.cpu.fault = m.cpu.fault) : m'.FaultHalts :=
    fun ht => absurd (ht.symm.trans (h.trans hf)) (by decide)
  rcases h.ctlStep io i m with
    ⟨-, hc⟩ | ⟨-, _, _, hc⟩ | ⟨-, mode, heq⟩ | ⟨-, -, hc, -, -⟩ | ⟨hh, -⟩ | ⟨-, no, -, heq⟩
  · exact hkeep (congrArg Ctl.fault hc :)
  · exact hkeep (congrArg Ctl.fault hc :)
  · exact hkeep (by rw [heq]; rfl)
  · exact hkeep (congrArg Ctl.fault hc :)
  · exact fun _ => hh
  · exact hkeep (by rw [heq]; exact doTrap_fault io (m := m.flushExt) no 0)

theorem FaultHalts.step (hm : m.FaultHalts) : (m.step io).FaultHalts := by
  rcases m.stepCase io with ⟨-, heq⟩ | ⟨-, -, heq⟩ | ⟨-, hcpu⟩ | ⟨hrun, m₁, hcpu, -, heq⟩
  · rwa [heq]
  · rw [heq]
    exact fun _ => rfl
  · exact fun _ => congrArg CpuState.inHalt hcpu
  · rw [heq]
    have hf : m₁.cpu.fault = false := by
      rw [hcpu]
      change m.cpu.fault = false
      by_contra hne
      have hh := hm (by simpa using hne)
      rw [(m.running_iff.mp hrun).1] at hh
      exact Bool.noConfusion hh
    have hran := FaultHalts.run io hf (Handler.ofInsn m.insnAtPc) m.insnAtPc
    set m₂ := (Handler.ofInsn m.insnAtPc).run io m.insnAtPc m₁
    have hbus : m₂.checkBusFault.FaultHalts := by
      rcases m₂.checkBusFault_cpu with h | h
      · unfold FaultHalts
        rw [h]
        exact hran
      · exact fun _ => congrArg CpuState.inHalt h
    have hretire : (m₁.retire io m.insnAtPc m.cpu.inDelaySlot m.cpu.delayTarget).FaultHalts := by
      unfold retire completeSlot
      split_ifs
      · exact hbus
      · exact hbus
    unfold fireDeferred
    split_ifs with hfire
    · simp only [Bool.and_eq_true, Bool.not_eq_true'] at hfire
      refine fun ht => absurd (ht.symm.trans ((doTrap_fault io _ _).trans hfire.2)) (by decide)
    · exact hretire

theorem FaultHalts.steps (hm : m.FaultHalts) (n : ℕ) : ((Machine.step io)^[n] m).FaultHalts := by
  induction n with
  | zero => exact hm
  | succ n ih =>
    rw [Function.iterate_succ_apply']
    exact ih.step io

/-- A halted CPU stays as it is. -/
theorem steps_of_inHalt (hh : m.cpu.inHalt = true) (n : ℕ) : (step io)^[n] m = m := by
  induction n with
  | zero => rfl
  | succ n ih => rw [Function.iterate_succ_apply', ih]; exact if_pos hh

/-! ### Transparency -/

/-- **A trap asserted at `m` is transparent to the program**: let `U` be the run from `m`
without the trap, and `I` the one with it. -/
structure Transparent (m : Machine D) (no level : ℤ) : Prop where
  /-- Up to the first boundary, `I` is `U` with the trap waiting. -/
  waits : ∀ n, (∀ j ≤ n, ((step io)^[j] m).inWindow = true) → m.RaisesNoTrap io n →
    (step io)^[n] (m.assertTrap io no level) = ((step io)^[n] m).deferTrap no level
  /-- There the handler is entered, from the state `U` has. -/
  enters : ∀ b, m.FirstBoundary io b → m.RaisesNoTrap io b → ((step io)^[b] m).cpu.fault = false →
    ((step io)^[b] m).trapGate no level = true → ∃ d : Deferral, d.valid = false ∧
      (step io)^[b] (m.assertTrap io no level) =
        (((step io)^[b] m).withDeferral d).enterTrap io no level
  /-- A gate that has closed there drops the trap. -/
  rejects : ∀ b, m.FirstBoundary io b → m.RaisesNoTrap io b →
    ((step io)^[b] m).cpu.fault = false → ((step io)^[b] m).trapGate no level = false →
      (step io)^[b] (m.assertTrap io no level) =
        ((step io)^[b] m).withDeferral ⟨false, no, level⟩
  /-- A fault on the way there stops the CPU with the trap waiting. -/
  faults : ∀ b, m.FirstBoundary io b → m.RaisesNoTrap io b → ((step io)^[b] m).cpu.fault = true →
    ∀ n, (step io)^[b + n] (m.assertTrap io no level) = ((step io)^[b] m).deferTrap no level
  /-- A handler that is a `reti` returns to the state of `U`. -/
  returns : ∀ b, m.FirstBoundary io b → m.RaisesNoTrap io b → ((step io)^[b] m).cpu.fault = false →
    ((step io)^[b] m).trapGate no level = true → ((step io)^[b] m).RoomBelow →
    ((step io)^[b] (m.assertTrap io no level)).handlerAtPc = .reti →
    ((step io)^[b] (m.assertTrap io no level)).running = true →
      ((step io)^[b + 1] (m.assertTrap io no level)).ReturnedTo ((step io)^[b] m)

/-- What the run of a trap that passes the gate is at the first boundary. -/
theorem at_boundary (hv : m.cpu.deferredTrapValid = false) {no level : ℤ}
    (hg : m.trapGate no level = true) {b : ℕ} (hb : m.FirstBoundary io b)
    (hr : m.RaisesNoTrap io b) :
    b = 0 ∧ (step io)^[b] (m.assertTrap io no level) = m.enterTrap io no level ∨
      0 < b ∧ (step io)^[b] (m.assertTrap io no level) =
        (((step io)^[b] m).deferTrap no level).fireDeferred io := by
  rcases Nat.eq_zero_or_pos b with rfl | hpos
  · refine .inl ⟨rfl, ?_⟩
    have hw : m.inWindow = false := hb.closed
    rcases m.doTrap_cases io no level with ⟨hg', -⟩ | ⟨-, hw', -⟩ | ⟨-, -, h⟩
    · rw [hg] at hg'
      exact Bool.noConfusion hg'
    · rw [hw] at hw'
      exact Bool.noConfusion hw'
    · exact h
  · have hassert : m.assertTrap io no level = m.withDeferral ⟨true, no, level⟩ := by
      have hw : m.inWindow = true := hb.open_before 0 hpos
      rcases m.doTrap_cases io no level with ⟨hg', -⟩ | ⟨-, -, h⟩ | ⟨-, hw', -⟩
      · rw [hg] at hg'
        exact Bool.noConfusion hg'
      · exact h
      · rw [hw] at hw'
        exact Bool.noConfusion hw'
    rw [hassert]
    exact .inr ⟨hpos, (steps_to_boundary io _ hv hb hpos hr).1⟩

/-- The waiting trap at a boundary: it is entered, dropped by the gate, or left behind by a
fault. -/
theorem deferTrap_fires (hw : m.inWindow = false) (no level : ℤ) :
    m.cpu.fault = true ∧ (m.deferTrap no level).fireDeferred io = m.deferTrap no level ∨
      m.cpu.fault = false ∧ (m.deferTrap no level).fireDeferred io =
        (m.withDeferral ⟨false, no, level⟩).doTrap io no level := by
  have hw' : (m.deferTrap no level).inWindow = false := hw
  have hv : (m.deferTrap no level).cpu.deferredTrapValid = true := rfl
  unfold fireDeferred
  rw [hw', hv]
  cases hf : m.cpu.fault with
  | true =>
    have hf' : (m.deferTrap no level).cpu.fault = true := hf
    rw [hf']
    exact .inl ⟨rfl, rfl⟩
  | false =>
    have hf' : (m.deferTrap no level).cpu.fault = false := hf
    rw [hf']
    exact .inr ⟨rfl, rfl⟩

/-- At a boundary, the gate alone decides. -/
theorem doTrap_of_boundary (hw : m.inWindow = false) (no level : ℤ) :
    m.doTrap io no level = if m.trapGate no level then m.enterTrap io no level else m := by
  unfold doTrap
  rw [hw]
  cases m.trapGate no level <;> rfl

/-- Whether the handler is entered at the boundary, and from where. -/
theorem enters_at_boundary (hv : m.cpu.deferredTrapValid = false)
    {no level : ℤ} (hg : m.trapGate no level = true) {b : ℕ} (hb : m.FirstBoundary io b)
    (hr : m.RaisesNoTrap io b) (hfb : ((step io)^[b] m).cpu.fault = false) :
    ∃ d : Deferral, d.valid = false ∧ (step io)^[b] (m.assertTrap io no level) =
      if ((step io)^[b] m).trapGate no level then
        (((step io)^[b] m).withDeferral d).enterTrap io no level
      else ((step io)^[b] m).withDeferral d := by
  rcases at_boundary io hv hg hb hr with ⟨rfl, h⟩ | ⟨hpos, h⟩
  · refine ⟨m.deferral, hv, h.trans ?_⟩
    exact (if_pos hg).symm
  · refine ⟨⟨false, no, level⟩, rfl, ?_⟩
    rcases deferTrap_fires io hb.closed no level with ⟨hft, -⟩ | ⟨-, hfire⟩
    · rw [hfb] at hft
      exact Bool.noConfusion hft
    · rw [h, hfire]
      exact doTrap_of_boundary io (m := ((step io)^[b] m).withDeferral _) hb.closed no level

/-- **Interrupts are transparent to the interrupted program.** -/
theorem trap_transparent (m : Machine D) (no level : ℤ) (hf : m.cpu.fault = false)
    (hv : m.cpu.deferredTrapValid = false) (hg : m.trapGate no level = true) :
    m.Transparent io no level where
  waits n hw hr := by
    have hassert : m.assertTrap io no level = m.deferTrap no level := by
      have hw0 : m.inWindow = true := hw 0 (Nat.zero_le n)
      rcases m.doTrap_cases io no level with ⟨hg', -⟩ | ⟨-, -, h⟩ | ⟨-, hw', -⟩
      · rw [hg] at hg'
        exact Bool.noConfusion hg'
      · exact h
      · rw [hw0] at hw'
        exact Bool.noConfusion hw'
    rw [hassert]
    exact (steps_withDeferral io ⟨true, no, level⟩ hv hw hr).1
  enters b hb hr hfb hgb := by
    obtain ⟨d, hd, h⟩ := enters_at_boundary io hv hg hb hr hfb
    rw [if_pos hgb] at h
    exact ⟨d, hd, h⟩
  rejects b hb hr hfb hgb := by
    rcases at_boundary io hv hg hb hr with ⟨rfl, -⟩ | ⟨-, h⟩
    · rw [show m.trapGate no level = false from hgb] at hg
      exact Bool.noConfusion hg
    · rcases deferTrap_fires io hb.closed no level with ⟨hft, -⟩ | ⟨-, hfire⟩
      · rw [hfb] at hft
        exact Bool.noConfusion hft
      · rw [h, hfire]
        refine (doTrap_of_boundary io (m := ((step io)^[b] m).withDeferral _) hb.closed ..).trans ?_
        exact if_neg (Bool.eq_false_iff.mp hgb)
  faults b hb hr hfb n := by
    have hhalt := FaultHalts.steps io (m := m) (fun h => absurd h (Bool.eq_false_iff.mp hf)) b hfb
    rcases at_boundary io hv hg hb hr with ⟨rfl, -⟩ | ⟨-, h⟩
    · rw [show m.cpu.fault = true from hfb] at hf
      exact Bool.noConfusion hf
    · rcases deferTrap_fires io hb.closed no level with ⟨-, hfire⟩ | ⟨hff, -⟩
      · rw [Nat.add_comm, Function.iterate_add_apply, h, hfire]
        exact steps_of_inHalt io (m := ((step io)^[b] m).deferTrap no level) hhalt n
      · rw [hfb] at hff
        exact Bool.noConfusion hff
  returns b hb hr hfb hgb hroom hvec hrun := by
    obtain ⟨d, hd, h⟩ := enters_at_boundary io hv hg hb hr hfb
    rw [if_pos hgb] at h
    rw [h] at hvec hrun
    rw [Function.iterate_succ_apply', h]
    have hret := reti_after_entry io (m := ((step io)^[b] m).withDeferral d) hroom hb.closed hd hvec
      hrun
    exact { hret with }

/-- A board that puts its stack at 0x1000 and goes on with a prefix. Its RAM holds a `reti` at
the address 0, where the empty vector of the NMI leads. -/
def prefixBoard : Machine Unit :=
  let m := ofRom [0x0004, 0x00C0, 0xC040, 0x6C00, 0xA001, 0xC001, 0x6C50]
  { m with bus := { m.bus with iram := fun i => [0xC0, 0x04].getD i 0 } }

/-- The NMI after the prefix: the `reti` returns to the program. -/
theorem trap_transparent_prefixRom :
    let io := IoSpace.empty Unit
    let m := (step io)^[4] (prefixBoard.reset io)
    m.Transparent io 7 0 ∧
      ((step io)^[2] (m.assertTrap io 7 0)).ReturnedTo ((step io)^[1] m) := by
  intro io m
  have h : m.Transparent io 7 0 :=
    trap_transparent io m 7 0 (by decide +kernel) (by decide +kernel) (by decide +kernel)
  have hboundary : m.FirstBoundary io 1 := by
    refine ⟨by decide +kernel, fun j hj => ?_⟩
    obtain rfl : j = 0 := by omega
    decide +kernel
  have hquiet : m.RaisesNoTrap io 1 := by
    intro j hj
    obtain rfl : j = 0 := by omega
    unfold StepRaises
    decide +kernel
  have hroom : ((step io)^[1] m).RoomBelow := by
    unfold RoomBelow Bus.StackWord
    decide +kernel
  exact ⟨h, h.returns 1 hboundary hquiet (by decide +kernel) (by decide +kernel) hroom
    (by decide +kernel) (by decide +kernel)⟩

end Machine
