import PieceEmu.Core.BusFacts
import PieceEmu.Core.StepCases

/-!
# Invariants of the devices

Some invariants are about the registers of the peripherals and the few values outside
that a register write changes with them: the divisor of the bus clock, and the base of
the trap table in the CPU. Such an invariant is a predicate `P` of the bus and of that
base; it does not look at the memories, the cycles or the general registers.

Only a register handler can break it. So it is enough to check the handlers, once
(`DeviceInvariant`): every access, every instruction and every step of the CPU then
keeps it (`DeviceInvariant.step`), and so does an asserted trap. An invariant may look at
the flash device as well, if every write to it keeps the invariant.
-/

/-- **An invariant of the devices** behind the register windows `io`: it sees the
peripherals, the divisor of the bus clock and the flash device, and every handler and
every write to the flash keeps it. -/
structure DeviceInvariant {D : Type} (io : IoSpace D) (P : Bus D → U32 → Prop) : Prop where
  congr : ∀ {b b' : Bus D} {t : U32}, P b t → b'.dev = b.dev →
    b'.busClockDiv = b.busClockDiv → b'.flash = b.flash → P b' t
  flashWrite : ∀ {b : Bus D} {t : U32}, P b t → ∀ (offset : U32) (v : U16),
    P (b.flashWrite16 offset v) t
  read : ∀ {idx h}, io.read idx = some h → ∀ (addr : U32) (b : Bus D) (t : U32), P b t →
    P { b with dev := (h addr b).2 } t
  write : ∀ {idx h}, io.write idx = some h → ∀ (addr : U32) (v : U16) (b : Bus D) (t : U32),
    P b t → P (h addr v b).1 ((h addr v b).2.ttbr.getD t)
  writeByte : ∀ {idx h}, io.writeByte idx = some h → ∀ (addr : U32) (v : U8) (b : Bus D) (t : U32),
    P b t → P (h addr v b).1 ((h addr v b).2.ttbr.getD t)

/-- Two requests after one another leave the base the second asked for, or the first. -/
theorem CpuRequest.getD_andThen (q q' : CpuRequest) (t : U32) :
    (q.andThen q').ttbr.getD t = q'.ttbr.getD (q.ttbr.getD t) := by
  cases h : q'.ttbr <;> simp [CpuRequest.andThen, h]

/-- A machine whose bus and trap table base satisfy a predicate. -/
def Machine.Satisfies {D : Type} (m : Machine D) (P : Bus D → U32 → Prop) : Prop :=
  P m.bus m.cpu.ttbr

namespace DeviceInvariant

variable {D : Type} {io : IoSpace D} {P : Bus D → U32 → Prop} (hP : DeviceInvariant io P)
include hP

/-! ### Accesses of the bus -/

section Bus

variable {b : Bus D} {t : U32}

theorem noteSramRead (h : P b t) (addr v : U32) (n : ℕ) : P (b.noteSramRead addr v n) t := by
  unfold Bus.noteSramRead
  split_ifs
  · exact hP.congr h rfl rfl rfl
  · exact h

theorem noteSramWrite (h : P b t) (addr v : U32) (n : ℕ) : P (b.noteSramWrite addr v n) t := by
  unfold Bus.noteSramWrite
  split_ifs
  · exact hP.congr h rfl rfl rfl
  · exact h

theorem charge (h : P b t) (n : ℤ) : P (b.charge n) t := hP.congr h rfl rfl rfl

theorem alignTo (h : P b t) (low addr : U32) : P (b.alignTo low addr).2 t := by
  unfold Bus.alignTo
  split_ifs
  · exact hP.congr h rfl rfl rfl
  · exact h

theorem ioRead (h : P b t) {addr : U32} {hw : U16} {b' : Bus D}
    (hr : b.ioRead io addr = some (hw, b')) : P b' t := by
  unfold Bus.ioRead at hr
  dsimp only at hr
  split_ifs at hr
  obtain ⟨f, hf, heq⟩ := Option.map_eq_some_iff.mp hr
  rw [← (Prod.mk.inj heq).2]
  exact hP.read hf addr b t h

theorem fetch16 (h : P b t) (addr : U32) : P (b.fetch16 addr).2 t := by
  unfold Bus.fetch16
  dsimp only
  split_ifs <;> exact hP.charge h _

theorem read8 (h : P b t) (addr : U32) : P (b.read8 io addr).2 t := by
  unfold Bus.read8
  dsimp only
  split
  · exact h
  · split_ifs
    · exact hP.charge h _
    · exact hP.noteSramRead (hP.charge h _) _ _ _
  · exact hP.charge h _
  · split
    case h_1 hr => exact hP.ioRead h hr
    case h_2 => exact h
  · exact h

theorem read16 (h : P b t) (addr : U32) : P (b.read16 io addr).2 t := by
  have ha := hP.alignTo h 1 (Bus.mask28 addr)
  unfold Bus.read16
  generalize b.alignTo 1 (Bus.mask28 addr) = x at ha
  dsimp only
  split_ifs
  · exact hP.charge ha _
  · exact hP.noteSramRead (hP.charge ha _) _ _ _
  · exact hP.charge ha _
  · exact hP.charge ha _
  · exact ha
  · split
    · exact ha
    · cases hr : x.2.ioRead io x.1 with
      | none => exact ha
      | some p => exact hP.ioRead ha hr
    all_goals exact ha

theorem read32 (h : P b t) (addr : U32) : P (b.read32 io addr).2 t := by
  have ha := hP.alignTo h 3 (Bus.mask28 addr)
  unfold Bus.read32
  generalize b.alignTo 3 (Bus.mask28 addr) = x at ha
  dsimp only
  split
  · exact ha
  · split_ifs
    · exact hP.charge ha _
    · exact hP.noteSramRead (hP.charge ha _) _ _ _
  · split_ifs
    · exact hP.charge ha _
    · exact hP.charge ha _
  · exact hP.read16 (hP.read16 ha _) _
  · exact ha

theorem write8 (h : P b t) (addr : U32) (v : U8) :
    P (b.write8 io addr v).1 ((b.write8 io addr v).2.ttbr.getD t) := by
  unfold Bus.write8
  dsimp only
  split
  · exact hP.congr h rfl rfl rfl
  · split_ifs
    · exact hP.congr (hP.noteSramWrite (hP.charge h _) _ _ _) rfl rfl rfl
    · exact hP.charge h _
  · exact hP.flashWrite (hP.charge h _) _ _
  · split_ifs
    · split
      case h_1 hw => exact hP.writeByte hw _ v b t h
      case h_2 hw => exact hP.write hw _ _ b t h
      case h_3 => exact h
    · exact h
  · exact h

theorem write16 (h : P b t) (addr : U32) (v : U16) :
    P (b.write16 io addr v).1 ((b.write16 io addr v).2.ttbr.getD t) := by
  have ha := hP.alignTo h 1 (Bus.mask28 addr)
  unfold Bus.write16
  generalize b.alignTo 1 (Bus.mask28 addr) = x at ha
  dsimp only
  split
  · exact hP.congr ha rfl rfl rfl
  · split_ifs
    · exact hP.congr (hP.noteSramWrite (hP.charge ha _) _ _ _) rfl rfl rfl
    · exact hP.charge ha _
  · exact hP.flashWrite (hP.charge ha _) _ _
  · split_ifs
    · split
      case h_1 hw => exact hP.write hw _ v x.2 t ha
      case h_2 => exact ha
    · exact ha
  · exact ha

theorem write32 (h : P b t) (addr v : U32) :
    P (b.write32 io addr v).1 ((b.write32 io addr v).2.ttbr.getD t) := by
  have ha := hP.alignTo h 3 (Bus.mask28 addr)
  unfold Bus.write32
  generalize b.alignTo 3 (Bus.mask28 addr) = x at ha
  dsimp only
  split
  · exact hP.congr ha rfl rfl rfl
  · split_ifs
    · exact hP.congr (hP.noteSramWrite (hP.charge ha _) _ _ _) rfl rfl rfl
    · exact hP.charge ha _
  · exact hP.flashWrite (hP.flashWrite (hP.charge ha _) _ _) _ _
  · have h1 := hP.write16 ha x.1 (v.setWidth 16)
    have h2 := hP.write16 h1 (x.1 + 2) ((v >>> 16).setWidth 16)
    rw [← CpuRequest.getD_andThen] at h2
    exact h2
  · exact ha

end Bus

/-! ### Instructions -/

section Machine

open Machine

variable {m : Machine D}

theorem fetched (h : m.Satisfies P) : m.fetched.Satisfies P := hP.fetch16 h _

theorem disasm (h : m.Satisfies P) (addr : U32) : (m.disasm addr).Satisfies P := hP.fetch16 h _

theorem load8 (h : m.Satisfies P) (addr : U32) : (m.read8 io addr).2.Satisfies P :=
  hP.read8 h addr

theorem load16 (h : m.Satisfies P) (addr : U32) : (m.read16 io addr).2.Satisfies P :=
  hP.read16 h addr

theorem load32 (h : m.Satisfies P) (addr : U32) : (m.read32 io addr).2.Satisfies P :=
  hP.read32 h addr

theorem push (h : m.Satisfies P) (v : U32) : (m.push io v).Satisfies P := hP.write32 h _ v

theorem pop (h : m.Satisfies P) : (m.pop io).2.Satisfies P := hP.read32 h _

theorem pushFrom (h : m.Satisfies P) (n : ℕ) : (pushFrom io n m).Satisfies P := by
  induction n generalizing m with
  | zero => exact hP.push h _
  | succ n ih => exact ih (hP.push h _)

theorem popFrom (h : m.Satisfies P) (n i : ℕ) : (popFrom io n i m).Satisfies P := by
  induction n generalizing m i with
  | zero => exact h
  | succ n ih =>
    have hload := hP.load32 h m.cpu.sp
    exact ih (m := ((m.read32 io m.cpu.sp).2.setR (BitVec.ofNat 4 i) (m.read32 io m.cpu.sp).1).setSp
      (m.cpu.sp + 4)) hload (i + 1)

theorem enterTrap (h : m.Satisfies P) (no level : ℤ) : (m.enterTrap io no level).Satisfies P := by
  have hvec := hP.load32 h (m.vectorAddr no)
  have hpc := hP.push hvec m.cpu.pc
  have hpsr := hP.push hpc m.cpu.psr.raw
  exact hpsr

/-- **An asserted trap keeps the invariant.** -/
theorem doTrap (h : m.Satisfies P) (no level : ℤ) : (m.doTrap io no level).Satisfies P := by
  unfold Machine.doTrap
  split_ifs
  · exact h
  · exact h
  · exact hP.enterTrap h no level

theorem loadWidth (h : m.Satisfies P) (w : Width) (signed : Bool) (ea : U32) :
    (m.loadWidth io w signed ea).2.Satisfies P := by
  cases w with
  | byte => exact hP.read8 h ea
  | half => exact hP.read16 h ea
  | word => exact hP.read32 h ea

theorem storeWidth (h : m.Satisfies P) (w : Width) (ea val : U32) :
    (m.storeWidth io w ea val).Satisfies P := by
  cases w with
  | byte => exact hP.write8 h ea _
  | half => exact hP.write16 h ea _
  | word => exact hP.write32 h ea val

theorem doLoadRb (h : m.Satisfies P) (i : Insn) (w : Width) (signed postInc : Bool) :
    (m.doLoadRb io i w signed postInc).Satisfies P := by
  have hload := hP.loadWidth (m := m.flushExt) h w signed (m.cpu.r i.rb + m.cpu.extRb)
  cases postInc <;> exact hload

theorem doStoreRb (h : m.Satisfies P) (i : Insn) (w : Width) (postInc : Bool) :
    (m.doStoreRb io i w postInc).Satisfies P := by
  have hstore := hP.storeWidth (m := m.flushExt) h w (m.cpu.r i.rb + m.cpu.extRb) (m.cpu.r i.rd)
  cases postInc <;> exact hstore

theorem doLoadSp (h : m.Satisfies P) (i : Insn) (w : Width) (signed : Bool) :
    (m.doLoadSp io i w signed).Satisfies P :=
  hP.loadWidth (m := m.flushExt) h w signed _

theorem doStoreSp (h : m.Satisfies P) (i : Insn) (w : Width) :
    (m.doStoreSp io i w).Satisfies P :=
  hP.storeWidth (m := m.flushExt) h w _ _

theorem doBit (h : m.Satisfies P) (i : Insn) (f : U8 → U8 → U8) :
    (m.doBit io i f).Satisfies P := by
  have hload := hP.load8 (m := m.flushExt) h (m.cpu.r i.rb + m.cpu.extRb)
  exact hP.write8 hload _ _

theorem macStep (h : m.Satisfies P) (rsN : BitVec 4) (uacc : U64) :
    (m.macStep io rsN uacc).2.Satisfies P := by
  have hload := hP.load16 h (m.cpu.r (rsN + 1))
  exact hP.load16 hload (m.cpu.r (rsN + 2))

theorem macLoop (h : m.Satisfies P) (rsN : BitVec 4) (k : ℕ) (uacc : U64) :
    (macLoop io rsN k uacc m).2.Satisfies P := by
  induction k generalizing m uacc with
  | zero => exact h
  | succ k ih => exact ih (hP.macStep h rsN uacc) _

theorem hMac (h : m.Satisfies P) (i : Insn) : (m.hMac io i).Satisfies P := by
  unfold Machine.hMac
  dsimp only
  split_ifs
  · exact h
  · exact h
  · exact hP.charge (b := m.bus) h _
  · exact hP.macLoop (m := m.flushExt) h i.rs _ _

omit hP in
theorem doAlu (h : m.Satisfies P) (op : AluOp) (a b : U32) (rd : BitVec 4) :
    (m.doAlu op a b rd).Satisfies P := by
  cases op <;> exact h

omit hP in
theorem doAluRr (h : m.Satisfies P) (i : Insn) (op : AluOp) (hasExt3Op : Bool) :
    (m.doAluRr i op hasExt3Op).Satisfies P := by
  unfold Machine.doAluRr
  split
  · exact doAlu (m := m.flushExt) h _ _ _ _
  · exact doAlu (m := m.flushExt) h _ _ _ _

omit hP in
theorem setSpecialReg (h : m.Satisfies P) (n : BitVec 4) (v : U32) :
    (m.setSpecialReg n v).Satisfies P := by
  unfold Machine.setSpecialReg
  split <;> exact h

omit hP in
theorem doC0Jump (h : m.Satisfies P) (target : U32) (delayed : Bool) :
    (m.doC0Jump target delayed).Satisfies P := by
  cases delayed <;> exact h

omit hP in
theorem hJr (h : m.Satisfies P) (i : Insn) (taken : Bool) : (m.hJr i taken).Satisfies P := by
  cases taken
  · exact h
  · exact doC0Jump (m := m.flushExt) h _ _

omit hP in
theorem diagWarnOrFault (h : m.Satisfies P) : m.diagWarnOrFault.Satisfies P := by
  unfold Machine.diagWarnOrFault
  split_ifs <;> exact h

theorem hCall (h : m.Satisfies P) (retAddr target : U32) (delayed : Bool) :
    ((if delayed then (m.push io retAddr).setDelayCaller .callD
      else m.push io retAddr).doC0Jump target delayed).Satisfies P := by
  have hpush := hP.push h retAddr
  cases delayed <;> exact hpush

theorem hRet (h : m.Satisfies P) (i : Insn) : (m.hRet io i).Satisfies P := by
  have hpop := hP.pop (m := m.flushExt) h
  unfold Machine.hRet
  cases i.d <;> exact hpop

omit hP in
theorem hExt (h : m.Satisfies P) (i : Insn) : (m.hExt i).Satisfies P := by
  unfold Machine.hExt
  split_ifs
  · exact diagWarnOrFault h
  · exact h
  · exact h

theorem hUndef (h : m.Satisfies P) : m.hUndef.Satisfies P := by
  have hdis {m' : Machine D} (h' : m'.Satisfies P) (c : Prop) [Decidable c] (addr : U32) :
      (if c then m'.disasm addr else m').Satisfies P := by
    split_ifs
    · exact hP.disasm h' addr
    · exact h'
  exact hdis (hdis h _ _) _ _

/-- **An instruction keeps the invariant.** -/
theorem run (h : m.Satisfies P) (f : Handler) (i : Insn) : (f.run io i m).Satisfies P := by
  have hf : m.flushExt.Satisfies P := h
  cases f with
  | pushn => exact hP.pushFrom hf _
  | popn => exact hP.popFrom hf _ _
  | brk | int => exact hP.doTrap hf _ _
  | retd => exact hP.load32 (hP.pop hf) _
  | reti =>
    exact hP.pop (m := ((m.flushExt.read32 io m.cpu.sp).2.setPsr _).setSp _) (hP.load32 hf _)
  | callRb | callSimm8 => exact hP.hCall hf _ _ _
  | ret => exact hP.hRet h i
  | jpRb =>
    show (m.hJpRb i).Satisfies P
    unfold hJpRb
    dsimp only
    split_ifs <;> exact h
  | jpSimm8 => exact doC0Jump hf _ _
  | jrgt | jrge | jrlt | jrle | jrugt | jruge | jrult | jrule | jreq | jrne => exact hJr h i _
  | ldBRdRb | ldUbRdRb | ldHRdRb | ldUhRdRb | ldWRdRb | ldBRdRbx | ldUbRdRbx | ldHRdRbx | ldUhRdRbx
  | ldWRdRbx => exact hP.doLoadRb h i _ _ _
  | stBRbRs | stHRbRs | stWRbRs | stBRbxRs | stHRbxRs | stWRbxRs => exact hP.doStoreRb h i _ _
  | ldBRdSp | ldUbRdSp | ldHRdSp | ldUhRdSp | ldWRdSp => exact hP.doLoadSp h i _ _
  | stBSpRs | stHSpRs | stWSpRs => exact hP.doStoreSp h i _
  | addRdRs | subRdRs | cmpRdRs | ldWRdRs | andRdRs | orRdRs | xorRdRs | notRdRs =>
    exact doAluRr h i _ _
  | addRdImm6 | subRdImm6 | cmpRdSimm6 | ldWRdSimm6 | andRdSimm6 | orRdSimm6 | xorRdSimm6
  | notRdSimm6 => exact doAlu hf _ _ _ _
  | div0s =>
    show (m.hDiv0s io i).Satisfies P
    unfold hDiv0s
    dsimp only
    split
    · exact hP.doTrap hf _ _
    · exact h
  | div0u =>
    show (m.hDiv0u io i).Satisfies P
    unfold hDiv0u
    dsimp only
    split
    · exact hP.doTrap hf _ _
    · exact h
  | div1 =>
    show (m.hDiv1 i).Satisfies P
    simp only [hDiv1]
    split_ifs <;> exact h
  | div2s =>
    show (m.hDiv2s i).Satisfies P
    unfold hDiv2s
    dsimp only
    split_ifs <;> exact h
  | div3s =>
    show m.hDiv3s.Satisfies P
    unfold hDiv3s
    dsimp only
    split_ifs <;> exact h
  | ldWSdRs => exact setSpecialReg hf _ _
  | btst => exact hP.load8 hf _
  | bclr | bset | bnot => exact hP.doBit h i _
  | mac => exact hP.hMac h i
  | ext => exact hExt h i
  | undef => exact hP.hUndef h
  -- the others touch general registers and flags only
  | _ => exact h

/-! ### Steps -/

/-- What a check before dispatch returns, stopped or not, satisfies the invariant. -/
def Checked (P : Bus D → U32 → Prop) : Except (Machine D) (Machine D) → Prop
  | .error m' | .ok m' => m'.Satisfies P

theorem check (h : m.Satisfies P) (pc : U32) (i : Insn) (inSlot : Bool) :
    Checked P (m.check pc i inSlot) :=
  have hkept : Unbroken fun m : Machine D => m.Satisfies P :=
    { disasm := fun h addr => hP.disasm h addr, diagFault := fun h => h }
  hkept.check h pc i inSlot

theorem checkBusFault (h : m.Satisfies P) : m.checkBusFault.Satisfies P := by
  have htaken : Machine.Satisfies { m with bus := m.bus.takeFault.2 } P :=
    hP.congr (b := m.bus) h rfl rfl rfl
  unfold Machine.checkBusFault
  dsimp only
  split_ifs
  · exact htaken
  · exact htaken

theorem retire (h : m.Satisfies P) (i : Insn) (inSlot : Bool) (target : U32) :
    (m.retire io i inSlot target).Satisfies P := by
  have hrun := hP.checkBusFault (hP.run h (Handler.ofInsn i) i)
  unfold Machine.retire Machine.completeSlot
  split_ifs
  · exact hrun
  · exact hrun

theorem fireDeferred (h : m.Satisfies P) : (m.fireDeferred io).Satisfies P := by
  unfold Machine.fireDeferred
  split_ifs
  · exact hP.doTrap (m := m.takeDeferred) h _ _
  · exact h

/-- **A step of the CPU keeps the invariant.** -/
theorem step (h : m.Satisfies P) : (m.step io).Satisfies P := by
  unfold Machine.step
  split_ifs
  · exact h
  · exact h
  · have hcheck := hP.check (hP.fetched h) m.cpu.pc m.insnAtPc m.cpu.inDelaySlot
    unfold Machine.execute
    split
    case h_1 m' heq =>
      rw [heq] at hcheck
      exact hcheck
    case h_2 m' heq =>
      rw [heq] at hcheck
      exact hP.fireDeferred (hP.retire hcheck _ _ _)

end Machine

end DeviceInvariant
