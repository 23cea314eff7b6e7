import PieceEmu.Core.MacProbe
import PieceEmu.Core.StepCases

/-!
# Execution and what a debugger leaves on the bus

A debugger leaves its watchpoints on the bus, and the bus notes two things for it: the calls
the watchpoints make, and the writer of each byte of SRAM. `Bus.bare` is the bus without
watchpoints and with given notes, and `Machine.bare` the machine. An access to the bare bus
returns the same value and leaves the same bus, made bare; so does an instruction
(`Handler.run_bare`), and so does a step (`Machine.step_bare`).

One instruction asks whether watchpoints are installed: `mac`, which then takes neither of
its shortcuts. That makes no difference where the shortcut it would take is one
(`MacLayout.Sound`).
-/

variable {D : Type}

/-! ### The bus -/

/-- What the bus notes for a debugger: the calls of the watchpoint callback, and the writer
of each SRAM byte. -/
structure DebugNotes where
  wpCalls : List WpCall
  shadowSram : ℕ → U32

namespace Bus

/-- **The bus without watchpoints**, and with given notes of them. -/
def bare (b : Bus D) (d : DebugNotes) : Bus D :=
  { b with watchpoints := [], wpCalls := d.wpCalls, shadowSram := d.shadowSram }

variable {d : DebugNotes} (b : Bus D)

/-- The notes of a read of SRAM are the debugger's. -/
theorem noteSramRead_bare (addr v : U32) (n : ℕ) :
    (b.bare d).noteSramRead addr v n = (b.noteSramRead addr v n).bare d := by
  unfold noteSramRead
  split_ifs with h h' h'
  · cases h
  · cases h
  · rfl
  · rfl

/-- So are the notes of a write. -/
theorem noteSramWrite_bare (addr v : U32) (n : ℕ) :
    (b.bare d).noteSramWrite addr v n = (b.noteSramWrite addr v n).bare d := by
  unfold noteSramWrite
  split_ifs with h h' h'
  · cases h
  · cases h
  · rfl
  · rfl

theorem alignTo_bare (low addr : U32) :
    (b.bare d).alignTo low addr = (b.alignTo low addr).map id (bare · d) := by
  unfold alignTo
  rw [apply_ite (Prod.map id (bare · d))]
  rfl

end Bus

/-- **Register handlers blind to debugging**: without watchpoints, and whatever was noted of
them, they return the same and leave the same bus, made bare. -/
structure IoSpace.Blind (io : IoSpace D) : Prop where
  read : ∀ {idx h}, io.read idx = some h → ∀ addr (b : Bus D) d,
    h addr (b.bare d) = h addr b
  write : ∀ {idx h}, io.write idx = some h → ∀ addr v (b : Bus D) d,
    h addr v (b.bare d) = (h addr v b).map (Bus.bare · d) id
  writeByte : ∀ {idx h}, io.writeByte idx = some h → ∀ addr v (b : Bus D) d,
    h addr v (b.bare d) = (h addr v b).map (Bus.bare · d) id

namespace Bus

variable {io : IoSpace D} (hio : io.Blind) {d : DebugNotes} (b : Bus D)

/-! ### Reading -/

theorem fetch16_bare (addr : U32) :
    (b.bare d).fetch16 addr = (b.fetch16 addr).map id (bare · d) := by
  simp only [fetch16, apply_ite (Prod.map id (bare · d))]
  rfl

include hio

theorem ioRead_bare (addr : U32) :
    (b.bare d).ioRead io addr = (b.ioRead io addr).map (Prod.map id (bare · d)) := by
  unfold ioRead
  dsimp only
  split_ifs
  · cases hr : io.read ((normalizeIo addr - ioregBase) / 2).toNat with
    | none => rfl
    | some h =>
      simp only [Option.map_some, hio.read hr addr b d]
      rfl
  · rfl

theorem read8_bare (addr : U32) :
    (b.bare d).read8 io addr = (b.read8 io addr).map id (bare · d) := by
  have hc : (b.bare d).classify (mask28 addr) = b.classify (mask28 addr) := rfl
  unfold read8
  dsimp only
  rw [hc]
  cases b.classify (mask28 addr) with
  | iram | flash | none => rfl
  | sram =>
    dsimp only
    rw [apply_ite (Prod.map id (bare · d))]
    refine if_congr Iff.rfl rfl ?_
    exact Prod.ext rfl (noteSramRead_bare (b.charge (b.extReadCycles b.sramWait)) _ _ 1)
  | io =>
    dsimp only
    rw [ioRead_bare hio]
    cases b.ioRead io (normalizeIo (mask28 addr) &&& ~~~1#32) <;> rfl

theorem read16_bare (addr : U32) :
    (b.bare d).read16 io addr = (b.read16 io addr).map id (bare · d) := by
  unfold read16
  rw [alignTo_bare]
  rcases b.alignTo 1 (mask28 addr) with ⟨a, b⟩
  have hc : (b.bare d).classify a = b.classify a := rfl
  dsimp only [Prod.map_apply, id]
  rw [hc, apply_ite (Prod.map id (bare · d))]
  refine if_congr Iff.rfl ?_ ?_
  · rw [apply_ite (Prod.map id (bare · d))]
    refine if_congr Iff.rfl rfl ?_
    exact Prod.ext rfl (noteSramRead_bare (b.charge (b.extReadCycles b.sramWait)) _ _ 2)
  rw [apply_ite (Prod.map id (bare · d))]
  refine if_congr Iff.rfl ?_ ?_
  · rw [apply_ite (Prod.map id (bare · d)), apply_ite (Prod.map id (bare · d))]
    rfl
  · cases b.classify a with
    | iram | sram | flash | none => rfl
    | io =>
      dsimp only
      rw [ioRead_bare hio]
      cases b.ioRead io a <;> rfl

theorem read32_bare (addr : U32) :
    (b.bare d).read32 io addr = (b.read32 io addr).map id (bare · d) := by
  unfold read32
  rw [alignTo_bare]
  rcases b.alignTo 3 (mask28 addr) with ⟨a, b⟩
  have hc : (b.bare d).classify a = b.classify a := rfl
  dsimp only [Prod.map_apply, id]
  rw [hc]
  cases b.classify a with
  | iram | none => rfl
  | sram =>
    dsimp only
    rw [apply_ite (Prod.map id (bare · d))]
    refine if_congr Iff.rfl rfl ?_
    exact Prod.ext rfl (noteSramRead_bare (b.charge (b.extReadCycles b.sramWait * 2)) _ _ 4)
  | flash =>
    dsimp only
    rw [apply_ite (Prod.map id (bare · d))]
    rfl
  | io =>
    dsimp only
    rw [read16_bare hio b a]
    rcases b.read16 io a with ⟨lo, b⟩
    dsimp only [Prod.map_apply, id]
    rw [read16_bare hio b (a + 2)]
    rfl

/-! ### Writing -/

theorem write8_bare (addr : U32) (v : U8) :
    (b.bare d).write8 io addr v = (b.write8 io addr v).map (bare · d) id := by
  have hc : (b.bare d).classify (mask28 addr) = b.classify (mask28 addr) := rfl
  unfold write8
  dsimp only
  rw [hc]
  cases b.classify (mask28 addr) with
  | iram | flash | none => rfl
  | sram =>
    have hnote := noteSramWrite_bare (d := d) (b.charge (b.extWriteCycles b.sramWait)) (mask28 addr)
      (v.setWidth 32) 1
    dsimp only
    rw [apply_ite (Prod.map (bare · d) id)]
    refine if_congr Iff.rfl (Prod.ext ?_ rfl) rfl
    exact congrArg (fun b' : Bus D =>
      { b' with sram := Function.update b'.sram (mask28 addr - sramBase).toNat v }) hnote
  | io =>
    dsimp only
    split_ifs
    · cases hb : io.writeByte ((normalizeIo (mask28 addr) - ioregBase) / 2).toNat with
      | some h => exact hio.writeByte hb _ v b d
      | none =>
        cases hw : io.write ((normalizeIo (mask28 addr) - ioregBase) / 2).toNat with
        | some h => exact hio.write hw _ _ b d
        | none => rfl
    · rfl

theorem write16_bare (addr : U32) (v : U16) :
    (b.bare d).write16 io addr v = (b.write16 io addr v).map (bare · d) id := by
  unfold write16
  rw [alignTo_bare]
  rcases b.alignTo 1 (mask28 addr) with ⟨a, b⟩
  have hc : (b.bare d).classify a = b.classify a := rfl
  dsimp only [Prod.map_apply, id]
  rw [hc]
  cases b.classify a with
  | iram | flash | none => rfl
  | sram =>
    have hnote := noteSramWrite_bare (d := d) (b.charge (b.extWriteCycles b.sramWait)) a
      (v.setWidth 32) 2
    dsimp only
    rw [apply_ite (Prod.map (bare · d) id)]
    refine if_congr Iff.rfl (Prod.ext ?_ rfl) rfl
    exact congrArg (fun b' : Bus D =>
      { b' with sram := Words.putLe16 b'.sram (a - sramBase).toNat v }) hnote
  | io =>
    dsimp only
    split_ifs
    · cases hw : io.write ((normalizeIo a - ioregBase) / 2).toNat with
      | some h => exact hio.write hw a v b d
      | none => rfl
    · rfl

theorem write32_bare (addr v : U32) :
    (b.bare d).write32 io addr v = (b.write32 io addr v).map (bare · d) id := by
  unfold write32
  rw [alignTo_bare]
  rcases b.alignTo 3 (mask28 addr) with ⟨a, b⟩
  have hc : (b.bare d).classify a = b.classify a := rfl
  dsimp only [Prod.map_apply, id]
  rw [hc]
  cases b.classify a with
  | iram | flash | none => rfl
  | sram =>
    have hnote := noteSramWrite_bare (d := d) (b.charge (b.extWriteCycles b.sramWait * 2)) a v 4
    dsimp only
    rw [apply_ite (Prod.map (bare · d) id)]
    refine if_congr Iff.rfl (Prod.ext ?_ rfl) rfl
    exact congrArg (fun b' : Bus D =>
      { b' with sram := Words.putLe32 b'.sram (a - sramBase).toNat v }) hnote
  | io =>
    dsimp only
    rw [write16_bare hio b a]
    dsimp only [Prod.map_fst, Prod.map_snd]
    rw [write16_bare hio]
    rfl

end Bus

/-! ### The machine -/

namespace Machine

/-- **The machine without watchpoints**, and with given notes of them. -/
def bare (m : Machine D) (d : DebugNotes) : Machine D := { m with bus := m.bus.bare d }

variable {d : DebugNotes} (m : Machine D)

@[simp] theorem bare_bare : (m.bare d).bare d = m.bare d := rfl
@[simp] theorem bare_cpu : (m.bare d).cpu = m.cpu := rfl
@[simp] theorem bare_cycles : (m.bare d).bus.cycles = m.bus.cycles := rfl

theorem fetch16_bare (addr : U32) :
    (m.bare d).fetch16 addr = (m.fetch16 addr).map id (bare · d) := by
  unfold fetch16
  rw [show (m.bare d).bus.fetch16 addr = _ from m.bus.fetch16_bare addr]
  rfl

theorem disasm_bare (addr : U32) : (m.bare d).disasm addr = (m.disasm addr).bare d :=
  congrArg Prod.snd (m.fetch16_bare addr)

section Accesses

variable {io : IoSpace D} (hio : io.Blind)
include hio

theorem read8_bare (addr : U32) :
    (m.bare d).read8 io addr = (m.read8 io addr).map id (bare · d) := by
  unfold read8
  rw [show (m.bare d).bus.read8 io addr = _ from m.bus.read8_bare hio addr]
  rfl

theorem read16_bare (addr : U32) :
    (m.bare d).read16 io addr = (m.read16 io addr).map id (bare · d) := by
  unfold read16
  rw [show (m.bare d).bus.read16 io addr = _ from m.bus.read16_bare hio addr]
  dsimp only [Prod.map_fst, Prod.map_snd, id]
  rfl

theorem read32_bare (addr : U32) :
    (m.bare d).read32 io addr = (m.read32 io addr).map id (bare · d) := by
  unfold read32
  rw [show (m.bare d).bus.read32 io addr = _ from m.bus.read32_bare hio addr]
  rfl

theorem write8_bare (addr : U32) (v : U8) :
    (m.bare d).write8 io addr v = (m.write8 io addr v).bare d := by
  unfold write8
  rw [show (m.bare d).bus.write8 io addr v = _ from m.bus.write8_bare hio addr v]
  rfl

theorem write16_bare (addr : U32) (v : U16) :
    (m.bare d).write16 io addr v = (m.write16 io addr v).bare d := by
  unfold write16
  rw [show (m.bare d).bus.write16 io addr v = _ from m.bus.write16_bare hio addr v]
  rfl

theorem write32_bare (addr v : U32) :
    (m.bare d).write32 io addr v = (m.write32 io addr v).bare d := by
  unfold write32
  rw [show (m.bare d).bus.write32 io addr v = _ from m.bus.write32_bare hio addr v]
  rfl

theorem push_bare (v : U32) : (m.bare d).push io v = (m.push io v).bare d :=
  write32_bare (m.setSp (m.cpu.sp - 4)) hio _ v

theorem pop_bare : (m.bare d).pop io = (m.pop io).map id (bare · d) := by
  unfold pop
  rw [show (m.bare d).read32 io (m.bare d).cpu.sp = _ from m.read32_bare hio m.cpu.sp]
  rfl

/-! ### Instructions -/

theorem pushFrom_bare (n : ℕ) : pushFrom io n (m.bare d) = (pushFrom io n m).bare d := by
  induction n generalizing m with
  | zero => exact m.push_bare hio _
  | succ n ih =>
    unfold pushFrom
    rw [m.push_bare hio, ih]
    rfl

theorem popFrom_bare (n i : ℕ) : popFrom io n i (m.bare d) = (popFrom io n i m).bare d := by
  induction n generalizing m i with
  | zero => rfl
  | succ n ih =>
    have hload : (m.bare d).read32 io (m.bare d).cpu.sp = _ := m.read32_bare hio m.cpu.sp
    unfold popFrom
    rw [hload]
    exact ih (((m.read32 io m.cpu.sp).2.setR (BitVec.ofNat 4 i) (m.read32 io m.cpu.sp).1).setSp
      (m.cpu.sp + 4)) (i + 1)

theorem enterTrap_bare (no level : ℤ) :
    (m.bare d).enterTrap io no level = (m.enterTrap io no level).bare d := by
  have hvec : (m.bare d).read32 io ((m.bare d).vectorAddr no) = _ :=
    m.read32_bare hio (m.vectorAddr no)
  unfold enterTrap
  rw [hvec]
  dsimp only [Prod.map_fst, Prod.map_snd]
  rw [push_bare _ hio, push_bare _ hio]
  rfl

theorem doTrap_bare (no level : ℤ) :
    (m.bare d).doTrap io no level = (m.doTrap io no level).bare d := by
  unfold doTrap
  rw [apply_ite (bare · d), apply_ite (bare · d), ← m.enterTrap_bare hio]
  rfl

theorem loadWidth_bare (w : Width) (signed : Bool) (ea : U32) :
    (m.bare d).loadWidth io w signed ea = (m.loadWidth io w signed ea).map id (bare · d) := by
  unfold loadWidth
  cases w with
  | byte =>
    dsimp only
    rw [m.read8_bare hio]
    rfl
  | half =>
    dsimp only
    rw [m.read16_bare hio]
    rfl
  | word => exact m.read32_bare hio ea

theorem storeWidth_bare (w : Width) (ea val : U32) :
    (m.bare d).storeWidth io w ea val = (m.storeWidth io w ea val).bare d := by
  cases w with
  | byte => exact m.write8_bare hio ea _
  | half => exact m.write16_bare hio ea _
  | word => exact m.write32_bare hio ea val

theorem doLoadRb_bare (i : Insn) (w : Width) (signed postInc : Bool) :
    (m.bare d).doLoadRb io i w signed postInc = (m.doLoadRb io i w signed postInc).bare d := by
  have hload : (m.bare d).flushExt.loadWidth io w signed
      ((m.bare d).flushExt.cpu.r i.rb + (m.bare d).cpu.extRb) = _ :=
    loadWidth_bare m.flushExt hio w signed (m.cpu.r i.rb + m.cpu.extRb)
  unfold doLoadRb
  dsimp only
  rw [hload]
  dsimp only [Prod.map_fst, Prod.map_snd, id]
  cases postInc <;> rfl

theorem doStoreRb_bare (i : Insn) (w : Width) (postInc : Bool) :
    (m.bare d).doStoreRb io i w postInc = (m.doStoreRb io i w postInc).bare d := by
  have hstore : (m.bare d).flushExt.storeWidth io w
      ((m.bare d).flushExt.cpu.r i.rb + (m.bare d).cpu.extRb)
      ((m.bare d).flushExt.cpu.r i.rd) = _ :=
    storeWidth_bare m.flushExt hio w (m.cpu.r i.rb + m.cpu.extRb) (m.cpu.r i.rd)
  unfold doStoreRb
  dsimp only
  rw [hstore]
  cases postInc <;> rfl

theorem doLoadSp_bare (i : Insn) (w : Width) (signed : Bool) :
    (m.bare d).doLoadSp io i w signed = (m.doLoadSp io i w signed).bare d := by
  have hload : (m.bare d).flushExt.loadWidth io w signed ((m.bare d).spEa i w.bytes) = _ :=
    loadWidth_bare m.flushExt hio w signed (m.spEa i w.bytes)
  unfold doLoadSp
  dsimp only
  rw [hload]
  rfl

theorem doStoreSp_bare (i : Insn) (w : Width) :
    (m.bare d).doStoreSp io i w = (m.doStoreSp io i w).bare d :=
  storeWidth_bare m.flushExt hio w _ _

theorem hBtst_bare (i : Insn) : (m.bare d).hBtst io i = (m.hBtst io i).bare d := by
  have hload : (m.bare d).flushExt.read8 io ((m.bare d).cpu.r i.rb + (m.bare d).cpu.extRb) = _ :=
    read8_bare m.flushExt hio (m.cpu.r i.rb + m.cpu.extRb)
  unfold hBtst
  dsimp only
  rw [hload]
  rfl

theorem doBit_bare (i : Insn) (f : U8 → U8 → U8) :
    (m.bare d).doBit io i f = (m.doBit io i f).bare d := by
  have hload : (m.bare d).flushExt.read8 io ((m.bare d).cpu.r i.rb + (m.bare d).cpu.extRb) = _ :=
    read8_bare m.flushExt hio (m.cpu.r i.rb + m.cpu.extRb)
  unfold doBit
  dsimp only
  rw [hload]
  exact write8_bare _ hio _ _

theorem hRetd_bare : (m.bare d).hRetd io = (m.hRetd io).bare d := by
  have hpop : (m.bare d).flushExt.pop io = _ := pop_bare m.flushExt hio
  unfold hRetd
  dsimp only
  rw [hpop]
  dsimp only [Prod.map_fst, Prod.map_snd]
  rw [read32_bare _ hio]
  rfl

theorem hReti_bare : (m.bare d).hReti io = (m.hReti io).bare d := by
  have hload : (m.bare d).flushExt.read32 io (m.bare d).flushExt.cpu.sp = _ :=
    read32_bare m.flushExt hio m.flushExt.cpu.sp
  unfold hReti
  dsimp only
  rw [hload]
  rcases m.flushExt.read32 io m.flushExt.cpu.sp with ⟨psr, m₁⟩
  have hpop : (((m₁.bare d).setPsr ⟨psr⟩).setSp (m₁.cpu.sp + 4)).pop io = _ :=
    pop_bare ((m₁.setPsr ⟨psr⟩).setSp (m₁.cpu.sp + 4)) hio
  exact congrArg (fun p : U32 × Machine D => p.2.setPc p.1) hpop

theorem hCall_bare (retAddr target : U32) (delayed : Bool) :
    (if delayed then ((m.bare d).push io retAddr).setDelayCaller .callD
      else (m.bare d).push io retAddr).doC0Jump target delayed =
    ((if delayed then (m.push io retAddr).setDelayCaller .callD
      else m.push io retAddr).doC0Jump target delayed).bare d := by
  rw [push_bare m hio]
  cases delayed <;> rfl

theorem hRet_bare (i : Insn) : (m.bare d).hRet io i = (m.hRet io i).bare d := by
  have hpop : (m.bare d).flushExt.pop io = _ := pop_bare m.flushExt hio
  unfold hRet
  dsimp only
  rw [hpop]
  cases i.d <;> rfl

theorem macStep_bare (rsN : BitVec 4) (uacc : U64) :
    (m.bare d).macStep io rsN uacc = (m.macStep io rsN uacc).map id (bare · d) := by
  unfold macStep
  rw [m.read16_bare hio, bare_cpu]
  rcases m.read16 io (m.cpu.r (rsN + 1)) with ⟨h1, m₁⟩
  dsimp only [Prod.map_apply, id]
  rw [m₁.read16_bare hio, bare_cpu]
  rcases m₁.read16 io (m₁.cpu.r (rsN + 2)) with ⟨h2, m₂⟩
  rfl

theorem macLoop_bare (rsN : BitVec 4) (k : ℕ) (uacc : U64) :
    macLoop io rsN k uacc (m.bare d) = (macLoop io rsN k uacc m).map id (bare · d) := by
  induction k generalizing m uacc with
  | zero => rfl
  | succ k ih =>
    unfold macLoop
    rw [m.macStep_bare hio]
    exact ih (m.macStep io rsN uacc).2 (m.macStep io rsN uacc).1

theorem macSlow_bare (rsN : BitVec 4) :
    (m.bare d).macSlow io rsN = (m.macSlow io rsN).bare d := by
  have hloop : macLoop io rsN ((m.bare d).cpu.r rsN).toNat (m.bare d).acc (m.bare d) = _ :=
    m.macLoop_bare hio rsN (m.cpu.r rsN).toNat m.acc
  unfold macSlow
  rw [hloop]
  rfl

end Accesses

theorem macOpenBus_bare (rsN : BitVec 4) :
    (m.bare d).macOpenBus rsN = (m.macOpenBus rsN).bare d := rfl

theorem macSram_bare (rsN : BitVec 4) : (m.bare d).macSram rsN = (m.macSram rsN).bare d := by
  unfold macSram
  rfl

variable (io : IoSpace D)

/-- Under watchpoints `mac` is its slow loop. -/
theorem hMac_of_hasWatchpoints {m : Machine D} (hw : m.bus.hasWatchpoints = true) (i : Insn) :
    m.hMac io i = m.flushExt.macSlow io i.rs := by
  have hA : m.flushExt.macTakesOpenBus i.rs = false := by
    rw [macTakesOpenBus, show m.flushExt.bus.hasWatchpoints = true from hw]
    exact Bool.and_false _
  have hB : m.flushExt.macTakesSram i.rs = false := by
    rw [macTakesSram, show m.flushExt.bus.hasWatchpoints = true from hw]
    exact Bool.and_false _
  unfold hMac
  dsimp only
  rw [hA, hB, if_neg Bool.false_ne_true, if_neg Bool.false_ne_true]
  split_ifs with hc
  · have hc : (m.flushExt.cpu.r i.rs).toNat = 0 := congrArg BitVec.toNat hc
    rw [macSlow, hc]
    exact (setAcc_acc m.flushExt).symm
  · rfl

variable {io}

/-- **`mac` and the watchpoints**: where none are installed, or where the path it would take
without them is a shortcut of its slow loop, they do not matter to it. -/
theorem hMac_bare (hio : io.Blind) (i : Insn)
    (hs : m.bus.hasWatchpoints = true → m.macLayout.Sound i.rs) :
    (m.bare d).hMac io i = (m.hMac io i).bare d := by
  have hslow := m.flushExt.macSlow_bare hio (d := d) i.rs
  by_cases hw : m.bus.hasWatchpoints = true
  · rw [hMac_of_hasWatchpoints io hw, MacLayout.hMac_eq_macSlow io (m := m.bare d) rfl (hs hw)]
    exact hslow
  · have hnil : m.bus.watchpoints = [] := by
      simpa [Bus.hasWatchpoints] using hw
    rw [hMac_eq io hnil, hMac_eq io (m := m.bare d) rfl, apply_ite (bare · d),
      apply_ite (bare · d), apply_ite (bare · d), ← hslow, ← macOpenBus_bare,
      ← macSram_bare]
    rfl

theorem doAlu_bare (op : AluOp) (a b : U32) (rd : BitVec 4) :
    (m.bare d).doAlu op a b rd = (m.doAlu op a b rd).bare d := by
  cases op <;> rfl

theorem doAluRr_bare (i : Insn) (op : AluOp) (hasExt3Op : Bool) :
    (m.bare d).doAluRr i op hasExt3Op = (m.doAluRr i op hasExt3Op).bare d := by
  simp only [doAluRr, apply_ite (bare · d), ← doAlu_bare]
  rfl

theorem doAluImm_bare (i : Insn) (op : AluOp) (signed : Bool) :
    (m.bare d).doAluImm i op signed = (m.doAluImm i op signed).bare d := by
  simp only [doAluImm, ← doAlu_bare]
  rfl

theorem hDiv0s_bare (hio : io.Blind) (i : Insn) :
    (m.bare d).hDiv0s io i = (m.hDiv0s io i).bare d := by
  unfold hDiv0s
  rw [apply_ite (bare · d)]
  exact if_congr Iff.rfl (doTrap_bare m.flushExt hio _ _) rfl

theorem hDiv0u_bare (hio : io.Blind) (i : Insn) :
    (m.bare d).hDiv0u io i = (m.hDiv0u io i).bare d := by
  unfold hDiv0u
  rw [apply_ite (bare · d)]
  exact if_congr Iff.rfl (doTrap_bare m.flushExt hio _ _) rfl

theorem hDiv1_bare (i : Insn) : (m.bare d).hDiv1 i = (m.hDiv1 i).bare d := by
  simp only [hDiv1, apply_ite (bare · d)]
  rfl

theorem hDiv2s_bare (i : Insn) : (m.bare d).hDiv2s i = (m.hDiv2s i).bare d := by
  simp only [hDiv2s, apply_ite (bare · d)]
  rfl

theorem hDiv3s_bare : (m.bare d).hDiv3s = m.hDiv3s.bare d := by
  simp only [hDiv3s, apply_ite (bare · d)]
  rfl

theorem setSpecialReg_bare (n : BitVec 4) (v : U32) :
    (m.bare d).setSpecialReg n v = (m.setSpecialReg n v).bare d := by
  unfold setSpecialReg
  split <;> rfl

theorem doC0Jump_bare (target : U32) (delayed : Bool) :
    (m.bare d).doC0Jump target delayed = (m.doC0Jump target delayed).bare d := by
  cases delayed <;> rfl

theorem hJr_bare (i : Insn) (taken : Bool) : (m.bare d).hJr i taken = (m.hJr i taken).bare d := by
  cases taken
  · rfl
  · exact doC0Jump_bare m.flushExt _ _

theorem hJpRb_bare (i : Insn) : (m.bare d).hJpRb i = (m.hJpRb i).bare d := by
  unfold hJpRb
  cases i.d <;> rfl

theorem diagWarnOrFault_bare : (m.bare d).diagWarnOrFault = m.diagWarnOrFault.bare d := by
  unfold diagWarnOrFault
  rw [apply_ite (bare · d)]
  rfl

theorem hExt_bare (i : Insn) : (m.bare d).hExt i = (m.hExt i).bare d := by
  unfold hExt
  rw [diagWarnOrFault_bare, apply_ite (bare · d), apply_ite (bare · d)]
  rfl

theorem hUndef_bare : (m.bare d).hUndef = m.hUndef.bare d := by
  simp only [hUndef, disasm_bare, ← apply_ite (bare · d)]
  rfl

end Machine

open Machine in
/-- **An instruction does the same to the bare machine**, unless it is a `mac` under
watchpoints whose shortcut is none. -/
theorem Handler.run_bare {io : IoSpace D} (hio : io.Blind) {d : DebugNotes} (m : Machine D)
    (i : Insn) (h : Handler)
    (hs : h = .mac → m.bus.hasWatchpoints = true → m.macLayout.Sound i.rs) :
    h.run io i (m.bare d) = (h.run io i m).bare d := by
  unfold Handler.run
  cases h with
  | pushn => exact pushFrom_bare m.flushExt hio _
  | popn => exact popFrom_bare m.flushExt hio _ _
  | brk | int => exact doTrap_bare m.flushExt hio _ _
  | retd => exact hRetd_bare m hio
  | reti => exact hReti_bare m hio
  | callRb => exact hCall_bare m.flushExt hio _ _ i.d
  | callSimm8 => exact hCall_bare m.flushExt hio _ _ i.d
  | ret => exact hRet_bare m hio i
  | jpRb => exact hJpRb_bare m i
  | jpSimm8 => exact doC0Jump_bare m.flushExt _ _
  | jrgt | jrge | jrlt | jrle | jrugt | jruge | jrult | jrule | jreq | jrne => exact hJr_bare m i _
  | ldBRdRb | ldUbRdRb | ldHRdRb | ldUhRdRb | ldWRdRb | ldBRdRbx | ldUbRdRbx | ldHRdRbx | ldUhRdRbx
  | ldWRdRbx => exact doLoadRb_bare m hio i _ _ _
  | stBRbRs | stHRbRs | stWRbRs | stBRbxRs | stHRbxRs | stWRbxRs => exact doStoreRb_bare m hio i _ _
  | ldBRdSp | ldUbRdSp | ldHRdSp | ldUhRdSp | ldWRdSp => exact doLoadSp_bare m hio i _ _
  | stBSpRs | stHSpRs | stWSpRs => exact doStoreSp_bare m hio i _
  | addRdRs | subRdRs | cmpRdRs | ldWRdRs | andRdRs | orRdRs | xorRdRs | notRdRs =>
    exact doAluRr_bare m i _ _
  | addRdImm6 | subRdImm6 | cmpRdSimm6 | ldWRdSimm6 | andRdSimm6 | orRdSimm6 | xorRdSimm6
  | notRdSimm6 => exact doAluImm_bare m i _ _
  | div0s => exact hDiv0s_bare m hio i
  | div0u => exact hDiv0u_bare m hio i
  | div1 => exact hDiv1_bare m i
  | div2s => exact hDiv2s_bare m i
  | div3s => exact hDiv3s_bare m
  | ldWSdRs => exact setSpecialReg_bare m.flushExt _ _
  | btst => exact hBtst_bare m hio i
  | bclr | bset | bnot => exact doBit_bare m hio i _
  | mac => exact hMac_bare m hio i (hs rfl)
  | ext => exact hExt_bare m i
  | undef => exact hUndef_bare m
  -- the others touch general registers and flags only
  | _ => rfl

/-! ### Steps -/

namespace Machine

/-- No check notices what debugging keeps on the bus. -/
theorem unnoticed_bare (d : DebugNotes) : Unnoticed fun m : Machine D => m.bare d where
  pendingExtCount _ := rfl
  inHalt _ := rfl
  delayCaller _ := rfl
  strict _ := rfl
  disasm m := m.disasm_bare
  diagFault _ := rfl

variable {io : IoSpace D} (hio : io.Blind) {d : DebugNotes} (m : Machine D)

theorem checkBusFault_bare : (m.bare d).checkBusFault = m.checkBusFault.bare d := by
  unfold checkBusFault
  rw [apply_ite (bare · d)]
  rfl

theorem completeSlot_bare (inSlot : Bool) (target : U32) :
    (m.bare d).completeSlot inSlot target = (m.completeSlot inSlot target).bare d := by
  unfold completeSlot
  rw [apply_ite (bare · d)]
  rfl

/-- The checks keep the layout of a `mac` and the watchpoints. -/
theorem check_layout {m m' : Machine D} {pc : U32} {i : Insn} {inSlot : Bool}
    (h : m.check pc i inSlot = .ok m') :
    m'.macLayout = m.macLayout ∧ m'.bus.hasWatchpoints = m.bus.hasWatchpoints := by
  have hkept : Unbroken fun m' : Machine D => m'.macLayout = m.macLayout ∧
      m'.bus.hasWatchpoints = m.bus.hasWatchpoints :=
    { disasm := fun h addr => by rwa [disasm_eq]
      diagFault := fun h => h }
  have hret := hkept.check ⟨rfl, rfl⟩ pc i inSlot
  rw [h] at hret
  exact hret

/-- The step dispatches a `mac`: the checks let it through. -/
def DispatchesMac : Prop :=
  m.running = true ∧ m.handlerAtPc = .mac ∧
    ∃ m', m.fetched.check m.cpu.pc m.insnAtPc m.cpu.inDelaySlot = .ok m'

include hio

theorem fireDeferred_bare : (m.bare d).fireDeferred io = (m.fireDeferred io).bare d := by
  unfold fireDeferred
  rw [apply_ite (bare · d)]
  exact if_congr Iff.rfl (doTrap_bare m.takeDeferred hio _ _) rfl

theorem retire_bare (i : Insn) (inSlot : Bool) (target : U32)
    (hs : Handler.ofInsn i = .mac → m.bus.hasWatchpoints = true → m.macLayout.Sound i.rs) :
    (m.bare d).retire io i inSlot target = (m.retire io i inSlot target).bare d := by
  unfold retire
  rw [Handler.run_bare hio m i _ hs, checkBusFault_bare, completeSlot_bare]

/-- **A step does the same to the bare machine**, unless it dispatches a `mac` under
watchpoints whose shortcut is none. -/
theorem step_bare (hs : m.DispatchesMac → m.bus.hasWatchpoints = true →
    m.macLayout.Sound m.insnAtPc.rs) : (m.bare d).step io = (m.step io).bare d := by
  have hfetch := m.fetch16_bare (d := d) m.cpu.pc
  have hfetched : (m.bare d).fetched = m.fetched.bare d :=
    congrArg (fun p : U16 × Machine D => p.2.setPc (m.cpu.pc + 2)) hfetch
  have hinsn : (m.bare d).insnAtPc = m.insnAtPc := by
    unfold insnAtPc
    rw [bare_cpu, hfetch]
    rfl
  unfold step
  rw [apply_ite (bare · d), apply_ite (bare · d)]
  refine if_ctx_congr Iff.rfl (fun _ => rfl) fun hh => ?_
  refine if_ctx_congr Iff.rfl (fun _ => rfl) fun hb => ?_
  have hrun : m.running = true :=
    m.running_iff.mpr ⟨Bool.eq_false_iff.mpr hh, Bool.eq_false_iff.mpr hb⟩
  unfold execute
  rw [hfetched, hinsn, bare_cpu, (unnoticed_bare d).check]
  cases hc : m.fetched.check m.cpu.pc m.insnAtPc m.cpu.inDelaySlot with
  | error m' => rfl
  | ok m' =>
    obtain ⟨hlayout, hw⟩ := check_layout hc
    have hfetchedLayout : m.fetched.macLayout = m.macLayout ∧
        m.fetched.bus.hasWatchpoints = m.bus.hasWatchpoints := by
      rw [show m.fetched = (m.disasm m.cpu.pc).setPc (m.cpu.pc + 2) from rfl, disasm_eq]
      exact ⟨rfl, rfl⟩
    have hs' (hmac : Handler.ofInsn m.insnAtPc = .mac) (hw' : m'.bus.hasWatchpoints = true) :
        m'.macLayout.Sound m.insnAtPc.rs := by
      rw [hlayout, hfetchedLayout.1]
      rw [hw, hfetchedLayout.2] at hw'
      exact hs ⟨hrun, hmac, m', hc⟩ hw'
    have hretire := retire_bare hio (d := d) m' m.insnAtPc m.cpu.inDelaySlot m.cpu.delayTarget hs'
    dsimp only [onChecked]
    rw [hretire, fireDeferred_bare hio]

end Machine
