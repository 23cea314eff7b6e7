import PieceEmu.Core.Step
import PieceEmu.Lib.FirstMax
import PieceEmu.Lib.Run
import PieceEmu.Soc.Intc

/-!
# The scans that `poll` skips

`InterruptController::poll` scans its sources only when something has changed since the
last scan: a source was raised, a priority, enable or status register was written, or the
interrupt level of the CPU has dropped. That the answer is otherwise the same as it was is
right in one of two cases.

| the last scan chose | nothing has changed since |
|---|---|
| no source | there is still none (`PollRun.Inv`) |
| a source | it may have been rejected, or be pending again |

In the second case the source is asserted once and forgotten: a CPU with interrupts
disabled rejects it, and when it enables them no scan follows. So the delivery is prompt
exactly along the runs in which something changes between a scan that has chosen a source
and the next tick that finds one ready (`PollRun.poll_along_iff`).
-/

namespace InterruptController

variable (c : InterruptController)

/-! ### The scan -/

theorem level_nonneg (src : IrqSource) : 0 ≤ c.level src := by
  rw [level]
  split_ifs with h
  · exact h
  · exact Int.natCast_nonneg _

theorem level_pos {src : IrqSource} (h : c.deliverable src = true) : 0 < c.level src := by
  have hne : c.level src ≠ 0 := by
    rw [deliverable, Bool.and_eq_true, Bool.and_eq_true] at h
    exact of_decide_eq_true h.1.2
  exact lt_of_le_of_ne (c.level_nonneg src) hne.symm

/-- A round of the scan is a round of the loop for the first of the greatest. -/
theorem scan_eq_step :
    c.scan = FirstMax.step (fun src => c.deliverable src = true) c.level := by
  funext best src
  have hiff : c.deliverable src = true ∧ c.bestLevel best < c.level src ↔
      c.deliverable src = true ∧ ∀ b ∈ best, c.level b < c.level src := by
    refine and_congr_right fun hsrc => ?_
    cases best with
    | none => exact iff_of_true (c.level_pos hsrc) nofun
    | some b => exact ⟨fun h b' hb' => Option.some.inj hb' ▸ h, fun h => h b rfl⟩
  rw [scan, FirstMax.step]
  by_cases h : c.deliverable src = true ∧ c.bestLevel best < c.level src
  · rw [if_pos h, if_pos (hiff.mp h)]
  · rw [if_neg h, if_neg fun h' => h (hiff.mpr h')]

/-- The scan ends with the first of the greatest among what can be delivered. -/
theorem best_eq_some_iff_isFirstMax {src : IrqSource} : c.best = some src ↔
    FirstMax.IsFirstMax (fun src => c.deliverable src = true) c.level (List.finRange 39) src := by
  rw [best, scan_eq_step, FirstMax.foldl_eq_some_iff (List.pairwise_lt_finRange 39)]

/-- **The scan finds a source if there is one.** -/
theorem best_eq_none_iff : c.best = none ↔ ∀ src, c.deliverable src = false := by
  rw [best, scan_eq_step, FirstMax.foldl_eq_none_iff (List.pairwise_lt_finRange 39)]
  simp only [List.mem_finRange, forall_const, Bool.not_eq_true]

/-- **What the scan finds can be delivered.** -/
theorem deliverable_of_best {b : IrqSource} (h : c.best = some b) : c.deliverable b = true :=
  (c.best_eq_some_iff_isFirstMax.mp h).candidate

/-! ### What the scan reads -/

/-- A byte of the priority, enable or status registers. -/
def Consulted (k : ℕ) : Prop := k < 14 ∨ 16 ≤ k ∧ k < 24 ∨ 32 ≤ k ∧ k < 40

instance (k : ℕ) : Decidable (Consulted k) := inferInstanceAs (Decidable (_ ∨ _ ∧ _ ∨ _ ∧ _))

theorem consulted_srcTable (src : IrqSource) :
    Consulted (srcTable src).priByte ∧ Consulted (srcTable src).ienByte ∧
      Consulted (srcTable src).isrByte := by
  revert src
  decide

/-- A byte that the scan does not read. -/
theorem writeReg_of_not_consulted {k : ℕ} (h : ¬Consulted k) (rstonly : Bool) (val : U8) :
    c.writeReg rstonly k val = { c with regs := Function.update c.regs k val } :=
  if_neg fun hk => h (.inr (.inr ⟨hk.1, Nat.lt_succ_of_le hk.2⟩))

/-- Two states that look the same to the scan. -/
structure SameScan (c c' : InterruptController) : Prop where
  regs : ∀ k, Consulted k → c'.regs k = c.regs k
  levelOverride : c'.levelOverride = c.levelOverride
  currentIl : c'.currentIl = c.currentIl

theorem SameScan.trans {c c' c'' : InterruptController} (h : c.SameScan c') (h' : c'.SameScan c'') :
    c.SameScan c'' where
  regs k hk := (h'.regs k hk).trans (h.regs k hk)
  levelOverride := h'.levelOverride.trans h.levelOverride
  currentIl := h'.currentIl.trans h.currentIl

theorem SameScan.deliverable {c c' : InterruptController} (h : c.SameScan c') (src : IrqSource) :
    c'.deliverable src = c.deliverable src := by
  obtain ⟨hpri, hien, hisr⟩ := consulted_srcTable src
  have hlevel : c'.level src = c.level src := by
    rw [level, level, priority, priority, h.levelOverride, h.regs _ hpri]
  rw [InterruptController.deliverable, InterruptController.deliverable, pending, pending, enabled,
    enabled, hlevel, h.regs _ hien, h.regs _ hisr, h.currentIl]

theorem sameScan_writeReg {k : ℕ} (h : ¬Consulted k) (rstonly : Bool) (val : U8) :
    c.SameScan (c.writeReg rstonly k val) := by
  rw [writeReg_of_not_consulted c h]
  refine ⟨fun j hj => ?_, rfl, rfl⟩
  exact Function.update_of_ne (fun he : j = k => h (he ▸ hj)) _ _

end InterruptController

/-! ### What sets the flag -/

namespace InterruptController

variable (c : InterruptController)

/-- The level overrides have three bits. -/
def LevelsFit : Prop := ∀ src, c.levelOverride src < 8

variable {c}

theorem LevelsFit.level_lt (h : c.LevelsFit) (src : IrqSource) : c.level src < 8 := by
  rw [level, priority]
  split_ifs
  · exact h src
  · have hle : (c.regs (srcTable src).priByte >>> (srcTable src).priShift &&& 0x07).toNat ≤ 7 := by
      rw [BitVec.toNat_and]
      exact Nat.and_le_right
    omega

/-- A source that is acknowledged loses its override, and no other changes. -/
theorem levelOverride_writeReg (rstonly : Bool) (k : ℕ) (val : U8) (src : IrqSource) :
    (c.writeReg rstonly k val).levelOverride src = -1 ∨
      (c.writeReg rstonly k val).levelOverride src = c.levelOverride src := by
  rw [writeReg]
  by_cases hk : 32 ≤ k ∧ k ≤ 39
  · rw [if_pos hk]
    exact ite_eq_or_eq _ _ _
  · rw [if_neg hk]
    exact .inr rfl

theorem LevelsFit.writeReg (h : c.LevelsFit) (rstonly : Bool) (k : ℕ) (val : U8) :
    (c.writeReg rstonly k val).LevelsFit := by
  intro src
  rcases levelOverride_writeReg (c := c) rstonly k val src with heq | heq
  · rw [heq]
    decide
  · rw [heq]
    exact h src

theorem pollDirty_writeReg (rstonly : Bool) (k : ℕ) (val : U8) :
    (c.writeReg rstonly k val).pollDirty = c.pollDirty := by
  rw [writeReg]
  split_ifs <;> rfl

/-- A source that is raised sets the flag. -/
theorem pollDirty_raise (src : IrqSource) (levelOverride : ℤ) :
    (c.raise src levelOverride).1.pollDirty = true := by
  rw [raise, tryDeliver]
  dsimp only
  split_ifs <;> rfl

theorem LevelsFit.raise (h : c.LevelsFit) (src : IrqSource) (levelOverride : ℤ) :
    (c.raise src levelOverride).1.LevelsFit := by
  have hset : (if 0 ≤ levelOverride then
      { c with levelOverride := Function.update c.levelOverride src (levelOverride % 8) }
      else c).LevelsFit := by
    split_ifs
    · intro src'
      dsimp only
      by_cases hs : src' = src
      · rw [hs, Function.update_self]
        exact Int.emod_lt_of_pos _ (by decide)
      · rw [Function.update_of_ne hs]
        exact h src'
    · exact h
  rw [InterruptController.raise, tryDeliver]
  dsimp only
  split_ifs at hset ⊢ <;> exact hset

/-- The two bytes of a halfword are consulted together. -/
theorem consulted_succ (i : Fin 32) : Consulted (2 * i + 1) ↔ Consulted (2 * i) := by
  rw [Consulted, Consulted]
  omega

/-- **A halfword that is written** sets the flag if the scan reads it, and if not the scan
is none the wiser. -/
theorem ioWrite_spec (i : Fin 32) (addr : U32) (val : U16) :
    (c.ioWrite (2 * i) addr val).pollDirty = (c.pollDirty || decide (Consulted (2 * i))) ∧
      (c.LevelsFit → (c.ioWrite (2 * i) addr val).LevelsFit) ∧
      (¬Consulted (2 * i) → c.SameScan (c.ioWrite (2 * i) addr val)) := by
  have hcond : 2 * i.val < 14 ∨ 16 ≤ 2 * i.val ∧ 2 * i.val < 24 ∨
      32 < 2 * i.val + 2 ∧ 2 * i.val < 40 ↔ Consulted (2 * i) := by
    rw [Consulted]
    omega
  set c' := if addr.getLsbD 0 then c.writeReg c.rstonly (2 * i + 1) (val.setWidth 8)
    else (c.writeReg c.rstonly (2 * i) (val.setWidth 8)).writeReg c.rstonly (2 * i + 1)
      ((val >>> 8).setWidth 8) with hc'
  have hwrite : c.ioWrite (2 * i) addr val =
      if Consulted (2 * i) then { c' with pollDirty := true } else c' := by
    rw [ioWrite]
    exact if_congr hcond rfl rfl
  have hdirty : c'.pollDirty = c.pollDirty := by
    rw [hc']
    split_ifs
    · exact pollDirty_writeReg ..
    · rw [pollDirty_writeReg, pollDirty_writeReg]
  have hfit (h : c.LevelsFit) : c'.LevelsFit := by
    rw [hc']
    split_ifs
    · exact h.writeReg _ _ _
    · exact (h.writeReg _ _ _).writeReg _ _ _
  rw [hwrite]
  by_cases hk : Consulted (2 * i)
  · rw [if_pos hk, decide_eq_true hk, Bool.or_true]
    exact ⟨rfl, hfit, fun hn => absurd hk hn⟩
  · rw [if_neg hk, decide_eq_false hk, Bool.or_false]
    refine ⟨hdirty, hfit, fun _ => ?_⟩
    have hk' : ¬Consulted (2 * i + 1) := fun h => hk ((consulted_succ i).mp h)
    rw [hc']
    split_ifs
    · exact sameScan_writeReg c hk' ..
    · exact (sameScan_writeReg c hk ..).trans (sameScan_writeReg _ hk' ..)

/-- **A byte that is written**: the same. -/
theorem ioWriteByte_spec (i : Fin 32) (addr : U32) (val : U8) :
    (c.ioWriteByte (2 * i) addr val).pollDirty = (c.pollDirty || decide (Consulted (2 * i))) ∧
      (c.LevelsFit → (c.ioWriteByte (2 * i) addr val).LevelsFit) ∧
      (¬Consulted (2 * i) → c.SameScan (c.ioWriteByte (2 * i) addr val)) := by
  set k := 2 * i.val + if addr.getLsbD 0 then 1 else 0 with hkdef
  have hcond : Consulted k ↔ Consulted (2 * i) := by
    rw [hkdef]
    split_ifs
    · exact consulted_succ i
    · exact Iff.rfl
  have hwrite : c.ioWriteByte (2 * i) addr val =
      if Consulted k then { c.writeReg c.rstonly k val with pollDirty := true }
      else c.writeReg c.rstonly k val := rfl
  rw [hwrite]
  by_cases hk : Consulted k
  · rw [if_pos hk, decide_eq_true (hcond.mp hk), Bool.or_true]
    exact ⟨rfl, fun h => h.writeReg _ _ _, fun hn => absurd (hcond.mp hk) hn⟩
  · rw [if_neg hk, decide_eq_false fun h => hk (hcond.mpr h), Bool.or_false]
    exact ⟨pollDirty_writeReg .., fun h => h.writeReg _ _ _, fun _ => sameScan_writeReg c hk ..⟩

end InterruptController

/-! ### The run -/

/-- What happens to the controller, in any order. The tick of the peripherals in front of
a poll is the sources they raise, and a step of the CPU is the registers it writes and
the state it leaves. -/
inductive PollAct (D : Type)
  /-- `raise`. -/
  | raise (src : IrqSource) (levelOverride : ℤ)
  /-- `io_write`, of the halfword `i`. -/
  | ioWrite (i : Fin 32) (addr : U32) (val : U16)
  /-- `io_write_byte`, of the halfword `i`. -/
  | ioWriteByte (i : Fin 32) (addr : U32) (val : U8)
  /-- The CPU comes to a new state, with any `PSR`. -/
  | cpu (machine : Machine D)
  /-- `do_tick`, from `set_current_il` on. -/
  | doTick

/-- The controller with its CPU; whether the last scan of `poll` has chosen a source, and
whether a source has been raised or a register that the scan reads been written since. -/
structure PollRun (D : Type) where
  intc : InterruptController
  machine : Machine D
  found : Bool := false
  touched : Bool := true

namespace PollRun

variable {D : Type} (io : IoSpace D) (r : PollRun D)

/-- The controller after a call that may have asserted a trap, and the CPU with the trap. -/
def deliver (c : InterruptController × Option (ℤ × ℤ)) : PollRun D :=
  { r with
    intc := c.1
    machine := c.2.elim r.machine fun t => r.machine.assertTrap io t.1 t.2 }

/-- The interrupt level of the CPU. -/
def il : U32 := r.machine.cpu.psr.il

/-- The controller when `do_tick` reaches `poll`. -/
def polled : InterruptController := r.intc.setCurrentIl r.il

/-- Something has changed since the last scan, or the level of the CPU has dropped. -/
def rescans : Bool := r.touched || r.il < r.intc.currentIl

/-- One action. -/
def step (r : PollRun D) : PollAct D → PollRun D
  | .raise src levelOverride =>
    { r.deliver io (r.intc.raise src levelOverride) with touched := true }
  | .ioWrite i addr val =>
    { r with
      intc := r.intc.ioWrite (2 * i) addr val
      touched := r.touched || InterruptController.Consulted (2 * i) }
  | .ioWriteByte i addr val =>
    { r with
      intc := r.intc.ioWriteByte (2 * i) addr val
      touched := r.touched || InterruptController.Consulted (2 * i) }
  | .cpu machine => { r with machine }
  | .doTick =>
    { r.deliver io r.polled.poll with
      found := if r.rescans then r.polled.best.isSome else r.found
      touched := false }

/-- A controller that has been attached, with any contents of its registers. -/
def start (regs : ℕ → U8) (machine : Machine D) : PollRun D where
  intc := { regs }
  machine := machine

/-! ### The statement -/

/-- **A source is ready**: its status and enable bits are set, and its level is above that
of the CPU. -/
def Ready (src : IrqSource) : Prop :=
  r.intc.pending src = true ∧ r.intc.enabled src = true ∧ r.intc.level src ≠ 0 ∧
    (r.il.toNat : ℤ) < r.intc.level src

/-- An interrupt is due: the CPU takes interrupts, and a source is ready. -/
def Due : Prop := r.machine.cpu.psr.ie = true ∧ ∃ src, r.Ready src

/-- **Prompt**: where an interrupt is due, `poll` asserts a trap, which the CPU enters or
defers. -/
def Prompt : Prop :=
  r.Due → ∃ no level, r.polled.poll.2 = some (no, level) ∧
    r.machine.assertTrap io no level =
      if r.machine.inWindow then r.machine.deferTrap no level
      else r.machine.enterTrap io no level

/-- **Rearmed**: where an interrupt is due although the last scan has chosen a source,
something has changed since that scan. -/
def Rearmed : Prop := r.Due → r.found = true → r.rescans = true

/-- The condition `P` is met at every tick. -/
def AtTick (P : PollRun D → Prop) (r : PollRun D) : PollAct D → Prop
  | .doTick => P r
  | _ => True

/-- **The invariant**: the flag of the controller says that something has changed, and if
nothing has since a scan that chose no source, there is none to choose. -/
structure Inv : Prop where
  dirty : r.intc.pollDirty = r.touched
  unchanged : r.touched = false → r.found = false → ∀ src, r.intc.deliverable src = false
  levels : r.intc.LevelsFit

/-! ### What a step keeps -/

variable {io r}

theorem Inv.start (regs : ℕ → U8) (machine : Machine D) : (start regs machine).Inv where
  dirty := rfl
  unchanged h := Bool.noConfusion h
  levels _ := show (-1 : ℤ) < 8 by decide

/-- A higher level of the CPU makes no source deliverable. -/
theorem deliverable_setCurrentIl {c : InterruptController} {il : U32} (h : c.currentIl ≤ il)
    {src : IrqSource} (hd : c.deliverable src = false) :
    (c.setCurrentIl il).deliverable src = false := by
  by_contra hne
  rw [Bool.not_eq_false, InterruptController.deliverable, Bool.and_eq_true, Bool.not_eq_true',
    decide_eq_false_iff_not] at hne
  have hle : ¬BitVec.ofInt 32 (c.level src) ≤ c.currentIl := fun hl =>
    hne.2 (BitVec.le_trans hl h)
  have hready : c.deliverable src = true := by
    rw [InterruptController.deliverable, Bool.and_eq_true, Bool.not_eq_true',
      decide_eq_false_iff_not]
    exact ⟨hne.1, hle⟩
  rw [hd] at hready
  exact Bool.noConfusion hready

/-- The flag when `do_tick` reaches `poll`. -/
theorem Inv.pollDirty (h : r.Inv) : r.polled.pollDirty = r.rescans :=
  congrArg (· || decide (r.il < r.intc.currentIl)) h.dirty

/-- Without a scan, nothing has changed since the last one. -/
theorem Inv.polled_unchanged (h : r.Inv) (hscan : r.rescans = false) (hfound : r.found = false)
    (src : IrqSource) : r.polled.deliverable src = false := by
  obtain ⟨htouched, hil⟩ := Bool.or_eq_false_iff.mp hscan
  have hle : r.intc.currentIl ≤ r.il := by
    have := of_decide_eq_false hil
    bv_omega
  exact deliverable_setCurrentIl hle (h.unchanged htouched hfound src)

theorem Inv.doTick (h : r.Inv) : (r.step io .doTick).Inv := by
  have hpoll : (r.step io .doTick).intc =
      if r.rescans then { r.polled with pollDirty := false } else r.polled := by
    show r.polled.poll.1 = _
    rw [InterruptController.poll, h.pollDirty]
    cases r.rescans <;> rfl
  refine ⟨?_, fun _ hfound src => ?_, ?_⟩
  · rw [hpoll]
    split_ifs with hscan
    · rfl
    · exact h.pollDirty.trans (Bool.eq_false_iff.mpr hscan)
  · have hfound' : (if r.rescans then r.polled.best.isSome else r.found) = false := hfound
    rw [hpoll]
    split_ifs at hfound' ⊢ with hscan
    · have hnone : r.polled.best = none := by
        rwa [← Option.not_isSome_iff_eq_none, Bool.not_eq_true]
      exact (r.polled.best_eq_none_iff.mp hnone) src
    · exact h.polled_unchanged (Bool.eq_false_iff.mpr hscan) hfound' src
  · rw [hpoll]
    split_ifs <;> exact h.levels

/-- **Every action keeps the invariant.** -/
theorem Inv.step (h : r.Inv) (a : PollAct D) : (r.step io a).Inv := by
  cases a with
  | raise src levelOverride =>
    exact ⟨InterruptController.pollDirty_raise src levelOverride, fun ht => Bool.noConfusion ht,
      h.levels.raise src levelOverride⟩
  | ioWrite i addr val =>
    obtain ⟨hdirty, hfit, hsame⟩ := InterruptController.ioWrite_spec (c := r.intc) i addr val
    refine ⟨hdirty.trans (congrArg (· || _) h.dirty), fun ht hfound src => ?_, hfit h.levels⟩
    obtain ⟨htouched, hk⟩ := Bool.or_eq_false_iff.mp ht
    exact ((hsame (of_decide_eq_false hk)).deliverable src).trans
      (h.unchanged htouched hfound src)
  | ioWriteByte i addr val =>
    obtain ⟨hdirty, hfit, hsame⟩ := InterruptController.ioWriteByte_spec (c := r.intc) i addr val
    refine ⟨hdirty.trans (congrArg (· || _) h.dirty), fun ht hfound src => ?_, hfit h.levels⟩
    obtain ⟨htouched, hk⟩ := Bool.or_eq_false_iff.mp ht
    exact ((hsame (of_decide_eq_false hk)).deliverable src).trans
      (h.unchanged htouched hfound src)
  | cpu machine => exact ⟨h.dirty, h.unchanged, h.levels⟩
  | doTick => exact h.doTick

/-! ### A tick -/

/-- What is ready is what the scan takes for deliverable. -/
theorem Inv.ready_iff (h : r.Inv) (src : IrqSource) :
    r.Ready src ↔ r.polled.deliverable src = true := by
  have hlt := h.levels.level_lt src
  have hnonneg := r.intc.level_nonneg src
  have hil : ((BitVec.ofInt 32 (r.intc.level src)).toNat : ℤ) = r.intc.level src := by
    rw [BitVec.toNat_ofInt, Int.toNat_of_nonneg (Int.emod_nonneg _ (by decide))]
    exact Int.emod_eq_of_lt hnonneg (by omega)
  have hle : ¬BitVec.ofInt 32 (r.intc.level src) ≤ r.il ↔
      (r.il.toNat : ℤ) < r.intc.level src := by
    rw [BitVec.le_def, not_le, ← Int.ofNat_lt, hil]
  have hdel : r.polled.deliverable src =
      (r.intc.pending src && r.intc.enabled src && decide (r.intc.level src ≠ 0) &&
        !decide (BitVec.ofInt 32 (r.intc.level src) ≤ r.il)) := rfl
  rw [hdel, Bool.and_eq_true, Bool.and_eq_true, Bool.and_eq_true, Bool.not_eq_true',
    decide_eq_false_iff_not, decide_eq_true_iff, hle, Ready, and_assoc, and_assoc]

/-- The best source passes the gate of `do_trap`, where interrupts are enabled. -/
theorem trapGate_of_best (hie : r.machine.cpu.psr.ie = true) {b : IrqSource}
    (hb : r.polled.best = some b) :
    r.machine.trapGate (srcTable b).trapNo (r.polled.level b) = true := by
  have hd := r.polled.deliverable_of_best hb
  rw [InterruptController.deliverable, Bool.and_eq_true, Bool.not_eq_true',
    decide_eq_false_iff_not] at hd
  have hlt : r.il < BitVec.ofInt 32 (r.polled.level b) := BitVec.not_le.mp hd.2
  rw [Machine.trapGate, hie, Bool.true_and, Bool.or_eq_true]
  exact .inr (decide_eq_true hlt)

/-- **A scan delivers**: where an interrupt is due, a poll that scans is prompt. -/
theorem Inv.prompt_of_rescans (h : r.Inv) (hscan : r.rescans = true) : r.Prompt io := by
  rintro ⟨hie, src, hready⟩
  have hdel := (h.ready_iff src).mp hready
  cases hb : r.polled.best with
  | none =>
    rw [r.polled.best_eq_none_iff.mp hb src] at hdel
    exact Bool.noConfusion hdel
  | some b =>
    refine ⟨(srcTable b).trapNo, r.polled.level b, ?_, ?_⟩
    · rw [InterruptController.poll, h.pollDirty, hscan, hb]
      rfl
    · rw [Machine.assertTrap, Machine.doTrap, trapGate_of_best hie hb]
      rfl

/-- **A tick is prompt exactly where the controller has been rearmed.** -/
theorem Inv.prompt_iff (h : r.Inv) : r.Prompt io ↔ r.Rearmed := by
  constructor
  · intro hprompt hdue _
    obtain ⟨no, level, hpoll, -⟩ := hprompt hdue
    by_contra hscan
    rw [InterruptController.poll, h.pollDirty, Bool.eq_false_iff.mpr hscan, Bool.not_false,
      if_pos rfl] at hpoll
    nomatch hpoll
  · intro hrearmed hdue
    by_cases hscan : r.rescans = true
    · exact h.prompt_of_rescans hscan hdue
    · -- nothing has changed: a source that is ready has been chosen before
      obtain ⟨hie, src, hready⟩ := hdue
      have hfound : r.found = false := by
        by_contra hfound
        exact hscan (hrearmed ⟨hie, src, hready⟩ (Bool.eq_true_of_not_eq_false hfound))
      have hdel := (h.ready_iff src).mp hready
      rw [h.polled_unchanged (Bool.eq_false_iff.mpr hscan) hfound src] at hdel
      exact Bool.noConfusion hdel

/-- **No interrupt is lost exactly along the runs that rearm the controller.** In every
order of raised sources, register writes, changes of the CPU and ticks: every tick at
which an interrupt is due asserts a trap that the CPU enters or defers, if and only if at
every such tick the last scan has chosen no source, or something has changed since. -/
theorem poll_along_iff (io : IoSpace D) (regs : ℕ → U8) (machine : Machine D)
    (as : List (PollAct D)) :
    ActionRun.Along (step io) (AtTick (Prompt io)) (start regs machine) as ↔
      ActionRun.Along (step io) (AtTick Rearmed) (start regs machine) as := by
  refine ActionRun.along_congr (I := Inv) (fun r a h => h.step a) ?_ (.start regs machine)
  intro r a h
  cases a with
  | doTick => exact h.prompt_iff
  | raise | ioWrite | ioWriteByte | cpu => exact Iff.rfl

/-- A machine of the given status word, with a ROM of no words. -/
def withPsr (raw : U32) : Machine Unit := (Machine.ofRom []).mapCpu ({ · with psr := ⟨raw⟩ })

/-- A source is enabled at level 3 and raised while the CPU has interrupts disabled. A
tick scans, and the CPU rejects the trap; then it enables interrupts. -/
def raisedTooSoon : List (PollAct Unit) :=
  [.ioWrite 0 0x040260 0x0003, .ioWrite 8 0x040270 0x0001, .raise 0 (-1), .doTick,
    .cpu (withPsr 0x10)]

/-- **An interrupt is lost**: it is due at the next tick, with nothing in its way, and the
poll returns early. -/
theorem raisedTooSoon_lost :
    let start := start (fun _ => 0) (withPsr 0)
    let r := ActionRun.exec (step (.empty Unit)) start raisedTooSoon
    r.Due ∧ r.polled.poll.2 = none ∧
      ¬ActionRun.Along (step (.empty Unit)) (AtTick (Prompt (.empty Unit))) start
        (raisedTooSoon ++ [.doTick]) := by
  intro start r
  have hdue : r.Due := by
    refine ⟨by decide +kernel, 0, ?_⟩
    rw [Ready]
    decide +kernel
  have hpoll : r.polled.poll.2 = none := by decide +kernel
  refine ⟨hdue, hpoll, fun hall => ?_⟩
  have hprompt : AtTick (Prompt (.empty Unit)) r .doTick := ActionRun.Along.at hall
  obtain ⟨no, level, hsome, -⟩ := (show r.Prompt (.empty Unit) from hprompt) hdue
  rw [hpoll] at hsome
  nomatch hsome

end PollRun
