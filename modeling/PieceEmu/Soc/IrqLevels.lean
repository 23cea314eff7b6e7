import PieceEmu.Soc.PollSkip

/-!
# One meaning for two write paths, one level for two deliveries

The interrupt controller does two things twice. A register is written by a halfword or by
bytes, and each path has its own copy of what an acknowledge is and of which registers the
scan depends on. A source is delivered when it is raised, at the level the caller gives,
and again by `poll`, at the level that was noted down then and is dropped when the source
is acknowledged.

* The two paths agree: a halfword is its two bytes, the low one first
  (`InterruptController.ioWrite_eq_bytes`). The mode is sampled once by the one and before
  each byte by the other, but the byte that holds it is the last of all.
* The two levels agree, as long as a source is always raised with the same one: a level is
  noted down only while the source is pending (`LevelRun.Inv`), and then it is the level of
  the raise that set the status bit (`LevelRun.same_level`).
-/

namespace InterruptController

variable (c : InterruptController)

/-! ### The two write paths -/

theorem writeReg_pollDirty (rstonly : Bool) (k : ℕ) (val : U8) (dirty : Bool) :
    ({ c with pollDirty := dirty }).writeReg rstonly k val =
      { c.writeReg rstonly k val with pollDirty := dirty } := by
  rw [writeReg, writeReg]
  split_ifs <;> rfl

/-- The mode is in the last byte of all. -/
theorem rstonly_writeReg (rstonly : Bool) {k : ℕ} (val : U8) (h : k ≠ 63) :
    (c.writeReg rstonly k val).rstonly = c.rstonly := by
  rw [InterruptController.rstonly, writeReg_regs, Function.update_of_ne h.symm,
    InterruptController.rstonly]

theorem ioWriteByte_even (i : Fin 32) {addr : U32} (h : addr.getLsbD 0 = false) (val : U8) :
    c.ioWriteByte (2 * i) addr val =
      if Consulted (2 * i) then { c.writeReg c.rstonly (2 * i) val with pollDirty := true }
      else c.writeReg c.rstonly (2 * i) val := by
  rw [ioWriteByte, h]
  rfl

theorem ioWriteByte_odd (i : Fin 32) {addr : U32} (h : addr.getLsbD 0 = true) (val : U8) :
    c.ioWriteByte (2 * i) addr val =
      if Consulted (2 * i) then { c.writeReg c.rstonly (2 * i + 1) val with pollDirty := true }
      else c.writeReg c.rstonly (2 * i + 1) val := by
  rw [ioWriteByte, h]
  exact if_congr (consulted_succ i) rfl rfl

theorem ioWrite_even (i : Fin 32) {addr : U32} (h : addr.getLsbD 0 = false) (val : U16) :
    c.ioWrite (2 * i) addr val =
      let c' := (c.writeReg c.rstonly (2 * i) (val.setWidth 8)).writeReg c.rstonly (2 * i + 1)
        ((val >>> 8).setWidth 8)
      if Consulted (2 * i) then { c' with pollDirty := true } else c' := by
  rw [ioWrite, h]
  refine if_congr ?_ rfl rfl
  rw [Consulted]
  omega

/-- **A halfword is its two bytes**, the low one written first: the registers, the level
overrides and the flag are the same, in either mode. -/
theorem ioWrite_eq_bytes (i : Fin 32) {addr : U32} (heven : addr.getLsbD 0 = false) (val : U16) :
    c.ioWrite (2 * i) addr val =
      (c.ioWriteByte (2 * i) addr (val.setWidth 8)).ioWriteByte (2 * i) (addr + 1)
        ((val >>> 8).setWidth 8) := by
  have hodd : (addr + 1).getLsbD 0 = true := by
    rw [BitVec.getLsbD_add (by decide), heven]
    simp
  have hmode : (c.writeReg c.rstonly (2 * i) (val.setWidth 8)).rstonly = c.rstonly :=
    c.rstonly_writeReg _ _ (by omega)
  rw [ioWrite_even c i heven, ioWriteByte_odd _ i hodd, ioWriteByte_even c i heven]
  generalize c.writeReg c.rstonly (2 * i) (val.setWidth 8) = low at hmode
  rw [← hmode]
  by_cases hk : Consulted (2 * i)
  · rw [if_pos hk, if_pos hk, if_pos hk]
    exact congrArg (fun c' : InterruptController => { c' with pollDirty := true })
      (low.writeReg_pollDirty low.rstonly (2 * i + 1) _ true).symm
  · rw [if_neg hk, if_neg hk, if_neg hk]

/-- The two status bytes of a halfword, in the mode in which a one clears. -/
theorem ioWrite_eq_bytes_status :
    (0x040280 : U32).getLsbD 0 = false ∧
      (reset.raise 0 3).1.ioWrite (2 * (16 : Fin 32)) 0x040280 0x0001 =
        ((reset.raise 0 3).1.ioWriteByte (2 * (16 : Fin 32)) 0x040280 0x01).ioWriteByte
          (2 * (16 : Fin 32)) 0x040281 0x00 :=
  ⟨by decide, (reset.raise 0 3).1.ioWrite_eq_bytes 16 (by decide) 0x0001⟩

end InterruptController

/-! ### What is acknowledged -/

namespace InterruptController

variable (c : InterruptController)

/-- No two sources share a status bit. -/
theorem srcTable_isr_inj {s t : IrqSource} (hbyte : (srcTable s).isrByte = (srcTable t).isrByte)
    (hbit : (srcTable s).isrBit = (srcTable t).isrBit) : s = t := by
  revert s t
  decide +kernel

theorem srcTable_trapNo_inj {s t : IrqSource} (h : (srcTable s).trapNo = (srcTable t).trapNo) :
    s = t := by
  revert s t
  decide +kernel

theorem srcTable_isr (src : IrqSource) :
    32 ≤ (srcTable src).isrByte ∧ (srcTable src).isrByte ≤ 39 ∧ (srcTable src).isrBit < 8 := by
  revert src
  decide

/-- The step from `c` to `c'` takes the level override from the sources that it
acknowledges, and from no other. -/
def Acknowledges (c c' : InterruptController) : Prop :=
  ∀ src, c'.levelOverride src =
    if c.pending src = true ∧ c'.pending src = false then -1 else c.levelOverride src

theorem acknowledges_of_same {c c' : InterruptController} (hregs : c'.regs = c.regs)
    (hlevel : c'.levelOverride = c.levelOverride) : c.Acknowledges c' := by
  intro src
  rw [pending, pending, hregs, hlevel, if_neg]
  exact fun h => absurd (h.1.symm.trans h.2) Bool.noConfusion

/-- A level that is there after the step was there before it. -/
theorem Acknowledges.kept {c c' : InterruptController} (h : c.Acknowledges c') {src : IrqSource}
    (hlevel : 0 ≤ c'.levelOverride src) :
    ¬(c.pending src = true ∧ c'.pending src = false) ∧
      c'.levelOverride src = c.levelOverride src := by
  have hsrc := h src
  split_ifs at hsrc with hcleared
  · rw [hsrc] at hlevel
    exact absurd hlevel (by decide)
  · exact ⟨hcleared, hsrc⟩

theorem pending_writeReg_of_ne (rstonly : Bool) {k : ℕ} (val : U8) {src : IrqSource}
    (h : (srcTable src).isrByte ≠ k) : (c.writeReg rstonly k val).pending src = c.pending src := by
  rw [pending, writeReg_regs, Function.update_of_ne h, pending]

/-- A register byte that is written. -/
theorem acknowledges_writeReg (rstonly : Bool) (k : ℕ) (val : U8) :
    c.Acknowledges (c.writeReg rstonly k val) := by
  intro src
  by_cases hk : (srcTable src).isrByte = k
  · subst hk
    obtain ⟨hlo, hhi, hbit⟩ := srcTable_isr src
    rw [writeReg, if_pos ⟨hlo, hhi⟩]
    refine if_congr ?_ rfl rfl
    rw [pending, pending]
    dsimp only
    rw [Function.update_self, and_iff_right rfl, BitVec.getLsbD_and,
      BitVec.getLsbD_not, decide_eq_true hbit, Bool.true_and, Bool.and_eq_true, Bool.not_eq_true']
  · rw [c.pending_writeReg_of_ne rstonly val hk, c.writeReg_levelOverride rstonly val hk, if_neg]
    exact fun h => absurd (h.1.symm.trans h.2) Bool.noConfusion

/-- Two register bytes: a source has its status bit in one of them at most. -/
theorem acknowledges_writeReg_writeReg (rstonly : Bool) {k l : ℕ} (hkl : k ≠ l) (v w : U8) :
    c.Acknowledges ((c.writeReg rstonly k v).writeReg rstonly l w) := by
  intro src
  by_cases hk : (srcTable src).isrByte = k
  · have hl : (srcTable src).isrByte ≠ l := hk ▸ hkl
    rw [pending_writeReg_of_ne _ rstonly w hl, writeReg_levelOverride _ rstonly w hl]
    exact c.acknowledges_writeReg rstonly k v src
  · have hack := (c.writeReg rstonly k v).acknowledges_writeReg rstonly l w src
    rwa [c.pending_writeReg_of_ne rstonly v hk, c.writeReg_levelOverride rstonly v hk] at hack

theorem acknowledges_ioWrite (off : ℕ) (addr : U32) (val : U16) :
    c.Acknowledges (c.ioWrite off addr val) := by
  have hwrite : c.Acknowledges (if addr.getLsbD 0 then
      c.writeReg c.rstonly (off + 1) (val.setWidth 8) else
      (c.writeReg c.rstonly off (val.setWidth 8)).writeReg c.rstonly (off + 1)
        ((val >>> 8).setWidth 8)) := by
    split_ifs
    · exact c.acknowledges_writeReg _ _ _
    · exact c.acknowledges_writeReg_writeReg _ (Nat.succ_ne_self off).symm _ _
  rw [ioWrite]
  split_ifs at hwrite ⊢ <;> exact hwrite

theorem acknowledges_ioWriteByte (off : ℕ) (addr : U32) (val : U8) :
    c.Acknowledges (c.ioWriteByte off addr val) := by
  have hwrite := c.acknowledges_writeReg c.rstonly (off + if addr.getLsbD 0 then 1 else 0) val
  rw [ioWriteByte]
  split_ifs at hwrite ⊢ <;> exact hwrite

/-- `poll` writes no register. -/
theorem acknowledges_poll : c.Acknowledges c.poll.1 := by
  rw [poll]
  split_ifs <;> exact acknowledges_of_same rfl rfl

/-! ### What is raised -/

theorem pending_setPending (src s : IrqSource) :
    (c.setPending src).pending s = (c.pending s || decide (s = src)) := by
  by_cases hbyte : (srcTable s).isrByte = (srcTable src).isrByte
  · have hbit : (BitVec.ofNat 8 (1 <<< (srcTable src).isrBit)).getLsbD (srcTable s).isrBit =
        decide (s = src) := by
      rw [BitVec.getLsbD_ofNat, decide_eq_true (srcTable_isr s).2.2, Bool.true_and,
        Nat.one_shiftLeft, Nat.testBit_two_pow]
      exact decide_eq_decide.mpr
        ⟨fun h => srcTable_isr_inj hbyte h.symm,
          fun h => congrArg (fun t => (srcTable t).isrBit) h.symm⟩
    rw [pending, setPending]
    dsimp only
    rw [hbyte, Function.update_self, BitVec.getLsbD_or, pending, hbyte]
    exact congrArg _ hbit
  · have hne : s ≠ src := fun h => hbyte (h ▸ rfl)
    rw [pending, setPending]
    dsimp only
    rw [Function.update_of_ne hbyte, decide_eq_false hne, Bool.or_false, pending]

/-- **What `try_deliver` does**: it sets the status bit, and a trap that it asserts has
the level of the argument, or that of the priority register. -/
theorem tryDeliver_spec (src : IrqSource) (levelOverride : ℤ) :
    (c.tryDeliver src levelOverride).1 = c.setPending src ∧
      ∀ t, (c.tryDeliver src levelOverride).2 = some t →
        t = ((srcTable src).trapNo, if 0 ≤ levelOverride then levelOverride % 8
          else (c.setPending src).priority src) := by
  rw [tryDeliver]
  dsimp only
  generalize (if 0 ≤ levelOverride then levelOverride % 8 else (c.setPending src).priority src) =
    level
  split_ifs
  · exact ⟨rfl, fun _ => False.elim⟩
  · exact ⟨rfl, fun _ => False.elim⟩
  · exact ⟨rfl, fun t ht => (Option.some.inj ht).symm⟩

/-- No status byte holds a priority. -/
theorem priority_setPending (src s : IrqSource) : (c.setPending src).priority s = c.priority s := by
  have hne : (srcTable s).priByte ≠ (srcTable src).isrByte := by
    revert s src
    decide +kernel
  rw [priority, setPending]
  dsimp only
  rw [Function.update_of_ne hne, priority]

/-- **What `raise` does**: the level that it is given is noted down. -/
theorem raise_spec (src : IrqSource) (levelOverride : ℤ) :
    (∀ s, (c.raise src levelOverride).1.pending s = (c.pending s || decide (s = src))) ∧
      (∀ s, (c.raise src levelOverride).1.levelOverride s =
        if s = src ∧ 0 ≤ levelOverride then levelOverride % 8 else c.levelOverride s) ∧
      ∀ t, (c.raise src levelOverride).2 = some t →
        t = ((srcTable src).trapNo,
          if 0 ≤ levelOverride then levelOverride % 8 else c.priority src) := by
  rw [raise]
  split_ifs with h
  · set noted : InterruptController :=
      { c with levelOverride := Function.update c.levelOverride src (levelOverride % 8) }
    obtain ⟨hstate, htrap⟩ := noted.tryDeliver_spec src levelOverride
    rw [hstate]
    refine ⟨noted.pending_setPending src, fun s => ?_, fun t ht => ?_⟩
    · exact (Function.update_apply ..).trans (if_congr (and_iff_left h).symm rfl rfl)
    · rw [htrap t ht, if_pos h]
  · obtain ⟨hstate, htrap⟩ := c.tryDeliver_spec src levelOverride
    rw [hstate]
    refine ⟨c.pending_setPending src, fun s => ?_, fun t ht => ?_⟩
    · rw [if_neg fun hs => h hs.2]
      rfl
    · rw [htrap t ht, if_neg h, priority_setPending]

/-- The trap that `poll` asserts: a pending source, at its level. -/
theorem poll_trap {src : IrqSource} {level : ℤ}
    (h : c.poll.2 = some ((srcTable src).trapNo, level)) :
    c.pending src = true ∧ level = c.level src := by
  rw [poll] at h
  split_ifs at h
  cases hb : c.best with
  | none =>
    rw [hb] at h
    cases h
  | some best =>
    rw [hb] at h
    obtain ⟨hno, hlevel⟩ := Prod.mk.inj (Option.some.inj h)
    have hbest := srcTable_trapNo_inj hno
    have hd := c.deliverable_of_best hb
    rw [deliverable, Bool.and_eq_true, Bool.and_eq_true, Bool.and_eq_true] at hd
    exact ⟨hbest ▸ hd.1.1.1, hbest ▸ hlevel.symm⟩

end InterruptController

/-! ### The run -/

/-- What happens to the levels, in any order. -/
inductive LevelAct
  /-- `raise`, with the argument that belongs to the source. -/
  | raise (src : IrqSource)
  /-- `io_write`, of the halfword `i`. -/
  | ioWrite (i : Fin 32) (addr : U32) (val : U16)
  /-- `io_write_byte`, of the halfword `i`. -/
  | ioWriteByte (i : Fin 32) (addr : U32) (val : U8)
  /-- `set_current_il`. -/
  | setCurrentIl (il : U32)
  /-- `poll`. -/
  | poll

/-- The controller, and for each source whether it was `raise` that last set its status
bit from 0 to 1. -/
structure LevelRun where
  intc : InterruptController
  byRaise : IrqSource → Bool

namespace LevelRun

/-- One action on the controller, with the trap it asserts. A source is always raised with
the same argument. -/
def act (given : IrqSource → ℤ) (c : InterruptController) :
    LevelAct → InterruptController × Option (ℤ × ℤ)
  | .raise src => c.raise src (given src)
  | .ioWrite i addr val => (c.ioWrite (2 * i) addr val, none)
  | .ioWriteByte i addr val => (c.ioWriteByte (2 * i) addr val, none)
  | .setCurrentIl il => (c.setCurrentIl il, none)
  | .poll => c.poll

/-- The action is a raised source. -/
def isRaise : LevelAct → Bool
  | .raise _ => true
  | _ => false

variable (given : IrqSource → ℤ) (r : LevelRun)

/-- One action. -/
def step (r : LevelRun) (a : LevelAct) : LevelRun where
  intc := (act given r.intc a).1
  byRaise src :=
    if r.intc.pending src = false ∧ (act given r.intc a).1.pending src = true then isRaise a
    else r.byRaise src

/-- After `reset`. -/
def start : LevelRun := ⟨.reset, fun _ => false⟩

/-- The level a source is to be delivered at: the fixed one, of which three bits count,
or else the one that the priority register holds now. -/
def due (src : IrqSource) : ℤ := if 0 ≤ given src then given src % 8 else r.intc.priority src

/-- A level is noted down only while the source is pending. -/
def NotedWhilePending : Prop :=
  ∀ src, 0 ≤ r.intc.levelOverride src → r.intc.pending src = true

/-- A trap that an action asserts for a source whose status bit was set by `raise` has
the level that is due. -/
def SameLevel (a : LevelAct) : Prop :=
  ∀ src level, (act given r.intc a).2 = some ((srcTable src).trapNo, level) →
    (step given r a).byRaise src = true → level = r.due given src

/-- **The invariant**: only what is pending has a level noted down, only a source with an
argument of its own has one, and a pending source that was raised has its argument. -/
structure Inv : Prop where
  pending : r.NotedWhilePending
  fixed : ∀ src, 0 ≤ r.intc.levelOverride src → 0 ≤ given src
  noted : ∀ src, r.byRaise src = true → r.intc.pending src = true → 0 ≤ given src →
    r.intc.levelOverride src = given src % 8

variable {given r}

theorem Inv.start : start.Inv given where
  pending _ h := absurd h (show ¬(0 : ℤ) ≤ -1 by decide)
  fixed _ h := absurd h (show ¬(0 : ℤ) ≤ -1 by decide)
  noted _ h := Bool.noConfusion h

/-- **A step that raises nothing** and takes the levels from the sources that it
acknowledges. -/
theorem Inv.acknowledge (h : r.Inv given) {a : LevelAct} (ha : isRaise a = false)
    (hack : r.intc.Acknowledges (act given r.intc a).1) : (r.step given a).Inv given where
  pending src hlevel := by
    obtain ⟨hcleared, hsame⟩ := hack.kept hlevel
    by_contra hp
    exact hcleared ⟨h.pending src (hsame ▸ hlevel), Bool.eq_false_iff.mpr hp⟩
  fixed src hlevel := h.fixed src ((hack.kept hlevel).2 ▸ hlevel)
  noted src hby hp hgiven := by
    change (act given r.intc a).1.pending src = true at hp
    change (if r.intc.pending src = false ∧ (act given r.intc a).1.pending src = true
      then isRaise a else r.byRaise src) = true at hby
    split_ifs at hby with hset
    · rw [ha] at hby
      exact Bool.noConfusion hby
    · have hbefore : r.intc.pending src = true := by
        by_contra hb
        exact hset ⟨Bool.eq_false_iff.mpr hb, hp⟩
      have hkept := hack src
      rw [if_neg fun hc => absurd (hp.symm.trans hc.2) Bool.noConfusion] at hkept
      exact hkept.trans (h.noted src hby hbefore hgiven)

/-- **A step that raises** a source notes its argument down. -/
theorem Inv.raise (h : r.Inv given) (src : IrqSource) : (r.step given (.raise src)).Inv given := by
  obtain ⟨hpending, hlevel, -⟩ := r.intc.raise_spec src (given src)
  refine ⟨fun s hs => ?_, fun s hs => ?_, fun s hby hp hgiven => ?_⟩
  · change 0 ≤ (r.intc.raise src (given src)).1.levelOverride s at hs
    change (r.intc.raise src (given src)).1.pending s = true
    rw [hlevel s] at hs
    rw [hpending s, Bool.or_eq_true, decide_eq_true_iff]
    split_ifs at hs with hsrc
    · exact .inr hsrc.1
    · exact .inl (h.pending s hs)
  · change 0 ≤ (r.intc.raise src (given src)).1.levelOverride s at hs
    rw [hlevel s] at hs
    split_ifs at hs with hsrc
    · exact hsrc.1 ▸ hsrc.2
    · exact h.fixed s hs
  · change (r.intc.raise src (given src)).1.levelOverride s = _
    rw [hlevel s]
    by_cases hsrc : s = src
    · subst hsrc
      rw [if_pos ⟨rfl, hgiven⟩]
    · -- another source: neither its bit nor the way it was set has changed
      rw [if_neg fun hs => hsrc hs.1]
      have hsame : (r.intc.raise src (given src)).1.pending s = r.intc.pending s := by
        rw [hpending s, decide_eq_false hsrc, Bool.or_false]
      change (r.intc.raise src (given src)).1.pending s = true at hp
      change (if r.intc.pending s = false ∧ (r.intc.raise src (given src)).1.pending s = true
        then true else r.byRaise s) = true at hby
      rw [hsame] at hp hby
      rw [if_neg fun hb => absurd (hp.symm.trans hb.1) Bool.noConfusion] at hby
      exact h.noted s hby hp hgiven

theorem Inv.step (h : r.Inv given) (a : LevelAct) : (r.step given a).Inv given := by
  cases a with
  | raise src => exact h.raise src
  | ioWrite i addr val => exact h.acknowledge rfl (r.intc.acknowledges_ioWrite _ _ _)
  | ioWriteByte i addr val => exact h.acknowledge rfl (r.intc.acknowledges_ioWriteByte _ _ _)
  | setCurrentIl il => exact h.acknowledge rfl (InterruptController.acknowledges_of_same rfl rfl)
  | poll => exact h.acknowledge rfl r.intc.acknowledges_poll

/-- A pending source that was raised is at the level that is due. -/
theorem Inv.level_eq (h : r.Inv given) {src : IrqSource} (hby : r.byRaise src = true)
    (hp : r.intc.pending src = true) : r.intc.level src = r.due given src := by
  rw [InterruptController.level, due]
  by_cases hgiven : 0 ≤ given src
  · have hnoted := h.noted src hby hp hgiven
    have hnonneg : 0 ≤ given src % 8 := Int.emod_nonneg _ (by decide)
    rw [hnoted, if_pos hnonneg, if_pos hgiven]
  · rw [if_neg fun hl => hgiven (h.fixed src hl), if_neg hgiven]

theorem Inv.sameLevel (h : r.Inv given) (a : LevelAct) : r.SameLevel given a := by
  intro src level htrap hby
  cases a with
  | raise s =>
    obtain ⟨hno, hlevel⟩ := Prod.mk.inj ((r.intc.raise_spec s (given s)).2.2 _ htrap)
    have hsrc := InterruptController.srcTable_trapNo_inj hno
    subst hsrc
    exact hlevel
  | ioWrite | ioWriteByte | setCurrentIl => nomatch htrap
  | poll =>
    obtain ⟨hp, hlevel⟩ := r.intc.poll_trap htrap
    have hbefore : r.byRaise src = true := by
      change (if r.intc.pending src = false ∧ _ then false else r.byRaise src) = true at hby
      rwa [if_neg fun hb => absurd (hp.symm.trans hb.1) Bool.noConfusion] at hby
    exact hlevel.trans (h.level_eq hbefore hp)

/-- **The two deliveries agree.** After any sequence of raised sources, register writes in
either mode, changes of the interrupt level and polls, where each source is always raised
with the same argument: a level is noted down only while the source is pending, and the
next trap that is asserted for a source that was raised, by `raise` or by `poll`, has its
fixed level, if it has one, and otherwise the level of the priority register. -/
theorem same_level (given : IrqSource → ℤ) (as : List LevelAct) (a : LevelAct) :
    (ActionRun.exec (LevelRun.step given) LevelRun.start as).NotedWhilePending ∧
      (ActionRun.exec (LevelRun.step given) LevelRun.start as).SameLevel given a := by
  have h := ActionRun.exec_preserves (I := Inv given) (fun r a hr => Inv.step hr a) Inv.start as
  exact ⟨h.pending, h.sameLevel a⟩

end LevelRun
