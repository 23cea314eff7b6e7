import PieceEmu.Core.ArithState
import PieceEmu.Core.ExtTarget

/-!
# Compare and branch

A comparison sets the flags of a subtraction, and a conditional branch reads them. Between
the two stands the relation of the operands the branch is named after
(`Handler.relation`), whichever form the comparison has:

| comparison | first operand | second operand |
|---|---|---|
| `cmp %rd, sign6`, under prefixes or not | `%rd` | the immediate, its sign extended |
| `cmp %rd, %rs` | `%rd` | `%rs` |
| `cmp %rd, %rs` under prefixes | `%rs` | the immediate of 13 or 26 bits |
-/

/-- The operands of a comparison under its prefixes. -/
def comparands (px : ExtPrefix) (i : Insn) (r : BitVec 4 → U32) : Option (U32 × U32) :=
  match Handler.ofInsn i with
  | .cmpRdSimm6 => some (r i.rd, px.simmOperand i.low6)
  | .cmpRdRs => if px = .none then some (r i.rd, r i.rs) else some (r i.rs, px.rbOperand)
  | _ => none

/-- The relation a conditional branch is named after. -/
def Handler.relation : Handler → Option (U32 → U32 → Prop)
  | jrgt => some fun a b => a.toInt > b.toInt
  | jrge => some fun a b => a.toInt ≥ b.toInt
  | jrlt => some fun a b => a.toInt < b.toInt
  | jrle => some fun a b => a.toInt ≤ b.toInt
  | jrugt => some fun a b => a.toNat > b.toNat
  | jruge => some fun a b => a.toNat ≥ b.toNat
  | jrult => some fun a b => a.toNat < b.toNat
  | jrule => some fun a b => a.toNat ≤ b.toNat
  | jreq => some fun a b => a = b
  | jrne => some fun a b => a ≠ b
  | _ => none

/-- The flags are those of a comparison. -/
structure ArithState.Compared (s : ArithState) (a b : U32) : Prop where
  eq : s.z = true ↔ a = b
  unsigned : s.c = true ↔ a.toNat < b.toNat
  signed : (s.n ^^ s.v) = true ↔ a.toInt < b.toInt

/-! ### The branch -/

/-- **The condition of a branch is its relation**, after a comparison. -/
theorem Handler.taken_iff_relation {h : Handler} {R : U32 → U32 → Prop}
    (hR : h.relation = some R) :
    ∃ taken, h.extended = some (.branch taken) ∧
      ∀ (s : CpuState) (a b : U32), s.arith.Compared a b → (taken s.psr = true ↔ R a b) := by
  have hle (a b : U32) : a.toInt ≤ b.toInt ↔ a.toInt < b.toInt ∨ a = b := by
    rw [Int.le_iff_lt_or_eq, BitVec.toInt_inj]
  have hule (a b : U32) : a.toNat ≤ b.toNat ↔ a.toNat < b.toNat ∨ a = b := by
    rw [Nat.le_iff_lt_or_eq, BitVec.toNat_inj]
  cases h <;> first | cases hR; done | skip
  all_goals
    cases hR
    refine ⟨_, rfl, fun s a b ⟨hz, hc, hn⟩ => ?_⟩
    have hz : s.psr.z = true ↔ a = b := hz
    have hc : s.psr.c = true ↔ a.toNat < b.toNat := hc
    have hn : (s.psr.n ^^ s.psr.v) = true ↔ a.toInt < b.toInt := hn
    simp only [Bool.and_eq_true, Bool.or_eq_true, Bool.not_eq_true', ← Bool.not_eq_true, hz, hc, hn]
  case jrgt => exact (not_or.symm.trans (not_congr (hle a b).symm)).trans Int.not_le
  case jrge => exact Int.not_lt
  case jrle => exact (hle a b).symm
  case jrugt => exact (not_or.symm.trans (not_congr (hule a b).symm)).trans Nat.not_le
  case jruge => exact Nat.not_lt
  case jrule => exact (hule a b).symm

/-! ### The comparison -/

/-- **A comparison sets the flags of the difference of its operands**, and nothing else. -/
theorem comparands_run {px : ExtPrefix} {i : Insn} {r : BitVec 4 → U32} {a b : U32}
    (hab : comparands px i r = some (a, b)) :
    ∃ x, (Handler.ofInsn i).extended = some x ∧
      ∀ {D : Type} (io : IoSpace D) (pc : U32) (m : Machine D), m.cpu.r = r →
        x.run io pc i px m = m.setPsr (m.cpu.psr.setNzvcSub a b (Psr.diff64 a b false)) := by
  have hdiff (a b : U32) : Psr.diff64 a b false = a.setWidth 64 - b.setWidth 64 :=
    BitVec.sub_zero _
  unfold comparands at hab
  rw [hdiff]
  split at hab
  case h_1 h =>
    cases hab
    refine ⟨.arith .cmp true, by rw [h]; rfl, fun io pc m hr => ?_⟩
    rw [← hr]
    rfl
  case h_2 h =>
    refine ⟨.arithReg .cmp, by rw [h]; rfl, fun io pc m hr => ?_⟩
    by_cases hpx : px = .none
    · rw [if_pos hpx] at hab
      cases hab
      rw [← hr]
      exact if_pos hpx
    · rw [if_neg hpx] at hab
      cases hab
      rw [← hr]
      exact if_neg hpx
  case h_3 => exact nomatch hab

theorem compared_setPsr {D : Type} (m : Machine D) (a b : U32) :
    (m.setPsr (m.cpu.psr.setNzvcSub a b (Psr.diff64 a b false))).cpu.arith.Compared a b := by
  obtain ⟨hz, hc, hn⟩ := m.cpu.psr.compare_flags a b
  exact ⟨hz, hc, hn⟩

namespace Machine

variable {D : Type} (io : IoSpace D)

/-- A prefix does not execute in a slot. -/
theorem not_slot_of_ext {m : Machine D} {e : BitVec 13} (hrun : m.running = true)
    (hi : m.insnAtPc = .ext e) (hgo : (m.step io).running = true) :
    m.cpu.inDelaySlot = false := by
  obtain ⟨hh, hb⟩ := m.running_iff.mp hrun
  have hgo := ((m.step io).running_iff.mp hgo).1
  rcases m.stepCase io with ⟨hin, -⟩ | ⟨-, hit, -⟩ | ⟨-, hcpu⟩ | ⟨-, m₁, -, hslot, -⟩
  · exact absurd (hin.symm.trans hh) (by decide)
  · exact absurd (hit.symm.trans hb) (by decide)
  · rw [hcpu] at hgo
    exact nomatch hgo
  · by_contra hopen
    have hhard := (hslot (by simpa using hopen)).2
    rw [hi] at hhard
    exact hhard (Handler.delaySlotClass_of_ext (Insn.ofInsn_ext e))

/-- **The comparison, with its prefixes**: the flags are set, and no window is open. -/
theorem steps_compared {m : Machine D} {es : List (BitVec 13)} {i : Insn} {a b : U32}
    (hnone : m.cpu.pendingExtCount = 0)
    (hab : comparands (.ofList es) i m.cpu.r = some (a, b))
    (hx : m.Executes io (es.map Insn.ext ++ [i]))
    (hgo : ((step io)^[es.length + 1] m).running = true) :
    ((step io)^[es.length + 1] m).cpu.arith.Compared a b ∧
      ((step io)^[es.length + 1] m).inWindow = false := by
  obtain ⟨x, hext, hrunx⟩ := comparands_run hab
  cases es with
  | nil =>
    -- the comparison may stand in a delay slot
    obtain ⟨hrun, hi, -⟩ := hx
    have hgo' := (running_iff _ |>.mp hgo).1
    have hrow (m₁ : Machine D) (hcpu : m₁.cpu = m.fetched.cpu) :
        m.handlerAtPc.run io m.insnAtPc m₁ =
          m₁.flushExt.setPsr (m₁.cpu.psr.setNzvcSub a b (Psr.diff64 a b false)) := by
      have hp : ExtPrefix.none.PendingIn m₁.cpu := by
        rw [hcpu]
        exact hnone
      have hr : m₁.flushExt.cpu.r = m.cpu.r := (congrArg CpuState.r hcpu :)
      rw [handlerAtPc, hi, ← Handler.run_extended io hext i hp]
      exact hrunx io _ m₁.flushExt hr
    obtain ⟨m₁, hcpu, harith⟩ := step_arith io hrun hgo'
    refine ⟨?_, step_inWindow io hrun hgo' fun m₁ hcpu => ?_⟩
    · change (m.step io).cpu.arith.Compared a b
      rw [harith, hrow m₁ hcpu]
      exact compared_setPsr m₁.flushExt a b
    · rw [hrow m₁ hcpu]
      exact ⟨rfl, (congrArg CpuState.inDelaySlot hcpu :)⟩
  | cons e es =>
    have hslot : m.cpu.inDelaySlot = false := by
      obtain ⟨hrun, hi, hrest⟩ := hx
      refine not_slot_of_ext io hrun hi ?_
      cases es with
      | nil => exact hrest.1
      | cons e' es => exact hrest.1
    obtain ⟨honly, hstep, hpend⟩ := steps_extended io hslot hnone hx hext
    have hcpu : ((step io)^[(e :: es).length] m).cpu.inDelaySlot = false ∧
        ((step io)^[(e :: es).length] m).fetched.flushExt.cpu.r = m.cpu.r := by
      change _ ∧ ((step io)^[(e :: es).length] m).cpu.r = _
      rw [honly]
      exact ⟨hslot, rfl⟩
    rw [hrunx io _ _ hcpu.2] at hstep
    rw [hstep]
    refine ⟨?_, ?_⟩
    · rw [fireDeferred_arith, checkBusFault_arith]
      exact compared_setPsr _ a b
    · rw [fireDeferred_inWindow, checkBusFault_inWindow]
      exact (inWindow_eq_false_iff _).mpr ⟨rfl, hcpu.1⟩

/-- **Compare and branch decides the relation.** A comparison of `a` with `b`, under any row
of prefixes, and a conditional branch after it, under any row of its own, are executed with
no prefix pending at the start. Then the branch is taken, at once or after its slot, if its
relation holds of `a` and `b`, and is not taken if it does not. Taken, it leaves the CPU at its
target, or in the slot with the target noted, where no trap waits. -/
theorem compare_branch_exact (m : Machine D) (hnone : m.cpu.pendingExtCount = 0)
    (es fs : List (BitVec 13)) (i j : Insn) (a b : U32)
    (hab : comparands (.ofList es) i m.cpu.r = some (a, b)) (R : U32 → U32 → Prop)
    (hR : (Handler.ofInsn j).relation = some R)
    (hx : m.Executes io ((es.map Insn.ext ++ [i]) ++ (fs.map Insn.ext ++ [j]))) :
    let m₁ := (step io)^[es.length + 1 + fs.length] m
    (R a b → m₁.step io = ((m₁.fetched.flushExt.doC0Jump
      (m₁.cpu.pc + (ExtPrefix.ofList fs).pcrelOperand j.low8) j.d).checkBusFault.fireDeferred
        io)) ∧
      (¬R a b → m₁.step io = (m₁.fetched.flushExt.checkBusFault.fireDeferred io)) ∧
      (R a b → m₁.cpu.deferredTrapValid = false →
        let target := m₁.cpu.pc + (ExtPrefix.ofList fs).pcrelOperand j.low8
        (j.d = false → (m₁.step io).cpu.pc = target) ∧
          (j.d = true → (m₁.step io).cpu.inDelaySlot = true ∧
            (m₁.step io).cpu.delayTarget = target)) := by
  obtain ⟨hcmp, hbranch⟩ := (executes_append io _ _ m).mp hx
  rw [List.length_append, List.length_map, List.length_singleton] at hbranch
  have hgo : ((step io)^[es.length + 1] m).running = true := by
    cases fs with
    | nil => exact hbranch.1
    | cons f fs => exact hbranch.1
  -- the flags of the comparison stand while the prefixes of the branch are executed
  obtain ⟨hflags, hw⟩ := steps_compared io hnone hab hcmp hgo
  obtain ⟨taken, hext, htaken⟩ := Handler.taken_iff_relation hR
  have hm₁ : (step io)^[es.length + 1 + fs.length] m =
      (step io)^[fs.length] ((step io)^[es.length + 1] m) := by
    rw [Nat.add_comm, Function.iterate_add_apply]
  dsimp only
  rw [hm₁]
  generalize (step io)^[es.length + 1] m = m' at hbranch hflags hw
  obtain ⟨hpend, hslot⟩ := m'.inWindow_eq_false_iff.mp hw
  obtain ⟨honly, hstep, -⟩ := steps_extended io hslot hpend hbranch hext
  rw [Function.iterate_succ_apply'] at hstep
  generalize (step io)^[fs.length] m' = m₁ at honly hstep ⊢
  have hpc : m'.cpu.pc + 2 * fs.length = m₁.cpu.pc := by rw [honly]
  have hcond : taken m₁.fetched.flushExt.cpu.psr = true ↔ R a b := by
    refine htaken m₁.fetched.flushExt.cpu a b ?_
    have harith : m₁.fetched.flushExt.cpu.arith = m'.cpu.arith := by
      change m₁.cpu.arith = _
      rw [honly]
      rfl
    rwa [harith]
  rw [hpc] at hstep
  refine ⟨fun h => ?_, fun h => ?_, fun h hd => ?_⟩
  · rw [hstep, Extended.run, if_pos (hcond.mpr h)]
  · rw [hstep, Extended.run, if_neg (mt hcond.mp h)]
  · rw [hstep, Extended.run, if_pos (hcond.mpr h)]
    exact settle_doC0Jump io m₁.fetched.flushExt _ j.d hd

/-- A boot ROM with `ext 1; cmp %r1, -1` and `jrlt 4`, about to run: the immediate is 127. -/
def compareRom : Machine Unit :=
  { ofRom [0xC001, 0x6BF1, 0x0C04] with cpu := { pc := 0xC00000, r := fun _ => 0x80000000 } }

theorem compare_branch_exact_compareRom :
    ((step (IoSpace.empty Unit))^[3] compareRom).cpu.pc = 0xC0000C := by
  have h := (compare_branch_exact (IoSpace.empty Unit) compareRom rfl [1] [] ⟨0x6BF1⟩ ⟨0x0C04⟩
    0x80000000 127 rfl _ rfl ⟨rfl, rfl, rfl, rfl, rfl, rfl, trivial⟩).2.2 (by decide) rfl
  exact (h.1 rfl).trans (by decide +kernel)

end Machine
