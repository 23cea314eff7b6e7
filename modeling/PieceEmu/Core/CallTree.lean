import PieceEmu.Core.StackFrames

/-!
# Nested calls

A call pushes the address behind it, and a return goes wherever the word on the stack says.
That a return goes back to *its* call is a fact about everything that happened in between,
and this module proves it for runs of any depth (`Machine.call_tree`): a run is a tree
(`CallTree`) of stretches, sequences, register saves and calls.

Three things have to be arranged.

* **A stretch may do anything but touch the live part of the stack**: the return addresses
  and the saved registers of the calls and saves it is inside of. The live bytes are a
  parameter (`live`) that grows on the way down the tree.
* **The words of the stack have to be apart** from one another and from what is live
  (`Machine.Room`), or a push would overwrite them.
* **A delayed call or return executes its slot** with the stack pointer already moved; the slot
  may change registers and flags (`Machine.TransfersAt`).

A call may stand behind up to two prefixes, which extend its displacement.
-/

/-! ### The shape of a run -/

/-- The shape of a run: what it calls, and what it saves. -/
inductive CallTree
  /-- A number of steps that leave the live stack alone. -/
  | plain (steps : ℕ)
  | seq (a b : CallTree)
  /-- `pushn %rn`, a body, and `popn %rn`. -/
  | save (n : BitVec 4) (body : CallTree)
  /-- A call behind `prefixes` prefixes, the procedure, and its return. -/
  | call (prefixes : ℕ) (delayed : Bool) (body : CallTree) (retDelayed : Bool)

namespace CallTree

/-- The steps of a transfer: a delayed one takes its slot with it. -/
def transferSteps (delayed : Bool) : ℕ := if delayed then 2 else 1

/-- The number of its instructions. -/
def steps : CallTree → ℕ
  | plain k => k
  | seq a b => a.steps + b.steps
  | save _ body => body.steps + 2
  | call k d body rd => k + transferSteps d + body.steps + transferSteps rd

/-- The number of words it reaches below the stack pointer. -/
def words : CallTree → ℕ
  | plain _ => 0
  | seq a b => max a.words b.words
  | save n body => n.toNat + 1 + body.words
  | call _ _ body _ => 1 + body.words

end CallTree

namespace Machine

variable {D : Type} (io : IoSpace D) {m : Machine D}

/-! ### Between two instructions -/

/-- Between two instructions of a program that nothing interrupts. -/
structure Ready (m : Machine D) : Prop extends m.Quiet where
  prefixes : m.cpu.pendingExtCount = 0
  caller : m.cpu.delayCaller = .other

theorem Ready.atRest (h : m.Ready) : m.AtRest := ⟨h.slot, h.prefixes, h.deferred, h.busFault⟩

/-- In front of a call, with the prefixes of its displacement behind it. -/
structure Prefixed (m m' : Machine D) (k : ℕ) : Prop where
  quiet : m'.Quiet
  caller : m'.cpu.delayCaller = .other
  count : m'.cpu.pendingExtCount = k
  sp : m'.cpu.sp = m.cpu.sp
  cells : m'.bus.SameCells m.bus

/-- **The prefixes** of a call change neither the stack nor the memory. -/
theorem Ready.steps_ext (h : m.Ready) {k : ℕ} (hk : k ≤ 2)
    (hext : ∀ j < k, ((step io)^[j] m).handlerAtPc = .ext) :
    Prefixed m ((step io)^[k] m) k := by
  induction k with
  | zero => exact ⟨h.toQuiet, h.caller, h.prefixes, rfl, ⟨rfl, rfl, rfl, rfl⟩⟩
  | succ k ih =>
    have hp := ih (by omega) fun j hj => hext j (by omega)
    rw [Function.iterate_succ_apply']
    generalize hm : (step io)^[k] m = m' at hp
    have hh : m'.handlerAtPc = .ext := hm ▸ hext k (by omega)
    have hquiet := hp.quiet.fetched
    have hlt : ¬2 ≤ m'.fetched.cpu.pendingExtCount := by
      change ¬2 ≤ m'.cpu.pendingExtCount
      rw [hp.count]
      omega
    have hstep : m'.step io = m'.fetched.hExt m'.insnAtPc := by
      rw [step_outside_slot io hp.quiet.running hp.quiet.slot
        (.inr (Handler.extCapable_of_ext hh)), hh]
      change (m'.fetched.hExt m'.insnAtPc).checkBusFault.fireDeferred io = _
      refine settled io ?_ ?_
      · rw [hExt, if_neg hlt]
        split_ifs <;> exact hquiet.busFault
      · rw [hExt, if_neg hlt]
        split_ifs <;> exact hquiet.deferred
    have hcells : m'.fetched.bus.SameCells m.bus := m'.fetched_sameCells.trans hp.cells
    have hcount : m'.fetched.cpu.pendingExtCount = k := hp.count
    rw [hstep, hExt, if_neg hlt]
    split_ifs with h0
    · refine ⟨⟨hquiet.inHalt, hquiet.breakpoints, hquiet.slot, hquiet.deferred, hquiet.busFault⟩,
        hp.caller, ?_, hp.sp, hcells⟩
      rw [← hcount, h0]
      rfl
    · refine ⟨⟨hquiet.inHalt, hquiet.breakpoints, hquiet.slot, hquiet.deferred, hquiet.busFault⟩,
        hp.caller, ?_, hp.sp, hcells⟩
      change 2 = k + 1
      omega

/-! ### Calls -/

/-- A transfer of the wanted kind is about to be executed; a delayed one has an instruction
in its slot that changes only registers and flags. -/
structure TransfersAt (m : Machine D) (kind : Handler → Bool) (delayed : Bool) : Prop where
  kind : kind m.handlerAtPc = true
  form : m.insnAtPc.d = delayed
  extended : m.cpu.pendingExtCount = 0 ∨ extCapable m.insnAtPc = true
  slot : delayed = true → delaySlotClass (m.step io).insnAtPc = .ok ∧
    (m.step io).handlerAtPc.regsOnly = true

/-- The machine `m'` has entered a procedure from `m`, to return to `ra`. -/
structure Entered (m m' : Machine D) (ra : U32) : Prop where
  ready : m'.Ready
  sp : m'.cpu.sp = m.cpu.sp - 4
  bytes : m'.bus.flatByte =
    Words.putLe32 m.bus.flatByte (Bus.flatIndex (Bus.below m.cpu.sp 0)) ra
  layout : m'.bus.SameLayout m.bus

/-- A machine from which a call has pushed its return address. -/
theorem pushed_quiet {v : U32} (hq : m.Quiet) (hw : m.bus.StackWord (Bus.below m.cpu.sp 0)) :
    (m.push io v).Quiet ∧ (m.push io v).ctl = m.ctl := by
  have hw : m.bus.StackWord (m.cpu.sp - 4) := hw
  obtain ⟨hreq, hfault⟩ := hw.write32_quiet io v
  rw [push_eq io hreq]
  exact ⟨⟨hq.inHalt, hq.breakpoints, hq.slot, hq.deferred, hfault.trans hq.busFault⟩, rfl⟩

/-- **The step of a call**, without a slot. -/
theorem Quiet.step_call (hq : m.Quiet) (hcaller : m.cpu.delayCaller = .other)
    (hw : m.bus.StackWord (Bus.below m.cpu.sp 0))
    (hc : m.TransfersAt io Handler.isCall false) :
    Entered m (m.step io) (m.cpu.pc + 2) := by
  have hflush : m.fetched.flushExt.Quiet :=
    ⟨hq.fetched.inHalt, hq.fetched.breakpoints, hq.fetched.slot, hq.fetched.deferred,
      hq.fetched.busFault⟩
  have hw' : m.fetched.flushExt.bus.StackWord (Bus.below m.fetched.flushExt.cpu.sp 0) :=
    m.fetched_sameCells.stackWord hw
  obtain ⟨target, hrun⟩ : ∃ target, m.handlerAtPc.run io m.insnAtPc m.fetched =
      (m.fetched.flushExt.push io (m.cpu.pc + 2)).setPc target := by
    have hzero : m.cpu.pc + 2 + 0 = m.cpu.pc + 2 := BitVec.add_zero _
    have hkind := hc.kind
    cases hh : m.handlerAtPc with
    | callRb =>
      refine ⟨m.cpu.r m.insnAtPc.rd, ?_⟩
      change m.fetched.hCallRb io m.insnAtPc = _
      rw [hCallRb, hc.form, ← hzero]
      rfl
    | callSimm8 =>
      refine ⟨m.fetched.flushExt.pcrelTarget (m.cpu.extPcrel m.insnAtPc.sign8), ?_⟩
      change m.fetched.hCallSimm8 io m.insnAtPc = _
      rw [hCallSimm8, hc.form, ← hzero]
      rfl
    | _ => exact absurd (hh ▸ hkind) (by decide)
  obtain ⟨hquiet, hctl⟩ := pushed_quiet io (v := m.cpu.pc + 2) hflush hw'
  obtain ⟨hcpu, -, -, hlayout, -, hbytes⟩ := push_spec io (v := m.cpu.pc + 2) hw'
  have hstep : m.step io = (m.fetched.flushExt.push io (m.cpu.pc + 2)).setPc target := by
    rw [step_outside_slot io hq.running hq.slot hc.extended, hrun]
    exact settled io hquiet.busFault hquiet.deferred
  rw [hstep]
  refine ⟨⟨⟨hquiet.inHalt, hquiet.breakpoints, hquiet.slot, hquiet.deferred, hquiet.busFault⟩,
    ?_, ?_⟩, ?_, ?_, ?_⟩
  · exact congrArg CpuState.pendingExtCount hcpu
  · exact (congrArg CpuState.delayCaller hcpu).trans hcaller
  · exact congrArg CpuState.sp hcpu
  · refine hbytes.trans ?_
    rw [show m.fetched.flushExt.bus.flatByte = m.bus.flatByte from m.fetched_sameCells.flatByte]
    rfl
  · exact fun a => (hlayout a).trans (m.fetched_sameCells.sameLayout a)

/-- An instruction that changes only registers and flags sets no breakpoint. -/
theorem Quiet.step_breakpoints {a : Machine D} (hq : a.Quiet) (hp : a.cpu.pendingExtCount = 0)
    (hr : a.handlerAtPc.regsOnly = true) : (a.step io).breakpoints = a.breakpoints := by
  have hi : a.handlerAtPc.isInternal = true := (Bool.and_eq_true_iff.mp hr).1
  rw [hq.step_internal io hp hi]
  exact congrArg Outside.breakpoints (Handler.run_outside io hi a.insnAtPc a.fetched)

/-- An instruction that changes only registers and flags is defined. -/
theorem ne_undef_of_regsOnly {h : Handler} (hr : h.regsOnly = true) : h ≠ .undef := by
  rintro rfl
  exact absurd hr (by decide)

/-- What a slot instruction makes of a machine that has moved its stack pointer, is open at
its slot and continues at `target`. -/
theorem Quiet.step_slot {a : Machine D} (hq : a.Quiet) (hp : a.cpu.pendingExtCount = 0)
    (hok : delaySlotClass a.insnAtPc = .ok) (hr : a.handlerAtPc.regsOnly = true) (target : U32)
    (caller : DelayCaller) :
    let m' := (a.withCtl (a.slotCtl target caller)).step io
    m'.Ready ∧ m'.cpu.sp = a.cpu.sp ∧ m'.cpu.pc = target ∧ m'.bus.SameCells a.bus := by
  intro m'
  have hrest : a.AtRest := ⟨hq.slot, hp, hq.deferred, hq.busFault⟩
  have hregs := hrest.step_regsOnly io hq.running hr
  obtain ⟨cycles, heq⟩ := hq.step_in_slot io hp hok (ne_undef_of_regsOnly hr) target caller
  have hcells : m'.bus.SameCells a.bus := by
    rw [show m'.bus = (a.step io).bus.withCycles cycles from congrArg Machine.bus heq]
    exact hregs.cells
  have hcpu : m'.cpu = _ := congrArg Machine.cpu heq
  refine ⟨⟨⟨?_, fun x => ?_, ?_, ?_, ?_⟩, ?_, ?_⟩, ?_, ?_, hcells⟩
  · rw [hcpu]
    change (a.step io).cpu.inHalt = false
    rw [hregs.cpu]
    exact hq.inHalt
  · rw [show m' = _ from heq]
    change (a.step io).breakpoints x = false
    rw [hq.step_breakpoints io hp hr]
    exact hq.breakpoints x
  · rw [hcpu]
    exact hq.slot
  · rw [hcpu]
    exact hq.deferred
  · rw [show m'.bus = (a.step io).bus.withCycles cycles from congrArg Machine.bus heq]
    exact hregs.faultPending.trans hq.busFault
  · rw [hcpu]
    change (a.step io).cpu.pendingExtCount = 0
    rw [hregs.cpu]
    exact hp
  · rw [hcpu]
    rfl
  · rw [hcpu]
    change (a.step io).cpu.sp = a.cpu.sp
    rw [hregs.cpu]
  · rw [hcpu]
    rfl

/-- A machine at a transfer, after the stack effect of the transfer. -/
structure SlotOpen (m a : Machine D) : Prop where
  quiet : a.Quiet
  ctl : a.ctl = m.fetched.flushExt.ctl
  prefixes : a.cpu.pendingExtCount = 0

/-- **A delayed transfer and its slot instruction**, when the transfer is always taken. -/
theorem Quiet.steps_delayed (hq : m.Quiet) (hcaller : m.cpu.delayCaller = .other)
    {kind : Handler → Bool} (ht : m.handlerAtPc.isTransfer = true)
    (htaken : m.handlerAtPc.taken m.cpu.psr = true) (hc : m.TransfersAt io kind true)
    (ha : m.SlotOpen (m.afterTransfer io)) :
    let m' := (m.step io).step io
    m'.Ready ∧ m'.cpu.sp = (m.afterTransfer io).cpu.sp ∧ m'.cpu.pc = m.transferTarget io ∧
      m'.bus.SameCells (m.afterTransfer io).bus := by
  intro m'
  have hslot : (m.afterTransfer io).slotCtl (m.transferTarget io) m.handlerAtPc.caller =
      m.slotCtl (m.transferTarget io) m.handlerAtPc.caller := by
    unfold slotCtl
    rw [ha.ctl]
    rfl
  have hstep : m.step io = (m.afterTransfer io).withCtl
      ((m.afterTransfer io).slotCtl (m.transferTarget io) m.handlerAtPc.caller) := by
    rw [step_outside_slot io hq.running hq.slot hc.extended,
      m.run_transfer io ht hc.form hcaller, if_pos htaken, hslot]
    exact settled io ha.quiet.busFault hq.deferred
  obtain ⟨hok, hr⟩ := hc.slot rfl
  rw [hstep] at hok hr
  have h := ha.quiet.step_slot io ha.prefixes hok hr (m.transferTarget io) m.handlerAtPc.caller
  rwa [← hstep] at h

theorem isTransfer_of_isCall {h : Handler} (hc : h.isCall = true) : h.isTransfer = true := by
  cases h <;> first | rfl | exact absurd hc (by decide)

theorem taken_of_isCall {h : Handler} (hc : h.isCall = true) (p : Psr) : h.taken p = true := by
  cases h <;> first | rfl | exact absurd hc (by decide)

/-- **The steps of a delayed call.** -/
theorem Quiet.steps_call (hq : m.Quiet) (hcaller : m.cpu.delayCaller = .other)
    (hw : m.bus.StackWord (Bus.below m.cpu.sp 0))
    (hc : m.TransfersAt io Handler.isCall true) :
    Entered m ((m.step io).step io) (m.cpu.pc + 4) := by
  have hflush : m.fetched.flushExt.Quiet :=
    ⟨hq.fetched.inHalt, hq.fetched.breakpoints, hq.fetched.slot, hq.fetched.deferred,
      hq.fetched.busFault⟩
  have hw' : m.fetched.flushExt.bus.StackWord (Bus.below m.fetched.flushExt.cpu.sp 0) :=
    m.fetched_sameCells.stackWord hw
  have hpc : m.cpu.pc + 2 + 2 = m.cpu.pc + 4 := BitVec.add_assoc ..
  have heffect : m.afterTransfer io = m.fetched.flushExt.push io (m.cpu.pc + 4) := by
    rw [← hpc, Machine.afterTransfer]
    have hkind := hc.kind
    cases h : m.handlerAtPc with
    | callRb | callSimm8 => rfl
    | _ => exact absurd (h ▸ hkind) (by decide)
  obtain ⟨hquiet, hctl⟩ := pushed_quiet io (v := m.cpu.pc + 4) hflush hw'
  obtain ⟨hcpu, -, -, hlayout, -, hbytes⟩ := push_spec io (v := m.cpu.pc + 4) hw'
  rw [← heffect] at hquiet hctl hcpu hlayout hbytes
  have hopen : m.SlotOpen (m.afterTransfer io) :=
    ⟨hquiet, hctl, congrArg CpuState.pendingExtCount hcpu⟩
  obtain ⟨hready, hsp, -, hcells⟩ := hq.steps_delayed io hcaller (isTransfer_of_isCall hc.kind)
    (taken_of_isCall hc.kind _) hc hopen
  refine ⟨hready, hsp.trans (congrArg CpuState.sp hcpu), ?_, fun a => ?_⟩
  · rw [hcells.flatByte, hbytes, show m.fetched.flushExt.bus.flatByte = m.bus.flatByte from
      m.fetched_sameCells.flatByte]
    rfl
  · exact (hcells.sameLayout a).trans ((hlayout a).trans (m.fetched_sameCells.sameLayout a))

/-- **A call enters its procedure**, to return behind the call or behind its slot. -/
theorem Quiet.call (hq : m.Quiet) (hcaller : m.cpu.delayCaller = .other)
    (hw : m.bus.StackWord (Bus.below m.cpu.sp 0)) {delayed : Bool}
    (hc : m.TransfersAt io Handler.isCall delayed) :
    Entered m ((step io)^[CallTree.transferSteps delayed] m)
      (m.cpu.pc + if delayed then 4 else 2) := by
  cases delayed with
  | false => exact hq.step_call io hcaller hw hc
  | true => exact hq.steps_call io hcaller hw hc

/-! ### Returns -/

/-- The machine `m'` has returned from `m`. -/
structure Left (m m' : Machine D) : Prop where
  ready : m'.Ready
  pc : m'.cpu.pc = Words.le32 m.bus.flatByte (Bus.flatIndex m.cpu.sp)
  sp : m'.cpu.sp = m.cpu.sp + 4
  cells : m'.bus.SameCells m.bus

/-- **A return goes where the word on the stack says.** -/
theorem Ready.ret (h : m.Ready) (hw : m.bus.StackWord m.cpu.sp) {delayed : Bool}
    (hc : m.TransfersAt io (· == .ret) delayed) :
    Left m ((step io)^[CallTree.transferSteps delayed] m) := by
  have hret : m.handlerAtPc = .ret := beq_iff_eq.mp hc.kind
  have hw' : m.fetched.bus.StackWord m.cpu.sp := m.fetched_sameCells.stackWord hw
  have hword : (m.fetched.bus.read32 io m.cpu.sp).1 =
      Words.le32 m.bus.flatByte (Bus.flatIndex m.cpu.sp) := by
    rw [hw'.read32_eq io, m.fetched_sameCells.flatByte]
  have hcells : (m.afterTransfer io).bus.SameCells m.bus := by
    rw [afterTransfer, hret]
    exact (Bus.read32_sameCells io m.fetched.bus m.cpu.sp).trans m.fetched_sameCells
  have hsp : (m.afterTransfer io).cpu.sp = m.cpu.sp + 4 := by
    rw [afterTransfer, hret]
    rfl
  obtain ⟨hquiet, hctl, hprefixes, -⟩ := h.toQuiet.afterTransfer io hw
  cases delayed with
  | false =>
    have hstep : m.step io = (m.afterTransfer io).setPc
        (m.fetched.bus.read32 io m.cpu.sp).1 := by
      rw [step_outside_slot io h.running h.slot hc.extended]
      have hrun : m.handlerAtPc.run io m.insnAtPc m.fetched =
          (m.afterTransfer io).setPc (m.fetched.bus.read32 io m.cpu.sp).1 := by
        rw [afterTransfer, hret]
        change m.fetched.hRet io m.insnAtPc = _
        rw [hRet, hc.form]
        rfl
      rw [hrun]
      exact settled io hquiet.busFault hquiet.deferred
    change Left m (m.step io)
    rw [hstep]
    exact ⟨⟨⟨hquiet.inHalt, hquiet.breakpoints, hquiet.slot, hquiet.deferred, hquiet.busFault⟩,
      hprefixes, (congrArg Ctl.delayCaller hctl).trans h.caller⟩, hword, hsp, hcells⟩
  | true =>
    obtain ⟨hready, hsp', hpc, hcells'⟩ := h.toQuiet.steps_delayed io h.caller
      (by rw [hret]; rfl) (by rw [hret]; rfl) hc ⟨hquiet, hctl, hprefixes⟩
    refine ⟨hready, hpc.trans ?_, hsp'.trans hsp, hcells'.trans hcells⟩
    rw [transferTarget, hret]
    exact hword

/-! ### The live part of the stack -/

/-- There is room for `n` words below a stack pointer, apart from the live bytes. -/
structure Room (b : Bus D) (sp : U32) (live : ℕ → Prop) (n : ℕ) : Prop where
  region : b.StackRegion sp n
  free : ∀ c, live c → ¬Bus.InRegion sp n c

/-- The live bytes below a frame of `n` words. -/
def withFrame (live : ℕ → Prop) (sp : U32) (n c : ℕ) : Prop := live c ∨ Bus.InRegion sp n c

variable {live : ℕ → Prop} {b b' : Bus D} {sp : U32} {n w : ℕ}

theorem Room.mono (h : Room b sp live n) (hw : w ≤ n) : Room b sp live w where
  region := h.region.mono hw
  free c hc hin := h.free c hc (hin.mono hw)

theorem Room.of_sameLayout (h : Room b sp live n) (hl : b'.SameLayout b) : Room b' sp live n :=
  ⟨h.region.of_sameLayout hl, h.free⟩

/-- Below a frame there is the rest of the room, and the frame is live. -/
theorem Room.rest (h : Room b sp live (n + w)) :
    Room b (sp - BitVec.ofNat 32 (4 * n)) (withFrame live sp n) w where
  region := h.region.rest
  free c := by
    rintro (hc | ⟨k, hk, hc⟩) hin
    · exact h.free c hc (Bus.inRegion_rest hin)
    · obtain ⟨j, hj, hc'⟩ := hin
      rw [Bus.below_below] at hc'
      exact h.region.apart k (by omega) (n + j) (by omega) (by omega) c hc hc'

/-- The machine `m'` goes on where the part of a program that began at `m` leaves off: the
stack is as it was. -/
structure Resumes (live : ℕ → Prop) (m m' : Machine D) : Prop where
  ready : m'.Ready
  sp : m'.cpu.sp = m.cpu.sp
  layout : m'.bus.SameLayout m.bus
  kept : ∀ c, live c → m'.bus.flatByte c = m.bus.flatByte c

theorem Resumes.trans {m m' m'' : Machine D} (h : Resumes live m m') (h' : Resumes live m' m'') :
    Resumes live m m'' where
  ready := h'.ready
  sp := h'.sp.trans h.sp
  layout a := (h'.layout a).trans (h.layout a)
  kept c hc := (h'.kept c hc).trans (h.kept c hc)

/-- Instructions that change only registers and flags resume. -/
theorem Ready.step_regsOnly (h : m.Ready) (hr : m.handlerAtPc.regsOnly = true) :
    Resumes live m (m.step io) := by
  have hregs := h.atRest.step_regsOnly io h.running hr
  have hrest := hregs.atRest h.atRest
  have hcpu := hregs.cpu
  refine ⟨⟨⟨?_, fun x => ?_, hrest.slot, hrest.deferred, hrest.busFault⟩, hrest.prefixes, ?_⟩,
    (congrArg CpuState.sp hcpu :), hregs.cells.sameLayout,
    fun c _ => congrFun hregs.cells.flatByte c⟩
  · exact (congrArg CpuState.inHalt hcpu :).trans h.inHalt
  · rw [h.toQuiet.step_breakpoints io h.prefixes hr]
    exact h.breakpoints x
  · exact (congrArg CpuState.delayCaller hcpu :).trans h.caller

/-- **A call, a procedure that resumes, and its return.** -/
theorem Resumes.call {m m₀ m₁ m₂ : Machine D} {k : ℕ} {ra : U32} {rd : Bool}
    (hroom : Room m.bus m.cpu.sp live (1 + w)) (hpre : Prefixed m m₀ k) (hin : Entered m₀ m₁ ra)
    (hbody : Resumes (withFrame live m.cpu.sp 1) m₁ m₂)
    (hret : m₂.TransfersAt io (· == .ret) rd) :
    let m' := (step io)^[CallTree.transferSteps rd] m₂
    Resumes live m m' ∧ m'.cpu.pc = ra := by
  intro m'
  have hword : m.bus.StackWord (Bus.below m.cpu.sp 0) := hroom.region.word 0 (by omega)
  have hsp₂ : m₂.cpu.sp = Bus.below m.cpu.sp 0 := by
    rw [hbody.sp, hin.sp, hpre.sp]
    rfl
  have hlayout (a : U32) : m₂.bus.StackWord a ↔ m.bus.StackWord a :=
    (hbody.layout a).trans ((hin.layout a).trans (hpre.cells.sameLayout a))
  have hleft := hbody.ready.ret io (m := m₂) (by rwa [hsp₂, hlayout]) hret
  have hbytes : m₁.bus.flatByte =
      Words.putLe32 m.bus.flatByte (Bus.flatIndex (Bus.below m.cpu.sp 0)) ra := by
    rw [hin.bytes, hpre.cells.flatByte, hpre.sp]
  refine ⟨⟨hleft.ready, ?_, fun a => ?_, fun c hc => ?_⟩, ?_⟩
  · rw [hleft.sp, hsp₂]
    exact BitVec.sub_add_cancel m.cpu.sp 4
  · exact (hleft.cells.sameLayout a).trans (hlayout a)
  · rw [hleft.cells.flatByte, hbody.kept c (.inl hc), hbytes]
    refine Words.putLe32_of_ne ?_
    by_contra hin
    exact hroom.free c hc ⟨0, by omega, by omega, by omega⟩
  · -- the body has left the return address alone
    rw [hleft.pc, hsp₂, Bus.le32_of_kept fun c hc => hbody.kept c (.inr ⟨0, Nat.one_pos, hc⟩),
      hbytes]
    exact Words.le32_putLe32 ..

/-- **A save, a body that resumes, and its restore.** -/
theorem Resumes.save {m m₂ : Machine D} {n : BitVec 4} (hm : m.Ready)
    (hroom : Room m.bus m.cpu.sp live (n.toNat + 1 + w)) (hpush : m.Saves .pushn n)
    (hbody : Resumes (withFrame live m.cpu.sp (n.toNat + 1)) (m.step io) m₂)
    (hpop : m₂.Saves .popn n) :
    Resumes live m (m₂.step io) ∧ ∀ x ≤ n, (m₂.step io).cpu.r x = m.cpu.r x := by
  obtain ⟨-, hpushed⟩ := step_pushn io hm.atRest hpush (hroom.region.mono (Nat.le_add_right _ w))
  have hsp₁ : (m.step io).cpu.sp = m.cpu.sp - BitVec.ofNat 32 (4 * (n.toNat + 1)) :=
    (congrArg CpuState.sp hpushed.cpu :)
  -- the words above the stack pointer of the body are those of the frame
  have hup {j : ℕ} (hj : j < n.toNat + 1) :
      m₂.cpu.sp + BitVec.ofNat 32 (4 * j) = Bus.below m.cpu.sp (n.toNat - j) := by
    rw [hbody.sp, hsp₁, Bus.below, show 4 * (n.toNat + 1) = 4 * (n.toNat - j + 1) + 4 * j by omega,
      BitVec.ofNat_add, ← BitVec.sub_sub, BitVec.sub_add_cancel]
  have hlayout (a : U32) : m₂.bus.StackWord a ↔ m.bus.StackWord a :=
    (hbody.layout a).trans ((hpushed.layout a).trans (m.fetched_sameCells.sameLayout a))
  obtain ⟨hrest, hpopped⟩ := step_popn io hbody.ready.atRest hpop fun j hj => by
    rw [hup hj, hlayout]
    exact hroom.region.word _ (by omega)
  have hbytes₂ := m₂.fetched_sameCells.flatByte
  have hcpu := hpopped.cpu
  refine ⟨⟨⟨⟨?_, fun x => ?_, hrest.slot, hrest.deferred, hrest.busFault⟩, hrest.prefixes, ?_⟩,
    ?_, fun a => ?_, fun c hc => ?_⟩, fun x hx => ?_⟩
  · exact (congrArg CpuState.inHalt hcpu :).trans hbody.ready.inHalt
  · exact (congrFun hpopped.breakpoints x).trans (hbody.ready.breakpoints x)
  · exact (congrArg CpuState.delayCaller hcpu :).trans hbody.ready.caller
  · refine (congrArg CpuState.sp hcpu :).trans ?_
    change m₂.cpu.sp + BitVec.ofNat 32 (4 * (n.toNat + 1)) = _
    rw [hbody.sp, hsp₁, BitVec.sub_add_cancel]
  · exact ((hpopped.cells.trans m₂.fetched_sameCells).sameLayout a).trans (hlayout a)
  · rw [hpopped.cells.flatByte.trans hbytes₂, hbody.kept c (.inl hc),
      hpushed.kept c fun h => hroom.free c hc (h.mono (Nat.le_add_right _ w))]
    exact congrFun m.fetched_sameCells.flatByte c
  · have hj : x.toNat < n.toNat + 1 := Nat.lt_succ_of_le hx
    have hx' : BitVec.ofNat 4 (0 + x.toNat) = x := by
      rw [Nat.zero_add, BitVec.ofNat_toNat, BitVec.setWidth_eq]
    have hloaded := hpopped.loaded x.toNat hj
    have hsaved := hpushed.saved x.toNat hj
    rw [hx'] at hloaded
    rw [← Nat.zero_add x.toNat, hx', Nat.zero_add, Nat.add_sub_cancel] at hsaved
    have hword : (m₂.fetched.flushExt).cpu.sp + BitVec.ofNat 32 (4 * x.toNat) =
        Bus.below m.cpu.sp (n.toNat - x.toNat) := hup hj
    rw [hloaded, hword]
    refine (Bus.le32_of_kept fun c hc => ?_).trans hsaved
    exact (congrFun hbytes₂ c).trans (hbody.kept c (.inr ⟨_, by omega, hc⟩))

/-! ### Trees -/

/-- The machine after a run of the shape of a tree. -/
def afterTree (t : CallTree) (m : Machine D) : Machine D := (step io)^[t.steps] m

/-- The machine in the procedure of a call behind `k` prefixes. -/
def inProcedure (k : ℕ) (delayed : Bool) (m : Machine D) : Machine D :=
  (step io)^[CallTree.transferSteps delayed] ((step io)^[k] m)

theorem afterTree_seq (s t : CallTree) (m : Machine D) :
    m.afterTree io (.seq s t) = (m.afterTree io s).afterTree io t := by
  rw [afterTree, CallTree.steps, Nat.add_comm, Function.iterate_add_apply]
  rfl

theorem afterTree_save (n : BitVec 4) (body : CallTree) (m : Machine D) :
    m.afterTree io (.save n body) = ((m.step io).afterTree io body).step io := by
  rw [afterTree, CallTree.steps, Function.iterate_succ_apply, Function.iterate_succ_apply']
  rfl

theorem afterTree_call (k : ℕ) (d : Bool) (body : CallTree) (rd : Bool) (m : Machine D) :
    m.afterTree io (.call k d body rd) =
      (step io)^[CallTree.transferSteps rd] ((m.inProcedure io k d).afterTree io body) := by
  rw [afterTree, CallTree.steps,
    show k + CallTree.transferSteps d + body.steps + CallTree.transferSteps rd =
      CallTree.transferSteps rd + (body.steps + (CallTree.transferSteps d + k)) by omega,
    Function.iterate_add_apply, Function.iterate_add_apply, Function.iterate_add_apply]
  rfl

/-- The machine runs a tree from here, and leaves the live bytes alone where it runs
plainly. -/
def RunsTree : CallTree → (ℕ → Prop) → Machine D → Prop
  | .plain k, live, m => m.Ready → Resumes live m ((step io)^[k] m)
  | .seq s t, live, m => RunsTree s live m ∧ RunsTree t live (m.afterTree io s)
  | .save n body, live, m => m.Saves .pushn n ∧
      RunsTree body (withFrame live m.cpu.sp (n.toNat + 1)) (m.step io) ∧
      ((m.step io).afterTree io body).Saves .popn n
  | .call k d body rd, live, m => k ≤ 2 ∧
      (∀ j < k, ((step io)^[j] m).handlerAtPc = .ext) ∧
      ((step io)^[k] m).TransfersAt io Handler.isCall d ∧
      RunsTree body (withFrame live m.cpu.sp 1) (m.inProcedure io k d) ∧
      ((m.inProcedure io k d).afterTree io body).TransfersAt io (· == .ret) rd

/-- One instruction that changes only registers and flags is a stretch. -/
theorem runsTree_one (hr : m.handlerAtPc.regsOnly = true) : m.RunsTree io (.plain 1) live :=
  fun h => h.step_regsOnly io hr

/-- Every return goes behind its call, or behind the slot of its call, and every restore
brings the registers of its save back. -/
def ReturnsMatch : CallTree → Machine D → Prop
  | .plain _, _ => True
  | .seq s t, m => ReturnsMatch s m ∧ ReturnsMatch t (m.afterTree io s)
  | .save n body, m => ReturnsMatch body (m.step io) ∧
      ∀ x ≤ n, (m.afterTree io (.save n body)).cpu.r x = m.cpu.r x
  | .call k d body rd, m => ReturnsMatch body (m.inProcedure io k d) ∧
      (m.afterTree io (.call k d body rd)).cpu.pc =
        ((step io)^[k] m).cpu.pc + if d then 4 else 2

/-- **Every return is to its own call**, at any depth of calls and register saves, with any
mix of the delayed and the plain forms, and with what the procedures do in between arbitrary
but for the live part of the stack; the stack pointer and the live bytes come back. -/
theorem call_tree (t : CallTree) (live : ℕ → Prop) (m : Machine D) (hm : m.Ready)
    (hroom : Room m.bus m.cpu.sp live t.words) (hruns : m.RunsTree io t live) :
    m.ReturnsMatch io t ∧ Resumes live m (m.afterTree io t) := by
  -- the live bytes grow by the frame of each call and each save on the way down
  induction t generalizing live m with
  | plain k => exact ⟨trivial, hruns hm⟩
  | seq s t ihs iht =>
    obtain ⟨hs, hs'⟩ := ihs live m hm (hroom.mono (Nat.le_max_left ..)) hruns.1
    have hroom' : Room (m.afterTree io s).bus (m.afterTree io s).cpu.sp live t.words := by
      rw [hs'.sp]
      exact (hroom.mono (Nat.le_max_right ..)).of_sameLayout hs'.layout
    obtain ⟨ht, ht'⟩ := iht live _ hs'.ready hroom' hruns.2
    rw [afterTree_seq]
    exact ⟨⟨hs, ht⟩, hs'.trans ht'⟩
  | save n body ih =>
    obtain ⟨hpush, hbody, hpop⟩ := hruns
    obtain ⟨hrest, hpushed⟩ := step_pushn io hm.atRest hpush
      (hroom.region.mono (Nat.le_add_right _ _))
    have hready : (m.step io).Ready :=
      ⟨⟨(congrArg CpuState.inHalt hpushed.cpu :).trans hm.inHalt,
        fun x => (congrFun hpushed.breakpoints x).trans (hm.breakpoints x),
        hrest.slot, hrest.deferred, hrest.busFault⟩, hrest.prefixes,
        (congrArg CpuState.delayCaller hpushed.cpu :).trans hm.caller⟩
    have hroom' : Room (m.step io).bus (m.step io).cpu.sp
        (withFrame live m.cpu.sp (n.toNat + 1)) body.words := by
      rw [(congrArg CpuState.sp hpushed.cpu :)]
      exact hroom.rest.of_sameLayout fun a =>
        (hpushed.layout a).trans (m.fetched_sameCells.sameLayout a)
    obtain ⟨hmatch, hres⟩ := ih _ _ hready hroom' hbody
    obtain ⟨hsave, hregs⟩ := hres.save io hm hroom hpush hpop
    rw [← afterTree_save] at hsave hregs
    exact ⟨⟨hmatch, hregs⟩, hsave⟩
  | call k d body rd ih =>
    obtain ⟨hk, hext, hcall, hbody, hret⟩ := hruns
    have hpre := hm.steps_ext io hk hext
    have hin : Entered ((step io)^[k] m) (m.inProcedure io k d)
        (((step io)^[k] m).cpu.pc + if d then 4 else 2) := by
      refine hpre.quiet.call io hpre.caller ?_ hcall
      rw [hpre.sp]
      exact hpre.cells.stackWord (hroom.region.word 0 (Nat.lt_add_right _ Nat.one_pos))
    have hroom' : Room (m.inProcedure io k d).bus (m.inProcedure io k d).cpu.sp
        (withFrame live m.cpu.sp 1) body.words := by
      rw [hin.sp, hpre.sp]
      exact (Room.rest (n := 1) hroom).of_sameLayout fun a =>
        (hin.layout a).trans (hpre.cells.sameLayout a)
    obtain ⟨hmatch, hres⟩ := ih _ _ hin.ready hroom' hbody
    obtain ⟨hback, hpc⟩ := Resumes.call io hroom hpre hin hres hret
    rw [← afterTree_call] at hback hpc
    exact ⟨⟨hmatch, hpc⟩, hback⟩

instance (m : Machine D) (kind : Handler → Bool) (delayed : Bool) :
    Decidable (m.TransfersAt io kind delayed) :=
  decidable_of_iff (kind m.handlerAtPc = true ∧ m.insnAtPc.d = delayed ∧
      (m.cpu.pendingExtCount = 0 ∨ extCapable m.insnAtPc = true) ∧
      (delayed = true → delaySlotClass (m.step io).insnAtPc = .ok ∧
        (m.step io).handlerAtPc.regsOnly = true))
    ⟨fun ⟨hk, hf, he, hs⟩ => ⟨hk, hf, he, hs⟩, fun ⟨hk, hf, he, hs⟩ => ⟨hk, hf, he, hs⟩⟩

/-- A boot ROM with `ext 0; call.d f` and `ld.w %r0, 5` in its slot; `f` saves `%r1`, calls a
leaf, restores, and returns by a `ret.d` with a slot of its own. -/
def treeRom : Machine Unit :=
  { ofRom [0xC000, 0x1D03, 0x6C50, 0x0040,
      0x0201, 0x1C04, 0x0241, 0x0740, 0x6C50,
      0x6C50, 0x0640] with
    cpu := { pc := 0xC00000, sp := 0x102000, r := fun n => n.setWidth 32 } }

theorem call_tree_treeRom :
    let t : CallTree := .call 1 true (.save 1 (.call 0 false (.plain 1) false)) true
    treeRom.ReturnsMatch (IoSpace.empty Unit) t ∧
      Resumes (· = 0x102000) treeRom (treeRom.afterTree (IoSpace.empty Unit) t) := by
  refine call_tree (IoSpace.empty Unit) _ _ treeRom
    ⟨⟨rfl, fun _ => rfl, rfl, rfl, rfl⟩, rfl, rfl⟩ ⟨?_, ?_⟩ ?_
  · have hall : ∀ k < 4, Bus.classify treeRom.bus (Bus.below 0x102000 k) = .sram := by decide
    refine .of_words (fun k hk => ⟨?_, .inr ⟨hall k hk, ?_⟩⟩) (.inr hall)
    · revert k
      decide
    · revert k
      decide
  · rintro c rfl ⟨k, hk, hlo, hhi⟩
    revert k
    decide
  · exact ⟨by decide, by decide +kernel, by decide +kernel,
      ⟨by decide +kernel, ⟨by decide, by decide +kernel, by decide +kernel,
        runsTree_one _ (by decide +kernel), by decide +kernel⟩, by decide +kernel⟩,
      by decide +kernel⟩

end Machine
