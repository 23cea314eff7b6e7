import PieceEmu.Core.DebugErasure
import PieceEmu.Core.Wakeup
import PieceEmu.Debug.GdbTarget

/-!
# Running the target

`run` executes the target for the packets `s` and `c`: one step, or steps until the CPU
halts, a watchpoint is hit or a breakpoint is reached. A halted CPU is set going again at
the start, so that a `halt` ends a run but does not end the program.

The steps do not know of the stops: `Machine.freeStep` sets a halted CPU going and executes
one instruction, and wherever the debugger stops the target, whatever it then reads of the
registers and whichever break and watchpoints it sets, the target is at one of the states
of the free run (`GdbRsp.session_freeRun`). A `c` goes to the first state of that run
which has a reason to stop, and is answered if there is one (`GdbRsp.packet_continue_iff`).

While a client is connected the CPU is strict, and an instruction that accesses memory
does not come to execution in a delay slot. So that the callback of a watchpoint sets
`in_halt` is not seen by the step it happens in; it is seen by the loop, which looks at
`wp_hit_` as well, and the next run clears it.
-/

open CText

namespace Machine

variable {D : Type} (io : IoSpace D) (m : Machine D)

/-- `step_one`. -/
def stepOne : Machine D := ({ m with bus := { m.bus with debugPc := m.cpu.pc } }).step io

/-- The CPU is set going. -/
def resume : Machine D := m.mapCpu ({ · with inHalt := false, haltMode := .none })

/-- **A step of the free run**: a halted CPU is set going, and executes an instruction. -/
def freeStep : Machine D := m.resume.stepOne io

/-- The call of a watchpoint that `wp_hit_` stands for: the first since an earlier state. -/
def hitSince (before : Machine D) : Option WpCall :=
  (m.bus.wpCalls.drop before.bus.wpCalls.length).head?

/-- A CPU that runs is in no sleep mode. -/
def Roused : Prop := m.cpu.inHalt = false → m.cpu.haltMode = .none

/-- An instruction `mac` is at hand only with a layout on which its shortcut is one. -/
def MacSound : Prop := m.handlerAtPc = .mac → m.macLayout.Sound m.insnAtPc.rs

variable {io m}

theorem Roused.resume_eq (h : m.Roused) (hrun : m.cpu.inHalt = false) : m.resume = m := by
  obtain ⟨cpu, bus, breakpoints⟩ := m
  have hmode : cpu.haltMode = .none := h hrun
  unfold resume mapCpu
  congr
  rw [← hmode, ← hrun]

theorem Roused.mono (h : m.Roused) {m' : Machine D} (hmode : m'.cpu.haltMode = m.cpu.haltMode)
    (hhalt : m'.cpu.inHalt = false → m.cpu.inHalt = false) : m'.Roused :=
  fun hrun => hmode.trans (h (hhalt hrun))

theorem roused_of_none (h : m.cpu.haltMode = .none) : m.Roused := fun _ => h

theorem Roused.doTrap (h : m.Roused) (no level : ℤ) : (m.doTrap io no level).Roused := by
  obtain ⟨-, heq⟩ | ⟨-, -, heq⟩ | ⟨-, -, heq⟩ := m.doTrap_cases io no level
  · rwa [heq]
  · rw [heq]
    exact h.mono rfl id
  · rw [heq]
    exact roused_of_none rfl

theorem Roused.fireDeferred (h : m.Roused) : (m.fireDeferred io).Roused := by
  unfold Machine.fireDeferred
  split_ifs
  · exact Roused.doTrap (m := m.takeDeferred) (h.mono rfl id) _ _
  · exact h

theorem Roused.completeSlot (h : m.Roused) (inSlot : Bool) (target : U32) :
    (m.completeSlot inSlot target).Roused := by
  unfold Machine.completeSlot
  split_ifs
  · exact h.mono rfl id
  · exact h

theorem Roused.checkBusFault (h : m.Roused) : m.checkBusFault.Roused := by
  rcases m.checkBusFault_cpu with heq | heq
  · exact h.mono (by rw [heq]) (by rw [heq]; exact id)
  · exact h.mono (by rw [heq]) (by rw [heq]; exact nofun)

/-- A dispatched instruction leaves a sleep mode only with the CPU halted. -/
theorem Roused.run {i : Insn} (hnone : m.cpu.haltMode = .none) :
    ((Handler.ofInsn i).run io i m).Roused := by
  have hmode : m.ctl.haltMode = .none := hnone
  rcases (Handler.ofInsn i).ctlStep io i m with
    ⟨-, hc⟩ | ⟨-, _, _, hc⟩ | ⟨-, mode, heq⟩ | ⟨-, -, hc, -, -⟩ | ⟨-, hc⟩ | ⟨-, no, -, heq⟩
  · exact roused_of_none ((congrArg Ctl.haltMode hc).trans hmode)
  · exact roused_of_none ((congrArg Ctl.haltMode hc).trans hmode)
  · rw [heq]
    exact nofun
  · exact roused_of_none ((congrArg Ctl.haltMode hc).trans hmode)
  · exact roused_of_none ((congrArg Ctl.haltMode hc).trans hmode)
  · rw [heq]
    exact Roused.doTrap (m := m.flushExt) (roused_of_none hnone) no 0

theorem Roused.step (h : m.Roused) : (m.step io).Roused := by
  rcases m.stepCase io with ⟨-, heq⟩ | ⟨hh, -, heq⟩ | ⟨hrun, hcpu⟩ | ⟨hrun, m₁, hcpu, -, heq⟩
  · rwa [heq]
  · rw [heq]
    exact nofun
  · exact roused_of_none ((congrArg CpuState.haltMode hcpu).trans (h (m.running_iff.mp hrun).1))
  · rw [heq]
    have hnone : m₁.cpu.haltMode = .none := by
      rw [hcpu]
      exact h (m.running_iff.mp hrun).1
    exact (((Roused.run hnone).checkBusFault).completeSlot _ _).fireDeferred

/-- Whatever a step of the free run starts from, it ends roused. -/
theorem roused_freeStep : (m.freeStep io).Roused :=
  Roused.step (m := { m.resume with bus := _ }) (roused_of_none rfl)

/-! ### Without the debugger's notes -/

variable {d : DebugNotes}

/-- What decides of `MacSound`. -/
theorem macSound_congr {m' : Machine D} (hinsn : m'.insnAtPc = m.insnAtPc)
    (hlayout : m'.macLayout = m.macLayout) : m'.MacSound ↔ m.MacSound := by
  unfold MacSound handlerAtPc
  rw [hinsn, hlayout]

theorem macSound_bare : (m.bare d).MacSound ↔ m.MacSound := by
  refine macSound_congr ?_ rfl
  unfold insnAtPc
  rw [bare_cpu, m.fetch16_bare]
  rfl

theorem macSound_noted (pc : U32) :
    ({ m with bus := { m.bus with debugPc := pc } } : Machine D).MacSound ↔ m.MacSound := by
  refine macSound_congr (congrArg Insn.mk ?_) rfl
  change (Bus.fetch16 { m.bus with debugPc := pc } m.cpu.pc).1 = (m.bus.fetch16 m.cpu.pc).1
  simp only [Bus.fetch16, apply_ite Prod.fst]

/-- **The free run is blind to the notes**, where the shortcuts of `mac` are sound. -/
theorem freeStep_bare (hio : io.Blind) (h : m.MacSound) :
    (m.bare d).freeStep io = (m.freeStep io).bare d :=
  step_bare hio (d := d) { m.resume with bus := { m.resume.bus with debugPc := m.cpu.pc } }
    fun hmac _ => (macSound_noted (m := m.resume) m.cpu.pc).mpr h hmac.2.1

end Machine

/-! ### The packets that run the target -/

/-- The key of a watchpoint in a stop reply. -/
def WpType.key : WpType → List U8
  | .write => str "watch"
  | .read => str "rwatch"
  | .rw => str "awatch"

namespace GdbRsp

variable {D : Type} (io : IoSpace D)

/-- `make_async_stop_reply`. -/
def stopReply (m : Machine D) (hit : Option WpCall) : List U8 :=
  if m.cpu.fault then str "T04thread:1;"
  else
    match hit with
    | some call =>
      str "T05" ++ call.wp.type.key ++ ch ':' :: toHex32 call.addr ++ str ";thread:1;"
    | none => str "T05thread:1;"

/-- The loop of `run`, for at most `fuel` steps: the server, and the hit. -/
def runLoop : ℕ → GdbRsp D → Option (GdbRsp D × Option WpCall)
  | 0, _ => none
  | fuel + 1, g =>
    let m := g.machine.stepOne io
    match m.hitSince g.machine with
    | some call => some ({ g with machine := m }, some call)
    | none =>
      if m.cpu.inHalt || g.breakpoints m.cpu.pc then some ({ g with machine := m }, none)
      else runLoop fuel { g with machine := m }

/-- `run`, which is out of fuel when the target does not stop. -/
def run (fuel : ℕ) (single : Bool) (g : GdbRsp D) : Option (GdbRsp D × List U8) :=
  let g := { g with machine := g.machine.resume }
  if single then
    let m := g.machine.stepOne io
    some ({ g with machine := m }, stopReply m (m.hitSince g.machine))
  else (runLoop io fuel g).map fun (g, hit) => (g, stopReply g.machine hit)

/-- The target after `n` steps of the free run. -/
def after (g : GdbRsp D) (n : ℕ) : GdbRsp D :=
  { g with machine := (Machine.freeStep io)^[n] g.machine }

/-- The hit of the step `n` of the free run. -/
def hitAt (g : GdbRsp D) (n : ℕ) : Option WpCall :=
  (g.after io (n + 1)).machine.hitSince (g.after io n).machine

/-- **A reason to stop** after the step `n`: a watchpoint was hit, the CPU has halted, or a
breakpoint is reached. -/
def StopsAt (g : GdbRsp D) (n : ℕ) : Prop :=
  g.hitAt io n ≠ none ∨ (g.after io (n + 1)).machine.cpu.inHalt = true ∨
    g.breakpoints (g.after io (n + 1)).machine.cpu.pc = true

variable {io} {g : GdbRsp D}

theorem runLoop_of_stops (fuel : ℕ) (hg : g.machine.resume = g.machine) (h : g.StopsAt io 0) :
    runLoop io (fuel + 1) g = some (g.after io 1, g.hitAt io 0) := by
  have hstep : g.machine.stepOne io = g.machine.freeStep io :=
    congrArg (Machine.stepOne io) hg.symm
  rw [runLoop, hstep]
  cases hhit : (g.machine.freeStep io).hitSince g.machine with
  | some call => exact congrArg (fun hit => some (g.after io 1, hit)) hhit.symm
  | none =>
    have hstop : ((g.machine.freeStep io).cpu.inHalt ||
        g.breakpoints (g.machine.freeStep io).cpu.pc) = true := by
      rcases h with h | h | h
      · exact absurd hhit h
      · exact Bool.or_eq_true_iff.mpr (.inl h)
      · exact Bool.or_eq_true_iff.mpr (.inr h)
    dsimp only
    rw [if_pos hstop]
    exact congrArg (fun hit => some (g.after io 1, hit)) hhit.symm

theorem runLoop_of_not_stops (fuel : ℕ) (hg : g.machine.resume = g.machine)
    (h : ¬g.StopsAt io 0) :
    runLoop io (fuel + 1) g = runLoop io fuel { g with machine := g.machine.freeStep io } := by
  have hstep : g.machine.stepOne io = g.machine.freeStep io :=
    congrArg (Machine.stepOne io) hg.symm
  obtain ⟨hhit, hhalt, hpc⟩ : (g.machine.freeStep io).hitSince g.machine = none ∧
      (g.machine.freeStep io).cpu.inHalt ≠ true ∧
      g.breakpoints (g.machine.freeStep io).cpu.pc ≠ true := by
    obtain ⟨hhit, h⟩ := not_or.mp h
    exact ⟨not_not.mp hhit, not_or.mp h⟩
  rw [runLoop, hstep, hhit]
  dsimp only
  rw [if_neg (by simp [hhalt, hpc])]

/-- **The loop goes to the first reason to stop.** -/
theorem runLoop_eq_some_iff (fuel : ℕ) (hg : g.machine.resume = g.machine)
    {r : GdbRsp D × Option WpCall} :
    runLoop io fuel g = some r ↔ ∃ n < fuel, g.StopsAt io n ∧ (∀ i < n, ¬g.StopsAt io i) ∧
      r = (g.after io (n + 1), g.hitAt io n) := by
  induction fuel generalizing g with
  | zero => exact iff_of_false nofun fun ⟨n, hn, _⟩ => absurd hn (Nat.not_lt_zero n)
  | succ fuel ih =>
    by_cases h : g.StopsAt io 0
    · rw [runLoop_of_stops fuel hg h]
      constructor
      · intro heq
        exact ⟨0, Nat.succ_pos fuel, h, fun i hi => absurd hi (Nat.not_lt_zero i),
          (Option.some.inj heq).symm⟩
      · rintro ⟨n, -, -, hfirst, rfl⟩
        cases n with
        | zero => rfl
        | succ n => exact absurd h (hfirst 0 (Nat.succ_pos n))
    · have hnext : (g.machine.freeStep io).resume = g.machine.freeStep io :=
        Machine.roused_freeStep.resume_eq
          (Bool.eq_false_iff.mpr (not_or.mp (not_or.mp h).2).1)
      rw [runLoop_of_not_stops fuel hg h, ih hnext]
      constructor
      · rintro ⟨n, hn, hstop, hfirst, rfl⟩
        refine ⟨n + 1, Nat.succ_lt_succ hn, hstop, fun i hi => ?_, rfl⟩
        cases i with
        | zero => exact h
        | succ i => exact hfirst i (Nat.lt_of_succ_lt_succ hi)
      · rintro ⟨n, hn, hstop, hfirst, rfl⟩
        cases n with
        | zero => exact absurd hstop h
        | succ n =>
          exact ⟨n, Nat.lt_of_succ_lt_succ hn, hstop,
            fun i hi => hfirst (i + 1) (Nat.succ_lt_succ hi), rfl⟩

/-- The reset at the start of `run` changes no later state. -/
theorem hitAt_resume (n : ℕ) :
    ({ g with machine := g.machine.resume } : GdbRsp D).hitAt io n = g.hitAt io n := by
  cases n <;> rfl

theorem stopsAt_resume (n : ℕ) :
    ({ g with machine := g.machine.resume } : GdbRsp D).StopsAt io n ↔ g.StopsAt io n := by
  cases n <;> exact Iff.rfl

/-- `c`, with fuel. -/
theorem run_continue_eq_some_iff (fuel : ℕ) {g' : GdbRsp D} {reply : List U8} :
    run io fuel false g = some (g', reply) ↔
      ∃ n < fuel, g.StopsAt io n ∧ (∀ i < n, ¬g.StopsAt io i) ∧ g' = g.after io (n + 1) ∧
        reply = stopReply g'.machine (g.hitAt io n) := by
  have hrun : run io fuel false g =
      (runLoop io fuel { g with machine := g.machine.resume }).map
        fun r => (r.1, stopReply r.1.machine r.2) := rfl
  rw [hrun, Option.map_eq_some_iff]
  constructor
  · rintro ⟨r, hr, heq⟩
    obtain ⟨n, hn, hstop, hfirst, rfl⟩ := (runLoop_eq_some_iff fuel rfl).mp hr
    obtain ⟨rfl, rfl⟩ := Prod.mk.inj heq
    exact ⟨n, hn, (stopsAt_resume n).mp hstop, fun i hi h => hfirst i hi ((stopsAt_resume i).mpr h),
      rfl, congrArg (stopReply _) (hitAt_resume n)⟩
  · rintro ⟨n, hn, hstop, hfirst, rfl, rfl⟩
    refine ⟨_, (runLoop_eq_some_iff fuel rfl).mpr ⟨n, hn, (stopsAt_resume n).mpr hstop,
      fun i hi h => hfirst i hi ((stopsAt_resume i).mp h), rfl⟩, ?_⟩
    exact congrArg (fun hit => (g.after io (n + 1), stopReply _ hit)) (hitAt_resume n)

/-- **A `c` goes to the first state of the free run with a reason to stop**, and answers
with the reason. Given enough fuel it comes to an end exactly if there is such a state, and
where it ends does not depend on the fuel. -/
theorem run_continue_iff {D : Type} (io : IoSpace D) (g g' : GdbRsp D) (reply : List U8) :
    (∃ fuel, run io fuel false g = some (g', reply)) ↔
      ∃ n, g.StopsAt io n ∧ (∀ i < n, ¬g.StopsAt io i) ∧ g' = g.after io (n + 1) ∧
        reply = stopReply g'.machine (g.hitAt io n) := by
  constructor
  · rintro ⟨fuel, hrun⟩
    obtain ⟨n, -, h⟩ := (run_continue_eq_some_iff fuel).mp hrun
    exact ⟨n, h⟩
  · rintro ⟨n, h⟩
    exact ⟨n + 1, (run_continue_eq_some_iff (n + 1)).mpr ⟨n, Nat.lt_succ_self n, h⟩⟩

/-! ### Sessions -/

end GdbRsp

/-- The requests that neither run the target nor change its registers or its memory. -/
def TargetRequest.Observes : TargetRequest → Prop
  | readRegs | readReg _ | insert _ | remove _ => True
  | writeRegs _ | writeReg .. | readMem .. | writeMem .. => False

/-- A packet that resumes the target: `s`, `c` or `vCont;`, with anything behind it. -/
def ResumesTarget (pkt : List U8) : Prop :=
  str "s" <+: pkt ∨ str "c" <+: pkt ∨ str "vCont;" <+: pkt

instance : DecidablePred ResumesTarget := fun _ => inferInstanceAs (Decidable (_ ∨ _))

/-- A packet of a session that runs the target and looks at it. -/
def ControlPacket (pkt : List U8) : Prop :=
  ResumesTarget pkt ∨ ∃ r : TargetRequest, r.IsText pkt ∧ r.Observes

namespace GdbRsp

open RspM

variable {D : Type} {io : IoSpace D} {fuel : ℕ}

/-- A run that stops gives its reply. -/
theorem runTarget_ok {single : Bool} {s : RspSession D} {r : GdbRsp D × List U8}
    (h : run io fuel single s.server = some r) :
    (runTarget (run io fuel) single).run s =
      .ok r.2 { s with server := r.1, actions := s.actions ++ [.run single] } := by
  change runTarget (run io fuel) single s = _
  rw [runTarget, h]

/-- A run that does not stop gives none. -/
theorem runTarget_running {single : Bool} {s : RspSession D}
    (h : run io fuel single s.server = none) :
    (runTarget (run io fuel) single).run s =
      .error .running { s with actions := s.actions ++ [.run single] } := by
  change runTarget (run io fuel) single s = _
  rw [runTarget, h]

/-- A run of the target leads to a later state of its free run. -/
theorem run_runTarget (single : Bool) {f : List U8 → RspM D Unit} {s s' : RspSession D}
    (hf : ∀ data t, (f data).run t = .ok () (t.answered data))
    (hrun : (runTarget (run io fuel) single >>= f).run s = .ok () s') :
    ∃ n ≤ fuel, s'.server = s.server.after io (n + 1) := by
  cases hres : run io fuel single s.server with
  | none =>
    rw [run_bind_error (runTarget_running hres)] at hrun
    cases hrun
  | some res =>
    obtain ⟨server, reply⟩ := res
    rw [run_bind_ok (runTarget_ok hres), hf] at hrun
    obtain rfl := (EStateM.Result.ok.inj hrun).2
    cases single with
    | true =>
      obtain rfl := (Prod.mk.inj (Option.some.inj hres)).1
      exact ⟨0, Nat.zero_le fuel, rfl⟩
    | false =>
      obtain ⟨n, hn, -, -, rfl, -⟩ := (run_continue_eq_some_iff fuel).mp hres
      exact ⟨n, hn.le, rfl⟩

/-- A packet `c` is handled if its run stops, and then sends what the run gives. -/
theorem run_c_eq_ok_iff (rest : List U8) (s s' : RspSession D) :
    (handlePacket io (run io fuel) (ch 'c' :: rest)).run s = .ok () s' ↔
      ∃ g reply, run io fuel false s.server = some (g, reply) ∧
        s' = RspSession.answered
          { s with server := g, actions := s.actions ++ [.run false] } reply := by
  change (handleRun (run io fuel) false).run s = _ ↔ _
  cases hrun : run io fuel false s.server with
  | none =>
    rw [handleRun, run_bind_error (runTarget_running hrun)]
    constructor
    · intro h
      cases h
    · rintro ⟨_, _, h, -⟩
      cases h
  | some r =>
    rw [handleRun, run_bind_ok (runTarget_ok hrun)]
    constructor
    · intro h
      exact ⟨r.1, r.2, rfl, (EStateM.Result.ok.inj h).2.symm⟩
    · rintro ⟨_, _, h, rfl⟩
      obtain ⟨rfl, rfl⟩ := Prod.mk.inj (Option.some.inj h)
      rfl

/-- **A packet `c` takes the target to the first state of the free run with a reason to
stop**, and sends the stop reply for that reason. Given enough fuel it comes to an end
exactly if there is such a state. -/
theorem packet_continue_iff {D : Type} (io : IoSpace D) (rest : List U8) (s s' : RspSession D) :
    (∃ fuel, (handlePacket io (run io fuel) (ch 'c' :: rest)).run s = .ok () s') ↔
      ∃ n, s.server.StopsAt io n ∧ (∀ i < n, ¬s.server.StopsAt io i) ∧
        s' = RspSession.answered
          { s with server := s.server.after io (n + 1), actions := s.actions ++ [.run false] }
          (stopReply (s.server.after io (n + 1)).machine (s.server.hitAt io n)) := by
  constructor
  · rintro ⟨fuel, h⟩
    obtain ⟨g, reply, hrun, rfl⟩ := (run_c_eq_ok_iff rest s s').mp h
    obtain ⟨n, hstop, hfirst, rfl, rfl⟩ := (run_continue_iff io _ _ _).mp ⟨fuel, hrun⟩
    exact ⟨n, hstop, hfirst, rfl⟩
  · rintro ⟨n, hstop, hfirst, rfl⟩
    obtain ⟨fuel, hrun⟩ := (run_continue_iff io _ _ _).mpr ⟨n, hstop, hfirst, rfl, rfl⟩
    exact ⟨fuel, (run_c_eq_ok_iff rest s _).mpr ⟨_, _, hrun, rfl⟩⟩

/-- What a packet that resumes does. -/
theorem run_resumes {pkt : List U8} (h : ResumesTarget pkt) {s s' : RspSession D}
    (hrun : (handlePacket io (run io fuel) pkt).run s = .ok () s') :
    ∃ n ≤ fuel, s'.server = s.server.after io (n + 1) := by
  rcases h with ⟨rest, rfl⟩ | ⟨rest, rfl⟩ | ⟨rest, rfl⟩
  · exact run_runTarget true (fun _ _ => rfl) hrun
  · exact run_runTarget false (fun _ _ => rfl) hrun
  · have hne : str "vCont;" ++ rest ≠ str "vCont?" := by
      intro heq
      have h5 : some (ch ';') = some (ch '?') := congrArg (·[5]?) heq
      revert h5
      decide
    have hprefix : (str "vCont;").isPrefixOf (str "vCont;" ++ rest) = true :=
      List.isPrefixOf_iff_prefix.mpr (List.prefix_append ..)
    change (handleV (run io fuel) (str "vCont;" ++ rest)).run s = _ at hrun
    rw [handleV, if_neg hne, if_pos hprefix, run_lift_bind (charAt_of_le (by simp [str]))] at hrun
    exact run_runTarget _ (fun _ _ => rfl) hrun

/-- What the other packets of a session do. -/
theorem run_observes {r : TargetRequest} {pkt : List U8} (h : r.IsText pkt) (hr : r.Observes)
    {s s' : RspSession D} (hrun : (handlePacket io (run io fuel) pkt).run s = .ok () s')
    (d : DebugNotes) : s'.server.machine.bare d = s.server.machine.bare d := by
  cases r with
  | readRegs =>
    obtain rfl := h
    rw [run_g] at hrun
    obtain rfl := (EStateM.Result.ok.inj hrun).2
    rfl
  | readReg n =>
    obtain ⟨num, rfl, hnum⟩ := h
    rw [run_p io _ s hnum] at hrun
    obtain rfl := (EStateM.Result.ok.inj hrun).2
    rfl
  | insert pt =>
    obtain ⟨fields, rfl, hfields⟩ := h
    have hpoint := (run_point io .insert (ch 'Z') hfields s).symm.trans hrun
    obtain rfl := (EStateM.Result.ok.inj hpoint).2
    cases pt <;> rfl
  | remove pt =>
    obtain ⟨fields, rfl, hfields⟩ := h
    have hpoint := (run_point io .remove (ch 'z') hfields s).symm.trans hrun
    obtain rfl := (EStateM.Result.ok.inj hpoint).2
    cases pt <;> rfl
  | writeRegs | writeReg | readMem | writeMem => exact hr.elim

/-- The free run of a target, without the debugger's notes. -/
theorem after_bare (hio : io.Blind) {g : GdbRsp D} {d : DebugNotes} (n : ℕ)
    (hmac : ∀ i < n, ((Machine.freeStep io)^[i] (g.machine.bare d)).MacSound) :
    (g.after io n).machine.bare d = (Machine.freeStep io)^[n] (g.machine.bare d) := by
  induction n with
  | zero => rfl
  | succ n ih =>
    have hn := ih fun i hi => hmac i (Nat.lt_succ_of_lt hi)
    have hsound : (g.after io n).machine.MacSound := by
      have := hmac n (Nat.lt_succ_self n)
      rwa [← hn, Machine.macSound_bare] at this
    rw [Function.iterate_succ_apply', ← hn, Machine.freeStep_bare hio hsound]
    exact congrArg (Machine.bare · d) (Function.iterate_succ_apply' ..)

/-- **The debugger is not seen by the program it runs.** In every session that runs the
target with `s`, `c` and `vCont`, reads its registers and sets and removes break and
watchpoints, in any order, the target is, but for the notes of the watchpoints, in one of
the states of the free run from where the session began: no stop skips an instruction,
executes one twice or changes what one does. Each resumption gets at least one step on. -/
theorem session_freeRun {D : Type} (io : IoSpace D) (hio : io.Blind) (fuel : ℕ)
    (s s' : RspSession D) (d : DebugNotes) (packets : List (List U8))
    (hctl : ∀ pkt ∈ packets, ControlPacket pkt)
    (hmac : ∀ n < packets.length * (fuel + 1),
      ((Machine.freeStep io)^[n] (s.server.machine.bare d)).MacSound)
    (hrun : (packets.forM (handlePacket io (run io fuel))).run s = .ok () s') :
    ∃ n ≥ packets.countP (decide <| ResumesTarget ·),
      s'.server.machine.bare d = (Machine.freeStep io)^[n] (s.server.machine.bare d) := by
  induction packets generalizing s with
  | nil =>
    obtain rfl := (EStateM.Result.ok.inj hrun).2
    exact ⟨0, Nat.le_refl 0, rfl⟩
  | cons pkt packets ih =>
    have hbind : (handlePacket io (run io fuel) pkt >>= fun _ =>
        packets.forM (handlePacket io (run io fuel))).run s = .ok () s' := hrun
    have hlength : (pkt :: packets).length * (fuel + 1) =
        packets.length * (fuel + 1) + (fuel + 1) := Nat.succ_mul ..
    cases hpkt : (handlePacket io (run io fuel) pkt).run s with
    | error e s₁ =>
      rw [run_bind_error hpkt] at hbind
      cases hbind
    | ok _ s₁ =>
      rw [run_bind_ok hpkt] at hbind
      -- the packet leads some steps on in the free run
      obtain ⟨k, hk, hfuel, hs₁⟩ : ∃ k ≥ (if ResumesTarget pkt then 1 else 0), k ≤ fuel + 1 ∧
          s₁.server.machine.bare d = (Machine.freeStep io)^[k] (s.server.machine.bare d) := by
        by_cases hres : ResumesTarget pkt
        · obtain ⟨k, hfuel, hk⟩ := run_resumes hres hpkt
          refine ⟨k + 1, by rw [if_pos hres]; omega, by omega, ?_⟩
          rw [hk, after_bare hio _ fun i hi => hmac i (by omega)]
        · obtain ⟨r, htext, hr⟩ := (hctl pkt List.mem_cons_self).resolve_left hres
          exact ⟨0, by rw [if_neg hres], Nat.zero_le _, run_observes htext hr hpkt d⟩
      obtain ⟨n, hn, hs'⟩ := ih s₁ (fun p hp => hctl p (List.mem_cons_of_mem _ hp))
        (fun n hn => by
          rw [hs₁, ← Function.iterate_add_apply]
          exact hmac _ (by omega)) hbind
      refine ⟨n + k, ?_, by rw [hs', hs₁, ← Function.iterate_add_apply]⟩
      rw [List.countP_cons]
      simp only [decide_eq_true_eq]
      omega

/-- A target that counts `%r0` up, in a loop: `add %r0, 1` and `jp -1`. -/
def counting : GdbRsp Unit where
  machine :=
    { Machine.ofRom [0x6010, 0x1EFF] with cpu := { pc := 0xC00000 } }

/-- A breakpoint on the jump, a run to it, the registers, a step, and another run. -/
def countingPackets : List (List U8) :=
  [str "Z0,c00002,2", str "c", str "g", str "s", str "vCont;c"]

instance {D : Type} (m : Machine D) : Decidable m.MacSound :=
  inferInstanceAs (Decidable (_ → _))

theorem countingPackets_control : ∀ pkt ∈ countingPackets, ControlPacket pkt :=
  List.forall_mem_cons.mpr ⟨.inr ⟨.insert (.breakpoint 0xC00002), ⟨str "0,c00002,2", rfl,
    ch '0', str "c00002", str "2", 0xC00002, 2, rfl, ⟨by decide, by decide, by decide⟩,
    ⟨by decide, by decide, by decide⟩, by decide⟩, trivial⟩,
  List.forall_mem_cons.mpr ⟨.inl (by decide),
  List.forall_mem_cons.mpr ⟨.inr ⟨.readRegs, rfl, trivial⟩,
  List.forall_mem_cons.mpr ⟨.inl (by decide),
  List.forall_mem_cons.mpr ⟨.inl (by decide), nofun⟩⟩⟩⟩⟩

theorem session_freeRun_counting : ∃ s' n,
    (countingPackets.forM (handlePacket (.empty Unit) (run (.empty Unit) 2))).run
        { server := counting } = .ok () s' ∧ s'.server.machine.cpu.r 0 = 2 ∧ 3 ≤ n ∧
      s'.server.machine.bare ⟨[], fun _ => 0⟩ =
        (Machine.freeStep (.empty Unit))^[n] (counting.machine.bare ⟨[], fun _ => 0⟩) := by
  have hreturns : (match (countingPackets.forM
      (handlePacket (.empty Unit) (run (.empty Unit) 2))).run { server := counting } with
      | .ok _ s' => s'.server.machine.cpu.r 0 == 2
      | .error .. => false) = true := by
    decide +kernel
  cases hrun : (countingPackets.forM
      (handlePacket (.empty Unit) (run (.empty Unit) 2))).run { server := counting } with
  | error e s' =>
    rw [hrun] at hreturns
    cases hreturns
  | ok _ s' =>
    rw [hrun] at hreturns
    obtain ⟨n, hn, hs'⟩ := session_freeRun (.empty Unit) ⟨nofun, nofun, nofun⟩ 2 _ s'
      ⟨[], fun _ => 0⟩ countingPackets countingPackets_control (by decide +kernel) hrun
    exact ⟨s', n, rfl, eq_of_beq hreturns, hn, hs'⟩

end GdbRsp
