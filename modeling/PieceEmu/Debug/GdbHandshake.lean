import PieceEmu.Lib.Run

/-!
# The handshake of the asynchronous debugger

With a debugger attached, the RSP thread hands every run command to the CPU loop and
blocks until the loop has stopped. Two variables carry the handshake, under different
protection: `async_run_cmd_` is an atomic, `async_stopped_` belongs to the mutex.

| thread | its steps |
|---|---|
| RSP, `run` | store the command; lock; clear `async_stopped_`; check it; block; wake |
| CPU loop | take the command; execute it; publish the reply under the lock; notify |

The command is visible before the flag is cleared. A CPU loop that executes the
command and publishes its reply in between has its reply cleared, and the RSP thread
waits for a notification that was already given (`GdbHandshake.quickStop_hangs`). In
every run in which no reply is published there, no command is lost and each is
answered once (`GdbHandshake.handshake_sound`).
-/

/-- `async_run_cmd_`. -/
inductive RunCmd
  | none
  | step
  | cont
  deriving DecidableEq, Repr

/-- Where the RSP thread is in `run`. -/
inductive RspThread
  /-- Between commands. -/
  | idle
  /-- The command is stored. -/
  | stored
  /-- The mutex is locked. -/
  | locked
  /-- About to check `async_stopped_`, with the mutex locked. -/
  | checking
  /-- Blocked in the condition variable. -/
  | waiting
  deriving DecidableEq, Repr

/-- Where the CPU loop is. -/
inductive CpuLoop
  /-- About to look for a command. -/
  | idle
  /-- A command is taken and executes. -/
  | executing
  /-- The CPU has stopped and the reply is made. -/
  | notifying (reply : String)
  /-- The reply is published, `notify_one` comes next. -/
  | signalling
  deriving DecidableEq, Repr

/-- What the two threads share, and where each of them is. -/
structure GdbHandshake where
  /-- `async_run_cmd_`. -/
  runCmd : RunCmd := .none
  /-- `async_stopped_`. -/
  stopped : Bool := false
  /-- `async_stop_reply_`. -/
  stopReply : String := ""
  /-- The RSP thread holds `async_mutex_`. -/
  held : Bool := false
  /-- The condition variable has woken the RSP thread. -/
  signalled : Bool := false
  rsp : RspThread := .idle
  cpu : CpuLoop := .idle
  /-- Ghost: how many commands were stored. -/
  issued : ℕ := 0
  /-- Ghost: the replies published, in order. -/
  made : List String := []
  /-- Ghost: the replies `run` has returned, in order. -/
  sent : List String := []

/-- One step of either thread. -/
inductive HandshakeAct
  /-- The RSP thread executes `c` or `s`. -/
  | command (single : Bool)
  /-- The RSP thread goes on. -/
  | rsp
  /-- The condition variable wakes the RSP thread of its own accord. -/
  | spurious
  /-- The CPU loop goes on. -/
  | cpu
  /-- The command the CPU loop executes comes to its end. -/
  | stop (reply : String)
  deriving DecidableEq, Repr

namespace GdbHandshake

/-! ### The steps -/

/-- The next step of `run`. -/
def rspStep (s : GdbHandshake) : GdbHandshake :=
  match s.rsp with
  | .idle => s
  | .stored => if s.held then s else { s with held := true, rsp := .locked }
  | .locked => { s with stopped := false, rsp := .checking }
  | .checking =>
    if s.stopped then
      { s with sent := s.sent ++ [s.stopReply], held := false, rsp := .idle }
    else { s with held := false, signalled := false, rsp := .waiting }
  | .waiting =>
    if s.signalled && !s.held then { s with held := true, rsp := .checking } else s

/-- The next step of the CPU loop: `take_async_run_cmd`, or the two halves of
`notify_async_stopped`. -/
def cpuStep (s : GdbHandshake) : GdbHandshake :=
  match s.cpu with
  | .idle => if s.runCmd = .none then s else { s with runCmd := .none, cpu := .executing }
  | .executing => s
  | .notifying reply =>
    if s.held then s
    else
      { s with
        stopReply := reply, stopped := true, cpu := .signalling, made := s.made ++ [reply] }
  | .signalling =>
    { s with signalled := s.signalled || s.rsp = .waiting, cpu := .idle }

/-- One step of either thread. -/
def step (s : GdbHandshake) : HandshakeAct → GdbHandshake
  | .command single =>
    match s.rsp with
    | .idle =>
      { s with
        runCmd := if single then .step else .cont, rsp := .stored, issued := s.issued + 1 }
    | _ => s
  | .rsp => s.rspStep
  | .spurious => { s with signalled := s.signalled || s.rsp = .waiting }
  | .cpu => s.cpuStep
  | .stop reply =>
    match s.cpu with
    | .executing => { s with cpu := .notifying reply }
    | _ => s

/-- The two threads before the first command. -/
def init : GdbHandshake := {}

/-! ### The statement -/

/-- The RSP thread waits for a stop, while no stop is flagged, no command is
outstanding and the notification for its command has been given. -/
def Hung (s : GdbHandshake) : Prop :=
  s.rsp = .waiting ∧ s.stopped = false ∧ s.runCmd = .none ∧ s.made.length = s.issued

/-- A reply is published before the RSP thread, which has stored its command, has
cleared the flag. -/
def StopsEarly (s : GdbHandshake) (a : HandshakeAct) : Prop :=
  a = .cpu ∧ s.rsp = .stored ∧ ∃ reply, s.cpu = .notifying reply

/-- The steps of a run in which no reply is published early. -/
def Patient (s : GdbHandshake) (a : HandshakeAct) : Prop := ¬s.StopsEarly a

/-- **A sound handshake**, as one state shows it. -/
structure Sound (s : GdbHandshake) : Prop where
  /-- No wake-up is lost. -/
  awake : ¬s.Hung
  /-- Between commands, every command has been answered, by its own reply. -/
  answered : s.rsp = .idle → s.sent = s.made ∧ s.sent.length = s.issued
  /-- During a command, all commands before it have been answered, each once. -/
  pending : s.rsp ≠ .idle → s.sent.length + 1 = s.issued ∧ s.sent <+: s.made
  /-- The command can still be answered. -/
  answerable : s.rsp ≠ .idle →
    ∃ as, ActionRun.Along step Patient s as ∧ (ActionRun.exec step s as).rsp = .idle ∧
      (ActionRun.exec step s as).issued = s.issued

/-! ### The invariant -/

/-- A command is stored or executes, but not both. -/
def Outstanding (s : GdbHandshake) : Prop :=
  match s.cpu with
  | .idle | .signalling => s.runCmd ≠ .none
  | .executing | .notifying _ => s.runCmd = .none

/-- No command is stored or executes. -/
def Settled (s : GdbHandshake) : Prop :=
  s.runCmd = .none ∧ (s.cpu = .idle ∨ s.cpu = .signalling)

/-- The reply to the last command is not yet published. -/
def Unanswered (s : GdbHandshake) : Prop :=
  s.Outstanding ∧ s.sent = s.made ∧ s.issued = s.made.length + 1

/-- The reply to the last command is published and not yet returned. -/
def Published (s : GdbHandshake) : Prop :=
  s.Settled ∧ s.made = s.sent ++ [s.stopReply] ∧ s.issued = s.made.length

/-- **The invariant of a patient run.** -/
def Inv (s : GdbHandshake) : Prop :=
  match s.rsp with
  | .idle => s.held = false ∧ s.Settled ∧ s.sent = s.made ∧ s.issued = s.made.length
  | .stored => s.held = false ∧ s.Unanswered
  | .locked => s.held = true ∧ s.Unanswered
  | .checking => s.held = true ∧ if s.stopped then s.Published else s.Unanswered
  | .waiting =>
    s.held = false ∧
      if s.stopped then s.Published ∧ (s.signalled = true ∨ s.cpu = .signalling)
      else s.Unanswered

/-- No reply is early once the RSP thread holds the lock or waits. -/
theorem patient_of_ne {s : GdbHandshake} {a : HandshakeAct} (h : s.rsp ≠ .stored) : s.Patient a :=
  fun he => h he.2.1

/-- No reply is published by a step that is not the CPU loop's. -/
theorem patient_of_ne_cpu {s : GdbHandshake} {a : HandshakeAct} (h : a ≠ .cpu) : s.Patient a :=
  fun he => h he.1

theorem Inv.init : init.Inv := ⟨rfl, ⟨rfl, .inl rfl⟩, rfl, rfl⟩

variable {s : GdbHandshake}

/-! ### The steps keep the invariant -/

theorem Inv.command (h : s.Inv) (single : Bool) : (s.step (.command single)).Inv := by
  unfold step
  dsimp only
  split
  · rename_i hr
    rw [Inv, hr] at h
    obtain ⟨hheld, ⟨-, hcpu⟩, hsent, hissued⟩ := h
    refine ⟨hheld, ?_, hsent, congrArg (· + 1) hissued⟩
    rcases hcpu with hcpu | hcpu <;> simp only [Outstanding, hcpu] <;> cases single <;> decide
  · exact h

theorem Inv.rspStep (h : s.Inv) : s.rspStep.Inv := by
  unfold GdbHandshake.rspStep
  split
  · exact h
  · rename_i hr
    rw [Inv, hr] at h
    rw [h.1, if_neg Bool.false_ne_true]
    exact ⟨rfl, h.2⟩
  · rename_i hr
    rw [Inv, hr] at h
    exact ⟨h.1, h.2⟩
  · rename_i hr
    rw [Inv, hr] at h
    obtain ⟨-, h⟩ := h
    split_ifs with hs
    · rw [if_pos hs] at h
      obtain ⟨hset, hmade, hissued⟩ := h
      exact ⟨rfl, hset, hmade.symm, hissued⟩
    · rw [if_neg hs] at h
      exact ⟨rfl, by rw [if_neg hs]; exact h⟩
  · rename_i hr
    rw [Inv, hr] at h
    obtain ⟨hheld, h⟩ := h
    split_ifs with hw
    · refine ⟨rfl, ?_⟩
      split_ifs with hs
      · rw [if_pos hs] at h
        exact h.1
      · rw [if_neg hs] at h
        exact h
    · rw [Inv, hr]
      exact ⟨hheld, h⟩

/-- Taking a command leaves it outstanding. -/
theorem Unanswered.take (h : s.Unanswered) :
    { s with runCmd := .none, cpu := .executing : GdbHandshake }.Unanswered :=
  ⟨rfl, h.2⟩

/-- Publishing its reply settles it. -/
theorem Unanswered.publish (h : s.Unanswered) {reply : String} (hcpu : s.cpu = .notifying reply) :
    { s with stopReply := reply, stopped := true, cpu := .signalling
             made := s.made ++ [reply] : GdbHandshake }.Published := by
  obtain ⟨hout, hsent, hissued⟩ := h
  rw [Outstanding, hcpu] at hout
  refine ⟨⟨hout, .inr rfl⟩, congrArg (· ++ [reply]) hsent.symm, ?_⟩
  simpa using hissued

/-- The CPU loop without a settled command is not about to notify. -/
theorem Settled.cpu_ne (h : s.Settled) :
    s.cpu ≠ .executing ∧ ∀ reply, s.cpu ≠ .notifying reply := by
  rcases h.2 with h | h <;> rw [h] <;> exact ⟨nofun, nofun⟩

theorem Inv.take (h : s.Inv) (hcmd : s.runCmd ≠ .none) :
    { s with runCmd := .none, cpu := .executing : GdbHandshake }.Inv := by
  unfold Inv at h ⊢
  dsimp only
  split at h
  · exact absurd h.2.1.1 hcmd
  · exact ⟨h.1, h.2.take⟩
  · exact ⟨h.1, h.2.take⟩
  · refine ⟨h.1, ?_⟩
    obtain ⟨-, h⟩ := h
    split_ifs with hs
    · rw [if_pos hs] at h
      exact absurd h.1.1 hcmd
    · rw [if_neg hs] at h
      exact h.take
  · refine ⟨h.1, ?_⟩
    obtain ⟨-, h⟩ := h
    split_ifs with hs
    · rw [if_pos hs] at h
      exact absurd h.1.1.1 hcmd
    · rw [if_neg hs] at h
      exact h.take

theorem Inv.publish (h : s.Inv) {reply : String} (hcpu : s.cpu = .notifying reply)
    (hheld : s.held = false) (hpat : s.rsp ≠ .stored) :
    { s with stopReply := reply, stopped := true, cpu := .signalling
             made := s.made ++ [reply] : GdbHandshake }.Inv := by
  unfold Inv at h ⊢
  dsimp only
  split at h
  · exact absurd hcpu (h.2.1.cpu_ne.2 reply)
  · rename_i hr
    exact absurd hr hpat
  · exact absurd (h.1.symm.trans hheld) Bool.noConfusion
  · exact absurd (h.1.symm.trans hheld) Bool.noConfusion
  · obtain ⟨-, h⟩ := h
    rw [if_pos rfl]
    refine ⟨hheld, ?_, .inr rfl⟩
    split_ifs at h with hs
    · exact absurd hcpu (h.1.1.cpu_ne.2 reply)
    · exact h.publish hcpu

theorem Inv.signal (h : s.Inv) (hcpu : s.cpu = .signalling) :
    { s with signalled := s.signalled || s.rsp = .waiting, cpu := .idle : GdbHandshake }.Inv := by
  have hout : s.Unanswered → { s with
      signalled := s.signalled || s.rsp = .waiting, cpu := .idle : GdbHandshake }.Unanswered := by
    rintro ⟨hout, hu⟩
    rw [Outstanding, hcpu] at hout
    exact ⟨hout, hu⟩
  unfold Inv at h ⊢
  dsimp only
  split at h
  · exact ⟨h.1, ⟨h.2.1.1, .inl rfl⟩, h.2.2⟩
  · exact ⟨h.1, hout h.2⟩
  · exact ⟨h.1, hout h.2⟩
  · refine ⟨h.1, ?_⟩
    obtain ⟨-, h⟩ := h
    split_ifs with hs
    · rw [if_pos hs] at h
      exact ⟨⟨h.1.1, .inl rfl⟩, h.2⟩
    · rw [if_neg hs] at h
      exact hout h
  · rename_i hr
    refine ⟨h.1, ?_⟩
    obtain ⟨-, h⟩ := h
    split_ifs with hs
    · rw [if_pos hs] at h
      exact ⟨⟨⟨h.1.1.1, .inl rfl⟩, h.1.2⟩, .inl (by simp [hr])⟩
    · rw [if_neg hs] at h
      exact hout h

theorem Inv.cpuStep (h : s.Inv) (hpat : s.Patient .cpu) : s.cpuStep.Inv := by
  unfold GdbHandshake.cpuStep
  split
  · split_ifs with hcmd
    · exact h
    · exact h.take hcmd
  · exact h
  · rename_i reply hcpu
    split_ifs with hheld
    · exact h
    · exact h.publish hcpu (Bool.eq_false_iff.mpr hheld) fun hr => hpat ⟨rfl, hr, reply, hcpu⟩
  · rename_i hcpu
    exact h.signal hcpu

/-- Waking the RSP thread too early only makes it check again. -/
theorem Inv.spurious (h : s.Inv) : (s.step .spurious).Inv := by
  unfold step Inv at *
  dsimp only at *
  split at h
  · exact h
  · exact h
  · exact h
  · exact h
  · refine ⟨h.1, ?_⟩
    obtain ⟨-, h⟩ := h
    split_ifs with hs
    · rw [if_pos hs] at h
      exact ⟨h.1, h.2.imp_left fun hsig => by rw [hsig, Bool.true_or]⟩
    · rw [if_neg hs] at h
      exact h

theorem Inv.stop (h : s.Inv) (reply : String) : (s.step (.stop reply)).Inv := by
  unfold step
  dsimp only
  split
  case h_2 => exact h
  rename_i hcpu
  have hset (hs : s.Settled) : False := hs.cpu_ne.1 hcpu
  have hout (hu : s.Unanswered) : { s with cpu := .notifying reply : GdbHandshake }.Unanswered := by
    obtain ⟨hout, hu⟩ := hu
    rw [Outstanding, hcpu] at hout
    exact ⟨hout, hu⟩
  unfold Inv at h ⊢
  dsimp only
  split at h
  · exact absurd h.2.1 hset
  · exact ⟨h.1, hout h.2⟩
  · exact ⟨h.1, hout h.2⟩
  · refine ⟨h.1, ?_⟩
    obtain ⟨-, h⟩ := h
    split_ifs at h ⊢ with hs
    · exact absurd h.1 hset
    · exact hout h
  · refine ⟨h.1, ?_⟩
    obtain ⟨-, h⟩ := h
    split_ifs at h ⊢ with hs
    · exact absurd h.1.1 hset
    · exact hout h

/-- **A patient step keeps the invariant.** -/
theorem Inv.step (h : s.Inv) {a : HandshakeAct} (hpat : s.Patient a) : (s.step a).Inv := by
  cases a with
  | command single => exact h.command single
  | rsp => exact h.rspStep
  | spurious => exact h.spurious
  | cpu => exact h.cpuStep hpat
  | stop reply => exact h.stop reply

/-! ### Every command can be answered -/

/-- How far the RSP thread is from the end of `run`. -/
def rspRank (s : GdbHandshake) : ℕ :=
  match s.rsp with
  | .idle => 0
  | .stored => 9
  | .locked => 8
  | .checking => if s.stopped then 1 else 7
  | .waiting => if s.stopped then 2 else 6

/-- How far the CPU loop is from the end of its command. -/
def cpuRank (s : GdbHandshake) : ℕ :=
  match s.cpu with
  | .idle => if s.runCmd = .none then 0 else 4
  | .executing => 3
  | .notifying _ => 2
  | .signalling => if s.runCmd = .none then 1 else 5

/-- The steps still to be taken for the current command. -/
def rank (s : GdbHandshake) : ℕ := s.rspRank + s.cpuRank

/-- One of the two threads can bring the current command closer to its answer. -/
def Advances (s : GdbHandshake) : Prop :=
  ∃ a, s.Patient a ∧ (s.step a).rank < s.rank ∧ (s.step a).issued = s.issued

/-- A blocked RSP thread lets the CPU loop go on. -/
theorem Unanswered.advances (h : s.Unanswered) (hr : s.rsp = .waiting) (hheld : s.held = false)
    (hs : s.stopped = false) : s.Advances := by
  have hpat (a : HandshakeAct) : s.Patient a := patient_of_ne (by rw [hr]; exact nofun)
  obtain ⟨hout, -⟩ := h
  unfold Outstanding at hout
  split at hout
  · rename_i hcpu
    refine ⟨.cpu, hpat _, ?_, ?_⟩ <;>
      simp [GdbHandshake.step, GdbHandshake.cpuStep, rank, rspRank, cpuRank, hcpu, hr, hs, hout]
  · rename_i hcpu
    refine ⟨.cpu, hpat _, ?_, ?_⟩ <;>
      simp [GdbHandshake.step, GdbHandshake.cpuStep, rank, rspRank, cpuRank, hcpu, hr, hs, hout]
  · rename_i hcpu
    refine ⟨.stop "", hpat _, ?_, ?_⟩ <;>
      simp [GdbHandshake.step, rank, rspRank, cpuRank, hcpu, hr, hs]
  · rename_i reply hcpu
    refine ⟨.cpu, hpat _, ?_, ?_⟩ <;>
      simp [GdbHandshake.step, GdbHandshake.cpuStep, rank, rspRank, cpuRank, hcpu, hr, hs, hheld,
        hout]

theorem Inv.advances (h : s.Inv) (hr : s.rsp ≠ .idle) : s.Advances := by
  have hrsp : s.Patient .rsp := fun he => nomatch he.1
  unfold Inv at h
  split at h
  · exact absurd (by assumption) hr
  · rename_i hr
    refine ⟨.rsp, hrsp, ?_, ?_⟩ <;>
      simp [GdbHandshake.step, GdbHandshake.rspStep, rank, rspRank, cpuRank, hr, h.1]
  · rename_i hr
    refine ⟨.rsp, hrsp, ?_, ?_⟩ <;>
      simp [GdbHandshake.step, GdbHandshake.rspStep, rank, rspRank, cpuRank, hr]
  · rename_i hr
    refine ⟨.rsp, hrsp, ?_, ?_⟩ <;> cases hs : s.stopped <;>
      simp [GdbHandshake.step, GdbHandshake.rspStep, rank, rspRank, cpuRank, hr, hs]
  · rename_i hr
    obtain ⟨hheld, h⟩ := h
    cases hs : s.stopped with
    | false =>
      rw [hs, if_neg Bool.false_ne_true] at h
      exact h.advances hr hheld hs
    | true =>
      rw [hs, if_pos rfl] at h
      obtain ⟨⟨⟨hcmd, -⟩, -⟩, hsig⟩ := h
      by_cases hw : s.signalled = true
      · refine ⟨.rsp, hrsp, ?_, ?_⟩ <;>
          simp [GdbHandshake.step, GdbHandshake.rspStep, rank, rspRank, cpuRank, hr, hs, hw, hheld]
      · have hcpu := hsig.resolve_left hw
        refine ⟨.cpu, patient_of_ne (by rw [hr]; exact nofun), ?_, ?_⟩ <;>
          simp [GdbHandshake.step, GdbHandshake.cpuStep, rank, rspRank, cpuRank, hcpu, hr, hs, hcmd]

/-- **The current command can be answered**, whatever the two threads have done so far. -/
theorem Inv.answerable (h : s.Inv) : ∃ as, ActionRun.Along GdbHandshake.step Patient s as ∧
    (ActionRun.exec GdbHandshake.step s as).rsp = .idle ∧
      (ActionRun.exec GdbHandshake.step s as).issued = s.issued := by
  generalize hn : s.rank = n
  induction n using Nat.strongRecOn generalizing s with
  | ind n ih =>
    by_cases hr : s.rsp = .idle
    · exact ⟨[], trivial, hr, rfl⟩
    obtain ⟨a, hpat, hlt, hissued⟩ := h.advances hr
    obtain ⟨as, halong, hidle, has⟩ := ih _ (hn ▸ hlt) (h.step hpat) rfl
    exact ⟨a :: as, ⟨hpat, halong⟩, hidle, has.trans hissued⟩

/-! ### The handshake -/

theorem Inv.sound (h : s.Inv) : s.Sound where
  awake := by
    rintro ⟨hr, hs, -, hmade⟩
    rw [Inv, hr] at h
    obtain ⟨-, h⟩ := h
    rw [hs, if_neg Bool.false_ne_true] at h
    have := h.2.2
    omega
  answered := fun hr => by
    rw [Inv, hr] at h
    obtain ⟨-, -, hsent, hissued⟩ := h
    exact ⟨hsent, hsent ▸ hissued.symm⟩
  pending := fun hr => by
    have hun (hu : s.Unanswered) : s.sent.length + 1 = s.issued ∧ s.sent <+: s.made := by
      obtain ⟨-, hsent, hissued⟩ := hu
      exact ⟨hsent ▸ hissued.symm, hsent ▸ List.prefix_refl _⟩
    have hpub (hp : s.Published) : s.sent.length + 1 = s.issued ∧ s.sent <+: s.made := by
      obtain ⟨-, hmade, hissued⟩ := hp
      rw [hissued, hmade]
      exact ⟨by simp, List.prefix_append ..⟩
    unfold Inv at h
    split at h
    · exact absurd (by assumption) hr
    · exact hun h.2
    · exact hun h.2
    · obtain ⟨-, h⟩ := h
      split_ifs at h
      · exact hpub h
      · exact hun h
    · obtain ⟨-, h⟩ := h
      split_ifs at h
      · exact hpub h.1
      · exact hun h
  answerable := fun _ => h.answerable

/-- **No wake-up is lost and every command is answered once**, in every run in which no
reply is published before the RSP thread has cleared the flag. -/
theorem handshake_sound (as : List HandshakeAct) (h : ActionRun.Along step Patient init as) :
    (ActionRun.exec step init as).Sound := by
  have hinv : (ActionRun.exec step init as).Inv :=
    ActionRun.exec_invariant (fun _ _ h hpat => h.step hpat) Inv.init h
  exact hinv.sound

/-- A command taken only once the RSP thread waits for it is patient. -/
theorem handshake_sound_slow :
    (ActionRun.exec step init [.command true, .rsp, .rsp, .rsp, .cpu, .stop "T05thread:1;", .cpu,
      .cpu, .rsp, .rsp]).Sound :=
  handshake_sound _
    ⟨patient_of_ne_cpu nofun, patient_of_ne_cpu nofun, patient_of_ne_cpu nofun,
      patient_of_ne_cpu nofun, patient_of_ne (by decide), patient_of_ne_cpu nofun,
      patient_of_ne (by decide), patient_of_ne (by decide), patient_of_ne_cpu nofun,
      patient_of_ne_cpu nofun, trivial⟩

/-- **An early reply always hangs the debugger**: the RSP thread, going on, clears the
flag it was to wait for. -/
theorem Inv.hung_of_stopsEarly {s : GdbHandshake} (h : s.Inv) {a : HandshakeAct}
    (he : s.StopsEarly a) : (ActionRun.exec GdbHandshake.step s [a, .rsp, .rsp, .rsp]).Hung := by
  obtain ⟨rfl, hr, reply, hcpu⟩ := he
  rw [Inv, hr] at h
  obtain ⟨hheld, hout, -, hissued⟩ := h
  rw [Outstanding, hcpu] at hout
  have hpub : s.step .cpu = { s with stopReply := reply, stopped := true, cpu := .signalling
                                     made := s.made ++ [reply] } := by
    simp only [GdbHandshake.step, GdbHandshake.cpuStep, hcpu, hheld, Bool.false_eq_true, if_false]
  rw [ActionRun.exec_cons, hpub]
  simp only [ActionRun.exec_cons, ActionRun.exec_nil, GdbHandshake.step, GdbHandshake.rspStep, hr,
    hheld, Bool.false_eq_true, if_false]
  exact ⟨rfl, rfl, hout, List.length_append.trans hissued.symm⟩

/-- **The defect**: a CPU loop that is quick enough leaves the RSP thread waiting for
good. -/
theorem quickStop_hangs : ¬∀ as, (ActionRun.exec step init as).Sound := by
  intro h
  refine (h [.command true, .cpu, .stop "T05thread:1;", .cpu, .cpu, .rsp, .rsp, .rsp]).awake ?_
  exact ⟨rfl, rfl, rfl, rfl⟩

end GdbHandshake
