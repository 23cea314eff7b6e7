import PieceEmu.Board.FlashEffect
import PieceEmu.Lib.Run

/-!
# The command machine, read off the history of writes

The state of the command machine is a memory of the last few writes, and nothing
else: each state that matters stands for one sequence of bus cycles, and the
machine is in it only when exactly these cycles came last. `Sst39vf.required`
names the sequence of a state, and `Sst39vf.required_write16` is the one fact the
induction over histories needs: a write either extends the sequence by its own
cycle, or throws it away.

| state | the cycles that came last |
|---|---|
| `Enter1` … `Enter5` | the first one to five of `Sst39vf.eraseUnlock` |
| `WordProgram` | `Sst39vf.programUnlock` |
| the others | – |

Memory changes in two states only, so it changes only behind a complete unlock
sequence (`Sst39vf.mem_change_unlocked`); and behind one that the read mode has seen from
its start, it does change (`Sst39vf.change_of_unlocked`).
-/

namespace Sst39vf

/-- A call that drives the command machine. -/
inductive FlashOp
  /-- `write16(offset, data)`. -/
  | write (offset : U32) (data : U16)
  /-- `reset()`. -/
  | reset

/-- What a call makes of the device. -/
def FlashOp.apply (f : Sst39vf) : FlashOp → Sst39vf
  | .write offset data => (f.write16 offset data).1
  | .reset => f.reset

/-- A bus cycle as the command machine sees it: a halfword address in the device,
and the low byte of the data. -/
abbrev Cycle := U32 × U8

/-- The cycle of a write. -/
def cycle (f : Sst39vf) (offset : U32) (data : U16) : Cycle :=
  (f.maskOffset offset >>> 1, data.setWidth 8)

/-- The cycle of a call: a reset is none. -/
def cycle? (f : Sst39vf) : FlashOp → Option Cycle
  | .write offset data => some (f.cycle offset data)
  | .reset => none

/-- **The calls end with these cycles**: the last calls are writes, no reset among
them, and show exactly these cycles to the device. -/
def EndsWith (f : Sst39vf) (ops : List FlashOp) (cycles : List Cycle) : Prop :=
  cycles.map some <:+ ops.map f.cycle?

/-- The cycles that unlock a word program. -/
def programUnlock : List Cycle := [(0x5555, 0xAA), (0x2AAA, 0x55), (0x5555, 0xA0)]

/-- The cycles that unlock an erase. -/
def eraseUnlock : List Cycle :=
  [(0x5555, 0xAA), (0x2AAA, 0x55), (0x5555, 0x80), (0x5555, 0xAA), (0x2AAA, 0x55)]

/-- The cycles that came last when the machine is in a state. -/
def required : FlashState → List Cycle
  | .normal | .softwareId | .cfiQuery => []
  | .enter1 => eraseUnlock.take 1
  | .enter2 => eraseUnlock.take 2
  | .enter3 => eraseUnlock.take 3
  | .enter4 => eraseUnlock.take 4
  | .enter5 => eraseUnlock
  | .wordProgram => programUnlock

variable (f : Sst39vf)

/-- **A write extends the sequence of its state by its own cycle, or throws the
sequence away.** -/
theorem required_write16 (offset : U32) (data : U16) :
    required (f.write16 offset data).1.state = required f.state ++ [f.cycle offset data] ∨
      required (f.write16 offset data).1.state = [] := by
  unfold write16 cycle
  cases hs : f.state <;> simp only [reduceCtorEq, ne_eq, not_false_eq_true, true_and,
    not_true_eq_false, false_and, if_false] <;>
    grind [required, eraseUnlock, programUnlock, cmdAddr1, cmdAddr2]

theorem maskOffset_congr {f g : Sst39vf} (h : f.memSize = g.memSize) (offset : U32) :
    f.maskOffset offset = g.maskOffset offset := by
  rw [maskOffset, maskOffset, h]

theorem EndsWith.append {f g : Sst39vf} {ops : List FlashOp} {cycles : List Cycle}
    (h : f.EndsWith ops cycles) (hg : g.memSize = f.memSize) (offset : U32) (data : U16) :
    f.EndsWith (ops ++ [.write offset data]) (cycles ++ [g.cycle offset data]) := by
  obtain ⟨pre, hpre⟩ := h
  refine ⟨pre, ?_⟩
  rw [List.map_append, List.map_append, ← hpre, List.append_assoc]
  simp only [List.map_cons, List.map_nil, cycle?, cycle, maskOffset_congr hg]

/-- **The state tells the history**, over every run of calls: the size of the
device stays, its state is one its size allows, and the cycles that the state
stands for came last. -/
theorem exec_required (h0 : f.state = .normal) (ops : List FlashOp) :
    (ActionRun.exec FlashOp.apply f ops).memSize = f.memSize ∧
      (ActionRun.exec FlashOp.apply f ops).Sized ∧
      f.EndsWith ops (required (ActionRun.exec FlashOp.apply f ops).state) := by
  refine ActionRun.exec_history
    (I := fun ops (g : Sst39vf) =>
      g.memSize = f.memSize ∧ g.Sized ∧ f.EndsWith ops (required g.state))
    ⟨rfl, fun h => absurd h0 h, ?_⟩ ?_ ops
  · rw [h0]
    exact List.suffix_rfl
  · rintro ops g op ⟨hsize, hg, hends⟩
    cases op with
    | reset => exact ⟨hsize, Sized.reset, List.nil_suffix⟩
    | write offset data =>
      refine ⟨(g.write16_memSize offset data).trans hsize, hg.write16 offset data, ?_⟩
      rcases g.required_write16 offset data with h | h
      · show f.EndsWith _ (required (g.write16 offset data).1.state)
        rw [h]
        exact hends.append hsize offset data
      · show f.EndsWith _ (required (g.write16 offset data).1.state)
        rw [h]
        exact List.nil_suffix

/-! ### Memory changes behind an unlock sequence only -/

/-- **The change of a word program**: one aligned halfword, both bytes of which
are bytes of the device, becomes the data. -/
def ProgramsHalfword (n : ℕ) (m m' : ℕ → U8) (offset : U32) (data : U16) : Prop :=
  offset.toNat % n / 2 * 2 + 1 < n ∧ m' = Words.putLe16 m (offset.toNat % n / 2 * 2) data

/-- **The change of an erase of one span**: the aligned span of `len` bytes around
the offset lies in the device, and becomes `FF`. -/
def ErasesSpan (n len : ℕ) (m m' : ℕ → U8) (offset : U32) : Prop :=
  offset.toNat % n / len * len + len ≤ n ∧
    m' = Words.fill m (offset.toNat % n / len * len) len 0xFF

/-- Rounding down to a halfword first does not move the span of an offset. -/
theorem halfword_div {x len : ℕ} (h : 2 ∣ len) : x / 2 * 2 / len * len = x / len * len := by
  obtain ⟨c, rfl⟩ := h
  rw [← Nat.div_div_eq_div_mul, ← Nat.div_div_eq_div_mul, Nat.mul_div_cancel _ (by decide)]

theorem construct_of_le {n : ℕ} (hn : n.isPowerOfTwo) (hle : 0x1000 ≤ n) :
    construct n = .ok ⟨n, hn, hle, fun _ => 0xFF, fun _ => false, .normal⟩ :=
  dif_pos ⟨hn, hle⟩

/-- **What a write that changes memory does**: it comes behind the complete unlock
sequence of a word program or of an erase, and changes exactly what the command
names, inside the device. -/
def UnlockedChange (ops : List FlashOp) (offset : U32) (data : U16) (m m' : ℕ → U8) : Prop :=
  (f.EndsWith ops programUnlock ∧ ProgramsHalfword f.memSize m m' offset data) ∨
  (f.EndsWith ops eraseUnlock ∧
    ((data.setWidth 8 = 0x30#8 ∧ ErasesSpan f.memSize sectorSize m m' offset) ∨
      (data.setWidth 8 = 0x50#8 ∧ ErasesSpan f.memSize blockSize m m' offset) ∨
      (f.cycle offset data = (0x5555, 0x10) ∧ m' = Words.fill m 0 f.memSize 0xFF)))

variable {f}

/-- The write in the program state programs its halfword. -/
theorem programsHalfword (hst : f.state = .wordProgram) (offset : U32) (data : U16) :
    ProgramsHalfword f.memSize f.mem (f.write16 offset data).1.mem offset data := by
  have he : f.effect? offset data = some (.program (f.maskOffset offset).toNat data) := by
    unfold effect?
    rw [hst]
  have hlt := f.toNat_maskOffset_add_one_lt offset
  rw [f.write16_mem_of_effect he, Effect.apply]
  rw [toNat_maskOffset] at hlt ⊢
  exact ⟨hlt, rfl⟩

/-- The sixth cycle of a sector or block erase erases its span. -/
theorem Sized.erasesSpan (hsized : f.Sized) {offset : U32} {data : U16} {len : ℕ} (hlen : 2 ∣ len)
    (he : f.effect? offset data = some (.erase ((f.maskOffset offset).toNat / len * len) len)) :
    ErasesSpan f.memSize len f.mem (f.write16 offset data).1.mem offset := by
  have hin := hsized.effect_inside he
  rw [f.write16_mem_of_effect he, Effect.apply]
  rw [toNat_maskOffset, halfword_div hlen] at hin ⊢
  exact ⟨hin, rfl⟩

variable (f)

/-- The change of a write with an effect, in a state whose history is known. -/
theorem unlockedChange_of_effect {f g : Sst39vf} {ops : List FlashOp}
    (hsize : g.memSize = f.memSize) (hsized : g.Sized) (hends : f.EndsWith ops (required g.state))
    {offset : U32} {data : U16} {e : Effect} (he : g.effect? offset data = some e) :
    f.UnlockedChange ops offset data g.mem (g.write16 offset data).1.mem := by
  rcases g.effect?_cases he with ⟨hst, rfl⟩ | ⟨hst, hc, hA, rfl⟩ | ⟨hst, hc, rfl⟩ |
    ⟨hst, hc, rfl⟩ <;> rw [hst] at hends
  · exact .inl ⟨hends, hsize ▸ programsHalfword hst offset data⟩
  · refine .inr ⟨hends, .inr (.inr ⟨?_, ?_⟩)⟩
    · rw [cycle, maskOffset_congr hsize.symm, hA, hc]
      rfl
    · rw [g.write16_mem_of_effect he, hsize]
      rfl
  · exact .inr ⟨hends, .inl ⟨hc, hsize ▸ hsized.erasesSpan (by decide) he⟩⟩
  · exact .inr ⟨hends, .inr (.inl ⟨hc, hsize ▸ hsized.erasesSpan (by decide) he⟩)⟩

/-- **The command machine protects memory.** On a device of any admissible size,
after any calls from its construction on, only a write can change memory, and only
the way `Sst39vf.UnlockedChange` says. -/
theorem mem_change_unlocked (n : ℕ) (hn : n.isPowerOfTwo) (hle : 0x1000 ≤ n) :
    ∃ f₀ : Sst39vf, construct n = .ok f₀ ∧ f₀.memSize = n ∧
      ∀ (ops : List FlashOp) (op : FlashOp),
        let f := ActionRun.exec FlashOp.apply f₀ ops
        (op.apply f).mem ≠ f.mem → ∃ offset data, op = .write offset data ∧
          f₀.UnlockedChange ops offset data f.mem (op.apply f).mem := by
  refine ⟨_, construct_of_le hn hle, rfl, fun ops op => ?_⟩
  obtain ⟨hsize, hsized, hends⟩ := exec_required ⟨n, hn, hle, _, _, .normal⟩ rfl ops
  intro f hne
  cases op with
  | reset => exact absurd rfl hne
  | write offset data =>
    refine ⟨offset, data, rfl, ?_⟩
    cases he : f.effect? offset data with
    | none => exact absurd (f.write16_of_effect_none he).1 hne
    | some e => exact unlockedChange_of_effect hsize hsized hends he

/-- The device of 512 KB. -/
theorem mem_change_unlocked_512K :
    (0x80000).isPowerOfTwo ∧ 0x1000 ≤ 0x80000 ∧
    ∃ f₀ : Sst39vf, construct 0x80000 = .ok f₀ ∧ f₀.memSize = 0x80000 ∧
      ∀ (ops : List FlashOp) (op : FlashOp),
        let f := ActionRun.exec FlashOp.apply f₀ ops
        (op.apply f).mem ≠ f.mem → ∃ offset data, op = .write offset data ∧
          f₀.UnlockedChange ops offset data f.mem (op.apply f).mem :=
  ⟨⟨19, rfl⟩, by decide, mem_change_unlocked 0x80000 ⟨19, rfl⟩ (by decide)⟩

/-! ### A complete unlock sequence makes the change -/

/-- The next state of a machine in the middle of an unlock sequence. -/
def advance : FlashState → Cycle → Option FlashState
  | .normal, c => if c = (0x5555, 0xAA) then some .enter1 else none
  | .enter1, c => if c = (0x2AAA, 0x55) then some .enter2 else none
  | .enter2, c =>
    if c = (0x5555, 0xA0) then some .wordProgram
    else if c = (0x5555, 0x80) then some .enter3
    else none
  | .enter3, c => if c = (0x5555, 0xAA) then some .enter4 else none
  | .enter4, c => if c = (0x2AAA, 0x55) then some .enter5 else none
  | _, _ => none

/-- **A cycle of an unlock sequence** changes the state only. -/
theorem write16_advance {f : Sst39vf} {offset : U32} {data : U16} {next : FlashState}
    (h : advance f.state (f.cycle offset data) = some next) :
    (f.write16 offset data).1 = { f with state := next } := by
  unfold advance cycle at h
  unfold write16
  cases hs : f.state <;> simp only [hs, Prod.mk.injEq] at h <;>
    grind [cmdAddr1, cmdAddr2]

/-- The state after a row of cycles. -/
theorem exec_advance {f : Sst39vf} {ws : List (U32 × U16)} {next : FlashState}
    (h : (ws.map fun w => f.cycle w.1 w.2).foldlM advance f.state = some next) :
    ActionRun.exec FlashOp.apply f (ws.map fun w => .write w.1 w.2) = { f with state := next } := by
  induction ws generalizing f with
  | nil =>
    obtain rfl := Option.some.inj h
    rfl
  | cons w ws ih =>
    obtain ⟨s, hs, hrest⟩ := Option.bind_eq_some_iff.mp h
    have hstep := write16_advance hs
    change ActionRun.exec FlashOp.apply (f.write16 w.1 w.2).1 _ = _
    rw [hstep]
    exact ih (f := { f with state := s }) hrest

/-- **A complete unlock sequence makes the change.** On a device in its read mode, after writes
that show exactly the cycles of a sequence, memory is as it was, and the write that follows
programs its halfword or erases what its cycle names. -/
theorem change_of_unlocked {f : Sst39vf} (hread : f.state = .normal) {ws : List (U32 × U16)}
    (offset : U32) (data : U16) :
    let g := ActionRun.exec FlashOp.apply f (ws.map fun w => .write w.1 w.2)
    let m := (g.write16 offset data).1.mem
    (ws.map (fun w => f.cycle w.1 w.2) = programUnlock →
      g.mem = f.mem ∧ ProgramsHalfword f.memSize f.mem m offset data) ∧
    (ws.map (fun w => f.cycle w.1 w.2) = eraseUnlock →
      g.mem = f.mem ∧
        (data.setWidth 8 = 0x30#8 → ErasesSpan f.memSize sectorSize f.mem m offset) ∧
        (data.setWidth 8 = 0x50#8 → ErasesSpan f.memSize blockSize f.mem m offset) ∧
        (f.cycle offset data = (0x5555, 0x10) → m = Words.fill f.mem 0 f.memSize 0xFF)) := by
  intro g m
  have hsized : g.Sized := (exec_required f hread _).2.1
  constructor
  · intro hws
    -- the sequence has brought the device to where the next write is the change
    have hg : g = { f with state := .wordProgram } := exec_advance (by rw [hws, hread]; rfl)
    have hchange := programsHalfword (f := g) (by rw [hg]) offset data
    rw [show g.memSize = f.memSize by rw [hg], show g.mem = f.mem by rw [hg]] at hchange
    exact ⟨by rw [hg], hchange⟩
  · intro hws
    have hg : g = { f with state := .enter5 } := exec_advance (by rw [hws, hread]; rfl)
    have hst : g.state = .enter5 := by rw [hg]
    have hspan {len : ℕ} (hlen : 2 ∣ len)
        (he : g.effect? offset data = some (.erase ((g.maskOffset offset).toNat / len * len) len)) :
        ErasesSpan f.memSize len f.mem m offset := by
      have hchange := hsized.erasesSpan hlen he
      rwa [show g.memSize = f.memSize by rw [hg], show g.mem = f.mem by rw [hg]] at hchange
    refine ⟨by rw [hg], fun hc => hspan (by decide) ?_, fun hc => hspan (by decide) ?_,
      fun hcycle => ?_⟩
    · unfold effect?
      rw [hst, hc]
      rfl
    · unfold effect?
      rw [hst, hc]
      rfl
    · have hcycle' : g.cycle offset data = (0x5555, 0x10) := by
        rw [hg]
        exact hcycle
      have he : g.effect? offset data = some .eraseChip := by
        obtain ⟨hA, hc⟩ := Prod.mk.inj hcycle'
        unfold effect?
        rw [hst, hc]
        exact if_pos ⟨rfl, hA⟩
      change (g.write16 offset data).1.mem = _
      rw [g.write16_mem_of_effect he, show g.memSize = f.memSize by rw [hg],
        show g.mem = f.mem by rw [hg]]
      rfl

end Sst39vf
