import PieceEmu.Board.DirtyCallback
import PieceEmu.System.WritebackMirror

/-!
# The debounce of the writeback

The writeback waits until the flash has been idle for the debounce time since the most
recent write. What it measures is the time since the dirty callback was last called, and
a write to a sector that is dirty already does not call it. `DebounceRun` keeps both
times next to a run of commands and polls:

| time | of what |
|---|---|
| `lastModified` | the last write that programmed or erased anything |
| `lastReported` | the last write that called the dirty callback |

With sectors dirty, the time stamp of the writeback is `lastReported`
(`DebounceRun.Stamped`), and 0 stands for “nothing pending”. So a poll is on time
(`DebounceRun.PollsOnTime`) exactly where these two facts do not matter
(`DebounceRun.StampSuffices`), along every run.
-/

namespace PfiWriteback

open Sst39vf (FlashOp)

/-! ### What the callback misses -/

/-- A command programs or erases something. -/
def modifies (f : Sst39vf) : FlashOp → Bool
  | .write offset data => (f.effect? offset data).isSome
  | .reset => false

/-- Only a modification calls the callback. -/
theorem modifies_of_dirtyCalls {f : Sst39vf} {op : FlashOp} (h : dirtyCalls f op ≠ []) :
    modifies f op = true := by
  cases op with
  | reset => exact absurd rfl h
  | write offset data =>
    cases he : f.effect? offset data with
    | none => exact absurd (f.write16_of_effect_none he).2.2 h
    | some e =>
      rw [modifies, he]
      rfl

/-- A command that does not call the callback makes no sector dirty. -/
theorem anyDirty_of_not_reported {f : Sst39vf} {op : FlashOp} (h : dirtyCalls f op = [])
    (hd : (op.apply f).anyDirty = true) : f.anyDirty = true := by
  cases op with
  | reset => exact hd
  | write offset data =>
    have hcalls : (f.write16 offset data).2 = [] := h
    -- a chip erase reports every sector, so the contract of the callback is kept
    by_cases hexact : f.ReportsTransitions offset data
    · obtain ⟨s, hs⟩ := List.exists_mem_of_ne_nil _ ((Sst39vf.anyDirty_iff _).mp hd)
      have hs : (f.write16 offset data).1.isSectorDirty s = true :=
        (Sst39vf.mem_forEachDirtySector _).mp hs
      have hcount := hexact s
      rw [hcalls, List.count_nil, hs] at hcount
      have hsector : f.isSectorDirty s = true := by
        by_contra hclean
        rw [Bool.not_eq_true] at hclean
        rw [hclean] at hcount
        exact absurd hcount (by decide)
      exact (Sst39vf.anyDirty_iff f).mpr
        (List.ne_nil_of_mem ((Sst39vf.mem_forEachDirtySector f).mpr hsector))
    · rw [Sst39vf.reportsTransitions_iff, not_not] at hexact
      exact hexact.2

/-- The writes of a flush keep the mode, the file and the debounce time. -/
theorem foldl_flushSector_settings (l : List ℕ) (w : PfiWriteback) (count : ℕ) :
    (l.foldl (flushSector allOk) (w, count)).1.mode = w.mode ∧
      (l.foldl (flushSector allOk) (w, count)).1.fileOpen = w.fileOpen ∧
      (l.foldl (flushSector allOk) (w, count)).1.debounceMs = w.debounceMs := by
  induction l generalizing w count with
  | nil => exact ⟨rfl, rfl, rfl⟩
  | cons s l ih => exact ih (w.copied s) (count + 1)

theorem flushDirtySectors_settings {w : PfiWriteback} (hopen : w.fileOpen = true) :
    (flushDirtySectors allOk w).1.mode = w.mode ∧
      (flushDirtySectors allOk w).1.fileOpen = w.fileOpen ∧
      (flushDirtySectors allOk w).1.debounceMs = w.debounceMs := by
  rw [flushDirtySectors_fst allOk hopen]
  split_ifs <;> exact foldl_flushSector_settings _ w 0

/-- After a flush no sector is dirty. -/
theorem anyDirty_flushed {w : PfiWriteback} (hopen : w.fileOpen = true) :
    (flushDirtySectors allOk w).1.flash.anyDirty = false := by
  rw [Bool.eq_false_iff, Ne, Sst39vf.anyDirty_iff, not_not, List.eq_nil_iff_forall_not_mem,
    flushDirtySectors_flash allOk hopen]
  intro s hs
  split_ifs at hs with hsome
  · have hdirty := (Sst39vf.mem_forEachDirtySector _).mp hs
    rw [isSectorDirty_clearDirty] at hdirty
    exact Bool.noConfusion hdirty
  · exact hsome ⟨s, hs, rfl⟩

/-! ### The run -/

/-- The time of an action. -/
def MirrorAct.time : MirrorAct → U64
  | .command _ nowUs => nowUs
  | .poll nowUs => nowUs

/-- A run of commands and polls, with the two times. -/
structure DebounceRun where
  run : MirrorRun
  now : U64
  lastModified : U64
  lastReported : U64

namespace DebounceRun

/-- One action. -/
def step (r : DebounceRun) : MirrorAct → DebounceRun
  | .command op nowUs =>
    { run := r.run.step (.command op nowUs)
      now := nowUs
      lastModified := if modifies r.run.writeback.flash op then nowUs else r.lastModified
      lastReported := if dirtyCalls r.run.writeback.flash op = [] then r.lastReported else nowUs }
  | .poll nowUs => { r with run := r.run.step (.poll nowUs), now := nowUs }

/-- A writeback that has just been attached. -/
def start (flash : Sst39vf) (file : ℕ → U8) (off : U32) (debounceMs : ℤ) : DebounceRun :=
  ⟨⟨attach flash .writeBack true file off debounceMs, []⟩, 0, 0, 0⟩

variable (r : DebounceRun)

/-- A poll writes sectors to the file. -/
def PollWrites (nowUs : U64) : Prop := (r.run.step (.poll nowUs)).calls ≠ r.run.calls

/-- The debounce time in microseconds. -/
def debounceUs : ℤ := r.run.writeback.debounceMs * 1000

/-- The debounce time has passed since the most recent modification. -/
def Idle (nowUs : U64) : Prop := r.debounceUs ≤ (nowUs.toNat : ℤ) - r.lastModified.toNat

/-- **On time**: a poll writes if and only if a sector is dirty and the flash is idle. -/
def PollsOnTime (nowUs : U64) : Prop :=
  r.PollWrites nowUs ↔ r.run.writeback.flash.anyDirty = true ∧ r.Idle nowUs

/-- **The time stamp suffices** for a poll. With a sector dirty: where the flash is idle,
the callback was last called at a time other than 0 and the debounce time is not negative
(a negative one is read as an unsigned number); where it is not, the debounce time has not
passed since that call either. -/
def StampSuffices (nowUs : U64) : Prop :=
  r.run.writeback.flash.anyDirty = true →
    (r.Idle nowUs → r.lastReported ≠ 0 ∧
      (0 ≤ r.debounceUs ∨ 2 ^ 64 + r.debounceUs ≤ (nowUs.toNat : ℤ) - r.lastReported.toNat)) ∧
    (¬r.Idle nowUs → r.lastReported ≠ 0 →
      (nowUs.toNat : ℤ) - r.lastReported.toNat < r.debounceUs)

/-- The invariant: the time stamp of a writeback with dirty sectors is the time of the
last report, which is that of a modification. -/
structure Stamped (debounceMs : ℤ) : Prop where
  mode : r.run.writeback.mode = .writeBack
  fileOpen : r.run.writeback.fileOpen = true
  debounceMs : r.run.writeback.debounceMs = debounceMs
  stamp : r.run.writeback.flash.anyDirty = true → r.run.writeback.lastDirtyUs = r.lastReported
  reported_le : r.lastReported ≤ r.lastModified
  modified_le : r.lastModified ≤ r.now

variable {r} {debounceMs : ℤ}

/-! ### What a step keeps -/

theorem start_stamped (flash : Sst39vf) (file : ℕ → U8) (off : U32) (debounceMs : ℤ) :
    (start flash file off debounceMs).Stamped debounceMs :=
  ⟨rfl, rfl, rfl, fun _ => rfl, BitVec.le_refl _, BitVec.le_refl _⟩

/-- A command stamps the writeback if it calls the callback; if it does not, a sector that
is dirty after it was dirty before, and the time stamp was right then. -/
theorem Stamped.command (h : r.Stamped debounceMs) (op : FlashOp) {nowUs : U64}
    (hnow : r.now ≤ nowUs) : (r.step (.command op nowUs)).Stamped debounceMs := by
  refine ⟨h.mode, h.fileOpen, h.debounceMs, ?_, ?_, ?_⟩
  · intro hd
    show (if _ then _ else _) = (if _ then _ else _)
    split_ifs with hcalls
    · exact h.stamp (anyDirty_of_not_reported hcalls hd)
    · rfl
  · show (if _ then _ else _) ≤ (if _ then _ else _)
    split_ifs with hcalls hmod hmod
    · exact BitVec.le_trans h.reported_le (BitVec.le_trans h.modified_le hnow)
    · exact h.reported_le
    · exact BitVec.le_refl _
    · exact absurd (modifies_of_dirtyCalls hcalls) hmod
  · show (if _ then _ else _) ≤ nowUs
    split_ifs
    · exact BitVec.le_refl _
    · exact BitVec.le_trans h.modified_le hnow

theorem Stamped.poll (h : r.Stamped debounceMs) {nowUs : U64} (hnow : r.now ≤ nowUs) :
    (r.step (.poll nowUs)).Stamped debounceMs := by
  by_cases hdue : r.run.writeback.pollDue nowUs = true
  · have hrun : (r.step (.poll nowUs)).run.writeback =
        (flushDirtySectors allOk { r.run.writeback with lastDirtyUs := 0 }).1 := by
      show PfiWriteback.poll allOk _ _ = _
      rw [PfiWriteback.poll, if_pos hdue]
    obtain ⟨hmode, hopen, hms⟩ :=
      flushDirtySectors_settings (w := { r.run.writeback with lastDirtyUs := 0 }) h.fileOpen
    rw [← hrun] at hmode hopen hms
    refine ⟨hmode.trans h.mode, hopen.trans h.fileOpen, hms.trans h.debounceMs, ?_,
      h.reported_le, BitVec.le_trans h.modified_le hnow⟩
    intro hd
    rw [hrun, anyDirty_flushed (w := { r.run.writeback with lastDirtyUs := 0 }) h.fileOpen] at hd
    exact Bool.noConfusion hd
  · have hrun : (r.step (.poll nowUs)).run.writeback = r.run.writeback := by
      show PfiWriteback.poll allOk _ _ = _
      rw [PfiWriteback.poll, if_neg hdue]
    refine ⟨?_, ?_, ?_, ?_, h.reported_le, BitVec.le_trans h.modified_le hnow⟩
    · exact hrun ▸ h.mode
    · exact hrun ▸ h.fileOpen
    · exact hrun ▸ h.debounceMs
    · exact hrun ▸ h.stamp

/-- **The invariant of the time stamp**: as long as the clock does not go back. -/
theorem Stamped.step (h : r.Stamped debounceMs) (a : MirrorAct) (hnow : r.now ≤ a.time) :
    (r.step a).Stamped debounceMs := by
  cases a with
  | command op nowUs => exact h.command op hnow
  | poll nowUs => exact h.poll hnow

/-! ### When a poll writes -/

/-- The debounce time as `poll` computes it: a negative one is read as an unsigned number. -/
theorem toNat_debounce {d : ℤ} (hlo : -2 ^ 31 ≤ d) (hhi : d < 2 ^ 31) :
    ((BitVec.ofInt 64 d * 1000).toNat : ℤ) = if 0 ≤ d then d * 1000 else 2 ^ 64 + d * 1000 := by
  have hmul : BitVec.ofInt 64 d * 1000 = BitVec.ofInt 64 (d * 1000) := by
    rw [BitVec.ofInt_mul]
    rfl
  rw [hmul, BitVec.toNat_ofInt, Int.toNat_of_nonneg (Int.emod_nonneg _ (by decide))]
  split_ifs with h0
  · exact Int.emod_eq_of_lt (by omega) (by omega)
  · rw [← Int.add_emod_right]
    refine (Int.emod_eq_of_lt (by omega) (by omega)).trans (by omega)

/-- A poll that does not go back in time is due when the debounce time has passed since
the time stamp. -/
theorem pollDue_iff {w : PfiWriteback} (hmode : w.mode = .writeBack) (hopen : w.fileOpen = true)
    {nowUs : U64} (hle : w.lastDirtyUs ≤ nowUs) :
    w.pollDue nowUs = true ↔ w.lastDirtyUs ≠ 0 ∧
      ((BitVec.ofInt 64 w.debounceMs * 1000).toNat : ℤ) ≤
        (nowUs.toNat : ℤ) - w.lastDirtyUs.toNat := by
  have hsub : (nowUs - w.lastDirtyUs).toNat = nowUs.toNat - w.lastDirtyUs.toNat :=
    BitVec.toNat_sub_of_le hle
  have hle' : w.lastDirtyUs.toNat ≤ nowUs.toNat := hle
  have hskew : (nowUs < w.lastDirtyUs) = False := eq_false (by
    rw [BitVec.lt_def]
    omega)
  simp only [pollDue, hmode, hopen, hskew, BitVec.lt_def, hsub, Bool.and_eq_true, decide_eq_true_eq,
    Bool.not_eq_true', decide_eq_false_iff_not, not_false_eq_true, not_lt, true_and, and_true]
  refine and_congr_right fun _ => ?_
  omega

/-- A poll writes if it is due and a sector is dirty. -/
theorem pollWrites_iff (nowUs : U64) :
    r.PollWrites nowUs ↔
      r.run.writeback.pollDue nowUs = true ∧ r.run.writeback.flash.anyDirty = true := by
  have hcalls : (r.run.step (.poll nowUs)).calls =
      if r.run.writeback.pollDue nowUs then r.run.calls ++ flushCalls r.run.writeback
      else r.run.calls := rfl
  rw [PollWrites, hcalls, Sst39vf.anyDirty_iff]
  split_ifs with hdue
  · rw [Ne, List.append_right_eq_self, flushCalls, List.map_eq_nil_iff]
    exact (and_iff_right hdue).symm
  · exact ⟨fun h => absurd rfl h, fun h => absurd h.1 hdue⟩

/-- **A poll is on time exactly where the time stamp suffices.** -/
theorem pollsOnTime_iff (h : r.Stamped debounceMs) (hlo : -2 ^ 31 ≤ debounceMs)
    (hhi : debounceMs < 2 ^ 31) {nowUs : U64} (hnow : r.now ≤ nowUs) :
    r.PollsOnTime nowUs ↔ r.StampSuffices nowUs := by
  rw [PollsOnTime, pollWrites_iff, StampSuffices]
  by_cases hd : r.run.writeback.flash.anyDirty = true
  · have hreported : r.lastReported ≤ nowUs :=
      BitVec.le_trans h.reported_le (BitVec.le_trans h.modified_le hnow)
    have hmodified : r.lastModified.toNat ≤ nowUs.toNat :=
      BitVec.le_trans h.modified_le hnow
    have hstamp := h.stamp hd
    have hdue := pollDue_iff h.mode h.fileOpen (hstamp ▸ hreported)
    rw [h.debounceMs, toNat_debounce hlo hhi, hstamp] at hdue
    have hus : r.debounceUs = debounceMs * 1000 := congrArg (· * 1000) h.debounceMs
    have hrep : r.lastReported.toNat ≤ r.lastModified.toNat := h.reported_le
    rw [hdue, Idle, hus]
    by_cases hzero : r.lastReported = 0
    · simp only [hd, hzero, ne_eq, not_true_eq_false, false_and, true_and, forall_const,
        and_true, imp_false, false_iff, implies_true, IsEmpty.forall_iff]
    · simp only [hd, hzero, ne_eq, not_false_eq_true, true_and, and_true, forall_const]
      split_ifs <;> omega
  · constructor
    · intro _ hdirty
      exact absurd hdirty hd
    · intro _
      exact ⟨fun hw => absurd hw.2 hd, fun hi => absurd hi.1 hd⟩

/-! ### Along a run -/

/-- The condition `P` is met at every poll. -/
def AtPoll (P : DebounceRun → U64 → Prop) (r : DebounceRun) : MirrorAct → Prop
  | .command _ _ => True
  | .poll nowUs => P r nowUs

/-- **The debounce measures idleness where the time stamp suffices.** For every device,
every debounce time the interface takes and every schedule of commands and polls whose
clock does not go back: all polls are on time if and only if the time stamp suffices at
every one of them. -/
theorem debounce_along_iff (flash : Sst39vf) (file : ℕ → U8) (off : U32) (debounceMs : ℤ)
    (hlo : -2 ^ 31 ≤ debounceMs) (hhi : debounceMs < 2 ^ 31) (as : List MirrorAct)
    (hclock : ActionRun.Along step (fun r a => r.now ≤ a.time)
      (start flash file off debounceMs) as) :
    ActionRun.Along step (AtPoll PollsOnTime) (start flash file off debounceMs) as ↔
      ActionRun.Along step (AtPoll StampSuffices) (start flash file off debounceMs) as := by
  refine ActionRun.along_congr_of (I := (Stamped · debounceMs))
    (fun r a h hnow => h.step a hnow) ?_ (start_stamped flash file off debounceMs) hclock
  intro r a h hnow
  cases a with
  | command op nowUs => exact Iff.rfl
  | poll nowUs => exact pollsOnTime_iff h hlo hhi hnow

/-- A poll that writes before the flash is idle is not on time. -/
theorem not_along_of_early {s : DebounceRun} {as : List MirrorAct} {nowUs : U64}
    (hwrites : (ActionRun.exec step s as).PollWrites nowUs)
    (hbusy : ¬(ActionRun.exec step s as).Idle nowUs) :
    ¬ActionRun.Along step (AtPoll PollsOnTime) s (as ++ [.poll nowUs]) := by
  intro hall
  have hpoll : AtPoll PollsOnTime (ActionRun.exec step s as) (.poll nowUs) :=
    ActionRun.Along.at hall
  exact hbusy ((show PollsOnTime _ nowUs from hpoll).mp hwrites).2

/-- The device of 64 KB, erased. -/
def erased64K : Sst39vf :=
  ⟨0x10000, Sst39vf.isPowerOfTwo_64K, Sst39vf.sector_le_64K, fun _ => 0xFF, fun _ => false,
    .normal⟩

/-- A word program at `offset`, at the time `nowUs`. -/
def programAt (offset : U32) (nowUs : U64) : List MirrorAct :=
  [.command (.write 0xAAAA 0xAA) nowUs, .command (.write 0x5554 0x55) nowUs,
    .command (.write 0xAAAA 0xA0) nowUs, .command (.write offset 0x1234) nowUs]

/-- Two word programs in sector 0: the second is half a second before the debounce time of
the first has passed. -/
def programTwice : List MirrorAct := programAt 0 1 ++ programAt 2 1500000

/-- **The debounce counts from the first write to a sector**: 2.1 s into the run the poll
writes sector 0 to the file, 0.6 s after it was last modified. -/
theorem programTwice_writes_early :
    let start := start erased64K (fun _ => 0xFF) 64 2000
    let r := ActionRun.exec step start programTwice
    ActionRun.Along step (fun r a => r.now ≤ a.time) start (programTwice ++ [.poll 2100000]) ∧
      r.PollWrites 2100000 ∧ ¬r.Idle 2100000 ∧ r.lastModified = 1500000 ∧ r.lastReported = 1 ∧
      ¬ActionRun.Along step (AtPoll PollsOnTime) start (programTwice ++ [.poll 2100000]) := by
  intro start r
  have hclock : ActionRun.Along step (fun r a => r.now ≤ a.time) start
      (programTwice ++ [.poll 2100000]) := by
    simp only [programTwice, programAt, List.cons_append, List.nil_append, ActionRun.along_cons,
      ActionRun.along_nil]
    decide +kernel
  have hmod : r.lastModified = 1500000 := by decide +kernel
  have hrep : r.lastReported = 1 := by decide +kernel
  have hdebounce : r.run.writeback.debounceMs = 2000 := by decide +kernel
  have hwrites : r.PollWrites 2100000 := by
    rw [pollWrites_iff]
    decide +kernel
  have hbusy : ¬r.Idle 2100000 := by
    rw [Idle, debounceUs, hmod, hdebounce]
    decide
  exact ⟨hclock, hwrites, hbusy, hmod, hrep, not_along_of_early hwrites hbusy⟩

/-- The run with the poll 1.4 s later. -/
theorem debounce_along_iff_programTwice :
    ActionRun.Along step (AtPoll PollsOnTime) (start erased64K (fun _ => 0xFF) 64 2000)
        (programTwice ++ [.poll 3500000]) ↔
      ActionRun.Along step (AtPoll StampSuffices) (start erased64K (fun _ => 0xFF) 64 2000)
        (programTwice ++ [.poll 3500000]) := by
  refine debounce_along_iff erased64K (fun _ => 0xFF) 64 2000 (by decide) (by decide) _ ?_
  simp only [programTwice, programAt, List.cons_append, List.nil_append, ActionRun.along_cons,
    ActionRun.along_nil]
  decide +kernel

end DebounceRun

end PfiWriteback
