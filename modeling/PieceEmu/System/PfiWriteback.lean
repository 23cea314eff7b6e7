import PieceEmu.Board.CommandHistory
import PieceEmu.Board.DirtyTracking

/-!
# Writing the flash back to its file

`PfiWriteback` pushes the dirty sectors of the flash device into the PFI file the
flash was loaded from: `poll` once the debounce time has passed since the last
dirty event, `shutdown_flush` at the end.

The host decides how each write ends. A write either succeeds, or fails after some
bytes of the sector have reached the file (`write_at` loops over partial writes):
`WriteAt` is one outcome, and a flush is a function of the outcomes of all its
sectors.

What becomes of a sector whose write fails is the subject of the second half. The
flush clears *all* dirty bits as soon as *one* write has succeeded, and `poll`
forgets the time of the last dirty event before it writes anything; so a failure is
remembered in two cases only (`PfiWriteback.failuresKept_iff`).
-/

/-- `PfiWriteback::Mode`. -/
inductive WritebackMode
  | readOnly
  | writeBack
  deriving DecidableEq, Repr

/-- How one `PlatformFile::write_at` ends. -/
inductive WriteAt
  /-- It returns true: every byte is written. -/
  | ok
  /-- It returns false, `k` bytes into the data. -/
  | failed (k : ℕ)
  deriving DecidableEq

/-- The state of `PfiWriteback`, with the device it is attached to and the file it
has open. -/
structure PfiWriteback where
  /-- `*flash_`. -/
  flash : Sst39vf
  /-- `mode_`. -/
  mode : WritebackMode
  /-- `file_.is_open()`. -/
  fileOpen : Bool
  /-- The bytes of the file. -/
  file : ℕ → U8
  /-- `flash_offset_in_pfi_`. -/
  flashOffsetInPfi : U32
  /-- `debounce_ms_`. -/
  debounceMs : ℤ
  /-- `last_dirty_us_`: 0 stands for “nothing pending”. -/
  lastDirtyUs : U64
  /-- `bytes_written_`. -/
  bytesWritten : U64
  /-- `flush_count_`. -/
  flushCount : U64

namespace PfiWriteback

open Sst39vf (sectorSize)

/-- `attach`, to a device with dirty tracking: a file that does not open makes the
writeback read-only. -/
def attach (flash : Sst39vf) (mode : WritebackMode) (openRw : Bool) (file : ℕ → U8)
    (flashOffsetInPfi : U32) (debounceMs : ℤ) : PfiWriteback where
  flash := flash
  mode := if mode = .writeBack ∧ openRw then .writeBack else .readOnly
  fileOpen := mode = .writeBack && openRw
  file := file
  flashOffsetInPfi := flashOffsetInPfi
  debounceMs := debounceMs
  lastDirtyUs := 0
  bytesWritten := 0
  flushCount := 0

/-- `has_pending_dirty`. -/
def hasPendingDirty (w : PfiWriteback) : Bool := w.lastDirtyUs ≠ 0

/-- The file after the first `len` bytes of sector `s` of `mem` have been written at
their place. -/
def copySector (file mem : ℕ → U8) (flashOffset s len : ℕ) : ℕ → U8 := fun i =>
  if flashOffset + s * sectorSize ≤ i ∧ i < flashOffset + s * sectorSize + len then
    mem (i - flashOffset)
  else file i

/-- The callback of `flush_dirty_sectors`: one sector is written, `count` counts the
successes. -/
def flushSector (host : ℕ → WriteAt) (acc : PfiWriteback × ℕ) (s : ℕ) : PfiWriteback × ℕ :=
  let (w, count) := acc
  match host s with
  | .ok =>
    ({ w with
        file := copySector w.file w.flash.mem w.flashOffsetInPfi.toNat s sectorSize
        bytesWritten := w.bytesWritten + BitVec.ofNat 64 sectorSize }, count + 1)
  | .failed k =>
    ({ w with
        file := copySector w.file w.flash.mem w.flashOffsetInPfi.toNat s (min k sectorSize) },
      count)

/-- `flush_dirty_sectors`: the sectors written, and how many. `host s` is how the
write of sector `s` ends. -/
def flushDirtySectors (host : ℕ → WriteAt) (w : PfiWriteback) : PfiWriteback × ℕ :=
  if !w.fileOpen then (w, 0)
  else
    let (w, count) := w.flash.forEachDirtySector.foldl (flushSector host) (w, 0)
    if 0 < count then
      ({ w with flushCount := w.flushCount + 1, flash := w.flash.clearDirty }, count)
    else (w, count)

/-- The checks of `poll`: whether it goes on to flush. -/
def pollDue (w : PfiWriteback) (nowUs : U64) : Bool :=
  w.mode = .writeBack && w.fileOpen && w.lastDirtyUs ≠ 0 && !(nowUs < w.lastDirtyUs) &&
    !(nowUs - w.lastDirtyUs < BitVec.ofInt 64 w.debounceMs * 1000)

/-- `poll`: the time of the last dirty event is forgotten before the writes. -/
def poll (host : ℕ → WriteAt) (w : PfiWriteback) (nowUs : U64) : PfiWriteback :=
  if w.pollDue nowUs then (flushDirtySectors host { w with lastDirtyUs := 0 }).1 else w

/-- The checks of `shutdown_flush`. -/
def shutdownDue (w : PfiWriteback) : Bool :=
  w.mode = .writeBack && w.fileOpen && w.flash.anyDirty

/-- `shutdown_flush`. -/
def shutdownFlush (host : ℕ → WriteAt) (w : PfiWriteback) : PfiWriteback :=
  if w.shutdownDue then (flushDirtySectors host w).1 else w

/-! ### What a flush does -/

variable (host : ℕ → WriteAt)

/-- The writes change the file and the counters, and nothing else. -/
theorem foldl_flushSector (l : List ℕ) (w : PfiWriteback) (count : ℕ) :
    (l.foldl (flushSector host) (w, count)).1.flash = w.flash ∧
      (l.foldl (flushSector host) (w, count)).1.lastDirtyUs = w.lastDirtyUs ∧
      (l.foldl (flushSector host) (w, count)).2 =
        count + (l.filter fun s => host s = .ok).length := by
  induction l generalizing w count with
  | nil => simp
  | cons s l ih =>
    rw [List.foldl_cons, flushSector, List.filter_cons]
    cases hs : host s with
    | ok =>
      obtain ⟨h1, h2, h3⟩ := ih _ (count + 1)
      refine ⟨h1, h2, h3.trans ?_⟩
      rw [decide_eq_true rfl, if_pos rfl, List.length_cons]
      omega
    | failed k => simpa using ih _ count

/-- A flush with the file open: the writes of the scan, and after at least one
success the clearing. -/
theorem flushDirtySectors_fst {w : PfiWriteback} (hopen : w.fileOpen = true) :
    (flushDirtySectors host w).1 =
      if 0 < (w.flash.forEachDirtySector.foldl (flushSector host) (w, 0)).2 then
        { (w.flash.forEachDirtySector.foldl (flushSector host) (w, 0)).1 with
          flushCount :=
            (w.flash.forEachDirtySector.foldl (flushSector host) (w, 0)).1.flushCount + 1
          flash := (w.flash.forEachDirtySector.foldl (flushSector host) (w, 0)).1.flash.clearDirty }
      else (w.flash.forEachDirtySector.foldl (flushSector host) (w, 0)).1 := by
  rw [flushDirtySectors, if_neg (by simp [hopen])]
  dsimp only
  split_ifs <;> rfl

/-- **The flush and the dirty bits**: one success clears them all. -/
theorem flushDirtySectors_flash {w : PfiWriteback} (hopen : w.fileOpen = true) :
    (flushDirtySectors host w).1.flash =
      if ∃ s ∈ w.flash.forEachDirtySector, host s = .ok then w.flash.clearDirty else w.flash := by
  obtain ⟨hflash, -, hcount⟩ := foldl_flushSector host w.flash.forEachDirtySector w 0
  have hpos : 0 < (w.flash.forEachDirtySector.foldl (flushSector host) (w, 0)).2 ↔
      ∃ s ∈ w.flash.forEachDirtySector, host s = .ok := by
    rw [hcount, Nat.zero_add, List.length_pos_iff_exists_mem]
    simp
  rw [flushDirtySectors_fst host hopen]
  split_ifs with h h' h'
  · exact congrArg Sst39vf.clearDirty hflash
  · exact absurd (hpos.mp h) h'
  · exact absurd (hpos.mpr h') h
  · exact hflash

theorem flushDirtySectors_lastDirtyUs {w : PfiWriteback} :
    (flushDirtySectors host w).1.lastDirtyUs = w.lastDirtyUs := by
  obtain ⟨-, hlast, -⟩ := foldl_flushSector host w.flash.forEachDirtySector w 0
  unfold flushDirtySectors
  split
  · rfl
  · dsimp only
    split <;> exact hlast

/-! ### Failed writes -/

/-- Who flushes. -/
inductive Caller
  /-- `poll(now_us)`. -/
  | poll (nowUs : U64)
  /-- `shutdown_flush()`. -/
  | shutdownFlush

/-- The call flushes, rather than return early. -/
def Flushes (w : PfiWriteback) : Caller → Prop
  | .poll nowUs => w.pollDue nowUs = true
  | .shutdownFlush => w.shutdownDue = true

/-- The state the call leaves. -/
def call (w : PfiWriteback) : Caller → PfiWriteback
  | .poll nowUs => poll host w nowUs
  | .shutdownFlush => shutdownFlush host w

/-- **A failure is remembered**: the sectors whose write failed are still dirty, and
those whose write succeeded are clean; and after a poll with a failure the
writeback still has something pending. -/
def FailuresKept (w : PfiWriteback) (c : Caller) : Prop :=
  (∀ s, w.flash.isSectorDirty s = true →
    ((call host w c).flash.isSectorDirty s = true ↔ host s ≠ .ok)) ∧
  ∀ nowUs, c = .poll nowUs → (∃ s, w.flash.isSectorDirty s = true ∧ host s ≠ .ok) →
    (call host w c).hasPendingDirty = true

/-- **The cases in which it is**: for `poll`, no write fails; for `shutdown_flush`,
all succeed or all fail. -/
def UniformHost (w : PfiWriteback) : Caller → Prop
  | .poll _ => ∀ s, w.flash.isSectorDirty s = true → host s = .ok
  | .shutdownFlush =>
    (∀ s, w.flash.isSectorDirty s = true → host s = .ok) ∨
      ∀ s, w.flash.isSectorDirty s = true → host s ≠ .ok

theorem isSectorDirty_clearDirty (f : Sst39vf) (s : ℕ) :
    f.clearDirty.isSectorDirty s = false := by
  simp [Sst39vf.isSectorDirty, Sst39vf.clearDirty]

/-- The dirty bits after a flush keep the failures exactly when all writes end alike. -/
theorem dirtyKept_iff {w : PfiWriteback} (hopen : w.fileOpen = true) :
    (∀ s, w.flash.isSectorDirty s = true →
        ((flushDirtySectors host w).1.flash.isSectorDirty s = true ↔ host s ≠ .ok)) ↔
      (∀ s, w.flash.isSectorDirty s = true → host s = .ok) ∨
        ∀ s, w.flash.isSectorDirty s = true → host s ≠ .ok := by
  rw [flushDirtySectors_flash host hopen]
  by_cases hok : ∃ s ∈ w.flash.forEachDirtySector, host s = .ok
  · obtain ⟨s₀, hs₀, hhost⟩ := hok
    rw [if_pos ⟨s₀, hs₀, hhost⟩]
    have hd₀ := w.flash.mem_forEachDirtySector.mp hs₀
    simp only [isSectorDirty_clearDirty, Bool.false_eq_true, false_iff, not_not]
    refine ⟨.inl, fun h => ?_⟩
    rcases h with h | h
    · exact h
    · exact absurd hhost (h s₀ hd₀)
  · have hall : ∀ s, w.flash.isSectorDirty s = true → host s ≠ .ok := fun s hs heq =>
      hok ⟨s, w.flash.mem_forEachDirtySector.mpr hs, heq⟩
    rw [if_neg hok]
    exact ⟨fun _ => .inr hall, fun _ s hs => ⟨fun _ => hall s hs, fun _ => hs⟩⟩

/-- **When failures are remembered**: for every device, every set of dirty sectors
and every way the writes end, exactly in the cases of `PfiWriteback.UniformHost`. -/
theorem failuresKept_iff (w : PfiWriteback) (c : Caller) (h : w.Flushes c) :
    FailuresKept host w c ↔ UniformHost host w c := by
  cases c with
  | poll nowUs =>
    have hdue : w.pollDue nowUs = true := h
    have hopen : w.fileOpen = true := by
      simp only [pollDue, Bool.and_eq_true] at hdue
      exact hdue.1.1.1.2
    have hrun : call host w (.poll nowUs) =
        (flushDirtySectors host { w with lastDirtyUs := 0 }).1 := if_pos hdue
    have hkept := dirtyKept_iff host (w := { w with lastDirtyUs := 0 }) hopen
    rw [FailuresKept, hrun, hkept]
    constructor
    · rintro ⟨hdirty, hpend⟩ s hs
      by_contra hne
      have hp := hpend nowUs rfl ⟨s, hs, hne⟩
      simp [hasPendingDirty, flushDirtySectors_lastDirtyUs] at hp
    · intro hall
      refine ⟨.inl hall, ?_⟩
      rintro - - ⟨s, hs, hne⟩
      exact absurd (hall s hs) hne
  | shutdownFlush =>
    have hdue : w.shutdownDue = true := h
    have hopen : w.fileOpen = true := by
      simp only [shutdownDue, Bool.and_eq_true] at hdue
      exact hdue.1.2
    have hrun : call host w .shutdownFlush = (flushDirtySectors host w).1 := if_pos hdue
    rw [FailuresKept, hrun, dirtyKept_iff host hopen]
    exact ⟨fun h => h.1, fun h => ⟨h, fun _ hc => absurd hc (by simp)⟩⟩

/-- Two word programs, in the sectors 0 and 1. -/
def programTwoSectors : List Sst39vf.FlashOp :=
  [.write 0xAAAA 0xAA, .write 0x5554 0x55, .write 0xAAAA 0xA0, .write 0 0x1234,
    .write 0xAAAA 0xAA, .write 0x5554 0x55, .write 0xAAAA 0xA0, .write 0x1000 0x1234]

/-- The device of 64 KB, after the two word programs, attached to its file with a
debounce time of two seconds; the last dirty event was at `lastDirtyUs`. -/
def twoDirtySectors (lastDirtyUs : U64) : PfiWriteback :=
  { attach (ActionRun.exec Sst39vf.FlashOp.apply
        ⟨0x10000, Sst39vf.isPowerOfTwo_64K, Sst39vf.sector_le_64K, fun _ => 0xFF,
          fun _ => false, .normal⟩ programTwoSectors)
      .writeBack true (fun _ => 0xFF) 0 2000 with
    lastDirtyUs := lastDirtyUs }

/-- The host that fails to write sector 1. -/
def failsSector1 (s : ℕ) : WriteAt := if s = 1 then .failed 0 else .ok

/-- One success and one failure under `poll`: the failed sector is clean afterwards,
and nothing is pending. -/
theorem poll_forgets_failure :
    (twoDirtySectors 1).Flushes (.poll 2000001) ∧
      (twoDirtySectors 1).flash.isSectorDirty 1 = true ∧ failsSector1 1 ≠ .ok ∧
      (poll failsSector1 (twoDirtySectors 1) 2000001).flash.isSectorDirty 1 = false ∧
      (poll failsSector1 (twoDirtySectors 1) 2000001).hasPendingDirty = false ∧
      ¬FailuresKept failsSector1 (twoDirtySectors 1) (.poll 2000001) := by
  have hdirty : (twoDirtySectors 1).flash.isSectorDirty 1 = true := by decide
  have hclean : (poll failsSector1 (twoDirtySectors 1) 2000001).flash.isSectorDirty 1 = false := by
    decide
  have hfail : failsSector1 1 ≠ .ok := by decide
  have hdue : (twoDirtySectors 1).pollDue 2000001 = true := by decide
  refine ⟨hdue, hdirty, hfail, hclean, by decide, fun h => ?_⟩
  have hstill : (poll failsSector1 (twoDirtySectors 1) 2000001).flash.isSectorDirty 1 = true :=
    (h.1 1 hdirty).mpr hfail
  rw [hclean] at hstill
  exact absurd hstill (by decide)

/-- The two sectors at shutdown, both written. -/
theorem failuresKept_iff_twoDirtySectors :
    (twoDirtySectors 1).Flushes .shutdownFlush ∧
      (FailuresKept (fun _ => .ok) (twoDirtySectors 1) .shutdownFlush ↔
        UniformHost (fun _ => .ok) (twoDirtySectors 1) .shutdownFlush) := by
  have h : (twoDirtySectors 1).shutdownDue = true := by decide
  exact ⟨h, failuresKept_iff _ _ _ h⟩

end PfiWriteback
