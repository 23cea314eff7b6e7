import PieceEmu.System.PfiWriteback

/-!
# The file mirrors the device

Writeback without failures and without interleaving: the writes of a flush all
succeed, and a flash command, a poll and the final flush follow one another on one
thread. Then the file is the device, up to the sectors that are dirty
(`PfiWriteback.Mirrors`), and the final flush leaves none.

What a flush writes is kept next to the state, one entry for each call of `write_at`
(`MirrorRun.calls`); a run never reaches outside the place of the device in the file.
-/

namespace PfiWriteback

open Sst39vf (sectorSize sectorOf FlashOp)

/-- The host on which every write succeeds. -/
def allOk : ℕ → WriteAt := fun _ => .ok

/-! ### The run -/

/-- What happens between attachment and shutdown, on one thread. -/
inductive MirrorAct
  /-- A flash command; the dirty callback, if it is called, reads the time `nowUs`. -/
  | command (op : FlashOp) (nowUs : U64)
  /-- `poll(now_us)`. -/
  | poll (nowUs : U64)

/-- The writeback, and the calls of `write_at` so far: offset and length. -/
structure MirrorRun where
  writeback : PfiWriteback
  calls : List (ℕ × ℕ)

/-- The calls of the dirty callback a command makes. -/
def dirtyCalls (f : Sst39vf) : FlashOp → List ℕ
  | .write offset data => (f.write16 offset data).2
  | .reset => []

/-- A flash command, with the time stamp its dirty callback stores. -/
def command (w : PfiWriteback) (op : FlashOp) (nowUs : U64) : PfiWriteback :=
  { w with
    flash := op.apply w.flash
    lastDirtyUs := if dirtyCalls w.flash op = [] then w.lastDirtyUs else nowUs }

/-- The calls of `write_at` a flush makes: one for each dirty sector. -/
def flushCalls (w : PfiWriteback) : List (ℕ × ℕ) :=
  w.flash.forEachDirtySector.map fun s => (w.flashOffsetInPfi.toNat + s * sectorSize, sectorSize)

/-- One action. -/
def MirrorRun.step (r : MirrorRun) : MirrorAct → MirrorRun
  | .command op nowUs => { r with writeback := command r.writeback op nowUs }
  | .poll nowUs =>
    { writeback := PfiWriteback.poll allOk r.writeback nowUs
      calls := if r.writeback.pollDue nowUs then r.calls ++ flushCalls r.writeback else r.calls }

/-- `shutdown_flush`. -/
def MirrorRun.shutdown (r : MirrorRun) : MirrorRun where
  writeback := shutdownFlush allOk r.writeback
  calls := if r.writeback.shutdownDue then r.calls ++ flushCalls r.writeback else r.calls

/-! ### A flush without failures -/

variable (w : PfiWriteback)

/-- The writeback after the write of one sector. -/
def copied (s : ℕ) : PfiWriteback :=
  { w with
    file := copySector w.file w.flash.mem w.flashOffsetInPfi.toNat s sectorSize
    bytesWritten := w.bytesWritten + BitVec.ofNat 64 sectorSize }

theorem flushSector_allOk (count s : ℕ) :
    flushSector allOk (w, count) s = (w.copied s, count + 1) := rfl

/-- The byte `i` of the device in the file, once sector `s` has been written. -/
theorem copied_file (s i : ℕ) :
    (w.copied s).file (w.flashOffsetInPfi.toNat + i) =
      if sectorOf i = s then w.flash.mem i else w.file (w.flashOffsetInPfi.toNat + i) := by
  show copySector _ _ _ _ _ _ = _
  rw [copySector, Nat.add_sub_cancel_left]
  refine if_congr ?_ rfl rfl
  rw [Sst39vf.sectorOf_eq_iff]
  omega

/-- The sectors of a list, written: a byte of one of them comes from the device. -/
theorem foldl_flushSector_file (l : List ℕ) (count i : ℕ) :
    (l.foldl (flushSector allOk) (w, count)).1.file (w.flashOffsetInPfi.toNat + i) =
      if sectorOf i ∈ l then w.flash.mem i else w.file (w.flashOffsetInPfi.toNat + i) := by
  induction l generalizing w count with
  | nil => rfl
  | cons s l ih =>
    rw [List.foldl_cons, flushSector_allOk]
    refine (ih (w.copied s) (count + 1)).trans ?_
    show (if sectorOf i ∈ l then w.flash.mem i
      else (w.copied s).file (w.flashOffsetInPfi.toNat + i)) = _
    rw [copied_file]
    by_cases hs : sectorOf i = s
    · rw [if_pos hs, ite_self, if_pos (hs ▸ List.mem_cons_self)]
    · rw [if_neg hs]
      refine if_congr ?_ rfl rfl
      rw [List.mem_cons, or_iff_right hs]

/-- A byte of the file that is in no sector of the list stays. -/
theorem foldl_flushSector_file_of_not_mem {l : List ℕ} {i : ℕ}
    (h : ∀ s ∈ l, ¬(w.flashOffsetInPfi.toNat + s * sectorSize ≤ i ∧
      i < w.flashOffsetInPfi.toNat + s * sectorSize + sectorSize)) (count : ℕ) :
    (l.foldl (flushSector allOk) (w, count)).1.file i = w.file i := by
  induction l generalizing w count with
  | nil => rfl
  | cons s l ih =>
    obtain ⟨hs, hl⟩ := List.forall_mem_cons.mp h
    rw [List.foldl_cons, flushSector_allOk, ih (w.copied s) hl]
    exact if_neg hs

/-- Which device, which file and where: what no write changes. -/
def attachment : WritebackMode × Bool × U32 := (w.mode, w.fileOpen, w.flashOffsetInPfi)

theorem foldl_flushSector_attachment (l : List ℕ) (count : ℕ) :
    (l.foldl (flushSector allOk) (w, count)).1.attachment = w.attachment := by
  induction l generalizing w count with
  | nil => rfl
  | cons s l ih => exact ih (w.copied s) (count + 1)

/-! ### The invariant -/

/-- **The file mirrors the device** of `n` bytes at `off`, up to dirty sectors; it is
`file₀` elsewhere, and every call of `write_at` stayed inside. -/
structure Mirrors (n : ℕ) (off : U32) (file₀ : ℕ → U8) (r : MirrorRun) : Prop where
  attachment : r.writeback.attachment = (.writeBack, true, off)
  memSize : r.writeback.flash.memSize = n
  same : ∀ i < n, r.writeback.file (off.toNat + i) ≠ r.writeback.flash.mem i →
    r.writeback.flash.dirty (sectorOf i) = true
  outside : ∀ i, ¬(off.toNat ≤ i ∧ i < off.toNat + n) → r.writeback.file i = file₀ i
  calls : ∀ c ∈ r.calls, off.toNat ≤ c.1 ∧ c.1 + c.2 ≤ off.toNat + n

variable {n : ℕ} {off : U32} {file₀ : ℕ → U8} {r : MirrorRun}

theorem Mirrors.fileOpen (h : Mirrors n off file₀ r) : r.writeback.fileOpen = true :=
  congrArg (·.2.1) h.attachment

theorem Mirrors.mode (h : Mirrors n off file₀ r) : r.writeback.mode = .writeBack :=
  congrArg (·.1) h.attachment

theorem Mirrors.offset (h : Mirrors n off file₀ r) : r.writeback.flashOffsetInPfi = off :=
  congrArg (·.2.2) h.attachment

/-- The sectors of the device lie inside it. -/
theorem Mirrors.sector_inside (h : Mirrors n off file₀ r) {s : ℕ}
    (hs : s ∈ r.writeback.flash.forEachDirtySector) : s * sectorSize + sectorSize ≤ n := by
  have hlt := ((Sst39vf.isSectorDirty_iff _).mp
    ((Sst39vf.mem_forEachDirtySector _).mp hs)).1
  rw [← h.memSize, ← r.writeback.flash.sectorCount_mul, ← Nat.succ_mul]
  exact Nat.mul_le_mul_right _ hlt

/-- **A flash command keeps the mirror**: what it changes, it marks. -/
theorem Mirrors.command (h : Mirrors n off file₀ r) (op : FlashOp) (nowUs : U64) :
    Mirrors n off file₀ (r.step (.command op nowUs)) := by
  cases op with
  | reset => exact ⟨h.attachment, h.memSize, h.same, h.outside, h.calls⟩
  | write offset data =>
    refine ⟨h.attachment, ?_, ?_, h.outside, h.calls⟩
    · exact (r.writeback.flash.write16_memSize offset data).trans h.memSize
    · intro i hi hne
      refine r.writeback.flash.write16_dirty_of_change (h.memSize ▸ hi) ?_
      by_cases hch : (r.writeback.flash.write16 offset data).1.mem i = r.writeback.flash.mem i
      · exact .inr (h.same i hi fun heq => hne (heq.trans hch.symm))
      · exact .inl hch

/-- **A flush keeps the mirror, and leaves nothing dirty.** -/
theorem Mirrors.flush (h : Mirrors n off file₀ r) :
    Mirrors n off file₀
        ⟨(flushDirtySectors allOk r.writeback).1, r.calls ++ flushCalls r.writeback⟩ ∧
      ∀ s, (flushDirtySectors allOk r.writeback).1.flash.isSectorDirty s = false := by
  have hattached := foldl_flushSector_attachment r.writeback
    r.writeback.flash.forEachDirtySector 0
  have hsectors := foldl_flushSector_file r.writeback r.writeback.flash.forEachDirtySector 0
  have hfst := flushDirtySectors_fst allOk h.fileOpen
  have hflash := flushDirtySectors_flash allOk h.fileOpen
  have hfile : (flushDirtySectors allOk r.writeback).1.file =
      (r.writeback.flash.forEachDirtySector.foldl (flushSector allOk) (r.writeback, 0)).1.file := by
    rw [hfst]
    split_ifs <;> rfl
  have hmem : (flushDirtySectors allOk r.writeback).1.flash.mem = r.writeback.flash.mem ∧
      (flushDirtySectors allOk r.writeback).1.flash.memSize = r.writeback.flash.memSize := by
    rw [hflash]
    split_ifs <;> exact ⟨rfl, rfl⟩
  rw [h.offset] at hsectors
  refine ⟨⟨?_, hmem.2.trans h.memSize, ?_, ?_, ?_⟩, ?_⟩
  · rw [hfst]
    split_ifs
    · exact hattached.trans h.attachment
    · exact hattached.trans h.attachment
  · -- after the flush every byte of the device is the byte of the file
    intro i hi hne
    refine absurd ?_ hne
    show (flushDirtySectors allOk r.writeback).1.file _ = _
    rw [hfile, hsectors, hmem.1]
    split_ifs with hs
    · rfl
    · by_contra hdiff
      have hdirty := h.same i hi hdiff
      have hlt := r.writeback.flash.sectorOf_lt (h.memSize ▸ hi)
      exact hs ((Sst39vf.mem_forEachDirtySector _).mpr
        ((Sst39vf.isSectorDirty_iff _).mpr ⟨hlt, hdirty⟩))
  · -- a byte outside the place of the device lies in no sector that is written
    intro i hi
    show (flushDirtySectors allOk r.writeback).1.file i = _
    rw [hfile, foldl_flushSector_file_of_not_mem]
    · exact h.outside i hi
    · intro s hs
      have := h.sector_inside hs
      rw [h.offset]
      omega
  · intro c hc
    rcases List.mem_append.mp hc with hc | hc
    · exact h.calls c hc
    · obtain ⟨s, hs, rfl⟩ := List.mem_map.mp hc
      have := h.sector_inside hs
      rw [h.offset]
      dsimp only
      omega
  · intro s
    rw [hflash]
    split_ifs with hsome
    · exact isSectorDirty_clearDirty _ s
    · by_contra hdirty
      exact hsome ⟨s, (Sst39vf.mem_forEachDirtySector _).mpr (Bool.eq_true_of_not_eq_false hdirty),
        rfl⟩

/-- Forgetting the time of the last dirty event does not touch the mirror. -/
theorem Mirrors.forget (h : Mirrors n off file₀ r) (t : U64) :
    Mirrors n off file₀ { r with writeback := { r.writeback with lastDirtyUs := t } } :=
  ⟨h.attachment, h.memSize, h.same, h.outside, h.calls⟩

theorem Mirrors.step (h : Mirrors n off file₀ r) (a : MirrorAct) :
    Mirrors n off file₀ (r.step a) := by
  cases a with
  | command op nowUs => exact h.command op nowUs
  | poll nowUs =>
    by_cases hdue : r.writeback.pollDue nowUs = true
    · have hflush := ((h.forget 0).flush).1
      rw [MirrorRun.step, if_pos hdue, PfiWriteback.poll, if_pos hdue]
      exact hflush
    · rw [MirrorRun.step, if_neg hdue, PfiWriteback.poll, if_neg hdue]
      exact h

/-- The final flush keeps the mirror, and nothing is dirty after it. -/
theorem Mirrors.shutdown (h : Mirrors n off file₀ r) :
    Mirrors n off file₀ r.shutdown ∧
      ∀ s, r.shutdown.writeback.flash.isSectorDirty s = false := by
  by_cases hdue : r.writeback.shutdownDue = true
  · rw [MirrorRun.shutdown, if_pos hdue, shutdownFlush, if_pos hdue]
    exact h.flush
  · rw [MirrorRun.shutdown, if_neg hdue, shutdownFlush, if_neg hdue]
    refine ⟨h, fun s => ?_⟩
    have hclean : r.writeback.flash.anyDirty ≠ true := fun hany => hdue (by
      rw [shutdownDue, h.mode, h.fileOpen, hany]
      rfl)
    by_contra hdirty
    refine hclean ((Sst39vf.anyDirty_iff _).mpr (List.ne_nil_of_mem (a := s) ?_))
    exact (Sst39vf.mem_forEachDirtySector _).mpr (Bool.eq_true_of_not_eq_false hdirty)

/-- **Writeback mirrors the device into the file.** The device of a writeback in write
mode, with a file that holds its memory at `off`, goes through any flash commands and
polls, and a final flush. Then every sector of the device is in the file at its place,
no sector is dirty, and outside the place of the device no byte of the file has been
written: no call of `write_at` has reached it, and it is what it was. -/
theorem mirrored (flash : Sst39vf) (file : ℕ → U8) (off : U32) (debounceMs : ℤ)
    (h : ∀ i < flash.memSize, file (off.toNat + i) = flash.mem i) (as : List MirrorAct) :
    let r := (ActionRun.exec MirrorRun.step
      ⟨attach flash .writeBack true file off debounceMs, []⟩ as).shutdown
    (∀ s < flash.sectorCount, ∀ k < sectorSize,
        r.writeback.file (off.toNat + s * sectorSize + k) =
          r.writeback.flash.mem (s * sectorSize + k)) ∧
      (∀ s, r.writeback.flash.isSectorDirty s = false) ∧
      (∀ c ∈ r.calls, off.toNat ≤ c.1 ∧ c.1 + c.2 ≤ off.toNat + flash.memSize) ∧
      ∀ i, ¬(off.toNat ≤ i ∧ i < off.toNat + flash.memSize) → r.writeback.file i = file i := by
  intro r
  have hinit : Mirrors flash.memSize off file
      ⟨attach flash .writeBack true file off debounceMs, []⟩ :=
    ⟨rfl, rfl, fun i hi hne => absurd (h i hi) hne, fun _ _ => rfl,
      fun _ hc => absurd hc List.not_mem_nil⟩
  have hrun := ActionRun.exec_preserves (I := Mirrors flash.memSize off file)
    (fun _ a hs => hs.step a) hinit as
  obtain ⟨hfinal, hclean⟩ := hrun.shutdown
  refine ⟨fun s hs k hk => ?_, hclean, hfinal.calls, hfinal.outside⟩
  have hin : s * sectorSize + k < flash.memSize := by
    rw [← flash.sectorCount_mul]
    exact Nat.lt_of_lt_of_le (Nat.add_lt_add_left hk _)
      (Nat.succ_mul s sectorSize ▸ Nat.mul_le_mul_right _ hs)
  by_contra hne
  have hdirty := hfinal.same _ hin (Nat.add_assoc _ _ k ▸ hne)
  have hlt := r.writeback.flash.sectorOf_lt (hfinal.memSize.symm ▸ hin)
  have hfalse := hclean (sectorOf (s * sectorSize + k))
  rw [(Sst39vf.isSectorDirty_iff _).mpr ⟨hlt, hdirty⟩] at hfalse
  exact Bool.noConfusion hfalse

/-- The device of 64 KB behind a header of 64 bytes: a word is programmed, and the
flush at the end writes it. -/
theorem mirrored_64K :
    let flash : Sst39vf :=
      ⟨0x10000, ⟨16, rfl⟩, by decide, fun _ => 0xFF, fun _ => false, .normal⟩
    let r := (ActionRun.exec MirrorRun.step
      ⟨attach flash .writeBack true (fun _ => 0xFF) 64 2000, []⟩
        (programTwoSectors.map (.command · 1))).shutdown
    (∀ s < flash.sectorCount, ∀ k < sectorSize,
        r.writeback.file ((64 : U32).toNat + s * sectorSize + k) =
          r.writeback.flash.mem (s * sectorSize + k)) ∧
      (∀ s, r.writeback.flash.isSectorDirty s = false) ∧
      (∀ c ∈ r.calls, (64 : U32).toNat ≤ c.1 ∧
        c.1 + c.2 ≤ (64 : U32).toNat + flash.memSize) ∧
      ∀ i, ¬((64 : U32).toNat ≤ i ∧ i < (64 : U32).toNat + flash.memSize) →
        r.writeback.file i = 0xFF :=
  mirrored ⟨0x10000, ⟨16, rfl⟩, by decide, fun _ => 0xFF, fun _ => false, .normal⟩
    (fun _ => 0xFF) 64 2000 (fun _ _ => rfl) (programTwoSectors.map (.command · 1))

end PfiWriteback
