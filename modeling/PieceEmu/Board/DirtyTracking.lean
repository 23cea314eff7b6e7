import PieceEmu.Board.FlashEffect
import PieceEmu.Lib.Run

/-!
# Dirty tracking is complete

What the host needs of the dirty bits is one direction only: a sector that is not
dirty has not changed since the host last cleared the bits. `Sst39vf.Tracked` pairs
the device with what the bits are about, its contents at the last `clear_dirty`,
and `Sst39vf.Tracked.Complete` is the invariant; it holds because the sectors a
write marks are those of the bytes its effect touches
(`Sst39vf.sectorOf_mem_touched`).

The second half of the module is about asking: `for_each_dirty_sector` lists the
dirty sectors in ascending order, and `any_dirty` says whether the list is empty.
-/

namespace Sst39vf

/-- A call on the device, of any kind. -/
inductive FlashAccess
  /-- `write16(offset, data)`. -/
  | write (offset : U32) (data : U16)
  /-- `read16(offset)`. -/
  | read16 (offset : U32)
  /-- `read8(offset)`. -/
  | read8 (offset : U32)
  /-- `reset()`. -/
  | reset
  /-- `clear_dirty()`. -/
  | clearDirty

/-- A device, and its contents at the last `clear_dirty` (or at its construction). -/
structure Tracked where
  device : Sst39vf
  snapshot : ℕ → U8

/-- One call. The reads are `const`: they change nothing. -/
def Tracked.step (t : Tracked) : FlashAccess → Tracked
  | .write offset data => { t with device := (t.device.write16 offset data).1 }
  | .read16 _ | .read8 _ => t
  | .reset => { t with device := t.device.reset }
  | .clearDirty => { device := t.device.clearDirty, snapshot := t.device.mem }

/-- **No change is missed**: a byte of the device that is not what it was at the
last `clear_dirty` lies in a dirty sector. -/
def Tracked.Complete (t : Tracked) : Prop :=
  ∀ i < t.device.memSize, t.device.mem i ≠ t.snapshot i → t.device.dirty (sectorOf i) = true

variable (f : Sst39vf)

/-- The sector of a byte that an effect touches is a sector that it touches. -/
theorem sectorOf_mem_touched {e : Effect} {i : ℕ} (hi : i < f.memSize)
    (h : e.start ≤ i ∧ i < e.start + e.length f.memSize) : sectorOf i ∈ f.touched e :=
  f.mem_touched.mpr
    ⟨Nat.div_le_div_right h.1, Nat.div_le_div_right (by omega), f.sectorOf_lt hi⟩

/-- **A write that changes a byte leaves its sector dirty**, and never cleans one. -/
theorem write16_dirty_of_change {offset : U32} {data : U16} {i : ℕ} (hi : i < f.memSize)
    (h : (f.write16 offset data).1.mem i ≠ f.mem i ∨ f.dirty (sectorOf i) = true) :
    (f.write16 offset data).1.dirty (sectorOf i) = true := by
  rw [f.write16_dirty offset data (f.sectorOf_lt hi)]
  rcases h with h | h
  · right
    cases he : f.effect? offset data with
    | none => exact absurd (congrFun (f.write16_of_effect_none he).1 i) h
    | some e =>
      refine ⟨e, rfl, f.sectorOf_mem_touched hi ?_⟩
      by_contra hout
      rw [f.write16_mem_of_effect he] at h
      exact h (Effect.apply_of_not_mem hout)
  · exact .inl h

/-- **Every call keeps the tracking complete.** -/
theorem Tracked.Complete.step {t : Tracked} (h : t.Complete) (a : FlashAccess) :
    (t.step a).Complete := by
  cases a with
  | read16 | read8 | reset => exact h
  | clearDirty => exact fun i _ hne => absurd rfl hne
  | write offset data =>
    intro i hi hne
    have hi' : i < t.device.memSize := by rwa [← t.device.write16_memSize offset data]
    refine t.device.write16_dirty_of_change hi' ?_
    by_cases hch : (t.device.write16 offset data).1.mem i = t.device.mem i
    · exact .inr (h i hi' fun heq => hne (hch.trans heq))
    · exact .inl hch

theorem Tracked.step_memSize (t : Tracked) (a : FlashAccess) :
    (t.step a).device.memSize = t.device.memSize := by
  cases a with
  | write offset data => exact t.device.write16_memSize offset data
  | _ => rfl

/-! ### Asking for the dirty sectors -/

theorem isSectorDirty_iff {s : ℕ} :
    f.isSectorDirty s = true ↔ s < f.sectorCount ∧ f.dirty s = true := by
  simp [isSectorDirty]

theorem mem_forEachDirtySector {s : ℕ} :
    s ∈ f.forEachDirtySector ↔ f.isSectorDirty s = true := by
  simp [forEachDirtySector, isSectorDirty]

theorem forEachDirtySector_ascending : f.forEachDirtySector.Pairwise (· < ·) :=
  List.pairwise_lt_range.filter _

theorem anyDirty_iff : f.anyDirty = true ↔ f.forEachDirtySector ≠ [] := by
  rw [anyDirty, forEachDirtySector, List.any_eq_true, ne_eq, List.filter_eq_nil_iff]
  simp

/-- **Dirty tracking is complete.** On a device of any admissible size, after any
calls from its construction on: a byte that differs from the contents at the last
`clear_dirty` lies in a dirty sector; `for_each_dirty_sector` visits exactly the
dirty sectors, in ascending order; and `any_dirty` holds exactly when it visits
one. -/
theorem dirty_complete (n : ℕ) (hn : n.isPowerOfTwo) (hle : 0x1000 ≤ n) :
    ∃ f₀ : Sst39vf, construct n = .ok f₀ ∧ ∀ as : List FlashAccess,
      let t := ActionRun.exec Tracked.step ⟨f₀, f₀.mem⟩ as
      (∀ i < n, t.device.mem i ≠ t.snapshot i → t.device.isSectorDirty (sectorOf i) = true) ∧
        (∀ s, s ∈ t.device.forEachDirtySector ↔ t.device.isSectorDirty s = true) ∧
        t.device.forEachDirtySector.Pairwise (· < ·) ∧
        (t.device.anyDirty = true ↔ t.device.forEachDirtySector ≠ []) := by
  refine ⟨_, dif_pos ⟨hn, hle⟩, fun as => ?_⟩
  intro t
  have hinv : t.Complete ∧ t.device.memSize = n := by
    refine ActionRun.exec_preserves (I := fun t : Tracked => t.Complete ∧ t.device.memSize = n)
      (fun s a hs => ⟨hs.1.step a, (s.step_memSize a).trans hs.2⟩) ⟨?_, rfl⟩ as
    exact fun i _ hne => absurd rfl hne
  obtain ⟨hcomplete, hsize⟩ := hinv
  refine ⟨fun i hi hne => ?_, fun s => t.device.mem_forEachDirtySector,
    t.device.forEachDirtySector_ascending, t.device.anyDirty_iff⟩
  rw [← hsize] at hi
  exact t.device.isSectorDirty_iff.mpr ⟨t.device.sectorOf_lt hi, hcomplete i hi hne⟩

/-- The device of 512 KB. -/
theorem dirty_complete_512K :
    (0x80000).isPowerOfTwo ∧ 0x1000 ≤ 0x80000 ∧
    ∃ f₀ : Sst39vf, construct 0x80000 = .ok f₀ ∧ ∀ as : List FlashAccess,
      let t := ActionRun.exec Tracked.step ⟨f₀, f₀.mem⟩ as
      (∀ i < 0x80000, t.device.mem i ≠ t.snapshot i →
          t.device.isSectorDirty (sectorOf i) = true) ∧
        (∀ s, s ∈ t.device.forEachDirtySector ↔ t.device.isSectorDirty s = true) ∧
        t.device.forEachDirtySector.Pairwise (· < ·) ∧
        (t.device.anyDirty = true ↔ t.device.forEachDirtySector ≠ []) :=
  ⟨⟨19, rfl⟩, by decide, dirty_complete 0x80000 ⟨19, rfl⟩ (by decide)⟩

end Sst39vf
