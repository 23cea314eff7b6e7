import PieceEmu.Board.DirtyTracking

/-!
# When the dirty callback is called

The contract of the dirty callback is about transitions: it is called once for each
sector that a write takes from clean to dirty, and for no other
(`Sst39vf.ReportsTransitions`). A word program, a sector erase and a block erase mark
their span sector by sector, and `mark_dirty` asks before it reports. A chip erase sets
every bit first and then reports every sector, so that it keeps the contract only on a
device without dirty sectors (`Sst39vf.reportsTransitions_iff`).
-/

namespace Sst39vf

variable (f : Sst39vf)

/-- **The contract of the callback**: the calls of a write are one for each sector that
was clean before it and is dirty after it. -/
def ReportsTransitions (offset : U32) (data : U16) : Prop :=
  ∀ s, (f.write16 offset data).2.count s =
    if f.isSectorDirty s = false ∧ (f.write16 offset data).1.isSectorDirty s = true then 1 else 0

/-- The write completes the sequence of a chip erase. -/
def ErasesChip (offset : U32) (data : U16) : Prop :=
  f.state = .enter5 ∧ f.maskOffset offset >>> 1 = cmdAddr1 ∧ data.setWidth 8 = 0x10#8

theorem effect?_eq_eraseChip_iff {offset : U32} {data : U16} :
    f.effect? offset data = some .eraseChip ↔ f.ErasesChip offset data := by
  constructor
  · intro h
    rcases f.effect?_cases h with ⟨-, he⟩ | ⟨hst, hc, hA, -⟩ | ⟨-, -, he⟩ | ⟨-, -, he⟩
    · exact nomatch he
    · exact ⟨hst, hA, hc⟩
    · exact nomatch he
    · exact nomatch he
  · rintro ⟨hst, hA, hc⟩
    simp [effect?, hst, hA, hc]

/-- **Marking a span reports the transitions.** -/
theorem count_markDirty (g : Sst39vf) (byteOffset spanBytes s : ℕ) :
    (g.markDirty byteOffset spanBytes).2.count s =
      if g.isSectorDirty s = false ∧
        (g.markDirty byteOffset spanBytes).1.isSectorDirty s = true then 1 else 0 := by
  have hnodup : ((g.spanSectors byteOffset spanBytes).filter fun s => !g.dirty s).Nodup :=
    (g.nodup_spanSectors byteOffset spanBytes).filter _
  have hcount : (g.markDirty byteOffset spanBytes).1.sectorCount = g.sectorCount :=
    congrArg (· / sectorSize) (g.markDirty_memSize byteOffset spanBytes)
  rw [markDirty_snd, hnodup.count]
  refine if_congr ?_ rfl rfl
  rw [List.mem_filter, isSectorDirty_iff, hcount, markDirty_dirty, isSectorDirty,
    Bool.and_eq_false_iff, decide_eq_false_iff_not, Bool.not_eq_true']
  have hspan : s ∈ g.spanSectors byteOffset spanBytes → s < g.sectorCount :=
    fun h => (g.mem_spanSectors.mp h).2.2
  cases g.dirty s <;> grind

/-- **The callback and one write**: the contract is kept unless the write erases a chip
that has a dirty sector. -/
theorem reportsTransitions_iff (offset : U32) (data : U16) :
    f.ReportsTransitions offset data ↔ ¬(f.ErasesChip offset data ∧ f.anyDirty = true) := by
  rw [← effect?_eq_eraseChip_iff]
  cases he : f.effect? offset data with
  | none =>
    obtain ⟨-, hdirty, hcalls⟩ := f.write16_of_effect_none he
    have hkept (s : ℕ) :
        (f.write16 offset data).1.isSectorDirty s = f.isSectorDirty s := by
      rw [isSectorDirty, isSectorDirty, hdirty, sectorCount, write16_memSize]
      rfl
    refine iff_of_true (fun s => ?_) fun h => absurd h.1.symm (Option.some_ne_none _)
    rw [hcalls, hkept, List.count_nil, if_neg]
    rintro ⟨hclean, hset⟩
    exact Bool.noConfusion (hclean.symm.trans hset)
  | some e =>
    by_cases hchip : e = .eraseChip
    · -- every sector is reported, and every sector is dirty afterwards
      subst hchip
      have hlist : (f.write16 offset data).2 = List.range f.sectorCount :=
        congrArg Prod.snd (f.write16_of_eraseChip he)
      have hdirty : (f.write16 offset data).1.dirty = fun _ => true :=
        congrArg (·.1.dirty) (f.write16_of_eraseChip he)
      rw [ReportsTransitions, Option.some_inj, eq_self, true_and, anyDirty_iff, not_not,
        List.eq_nil_iff_forall_not_mem]
      refine forall_congr' fun s => ?_
      have hcalls : (f.write16 offset data).2.count s = if s < f.sectorCount then 1 else 0 := by
        rw [hlist, List.nodup_range.count]
        exact if_congr List.mem_range rfl rfl
      have hset : (f.write16 offset data).1.isSectorDirty s = decide (s < f.sectorCount) := by
        rw [isSectorDirty, hdirty, sectorCount, write16_memSize]
        exact Bool.and_true _
      rw [hcalls, hset, mem_forEachDirtySector, Bool.not_eq_true]
      by_cases hs : s < f.sectorCount
      · cases f.isSectorDirty s <;> simp [hs]
      · have hout : f.isSectorDirty s = false := by
          rw [isSectorDirty, decide_eq_false hs, Bool.false_and]
        simp [hs, hout]
    · refine iff_of_true (fun s => ?_) fun h => hchip (Option.some.inj h.1)
      rw [f.write16_of_effect he hchip]
      exact count_markDirty { f with mem := e.apply f.memSize f.mem } e.start
        (e.length f.memSize) s

/-! ### Along a run -/

/-- A call keeps the contract of the callback; only a write can break it. -/
def FlashAccess.ReportsTransitions (f : Sst39vf) : FlashAccess → Prop
  | .write offset data => f.ReportsTransitions offset data
  | _ => True

/-- A call erases a chip that has a dirty sector. -/
def FlashAccess.ErasesDirtyChip (f : Sst39vf) : FlashAccess → Prop
  | .write offset data => f.ErasesChip offset data ∧ f.anyDirty = true
  | _ => False

/-- **The callback along a run**: whatever calls are made on a device, each of them keeps
the contract of the callback if and only if none of them erases a chip that has a dirty
sector. -/
theorem callback_along_iff (t : Tracked) (as : List FlashAccess) :
    ActionRun.Along Tracked.step (fun t a => a.ReportsTransitions t.device) t as ↔
      ActionRun.Along Tracked.step (fun t a => ¬a.ErasesDirtyChip t.device) t as := by
  refine ActionRun.along_congr (I := fun _ => True) (fun _ _ _ => trivial) (fun t a _ => ?_) trivial
  cases a with
  | write offset data => exact t.device.reportsTransitions_iff offset data
  | read16 | read8 | reset | clearDirty => exact iff_of_true trivial not_false

/-- A word program in sector 0, and a chip erase. -/
def programThenEraseChip : List FlashAccess :=
  [.write 0xAAAA 0xAA, .write 0x5554 0x55, .write 0xAAAA 0xA0, .write 0 0x1234,
    .write 0xAAAA 0xAA, .write 0x5554 0x55, .write 0xAAAA 0x80, .write 0xAAAA 0xAA,
    .write 0x5554 0x55, .write 0xAAAA 0x10]

/-- **A dirty sector reported again**: on the erased device of 64 KB, the chip erase
calls the callback for sector 0, which the word program has made dirty. -/
theorem programThenEraseChip_reports :
    let f : Sst39vf := ⟨0x10000, ⟨16, rfl⟩, by decide, fun _ => 0xFF, fun _ => false, .normal⟩
    ¬ActionRun.Along Tracked.step (fun t a => a.ReportsTransitions t.device) ⟨f, f.mem⟩
      programThenEraseChip := by
  intro f h
  set f₉ := (ActionRun.exec Tracked.step ⟨f, f.mem⟩ (programThenEraseChip.take 9)).device with hf
  have hlast : f₉.ReportsTransitions 0xAAAA 0x10 :=
    @ActionRun.Along.at _ _ _ _ _ (programThenEraseChip.take 9) [] _ h
  have hcalls : (f₉.write16 0xAAAA 0x10).2.count 0 = 1 := by decide
  have hdirty : f₉.isSectorDirty 0 = true := by decide
  rw [hlast 0, hdirty] at hcalls
  exact absurd hcalls (by decide)

end Sst39vf
