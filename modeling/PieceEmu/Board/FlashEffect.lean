import PieceEmu.Board.Sst39vf

/-!
# What one write does to memory

`Sst39vf.write16` has nine states and a dozen branches, but only four things can
happen to memory: nothing, one halfword is programmed, one aligned span is erased,
or the chip is. `Sst39vf.effect?` names which, and two theorems say that it is all
there is to a write as far as memory and the dirty bits go:

* `Sst39vf.write16_mem` – memory after the write is the effect applied to memory;
* `Sst39vf.write16_dirty` – the dirty sectors are the old ones and those the
  effect touches.

Every statement about histories of writes is an induction over these.

That no effect reaches past the device needs an argument: a block is 64 KB and a
device may be 4 KB. But the sixth cycle of an erase is only reached through the
command address `5555`, and a device whose offsets, once masked, can show that
halfword address has at least 64 KB. `Sst39vf.Sized` is the invariant that
remembers this, and `Sst39vf.Sized.effect_inside` what it is for.
-/

namespace Sst39vf

/-- What a write does to memory. -/
inductive Effect
  /-- The halfword at a byte offset becomes the data. -/
  | program (off : ℕ) (data : U16)
  /-- `len` bytes from `base` on become `FF`: a sector or a block. -/
  | erase (base len : ℕ)
  /-- Every byte becomes `FF`. -/
  | eraseChip
  deriving DecidableEq

/-- Memory after an effect, on a device of the given size. -/
def Effect.apply (memSize : ℕ) : Effect → (ℕ → U8) → ℕ → U8
  | .program off data, m => Words.putLe16 m off data
  | .erase base len, m => Words.fill m base len 0xFF
  | .eraseChip, m => Words.fill m 0 memSize 0xFF

/-- The first byte an effect touches. -/
def Effect.start : Effect → ℕ
  | .program off _ => off
  | .erase base _ => base
  | .eraseChip => 0

/-- The number of bytes an effect touches, on a device of the given size. -/
def Effect.length (memSize : ℕ) : Effect → ℕ
  | .program _ _ => 2
  | .erase _ len => len
  | .eraseChip => memSize

/-- **An effect changes nothing outside the bytes it touches.** -/
theorem Effect.apply_of_not_mem {memSize i : ℕ} {m : ℕ → U8} {e : Effect}
    (h : ¬(e.start ≤ i ∧ i < e.start + e.length memSize)) : e.apply memSize m i = m i := by
  cases e with
  | program off data =>
    have h' : ¬(off ≤ i ∧ i < off + 2) := h
    exact Words.putLe16_of_ne (by omega)
  | erase base len => exact Words.fill_of_not_mem h
  | eraseChip => exact Words.fill_of_not_mem h

variable (f : Sst39vf)

/-- The effect of the write of `data` at `offset`, if it has one. -/
def effect? (offset : U32) (data : U16) : Option Effect :=
  let off := f.maskOffset offset
  let cmd : U8 := data.setWidth 8
  match f.state with
  | .wordProgram => some (.program off.toNat data)
  | .enter5 =>
    if cmd = 0x10 ∧ off >>> 1 = cmdAddr1 then some .eraseChip
    else if cmd = 0x30 then some (.erase (off.toNat / sectorSize * sectorSize) sectorSize)
    else if cmd = 0x50 then some (.erase (off.toNat / blockSize * blockSize) blockSize)
    else none
  | _ => none

/-- **The four ways to have an effect.** -/
theorem effect?_cases {offset : U32} {data : U16} {e : Effect}
    (h : f.effect? offset data = some e) :
    (f.state = .wordProgram ∧ e = .program (f.maskOffset offset).toNat data) ∨
    (f.state = .enter5 ∧ data.setWidth 8 = 0x10#8 ∧ f.maskOffset offset >>> 1 = cmdAddr1 ∧
      e = .eraseChip) ∨
    (f.state = .enter5 ∧ data.setWidth 8 = 0x30#8 ∧
      e = .erase ((f.maskOffset offset).toNat / sectorSize * sectorSize) sectorSize) ∨
    (f.state = .enter5 ∧ data.setWidth 8 = 0x50#8 ∧
      e = .erase ((f.maskOffset offset).toNat / blockSize * blockSize) blockSize) := by
  unfold effect? at h
  cases hs : f.state <;> simp only [hs] at h <;> grind

/-- The sectors an effect touches. -/
def touched (e : Effect) : List ℕ := f.spanSectors e.start (e.length f.memSize)

theorem base_sector (off : U32) :
    (off &&& ~~~BitVec.ofNat 32 (sectorSize - 1)).toNat = off.toNat / sectorSize * sectorSize :=
  Words.toNat_and_not_low off 12

theorem base_block (off : U32) :
    (off &&& ~~~BitVec.ofNat 32 (blockSize - 1)).toNat = off.toNat / blockSize * blockSize :=
  Words.toNat_and_not_low off 16

/-- A write without an effect leaves memory, the dirty bits and the callback alone. -/
theorem write16_of_effect_none {offset : U32} {data : U16} (h : f.effect? offset data = none) :
    (f.write16 offset data).1.mem = f.mem ∧ (f.write16 offset data).1.dirty = f.dirty ∧
      (f.write16 offset data).2 = [] := by
  unfold effect? at h
  unfold write16 eraseCycle
  cases hs : f.state <;> simp only [hs] at h <;> grind

/-- **The write of a program, a sector erase or a block erase**: the memory change,
the marking of its span, and back to the read mode. -/
theorem write16_of_effect {offset : U32} {data : U16} {e : Effect}
    (h : f.effect? offset data = some e) (he : e ≠ .eraseChip) :
    f.write16 offset data =
      ({ ({ f with mem := e.apply f.memSize f.mem }.markDirty e.start (e.length f.memSize)).1 with
          state := .normal },
        ({ f with mem := e.apply f.memSize f.mem }.markDirty e.start (e.length f.memSize)).2) := by
  rcases f.effect?_cases h with ⟨hst, rfl⟩ | ⟨-, -, -, rfl⟩ | ⟨hst, hc, rfl⟩ | ⟨hst, hc, rfl⟩
  · simp only [write16, hst, Effect.apply, Effect.start, Effect.length]
    rfl
  · exact absurd rfl he
  · simp only [write16, eraseCycle, hst, hc, base_sector, Effect.apply, Effect.start,
      Effect.length]
    rfl
  · simp only [write16, eraseCycle, hst, hc, base_block, Effect.apply, Effect.start,
      Effect.length]
    rfl

/-- **The write of a chip erase** reports every sector, dirty already or not. -/
theorem write16_of_eraseChip {offset : U32} {data : U16}
    (h : f.effect? offset data = some .eraseChip) :
    f.write16 offset data =
      ({ f with mem := Words.fill f.mem 0 f.memSize 0xFF, dirty := fun _ => true,
                state := .normal }, List.range f.sectorCount) := by
  rcases f.effect?_cases h with ⟨-, he⟩ | ⟨hst, hc, hA, -⟩ | ⟨-, -, he⟩ | ⟨-, -, he⟩
  · exact absurd he (by simp)
  · simp only [write16, eraseCycle, hst, hc, hA]
    rfl
  · exact absurd he (by simp)
  · exact absurd he (by simp)

/-- **Memory after a write with an effect.** -/
theorem write16_mem_of_effect {offset : U32} {data : U16} {e : Effect}
    (h : f.effect? offset data = some e) :
    (f.write16 offset data).1.mem = e.apply f.memSize f.mem := by
  by_cases he : e = .eraseChip
  · subst he
    rw [f.write16_of_eraseChip h]
    rfl
  · rw [f.write16_of_effect h he]
    exact markDirty_mem _ _ _

/-- **Memory after a write.** -/
theorem write16_mem (offset : U32) (data : U16) :
    (f.write16 offset data).1.mem =
      (f.effect? offset data).elim f.mem fun e => e.apply f.memSize f.mem := by
  cases h : f.effect? offset data with
  | none => exact (f.write16_of_effect_none h).1
  | some e => exact f.write16_mem_of_effect h

theorem mem_touched {e : Effect} {s : ℕ} :
    s ∈ f.touched e ↔ e.start / sectorSize ≤ s ∧
      s ≤ (e.start + e.length f.memSize - 1) / sectorSize ∧ s < f.sectorCount :=
  f.mem_spanSectors

/-- An effect on the chip touches every sector of the device. -/
theorem mem_touched_eraseChip {s : ℕ} (hs : s < f.sectorCount) : s ∈ f.touched .eraseChip := by
  refine f.mem_touched.mpr ⟨by simp [Effect.start], ?_, hs⟩
  have h : s * sectorSize + sectorSize ≤ f.memSize := by
    rw [← f.sectorCount_mul, ← Nat.succ_mul]
    exact Nat.mul_le_mul_right _ hs
  have hpos : 0 < sectorSize := by decide
  rw [Nat.le_div_iff_mul_le hpos]
  show s * sectorSize ≤ 0 + f.memSize - 1
  omega

/-- **The dirty sectors after a write with an effect.** -/
theorem write16_dirty_of_effect {offset : U32} {data : U16} {e : Effect}
    (h : f.effect? offset data = some e) {s : ℕ} (hs : s < f.sectorCount) :
    (f.write16 offset data).1.dirty s = true ↔ f.dirty s = true ∨ s ∈ f.touched e := by
  by_cases he : e = .eraseChip
  · subst he
    rw [f.write16_of_eraseChip h]
    simp [f.mem_touched_eraseChip hs]
  · rw [f.write16_of_effect h he]
    exact markDirty_dirty _

/-- **The dirty sectors after a write**: the old ones, and those its effect
touches. -/
theorem write16_dirty (offset : U32) (data : U16) {s : ℕ} (hs : s < f.sectorCount) :
    (f.write16 offset data).1.dirty s = true ↔
      f.dirty s = true ∨ ∃ e, f.effect? offset data = some e ∧ s ∈ f.touched e := by
  cases h : f.effect? offset data with
  | none => simp [(f.write16_of_effect_none h).2.1]
  | some e => simpa using f.write16_dirty_of_effect h hs

/-! ### No effect leaves the device -/

/-- **A device out of its read mode has at least one block**: the command address
is out of reach of a smaller one. -/
def Sized : Prop := f.state ≠ .normal → blockSize ≤ f.memSize

/-- A device that shows the halfword address `5555` has at least one block. -/
theorem blockSize_le_of_cmdAddr1 {offset : U32} (h : f.maskOffset offset >>> 1 = cmdAddr1) :
    blockSize ≤ f.memSize := by
  obtain ⟨k, -, hk⟩ := f.exists_memSize_eq
  have h1 : (f.maskOffset offset).toNat / 2 = 0x5555 := by
    have := congrArg BitVec.toNat h
    rwa [BitVec.toNat_ushiftRight, Nat.shiftRight_eq_div_pow] at this
  have h2 := f.toNat_maskOffset_add_one_lt offset
  rw [hk] at h2 ⊢
  have h3 : 2 ^ 15 < 2 ^ k := by omega
  exact Nat.pow_le_pow_right (n := 2) (by decide) ((Nat.pow_lt_pow_iff_right (by decide)).mp h3)

theorem Sized.write16 {f : Sst39vf} (hf : f.Sized) (offset : U32) (data : U16) :
    (f.write16 offset data).1.Sized := by
  intro h
  rw [write16_memSize]
  by_cases hn : f.state = .normal
  · by_cases hA : f.maskOffset offset >>> 1 = cmdAddr1
    · exact f.blockSize_le_of_cmdAddr1 hA
    · refine absurd ?_ h
      simp [Sst39vf.write16, hn, hA]
      split <;> simp_all
  · exact hf hn

theorem Sized.reset {f : Sst39vf} : f.reset.Sized := fun h => absurd rfl h

/-- **Every byte an effect touches is a byte of the device.** -/
theorem Sized.effect_inside {f : Sst39vf} (hf : f.Sized) {offset : U32} {data : U16}
    {e : Effect} (h : f.effect? offset data = some e) :
    e.start + e.length f.memSize ≤ f.memSize := by
  have hlt := f.toNat_maskOffset_add_one_lt offset
  obtain ⟨k, hk12, hk⟩ := f.exists_memSize_eq
  -- an aligned span that starts in the device ends in it
  have aligned : ∀ {j i : ℕ}, 2 ^ j ≤ f.memSize → i < f.memSize →
      i / 2 ^ j * 2 ^ j + 2 ^ j ≤ f.memSize := by
    intro j i hj hi
    rw [hk] at hj hi ⊢
    have hjk : j ≤ k := (Nat.pow_le_pow_iff_right (by decide)).mp hj
    obtain ⟨c, hc⟩ := Nat.pow_dvd_pow 2 hjk
    rw [hc] at hi ⊢
    rw [Nat.mul_comm (2 ^ j) c, ← Nat.succ_mul]
    exact Nat.mul_le_mul_right _ (Nat.div_lt_of_lt_mul hi)
  rcases f.effect?_cases h with ⟨-, rfl⟩ | ⟨-, -, -, rfl⟩ | ⟨-, -, rfl⟩ | ⟨hs, -, rfl⟩
  · exact hlt
  · simp [Effect.start, Effect.length]
  · exact aligned (j := 12) f.sector_le_memSize (by omega)
  · exact aligned (j := 16) (hf (by rw [hs]; decide)) (by omega)

/-- **A write changes nothing past the device.** -/
theorem Sized.write16_mem_of_ge {f : Sst39vf} (hf : f.Sized) (offset : U32) (data : U16) {i : ℕ}
    (hi : f.memSize ≤ i) : (f.write16 offset data).1.mem i = f.mem i := by
  rw [write16_mem]
  cases h : f.effect? offset data with
  | none => rfl
  | some e =>
    have hin := hf.effect_inside h
    exact Effect.apply_of_not_mem (by omega)

end Sst39vf
