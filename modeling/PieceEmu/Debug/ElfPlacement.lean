import PieceEmu.Debug.ElfLoader
import PieceEmu.Lib.Overlay

/-!
# Where an ELF file ends up

What `elf_load` leaves in the memories is the work of overlays (`Overlay.onAll`): each
segment lays its bytes over the region it is copied to, and the zeroes behind them over
whatever the bus maps their addresses to. The copies are checked, in 32 bits; the zeroes
are not, and an address behind a segment can be a second name of a byte that has just
been loaded: the bus decodes 28 bits of an address, and folds the mirror of the internal
RAM onto it.

`ElfLoader.loadedRight_iff` says for which files all goes well: a segment that passes
the checks must not have made their sums wrap, and no zero may fall on a byte of a segment
under another name.
-/

variable {D : Type}

/-! ### What the loader leaves alone -/

/-- **Register handlers that leave the memories alone**, as those of all devices do. -/
structure IoSpace.KeepsMemory (io : IoSpace D) : Prop where
  write : ∀ {idx h}, io.write idx = some h → ∀ addr v (b : Bus D), b.MemoryKept (h addr v b).1
  writeByte : ∀ {idx h}, io.writeByte idx = some h → ∀ addr v (b : Bus D),
    b.MemoryKept (h addr v b).1

/-- A device that does not wait for the halfword to program. -/
def FlashDevice.Quiet : FlashDevice → Prop
  | flat _ => True
  | sst39vf chip => chip.state ≠ .wordProgram

/-- **A zero written to a quiet chip** is not a command, and changes nothing but the
state of the command machine. -/
theorem Sst39vf.write16_zero {f : Sst39vf} (h : f.state ≠ .wordProgram) (offset : U32) :
    (f.write16 offset 0).1.mem = f.mem ∧ (f.write16 offset 0).1.memSize = f.memSize ∧
      (f.write16 offset 0).1.state ≠ .wordProgram := by
  refine ⟨?_, f.write16_memSize offset 0, ?_⟩ <;> unfold write16 <;> cases hs : f.state
  all_goals simp_all [eraseCycle]

theorem FlashDevice.write16_zero {f : FlashDevice} (h : f.Quiet) (offset : U32) :
    (f.write16 offset 0).1.mem = f.mem ∧ (f.write16 offset 0).1.size = f.size ∧
      (f.write16 offset 0).1.Quiet := by
  cases f with
  | flat rom => exact ⟨rfl, rfl, trivial⟩
  | sst39vf chip => exact Sst39vf.write16_zero h offset

/-- The cells of the memories. -/
def Bus.cells (b : Bus D) : LoadRegion × ℕ → U8 := fun c => b.contents c.1 c.2

/-- **The memories of a bus** on which a loader works: their sizes are these, and the
flash is quiet. -/
structure Bus.Steady (b : Bus D) (z : MemorySizes) : Prop where
  sizes : b.sizes = z
  quiet : b.flash.Quiet

theorem Bus.MemoryKept.cells {b b' : Bus D} (h : b.MemoryKept b') : b'.cells = b.cells := by
  funext ⟨r, i⟩
  cases r
  · exact congrFun (congrArg FlashDevice.mem h.flash) i
  · exact congrFun h.sram i
  · exact congrFun h.iram i

/-- A byte stored in one of the memories. -/
theorem Bus.cells_update {b b' : Bus D} {r : LoadRegion} {i : ℕ} {v : U8}
    (hr : b'.contents r = Function.update (b.contents r) i v)
    (hother : ∀ r', r' ≠ r → b'.contents r' = b.contents r') :
    b'.cells = Function.update b.cells (r, i) v := by
  funext ⟨r', j⟩
  by_cases h : r' = r
  · subst h
    rw [Bus.cells, hr]
    by_cases hj : j = i
    · rw [hj, Function.update_self, Function.update_self]
    · have hne : (r', j) ≠ (r', i) := fun h => hj (Prod.mk.inj h).2
      rw [Function.update_of_ne hj, Function.update_of_ne hne]
      rfl
  · have hne : (r', j) ≠ (r, i) := fun heq => h (Prod.mk.inj heq).1
    rw [Function.update_of_ne hne, Bus.cells, hother r' h]
    rfl

theorem Bus.MemoryKept.steady {b b' : Bus D} {z : MemorySizes} (h : b.MemoryKept b')
    (hb : b.Steady z) : b'.Steady z where
  sizes := by
    rw [← hb.sizes, Bus.sizes, Bus.sizes, h.flash, h.sramSize]
  quiet := h.flash ▸ hb.quiet

theorem Bus.quiet_withFlashMem {b : Bus D} (h : b.flash.Quiet) (mem : ℕ → U8) :
    (b.withFlashMem mem).flash.Quiet := by
  obtain ⟨_, _, _, flash⟩ := b
  cases flash <;> exact h

/-! ### The zeroes -/

namespace MemorySizes

variable (z : MemorySizes)

/-- The cell that a byte written to an address on the bus falls on. A write to the
flash is no store. -/
def cellAt (addr : U32) : Option (LoadRegion × ℕ) :=
  match Bus.regionOf z.flash (Bus.mask28 addr) with
  | .iram => some (.iram, Bus.iramIndex (Bus.mask28 addr))
  | .sram =>
    if (Bus.mask28 addr - Bus.sramBase).toNat < z.sram then
      some (.sram, (Bus.mask28 addr - Bus.sramBase).toNat)
    else none
  | .flash | .io | .none => none

/-- `n` zeroes, written to the addresses from `addr` on. -/
def zeroes (addr : U32) (n : ℕ) : Overlay (LoadRegion × ℕ) U8 := fun c =>
  if ∃ k < n, z.cellAt (addr + BitVec.ofNat 32 k) = some c then some 0 else none

variable {z}

theorem zeroes_of_hit {addr : U32} {n : ℕ} {c : LoadRegion × ℕ}
    (h : ∃ k < n, z.cellAt (addr + BitVec.ofNat 32 k) = some c) : z.zeroes addr n c = some 0 :=
  if_pos h

theorem zeroes_of_not_hit {addr : U32} {n : ℕ} {c : LoadRegion × ℕ}
    (h : ¬∃ k < n, z.cellAt (addr + BitVec.ofNat 32 k) = some c) : z.zeroes addr n c = none :=
  if_neg h

theorem zeroes_one (addr : U32) (c : LoadRegion × ℕ) :
    z.zeroes addr 1 c = if z.cellAt addr = some c then some 0 else none := by
  refine if_congr ?_ rfl rfl
  constructor
  · rintro ⟨k, hk, hc⟩
    obtain rfl := Nat.lt_one_iff.mp hk
    rwa [BitVec.add_zero] at hc
  · intro hc
    exact ⟨0, Nat.one_pos, by rwa [BitVec.add_zero]⟩

/-- One zero is stored in its cell, if it has one. -/
theorem zeroes_one_on {addr : U32} {c : LoadRegion × ℕ} (h : z.cellAt addr = some c)
    (mem : LoadRegion × ℕ → U8) : (z.zeroes addr 1).on mem = Function.update mem c 0 := by
  funext c'
  rw [Overlay.on, zeroes_one, h]
  by_cases hc : c' = c
  · rw [hc, if_pos rfl, Function.update_self]
    rfl
  · rw [if_neg fun heq => hc (Option.some.inj heq).symm, Function.update_of_ne hc]
    rfl

theorem zeroes_one_on_of_none {addr : U32} (h : z.cellAt addr = none)
    (mem : LoadRegion × ℕ → U8) : (z.zeroes addr 1).on mem = mem := by
  funext c
  rw [Overlay.on, zeroes_one, h]
  rfl

/-- One zero, and the others behind it. -/
theorem zeroes_succ_on (addr : U32) (n : ℕ) (mem : LoadRegion × ℕ → U8) :
    (z.zeroes (addr + 1) n).on ((z.zeroes addr 1).on mem) = (z.zeroes addr (n + 1)).on mem := by
  funext c
  by_cases hn : ∃ k < n, z.cellAt (addr + 1 + BitVec.ofNat 32 k) = some c
  · rw [Overlay.on_of_some (zeroes_of_hit hn)]
    refine (Overlay.on_of_some (zeroes_of_hit ?_)).symm
    obtain ⟨k, hk, hc⟩ := hn
    refine ⟨k + 1, Nat.succ_lt_succ hk, ?_⟩
    rw [← hc, BitVec.ofNat_add, BitVec.add_assoc, BitVec.add_comm (BitVec.ofNat 32 k)]
    rfl
  · rw [Overlay.on_of_none (zeroes_of_not_hit hn)]
    by_cases hc : z.cellAt addr = some c
    · rw [Overlay.on_of_some ((zeroes_one addr c).trans (if_pos hc))]
      refine (Overlay.on_of_some (zeroes_of_hit ⟨0, Nat.succ_pos n, ?_⟩)).symm
      rwa [BitVec.add_zero]
    · rw [Overlay.on_of_none ((zeroes_one addr c).trans (if_neg hc))]
      refine (Overlay.on_of_none (zeroes_of_not_hit ?_)).symm
      rintro ⟨k, hk, hck⟩
      cases k with
      | zero => exact hc (by rwa [BitVec.add_zero] at hck)
      | succ k =>
        refine hn ⟨k, Nat.lt_of_succ_lt_succ hk, ?_⟩
        rw [← hck, BitVec.ofNat_add, BitVec.add_assoc, BitVec.add_comm (BitVec.ofNat 32 k)]
        rfl

end MemorySizes

section Write

variable {io : IoSpace D} {z : MemorySizes} {b : Bus D}

/-- **A zero on the bus**: the cell of the address is cleared, and no other. -/
theorem Bus.write8_zero (hio : io.KeepsMemory) (hb : b.Steady z) (addr : U32) :
    (b.write8 io addr 0).1.Steady z ∧
      (b.write8 io addr 0).1.cells = (z.zeroes addr 1).on b.cells := by
  obtain ⟨rfl, hquiet⟩ := hb
  have hkept {b' : Bus D} (hk : b.MemoryKept b') (hcell : b.sizes.cellAt addr = none) :
      b'.Steady b.sizes ∧ b'.cells = (b.sizes.zeroes addr 1).on b.cells :=
    ⟨hk.steady ⟨rfl, hquiet⟩, hk.cells.trans (MemorySizes.zeroes_one_on_of_none hcell _).symm⟩
  have hregion : Bus.regionOf b.sizes.flash (Bus.mask28 addr) = b.classify (Bus.mask28 addr) := rfl
  rw [Bus.write8]
  dsimp only
  cases hreg : b.classify (Bus.mask28 addr) with
  | iram =>
    have hcell : b.sizes.cellAt addr = some (.iram, Bus.iramIndex (Bus.mask28 addr)) := by
      rw [MemorySizes.cellAt, hregion, hreg]
    rw [MemorySizes.zeroes_one_on hcell]
    refine ⟨⟨rfl, hquiet⟩, Bus.cells_update rfl fun r hr => ?_⟩
    cases r with
    | iram => exact absurd rfl hr
    | flash | sram => rfl
  | sram =>
    dsimp only
    split_ifs with hoff
    · have hcell : b.sizes.cellAt addr =
          some (.sram, (Bus.mask28 addr - Bus.sramBase).toNat) := by
        rw [MemorySizes.cellAt, hregion, hreg]
        exact if_pos hoff
      have hk : b.MemoryKept ((b.charge (b.extWriteCycles b.sramWait)).noteSramWrite
          (Bus.mask28 addr) ((0 : U8).setWidth 32) 1) :=
        (Bus.MemoryKept.charge b _).noteSramWrite _ _ _
      rw [MemorySizes.zeroes_one_on hcell, ← hk.cells]
      refine ⟨⟨(hk.steady ⟨rfl, hquiet⟩).sizes, (hk.steady ⟨rfl, hquiet⟩).quiet⟩,
        Bus.cells_update rfl fun r hr => ?_⟩
      cases r with
      | sram => exact absurd rfl hr
      | flash | iram => rfl
    · refine hkept (.charge b _) ?_
      rw [MemorySizes.cellAt, hregion, hreg]
      exact if_neg hoff
  | flash =>
    -- a quiet device takes a zero for no command
    obtain ⟨hmem, hsize, hq⟩ := FlashDevice.write16_zero hquiet (Bus.mask28 addr - Bus.flashBase)
    have hcell : b.sizes.cellAt addr = none := by rw [MemorySizes.cellAt, hregion, hreg]
    rw [MemorySizes.zeroes_one_on_of_none hcell]
    refine ⟨⟨congrArg (fun n => MemorySizes.mk n b.sramSize) hsize, hq⟩, ?_⟩
    funext ⟨r, i⟩
    cases r with
    | flash => exact congrFun hmem i
    | sram | iram => rfl
  | io =>
    have hcell : b.sizes.cellAt addr = none := by rw [MemorySizes.cellAt, hregion, hreg]
    dsimp only
    split_ifs with hidx
    · split
      · next h hw => exact hkept (hio.writeByte hw _ _ _) hcell
      · next h hw hw' => exact hkept (hio.write hw' _ _ _) hcell
      · exact hkept (.refl b) hcell
    · exact hkept (.refl b) hcell
  | none => exact hkept (.refl b) (by rw [MemorySizes.cellAt, hregion, hreg])

/-- **The loop of zeroes** is one overlay. -/
theorem ElfLoader.zeroFill_eq (hio : io.KeepsMemory) (n : ℕ) (addr : U32)
    {s : Bus D × CpuRequest} (hs : s.1.Steady z) :
    (zeroFill io n addr s).1.Steady z ∧
      (zeroFill io n addr s).1.cells = (z.zeroes addr n).on s.1.cells := by
  induction n generalizing addr s with
  | zero =>
    refine ⟨hs, funext fun c => (Overlay.on_of_none (MemorySizes.zeroes_of_not_hit ?_)).symm⟩
    exact fun ⟨_, hk, _⟩ => absurd hk (Nat.not_lt_zero _)
  | succ n ih =>
    obtain ⟨hsteady, hcells⟩ := Bus.write8_zero hio hs addr
    obtain ⟨hsteady', hcells'⟩ := ih (addr + 1)
      (s := ((s.1.write8 io addr 0).1, s.2.andThen (s.1.write8 io addr 0).2)) hsteady
    refine ⟨hsteady', hcells'.trans ?_⟩
    rw [hcells, MemorySizes.zeroes_succ_on]

end Write
/-! ### One segment -/

namespace Elf32Phdr

variable (ph : Elf32Phdr) (data : List U8)

/-- A segment that is not skipped. -/
def Loads : Prop := ph.type = ptLoad ∧ ¬(ph.filesz = 0 ∧ ph.memsz = 0)

instance : Decidable ph.Loads := inferInstanceAs (Decidable (_ ∧ _))

/-- The region a segment is loaded into. -/
def region (z : MemorySizes) : Option LoadRegion :=
  if ph.Loads then z.regionFor ph.paddr else none

/-- The index of the first byte of a segment in a region. -/
def start (r : LoadRegion) : ℕ := (ph.paddr - r.base).toNat

/-- The bytes of a segment, as an overlay of a region. -/
def copied (r : LoadRegion) : Overlay (LoadRegion × ℕ) U8 := fun c =>
  if c.1 = r ∧ ph.start r ≤ c.2 then (ph.segment data)[c.2 - ph.start r]? else none

/-- What a segment lays over the memories: its bytes, and the zeroes behind them. -/
def layers (z : MemorySizes) : List (Overlay (LoadRegion × ℕ) U8) :=
  match ph.region z with
  | none => []
  | some r =>
    [ph.copied data r, z.zeroes (ph.paddr + ph.filesz) (ph.memsz.toNat - ph.filesz.toNat)]

/-- The check of the memory a segment goes to, as it is made: in 32 bits for the
internal RAM. -/
def Fits (z : MemorySizes) : LoadRegion → Prop
  | .flash => ph.start .flash + ph.filesz.toNat ≤ z.flash
  | .sram => ph.start .sram + ph.filesz.toNat ≤ z.sram
  | .iram => (ph.paddr + ph.filesz).toNat ≤ Bus.iramSize

/-- **A segment that passes the checks**, as they are made, in a file of this size. -/
def Passes (z : MemorySizes) (size : ℕ) : Prop :=
  ph.Loads → (ph.offset + ph.filesz).toNat ≤ size ∧
    ∀ r, z.regionFor ph.paddr = some r → ph.filesz ≠ 0 → ph.Fits z r

/-- **A segment that lies in the file, and fits the memory it goes to.** -/
def InBounds (z : MemorySizes) (size : ℕ) : Prop :=
  ∀ r, ph.region z = some r → ph.filesz ≠ 0 →
    ph.offset.toNat + ph.filesz.toNat ≤ size ∧ ph.start r + ph.filesz.toNat ≤ z.capacity r

/-- An end that is not an exception. -/
def Outside (stop : ElfStop) : Prop := ∀ e, stop ≠ .throws e

theorem checkCopy_cases (start capacity : ℕ) :
    (ph.checkCopy data start capacity = .ok () ∧
      ph.offset.toNat + ph.filesz.toNat ≤ data.length ∧ start + ph.filesz.toNat ≤ capacity) ∨
    ((∃ stop, ph.checkCopy data start capacity = .error stop ∧ Outside stop) ∧
      ¬(ph.offset.toNat + ph.filesz.toNat ≤ data.length ∧
        start + ph.filesz.toNat ≤ capacity)) := by
  rw [checkCopy]
  split_ifs with h h'
  · exact .inr ⟨⟨_, rfl, fun e => by simp⟩, by omega⟩
  · exact .inr ⟨⟨_, rfl, fun e => by simp⟩, by omega⟩
  · exact .inl ⟨rfl, by omega⟩

section Copy

variable {z : MemorySizes} {b : Bus D}

variable {ph data} in
/-- A copy to one region is its overlay. -/
theorem cells_of_blit {b' : Bus D} {r : LoadRegion} (hsame : ∀ r', r' ≠ r → b'.contents r' =
    b.contents r') (hr : b'.contents r = blit (b.contents r) (ph.start r) (ph.segment data)) :
    b'.cells = (ph.copied data r).on b.cells := by
  funext ⟨r', i⟩
  rw [Overlay.on, copied]
  by_cases heq : r' = r
  · subst heq
    rw [Bus.cells, hr, blit]
    by_cases hi : ph.start r' ≤ i
    · rw [if_pos hi, if_pos ⟨rfl, hi⟩]
      rfl
    · rw [if_neg hi, if_neg fun h => hi h.2]
      rfl
  · rw [Bus.cells, hsame r' heq, if_neg fun h => heq h.1]
    rfl

/-- How the copy of a segment ends. -/
theorem copySegment_cases (hb : b.Steady z) (r : LoadRegion) :
    (¬ph.Fits z r ∧ ∃ e, ph.copySegment data b r = .error (.throws e)) ∨
    (ph.Fits z r ∧ (∃ stop, ph.copySegment data b r = .error stop ∧ Outside stop) ∧
      ¬(ph.offset.toNat + ph.filesz.toNat ≤ data.length ∧
        ph.start r + ph.filesz.toNat ≤ z.capacity r)) ∨
    (ph.Fits z r ∧ (ph.offset.toNat + ph.filesz.toNat ≤ data.length ∧
        ph.start r + ph.filesz.toNat ≤ z.capacity r) ∧
      ∃ b', ph.copySegment data b r = .ok b' ∧ b'.Steady z ∧
        b'.cells = (ph.copied data r).on b.cells) := by
  obtain ⟨rfl, hquiet⟩ := hb
  cases r with
  | flash =>
    rw [copySegment, Bus.loadFlash_eq, length_segment]
    by_cases hfit : b.flash.size < (ph.paddr - Bus.flashBase).toNat + ph.filesz.toNat
    · rw [if_pos hfit]
      exact .inl ⟨Nat.not_le.mpr hfit, _, rfl⟩
    rw [if_neg hfit]
    dsimp only
    have hfits : ph.Fits b.sizes .flash := Nat.not_lt.mp hfit
    rcases checkCopy_cases ph data (ph.paddr - Bus.flashBase).toNat
      b.flash.size with ⟨hok, hin⟩ | ⟨⟨stop, hstop, hout⟩, hnot⟩
    · rw [hok]
      refine .inr (.inr ⟨hfits, hin, _, rfl, ⟨?_, ?_⟩, cells_of_blit (r := .flash) ?_ ?_⟩)
      · exact congrArg (fun n => MemorySizes.mk n b.sramSize) (b.withFlashMem_size _)
      · exact Bus.quiet_withFlashMem hquiet _
      · rintro r' hne
        cases r' with
        | flash => exact absurd rfl hne
        | sram => rfl
        | iram => rfl
      · exact b.withFlashMem_mem _
    · rw [hstop]
      exact .inr (.inl ⟨hfits, ⟨stop, rfl, hout⟩, hnot⟩)
  | sram =>
    rw [copySegment, Bus.loadSram, length_segment]
    by_cases hfit : b.sramSize < (ph.paddr - Bus.sramBase).toNat + ph.filesz.toNat
    · rw [if_pos hfit]
      exact .inl ⟨Nat.not_le.mpr hfit, _, rfl⟩
    rw [if_neg hfit]
    dsimp only
    have hfits : ph.Fits b.sizes .sram := Nat.not_lt.mp hfit
    rcases checkCopy_cases ph data (ph.paddr - Bus.sramBase).toNat
      b.sramSize with ⟨hok, hin⟩ | ⟨⟨stop, hstop, hout⟩, hnot⟩
    · rw [hok]
      refine .inr (.inr ⟨hfits, hin, _, rfl, ⟨rfl, hquiet⟩, cells_of_blit (r := .sram) ?_ rfl⟩)
      rintro r' hne
      cases r' with
      | flash => rfl
      | sram => exact absurd rfl hne
      | iram => rfl
    · rw [hstop]
      exact .inr (.inl ⟨hfits, ⟨stop, rfl, hout⟩, hnot⟩)
  | iram =>
    -- the loader of IRAM tests the end of the copy, which it computes in 32 bits
    have hstart : ph.start .iram = ph.paddr.toNat :=
      congrArg BitVec.toNat (BitVec.sub_zero ph.paddr)
    rw [copySegment]
    by_cases hfit : Bus.iramSize < (ph.paddr + ph.filesz).toNat
    · rw [if_pos hfit]
      exact .inl ⟨Nat.not_le.mpr hfit, _, rfl⟩
    rw [if_neg hfit]
    have hfits : ph.Fits b.sizes .iram := Nat.not_lt.mp hfit
    rcases checkCopy_cases ph data ph.paddr.toNat Bus.iramSize with
      ⟨hok, hin⟩ | ⟨⟨stop, hstop, hout⟩, hnot⟩
    · rw [hok]
      refine .inr (.inr ⟨hfits, hstart ▸ hin, _, rfl, ⟨rfl, hquiet⟩,
        cells_of_blit (r := .iram) ?_ (hstart ▸ rfl)⟩)
      rintro r' hne
      cases r' with
      | flash => rfl
      | sram => rfl
      | iram => exact absurd rfl hne
    · rw [hstop]
      exact .inr (.inl ⟨hfits, ⟨stop, rfl, hout⟩, hstart ▸ hnot⟩)

end Copy

end Elf32Phdr

namespace ElfLoader

open Elf32Phdr (Outside)

variable {io : IoSpace D} {z : MemorySizes} {data : List U8}

theorem layers_of_region_none {ph : Elf32Phdr} (h : ph.region z = none) :
    ph.layers data z = [] := by rw [Elf32Phdr.layers, h]

theorem inBounds_of_region_none {ph : Elf32Phdr} (h : ph.region z = none) (size : ℕ) :
    ph.InBounds z size := fun r hr => by
  rw [h] at hr
  cases hr

/-- No bytes are copied of a segment that has none. -/
theorem copied_empty {ph : Elf32Phdr} {r : LoadRegion} (hsz : ph.filesz = 0)
    (mem : LoadRegion × ℕ → U8) : (ph.copied data r).on mem = mem := by
  funext c
  refine Overlay.on_of_none ?_
  rw [Elf32Phdr.copied, Elf32Phdr.segment, hsz]
  split_ifs <;> rfl

/-- **The zeroes behind the bytes** of a segment, and so all of its layers. -/
theorem fill_layers (hio : io.KeepsMemory) {ph : Elf32Phdr} {r : LoadRegion} {b b₀ : Bus D}
    {req : CpuRequest} (hb : b.Steady z) (hregion : ph.region z = some r)
    (hcells : b.cells = (ph.copied data r).on b₀.cells) :
    ∃ s', (if ph.filesz < ph.memsz then
        Except.ok (zeroFill io (ph.memsz - ph.filesz).toNat (ph.paddr + ph.filesz) (b, req))
      else .ok (b, req) : Except ElfStop _) = .ok s' ∧ s'.1.Steady z ∧
      s'.1.cells = Overlay.onAll (ph.layers data z) b₀.cells := by
  rw [Elf32Phdr.layers, hregion]
  dsimp only
  rw [Overlay.onAll_cons, Overlay.onAll_cons, Overlay.onAll_nil, ← hcells]
  by_cases hlt : ph.filesz < ph.memsz
  · obtain ⟨hsteady, hfill⟩ := zeroFill_eq hio (ph.memsz - ph.filesz).toNat
      (ph.paddr + ph.filesz) (s := (b, req)) hb
    rw [if_pos hlt]
    refine ⟨_, rfl, hsteady, ?_⟩
    rw [hfill, BitVec.toNat_sub_of_le (BitVec.le_of_lt hlt)]
  · rw [if_neg hlt]
    refine ⟨_, rfl, hb, funext fun c => (Overlay.on_of_none
      (MemorySizes.zeroes_of_not_hit ?_)).symm⟩
    rintro ⟨k, hk, -⟩
    have hle : ph.memsz.toNat ≤ ph.filesz.toNat := Nat.not_lt.mp hlt
    omega

/-- **How the loading of a segment ends**: with an exception, if it does not pass the
checks; outside the file or the memory, if it passes them and should not; and else with
the layers of the segment over the memories. -/
theorem loadSegment_cases (data : List U8) (hio : io.KeepsMemory) {s : Bus D × CpuRequest}
    (hs : s.1.Steady z) (ph : Elf32Phdr) :
    (¬ph.Passes z data.length ∧ ∃ e, loadSegment io data ph s = .error (.throws e)) ∨
    (ph.Passes z data.length ∧ ¬ph.InBounds z data.length ∧
      ∃ stop, loadSegment io data ph s = .error stop ∧ Outside stop) ∨
    (ph.Passes z data.length ∧ ph.InBounds z data.length ∧
      ∃ s', loadSegment io data ph s = .ok s' ∧ s'.1.Steady z ∧
        s'.1.cells = Overlay.onAll (ph.layers data z) s.1.cells) := by
  rw [loadSegment]
  -- the cases follow the tests of the loader; what is not loaded lays nothing over memory
  have hskip : ¬ph.Loads → ph.Passes z data.length ∧ ph.InBounds z data.length ∧
      ph.region z = none := by
    intro hl
    have hregion : ph.region z = none := if_neg hl
    exact ⟨fun h => absurd h hl, inBounds_of_region_none hregion _, hregion⟩
  by_cases htype : ph.type ≠ Elf32Phdr.ptLoad
  · obtain ⟨hp, hb, hregion⟩ := hskip fun hl => htype hl.1
    rw [if_pos htype]
    exact .inr (.inr ⟨hp, hb, s, rfl, hs, by rw [layers_of_region_none hregion]; rfl⟩)
  rw [if_neg htype]
  by_cases hzero : ph.filesz = 0 ∧ ph.memsz = 0
  · obtain ⟨hp, hb, hregion⟩ := hskip fun hl => hl.2 hzero
    rw [if_pos hzero]
    exact .inr (.inr ⟨hp, hb, s, rfl, hs, by rw [layers_of_region_none hregion]; rfl⟩)
  rw [if_neg hzero]
  have hloads : ph.Loads := ⟨not_not.mp htype, hzero⟩
  by_cases hfile : data.length < (ph.offset + ph.filesz).toNat
  · rw [if_pos hfile]
    exact .inl ⟨fun h => absurd (h hloads).1 (Nat.not_le.mpr hfile), _, rfl⟩
  rw [if_neg hfile, hs.sizes]
  have hfile' := Nat.not_lt.mp hfile
  cases hr : z.regionFor ph.paddr with
  | none =>
    have hregion : ph.region z = none := (if_pos hloads).trans hr
    refine .inr (.inr ⟨fun _ => ⟨hfile', fun r h => ?_⟩, inBounds_of_region_none hregion _, s,
      rfl, hs, ?_⟩)
    · rw [hr] at h
      cases h
    · rw [layers_of_region_none hregion]
      rfl
  | some r =>
    have hregion : ph.region z = some r := (if_pos hloads).trans hr
    dsimp only
    by_cases hsz : ph.filesz = 0
    · rw [if_pos hsz]
      exact .inr (.inr ⟨fun _ => ⟨hfile', fun _ _ h => absurd hsz h⟩, fun _ _ h => absurd hsz h,
        fill_layers hio hs hregion (copied_empty hsz _).symm⟩)
    rw [if_neg hsz]
    have hpasses : ph.Passes z data.length ↔ ph.Fits z r :=
      ⟨fun h => (h hloads).2 r hr hsz, fun h _ => ⟨hfile', fun r' hr' _ => by
        obtain rfl := Option.some.inj (hr.symm.trans hr')
        exact h⟩⟩
    have hbounds : ph.InBounds z data.length ↔
        ph.offset.toNat + ph.filesz.toNat ≤ data.length ∧
          ph.start r + ph.filesz.toNat ≤ z.capacity r :=
      ⟨fun h => h r hregion hsz, fun h r' hr' _ => by
        obtain rfl := Option.some.inj (hregion.symm.trans hr')
        exact h⟩
    rw [hpasses, hbounds]
    rcases Elf32Phdr.copySegment_cases ph data hs r with
      ⟨hfit, e, he⟩ | ⟨hfit, ⟨stop, hstop, hout⟩, hnot⟩ | ⟨hfit, hin, b, hb, hsteady, hcells⟩
    · rw [he]
      exact .inl ⟨hfit, e, rfl⟩
    · rw [hstop]
      exact .inr (.inl ⟨hfit, hnot, stop, rfl, hout⟩)
    · rw [hb]
      exact .inr (.inr ⟨hfit, hin, fill_layers hio hsteady hregion hcells⟩)

/-! ### All segments -/

/-- The `i`th program header. -/
def phdr (data : List U8) (h : Elf32Ehdr) (i : ℕ) : Elf32Phdr := .ofBytes data (h.phdrOff i)

/-- **A program header the loader accepts**: it lies in the file, and its segment passes
the checks. -/
def Accepted (z : MemorySizes) (data : List U8) (h : Elf32Ehdr) (i : ℕ) : Prop :=
  h.phdrOff i + Elf32Phdr.bytes ≤ data.length ∧ (phdr data h i).Passes z data.length

/-- A segment that lies in the file, and fits the memory it goes to. -/
def Bounded (z : MemorySizes) (data : List U8) (h : Elf32Ehdr) (i : ℕ) : Prop :=
  (phdr data h i).InBounds z data.length

/-- The layers of the segments from the `i`th on, `n` of them. -/
def layersFrom (z : MemorySizes) (data : List U8) (h : Elf32Ehdr) (i n : ℕ) :
    List (Overlay (LoadRegion × ℕ) U8) :=
  (List.range' i n).flatMap fun k => (phdr data h k).layers data z

/-- **How the loop over the program headers ends**: behind the last one, with the layers of
all segments over the memories; with an exception, at the first header that is not
accepted; or outside the file or a memory, at the first segment that is accepted and
should not be. -/
theorem loadPhdrs_cases (data : List U8) (hio : io.KeepsMemory) (h : Elf32Ehdr) (n i : ℕ)
    {s : Bus D × CpuRequest} (hs : s.1.Steady z) :
    ((loadPhdrs io data h n i s).1 = .ok () ∧
      (∀ k, i ≤ k → k < i + n → Accepted z data h k ∧ Bounded z data h k) ∧
      (loadPhdrs io data h n i s).2.1.cells =
        Overlay.onAll (layersFrom z data h i n) s.1.cells) ∨
    ∃ j, i ≤ j ∧ j < i + n ∧ (∀ k, i ≤ k → k < j → Accepted z data h k ∧ Bounded z data h k) ∧
      ((¬Accepted z data h j ∧ ∃ e, (loadPhdrs io data h n i s).1 = .error (.throws e)) ∨
        (Accepted z data h j ∧ ¬Bounded z data h j ∧
          ∃ stop, (loadPhdrs io data h n i s).1 = .error stop ∧ Outside stop)) := by
  induction n generalizing i s with
  | zero => exact .inl ⟨rfl, fun k hk hk' => absurd hk' (by omega), rfl⟩
  | succ n ih =>
    rw [loadPhdrs]
    by_cases hoff : data.length < h.phdrOff i + Elf32Phdr.bytes
    · rw [if_pos hoff]
      exact .inr ⟨i, le_rfl, by omega, fun k hk hk' => absurd hk' (by omega),
        .inl ⟨fun ha => absurd ha.1 (Nat.not_le.mpr hoff), _, rfl⟩⟩
    rw [if_neg hoff]
    have hoff' := Nat.not_lt.mp hoff
    -- a segment that throws, one that is out of bounds, and one that is loaded
    rcases loadSegment_cases data hio hs (.ofBytes data (h.phdrOff i)) with
      ⟨hp, e, he⟩ | ⟨hp, hb, stop, hstop, hout⟩ | ⟨hp, hb, s', hs', hsteady, hcells⟩
    · rw [he]
      exact .inr ⟨i, le_rfl, by omega, fun k hk hk' => absurd hk' (by omega),
        .inl ⟨fun ha => hp ha.2, e, rfl⟩⟩
    · rw [hstop]
      exact .inr ⟨i, le_rfl, by omega, fun k hk hk' => absurd hk' (by omega),
        .inr ⟨⟨hoff', hp⟩, hb, stop, rfl, hout⟩⟩
    · rw [hs']
      dsimp only
      have hfirst : Accepted z data h i ∧ Bounded z data h i := ⟨⟨hoff', hp⟩, hb⟩
      rcases ih (i + 1) hsteady with ⟨hok, hall, hcells'⟩ | ⟨j, hj, hj', hall, hend⟩
      · refine .inl ⟨hok, fun k hk hk' => ?_, ?_⟩
        · rcases Nat.eq_or_lt_of_le hk with rfl | hlt
          · exact hfirst
          · exact hall k hlt (by omega)
        · rw [hcells', hcells, ← Overlay.onAll_append]
          rfl
      · refine .inr ⟨j, by omega, by omega, fun k hk hk' => ?_, hend⟩
        rcases Nat.eq_or_lt_of_le hk with rfl | hlt
        · exact hfirst
        · exact hall k hlt hk'

/-! ### What ends up in a cell -/

/-- Segment `k` covers the address `a`, by its bytes or by the zeroes behind them. -/
def Covers (z : MemorySizes) (data : List U8) (h : Elf32Ehdr) (k a : ℕ) : Prop :=
  (phdr data h k).region z ≠ none ∧ (phdr data h k).paddr.toNat ≤ a ∧
    a < (phdr data h k).paddr.toNat + max (phdr data h k).filesz.toNat (phdr data h k).memsz.toNat

/-- A zero behind the bytes of segment `k` falls on the cell `c`. -/
def Clears (z : MemorySizes) (data : List U8) (h : Elf32Ehdr) (k : ℕ) (c : LoadRegion × ℕ) :
    Prop :=
  (phdr data h k).region z ≠ none ∧
    ∃ m < (phdr data h k).memsz.toNat - (phdr data h k).filesz.toNat,
      z.cellAt ((phdr data h k).paddr + (phdr data h k).filesz + BitVec.ofNat 32 m) = some c

theorem start_add_base {ph : Elf32Phdr} {r : LoadRegion} (h : ph.region z = some r) :
    ph.start r + r.base.toNat = ph.paddr.toNat := by
  rw [Elf32Phdr.region] at h
  split_ifs at h
  have hle : r.base ≤ ph.paddr := by
    rw [MemorySizes.regionFor] at h
    split_ifs at h with hflash hsram <;> obtain rfl := Option.some.inj h
    · exact hflash.1
    · exact hsram.1
    · exact Nat.zero_le _
  rw [Elf32Phdr.start, BitVec.toNat_sub_of_le hle]
  exact Nat.sub_add_cancel hle

theorem copied_self (ph : Elf32Phdr) (r : LoadRegion) {j : ℕ} (hj : j < ph.filesz.toNat) :
    ph.copied data r (r, ph.start r + j) = some (data.getD (ph.offset.toNat + j) 0) := by
  have hlen : j < (ph.segment data).length := by rwa [Elf32Phdr.length_segment]
  rw [Elf32Phdr.copied, if_pos ⟨rfl, Nat.le_add_right _ _⟩, Nat.add_sub_cancel_left,
    List.getElem?_eq_getElem hlen]
  simp only [Elf32Phdr.segment, List.getElem_map, List.getElem_range]

variable {h : Elf32Ehdr}

/-- The layers of a segment at a cell that its bytes do not cover. -/
theorem layer_cases {i j k : ℕ} {r : LoadRegion} (hr : (phdr data h i).region z = some r)
    (hcov : ¬Covers z data h k ((phdr data h i).paddr.toNat + j))
    {o : Overlay (LoadRegion × ℕ) U8} (ho : o ∈ (phdr data h k).layers data z) :
    o (r, (phdr data h i).start r + j) = none ∨
      o (r, (phdr data h i).start r + j) = some 0 ∧
        Clears z data h k (r, (phdr data h i).start r + j) := by
  rw [Elf32Phdr.layers] at ho
  cases hk : (phdr data h k).region z with
  | none =>
    rw [hk] at ho
    exact absurd ho List.not_mem_nil
  | some r' =>
    rw [hk] at ho
    rcases List.mem_cons.mp ho with rfl | ho
    · left
      rw [Elf32Phdr.copied]
      split_ifs with hc
      · have hr' : r = r' := hc.1
        subst hr'
        refine List.getElem?_eq_none (Nat.not_lt.mp fun hlt => hcov ⟨by rw [hk]; simp, ?_⟩)
        rw [Elf32Phdr.length_segment] at hlt
        have hi := start_add_base hr
        have hk' := start_add_base hk
        have hle : (phdr data h k).start r ≤ (phdr data h i).start r + j := hc.2
        dsimp only at hlt
        exact ⟨by omega, Nat.lt_of_lt_of_le (by omega)
          (Nat.add_le_add_left (Nat.le_max_left _ _) _)⟩
      · rfl
    · obtain rfl := List.mem_singleton.mp ho
      by_cases hhit : ∃ m < (phdr data h k).memsz.toNat - (phdr data h k).filesz.toNat,
          z.cellAt ((phdr data h k).paddr + (phdr data h k).filesz + BitVec.ofNat 32 m) =
            some (r, (phdr data h i).start r + j)
      · exact .inr ⟨MemorySizes.zeroes_of_hit hhit, by rw [hk]; simp, hhit⟩
      · exact .inl (MemorySizes.zeroes_of_not_hit hhit)

/-- **What the segments leave of a byte** that no later segment covers: the byte, unless a
zero has fallen on it. -/
theorem onAll_layersFrom (mem : LoadRegion × ℕ → U8) {n i j : ℕ} (hi : i < n) {r : LoadRegion}
    (hr : (phdr data h i).region z = some r) (hj : j < (phdr data h i).filesz.toNat)
    (hcov : ∀ k, i < k → k < n → ¬Covers z data h k ((phdr data h i).paddr.toNat + j))
    {c : LoadRegion × ℕ} (hc : c = (r, (phdr data h i).start r + j)) :
    ((∃ k, i ≤ k ∧ k < n ∧ Clears z data h k c) →
      Overlay.onAll (layersFrom z data h 0 n) mem c = 0) ∧
    ((¬∃ k, i ≤ k ∧ k < n ∧ Clears z data h k c) →
      Overlay.onAll (layersFrom z data h 0 n) mem c =
        data.getD ((phdr data h i).offset.toNat + j) 0) := by
  subst hc
  -- the bytes of the segment, what is below them, and what comes on top
  obtain ⟨d, rfl⟩ : ∃ d, n = i + (d + 1) := ⟨n - i - 1, by omega⟩
  set zs := z.zeroes ((phdr data h i).paddr + (phdr data h i).filesz)
    ((phdr data h i).memsz.toNat - (phdr data h i).filesz.toNat) with hzs
  have hsplit : layersFrom z data h 0 (i + (d + 1)) =
      layersFrom z data h 0 i ++ (phdr data h i).copied data r ::
        (zs :: layersFrom z data h (i + 1) d) := by
    rw [layersFrom, ← List.range'_append_1, List.flatMap_append, Nat.zero_add, List.range'_succ,
      List.flatMap_cons]
    have hlayers : (phdr data h i).layers data z = [(phdr data h i).copied data r, zs] := by
      rw [Elf32Phdr.layers, hr]
    rw [hlayers]
    rfl
  have htop : ∀ o ∈ zs :: layersFrom z data h (i + 1) d,
      o (r, (phdr data h i).start r + j) = none ∨
        o (r, (phdr data h i).start r + j) = some 0 ∧
          ∃ k, i ≤ k ∧ k < i + (d + 1) ∧ Clears z data h k (r, (phdr data h i).start r + j) := by
    intro o ho
    rcases List.mem_cons.mp ho with rfl | ho
    · by_cases hhit : Clears z data h i (r, (phdr data h i).start r + j)
      · exact .inr ⟨MemorySizes.zeroes_of_hit hhit.2, i, le_rfl, by omega, hhit⟩
      · exact .inl (MemorySizes.zeroes_of_not_hit fun hex => hhit ⟨by rw [hr]; simp, hex⟩)
    · obtain ⟨k, hk, hok⟩ := List.mem_flatMap.mp ho
      obtain ⟨hik, hkd⟩ := List.mem_range'_1.mp hk
      rcases layer_cases hr (hcov k (by omega) (by omega)) hok with hnone | ⟨hzero, hclears⟩
      · exact .inl hnone
      · exact .inr ⟨hzero, k, by omega, by omega, hclears⟩
  rw [hsplit]
  constructor
  · rintro ⟨k, hik, hkn, hclears⟩
    rw [Overlay.onAll_append, Overlay.onAll_cons]
    refine Overlay.onAll_of_agree (fun o ho => (htop o ho).imp_right fun h => h.1) ?_
    rcases Nat.eq_or_lt_of_le hik with rfl | hlt
    · exact ⟨zs, List.mem_cons_self, MemorySizes.zeroes_of_hit hclears.2⟩
    · obtain ⟨r', hr'⟩ := Option.ne_none_iff_exists'.mp hclears.1
      refine ⟨_, List.mem_cons_of_mem _ (List.mem_flatMap.mpr ⟨k, List.mem_range'_1.mpr
        ⟨by omega, by omega⟩, ?_⟩), MemorySizes.zeroes_of_hit hclears.2⟩
      rw [Elf32Phdr.layers, hr']
      exact List.mem_cons_of_mem _ List.mem_cons_self
  · intro hnot
    refine Overlay.onAll_of_last (copied_self _ r hj) fun o ho => ?_
    exact (htop o ho).resolve_right fun h => hnot h.2

/-! ### The loader -/

/-- **The loader does what it is there for**, on these bytes: it copies inside the file
and inside the memory of each segment, or throws; and when it does not throw, each byte of
a segment that no later segment covers is where it belongs. -/
structure LoadedRight (io : IoSpace D) (data : List U8) (b : Bus D) : Prop where
  inBounds : ∀ stop, (elfLoad io data b).1 = .error stop → ∃ e, stop = .throws e
  placed : ∀ {h entry}, Elf32Ehdr.read data = .ok h → (elfLoad io data b).1 = .ok entry →
    ∀ i < h.phnum.toNat, ∀ r, (phdr data h i).region b.sizes = some r →
      ∀ j < (phdr data h i).filesz.toNat,
        (∀ k, i < k → k < h.phnum.toNat →
          ¬Covers b.sizes data h k ((phdr data h i).paddr.toNat + j)) →
        data[(phdr data h i).offset.toNat + j]? =
          some ((elfLoad io data b).2.1.contents r ((phdr data h i).start r + j))

/-- **A file whose headers mean what they say**: a segment that is come to and passes the
checks does so because it lies in the file and fits its memory; and if all do, no zero
falls on a byte other than 0, of the segment in front of it or of an earlier one, that no
later segment covers. -/
structure Sound (z : MemorySizes) (data : List U8) (h : Elf32Ehdr) : Prop where
  bounded : ∀ i < h.phnum.toNat, (∀ k ≤ i, Accepted z data h k) → Bounded z data h i
  kept : (∀ i < h.phnum.toNat, Accepted z data h i) → ∀ i < h.phnum.toNat, ∀ r,
    (phdr data h i).region z = some r → ∀ j < (phdr data h i).filesz.toNat,
      (∀ k, i < k → k < h.phnum.toNat → ¬Covers z data h k ((phdr data h i).paddr.toNat + j)) →
      data.getD ((phdr data h i).offset.toNat + j) 0 ≠ 0 →
      ∀ k, i ≤ k → k < h.phnum.toNat →
        ¬Clears z data h k (r, (phdr data h i).start r + j)

variable (io) in
/-- A file whose header is read: the loader is its loop over the program headers. -/
theorem elfLoad_eq (b : Bus D) {h : Elf32Ehdr} (hh : Elf32Ehdr.read data = .ok h) :
    elfLoad io data b =
      ((loadPhdrs io data h h.phnum.toNat 0 (b, {})).1.map fun _ => h.entry,
        (loadPhdrs io data h h.phnum.toNat 0 (b, {})).2) := by
  rw [elfLoad, hh]
  dsimp only
  split <;> next heq => rw [heq]; rfl

section LoadedRight

variable {b : Bus D} {h : Elf32Ehdr}

/-- A zero on a byte that no later segment covers would be found there. -/
theorem LoadedRight.sound (hio : io.KeepsMemory) (hquiet : b.flash.Quiet)
    (hright : LoadedRight io data b) (hh : Elf32Ehdr.read data = .ok h) :
    Sound b.sizes data h := by
  have hrun := elfLoad_eq io b hh
  have hs : (b, ({} : CpuRequest)).1.Steady b.sizes := ⟨rfl, hquiet⟩
  rcases loadPhdrs_cases data hio h h.phnum.toNat 0 hs with ⟨hok, hall, hcells⟩ |
    ⟨j, -, hjn, hall, ⟨hnot, e, he⟩ | ⟨_, _, stop, hstop, hout⟩⟩
  · refine ⟨fun i hi _ => (hall i (Nat.zero_le i) (by omega)).2, ?_⟩
    intro _ i hi r hr j hj hcov hbyte k hik hkn hclears
    have hzero := (onAll_layersFrom b.cells hi hr hj hcov rfl).1 ⟨k, hik, hkn, hclears⟩
    have hentry : (elfLoad io data b).1 = .ok h.entry := by
      rw [hrun, hok]
      rfl
    have hplaced := hright.placed hh hentry i hi r hr j hj hcov
    have hvalue : (elfLoad io data b).2.1.contents r ((phdr data h i).start r + j) = 0 := by
      rw [hrun]
      exact (congrFun hcells _).trans hzero
    rw [hvalue] at hplaced
    rw [List.getD_eq_getElem?_getD, hplaced] at hbyte
    exact hbyte rfl
  · refine ⟨fun i hi hacc => ?_, fun hacc => absurd (hacc j (by omega)) hnot⟩
    have hij : i < j := by
      by_contra hle
      exact hnot (hacc j (Nat.not_lt.mp hle))
    exact (hall i (Nat.zero_le i) hij).2
  · obtain ⟨e, rfl⟩ := hright.inBounds stop (by rw [hrun, hstop]; rfl)
    exact absurd rfl (hout e)

/-- The loader goes through the segments of a sound file, up to one it throws at. -/
theorem Sound.inBounds (hio : io.KeepsMemory) (hquiet : b.flash.Quiet)
    (hsound : Sound b.sizes data h) (hh : Elf32Ehdr.read data = .ok h) {stop : ElfStop}
    (hstop : (elfLoad io data b).1 = .error stop) : ∃ e, stop = .throws e := by
  have hs : (b, ({} : CpuRequest)).1.Steady b.sizes := ⟨rfl, hquiet⟩
  rw [elfLoad_eq io b hh] at hstop
  rcases loadPhdrs_cases data hio h h.phnum.toNat 0 hs with ⟨hok, -, -⟩ |
    ⟨j, -, hjn, hall, ⟨-, e, he⟩ | ⟨hacc, hnot, -⟩⟩
  · rw [hok] at hstop
    cases hstop
  · rw [he] at hstop
    exact ⟨e, (Except.error.inj hstop).symm⟩
  · refine absurd (hsound.bounded j (by omega) fun k hk => ?_) hnot
    rcases Nat.eq_or_lt_of_le hk with rfl | hlt
    · exact hacc
    · exact (hall k (Nat.zero_le k) hlt).1

/-- In a sound file a zero falls on a byte only if that is 0. -/
theorem Sound.placed (hio : io.KeepsMemory) (hquiet : b.flash.Quiet)
    (hsound : Sound b.sizes data h) (hh : Elf32Ehdr.read data = .ok h) {entry : U32}
    (hentry : (elfLoad io data b).1 = .ok entry) {i : ℕ} (hi : i < h.phnum.toNat)
    {r : LoadRegion} (hr : (phdr data h i).region b.sizes = some r) {j : ℕ}
    (hj : j < (phdr data h i).filesz.toNat)
    (hcov : ∀ k, i < k → k < h.phnum.toNat →
      ¬Covers b.sizes data h k ((phdr data h i).paddr.toNat + j)) :
    data[(phdr data h i).offset.toNat + j]? =
      some ((elfLoad io data b).2.1.contents r ((phdr data h i).start r + j)) := by
  have hrun := elfLoad_eq io b hh
  have hs : (b, ({} : CpuRequest)).1.Steady b.sizes := ⟨rfl, hquiet⟩
  rw [hrun] at hentry
  rcases loadPhdrs_cases data hio h h.phnum.toNat 0 hs with ⟨hok, hall, hcells⟩ |
    ⟨_, -, -, -, ⟨-, e, he⟩ | ⟨-, -, stop, hstop, -⟩⟩
  · have hsz : (phdr data h i).filesz ≠ 0 := fun h0 => by
      rw [h0] at hj
      exact absurd hj (Nat.not_lt_zero j)
    have hlen := ((hall i (Nat.zero_le i) (by omega)).2 r hr hsz).1
    have hin : (phdr data h i).offset.toNat + j < data.length := by omega
    have hvalue : (elfLoad io data b).2.1.contents r ((phdr data h i).start r + j) =
        data.getD ((phdr data h i).offset.toNat + j) 0 := by
      rw [hrun]
      refine (congrFun hcells (r, (phdr data h i).start r + j)).trans ?_
      obtain ⟨hzero, hbyte⟩ := onAll_layersFrom b.cells hi hr hj hcov rfl
      by_cases hex : ∃ k, i ≤ k ∧ k < h.phnum.toNat ∧
          Clears b.sizes data h k (r, (phdr data h i).start r + j)
      · rw [hzero hex]
        by_contra hne
        obtain ⟨k, hik, hkn, hclears⟩ := hex
        exact hsound.kept (fun i hi => (hall i (Nat.zero_le i) (by omega)).1) i hi r hr j hj hcov
          (Ne.symm hne) k hik hkn hclears
      · exact hbyte hex
    rw [hvalue, List.getElem?_eq_getElem hin, List.getD_eq_getElem?_getD,
      List.getElem?_eq_getElem hin, Option.getD_some]
  · rw [he] at hentry
    cases hentry
  · rw [hstop] at hentry
    cases hentry

end LoadedRight

/-- **For which files the loader does what it is there for.** -/
theorem loadedRight_iff (hio : io.KeepsMemory) {b : Bus D} (hquiet : b.flash.Quiet)
    (data : List U8) :
    LoadedRight io data b ↔ ∀ h, Elf32Ehdr.read data = .ok h → Sound b.sizes data h := by
  constructor
  · intro hright h hh
    exact hright.sound hio hquiet hh
  · intro hsound
    constructor
    · intro stop hstop
      cases hh : Elf32Ehdr.read data with
      | error e =>
        rw [elfLoad, hh] at hstop
        exact ⟨e, (Except.error.inj hstop).symm⟩
      | ok h => exact (hsound h hh).inBounds hio hquiet hh hstop
    · intro h entry hh hentry i hi r hr j hj hcov
      exact (hsound h hh).placed hio hquiet hh hentry hi hr hj hcov

end ElfLoader
