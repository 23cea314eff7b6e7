import PieceEmu.Core.Bus
import PieceEmu.Lib.Blit

/-!
# Loading images

The bulk copies with which a loader fills the memories before the machine runs:
`FlashDevice::load_image`, `Bus::load_flash` and `Bus::load_sram`. Each checks that the
image fits; an exception is an `Except.error`.
-/

/-- `load_image`: the ROM ignores an image that does not fit, the chip throws. Dirty
bits and the state of the command machine are left alone. -/
def FlashDevice.loadImage (offset : U32) (data : List U8) : FlashDevice → Except String FlashDevice
  | flat rom =>
    if rom.memSize < offset.toNat + data.length then .ok (flat rom)
    else .ok (flat { rom with mem := blit rom.mem offset.toNat data })
  | sst39vf chip =>
    if chip.memSize < offset.toNat + data.length then
      .error "Sst39vf::load_image: offset+size exceeds device size"
    else .ok (sst39vf { chip with mem := blit chip.mem offset.toNat data })

namespace Bus

variable {D : Type} (b : Bus D)

/-- `load_flash`. -/
def loadFlash (offset : U32) (data : List U8) : Except String (Bus D) :=
  if b.flash.size < offset.toNat + data.length then
    .error "ELF segment exceeds flash capacity"
  else (b.flash.loadImage offset data).map fun flash => { b with flash }

/-- `load_sram`. -/
def loadSram (offset : U32) (data : List U8) : Except String (Bus D) :=
  if b.sramSize < offset.toNat + data.length then
    .error "ELF segment exceeds SRAM capacity"
  else .ok { b with sram := blit b.sram offset.toNat data }

/-- The bus with other flash contents. -/
def withFlashMem (mem : ℕ → U8) : Bus D :=
  { b with flash :=
      match b.flash with
      | .flat rom => .flat { rom with mem }
      | .sst39vf chip => .sst39vf { chip with mem } }

@[simp] theorem withFlashMem_mem (mem : ℕ → U8) : (b.withFlashMem mem).flash.mem = mem := by
  unfold withFlashMem
  cases b.flash <;> rfl

@[simp] theorem withFlashMem_size (mem : ℕ → U8) :
    (b.withFlashMem mem).flash.size = b.flash.size := by
  unfold withFlashMem
  cases b.flash <;> rfl

@[simp] theorem withFlashMem_withFlashMem (mem mem' : ℕ → U8) :
    (b.withFlashMem mem).withFlashMem mem' = b.withFlashMem mem' := by
  unfold withFlashMem
  cases b.flash <;> rfl

@[simp] theorem withFlashMem_self : b.withFlashMem b.flash.mem = b := by
  unfold withFlashMem
  obtain ⟨_, _, _, flash⟩ := b
  cases flash <;> rfl

/-- **What `load_flash` does**, on either device: an image that fits is copied, another
is refused. -/
theorem loadFlash_eq (offset : U32) (data : List U8) :
    b.loadFlash offset data =
      if b.flash.size < offset.toNat + data.length then
        .error "ELF segment exceeds flash capacity"
      else .ok (b.withFlashMem (blit b.flash.mem offset.toNat data)) := by
  unfold loadFlash
  split_ifs with h
  · rfl
  · unfold withFlashMem
    cases hf : b.flash with
    | flat rom =>
      have h' : ¬rom.memSize < offset.toNat + data.length := by
        rw [hf] at h
        exact h
      rw [FlashDevice.loadImage, if_neg h']
      rfl
    | sst39vf chip =>
      have h' : ¬chip.memSize < offset.toNat + data.length := by
        rw [hf] at h
        exact h
      rw [FlashDevice.loadImage, if_neg h']
      rfl

end Bus
