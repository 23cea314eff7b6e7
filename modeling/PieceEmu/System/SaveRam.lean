import PieceEmu.Board.CommandHistory
import PieceEmu.Board.DirtyTracking
import PieceEmu.Core.DeviceInvariant
import PieceEmu.Debug.PfiLoader
import PieceEmu.System.PfiWriteback

/-!
# The save buffer of the libretro core

The libretro core lends its frontend a buffer, `g_srm_buffer`: the header of the PFI
file, and behind it an image of the flash. Between `retro_load_game` and the first
`retro_run` the frontend may store a saved buffer in it, which the first `retro_run` loads
into the flash if its header still looks like one. From then on the buffer is to reflect
the flash: at the end of each `retro_run` the dirty sectors are copied into it.

A program reaches the flash through the commands of the device alone
(`Machine.exec_commanded`), so a `retro_run` is given by the commands its program makes
(`SaveRam.retroRun`).

A saved buffer whose header is refused is *not* replaced by the image in the flash. The
buffer then stays different from the flash wherever no sector is written:
`SaveRam.allMirror_iff` says exactly when it reflects the flash.
-/

/-! ### The flash device of the core -/

namespace FlashDevice

/-- `sector_size`: 0 for the ROM. -/
def sectorSize : FlashDevice → ℕ
  | flat _ => 0
  | sst39vf _ => Sst39vf.sectorSize

/-- `any_dirty`. -/
def anyDirty : FlashDevice → Bool
  | flat _ => false
  | sst39vf chip => chip.anyDirty

/-- `for_each_dirty_sector`: the arguments of the calls it makes, in order. -/
def forEachDirtySector : FlashDevice → List ℕ
  | flat _ => []
  | sst39vf chip => chip.forEachDirtySector

/-- `clear_dirty`. -/
def clearDirty : FlashDevice → FlashDevice
  | flat rom => flat rom
  | sst39vf chip => sst39vf chip.clearDirty

/-- The device after the commands of a program; the ROM takes none. -/
def commanded (ops : List Sst39vf.FlashOp) : FlashDevice → FlashDevice
  | flat rom => flat rom
  | sst39vf chip => sst39vf (ActionRun.exec Sst39vf.FlashOp.apply chip ops)

end FlashDevice

/-! ### The program and the flash -/

/-- The register handlers leave the flash device alone. -/
structure IoSpace.KeepsFlash {D : Type} (io : IoSpace D) : Prop where
  write : ∀ {idx h}, io.write idx = some h → ∀ addr v b, (h addr v b).1.flash = b.flash
  writeByte : ∀ {idx h}, io.writeByte idx = some h → ∀ addr v b, (h addr v b).1.flash = b.flash

/-- One more write to the device. -/
theorem Bus.flashWrite16_commanded {D : Type} {b : Bus D} {f : FlashDevice}
    {ops : List Sst39vf.FlashOp} (h : b.flash = f.commanded ops) (offset : U32) (v : U16) :
    (b.flashWrite16 offset v).flash = f.commanded (ops ++ [.write offset v]) := by
  unfold Bus.flashWrite16
  rw [h]
  cases f with
  | flat rom => rfl
  | sst39vf chip =>
    change FlashDevice.sst39vf _ = FlashDevice.sst39vf _
    rw [ActionRun.exec, ActionRun.exec, List.foldl_append]
    rfl

/-- **A program reaches the flash through the commands of the device alone.** -/
theorem Machine.exec_commanded {D : Type} {io : IoSpace D} (hio : io.KeepsFlash) (m : Machine D)
    (as : List CpuAction) :
    ∃ ops, (ActionRun.exec (CpuAction.act io) m as).bus.flash = m.bus.flash.commanded ops := by
  have hP : DeviceInvariant io fun b _ => ∃ ops, b.flash = m.bus.flash.commanded ops := {
    congr := fun h _ _ hflash => h.imp fun _ hops => hflash.trans hops
    flashWrite := fun h offset v => h.elim fun _ hops =>
      ⟨_, Bus.flashWrite16_commanded hops offset v⟩
    read := fun _ _ _ _ h => h
    write := fun hf addr v b _ h => h.imp fun _ hops => (hio.write hf addr v b).trans hops
    writeByte := fun hf addr v b _ h => h.imp fun _ hops => (hio.writeByte hf addr v b).trans hops }
  have hinit : m.Satisfies fun b _ => ∃ ops, b.flash = m.bus.flash.commanded ops := by
    refine ⟨[], ?_⟩
    cases m.bus.flash <;> rfl
  refine ActionRun.exec_preserves
    (I := fun m' : Machine D => m'.Satisfies fun b _ => ∃ ops, b.flash = m.bus.flash.commanded ops)
    (fun m' a h => ?_) hinit as
  cases a with
  | step => exact hP.step h
  | assertTrap no level => exact hP.doTrap h no level

/-! ### The core -/

/-- The globals of the core: the flash device on its bus, and the save buffer. -/
structure SaveRam where
  /-- `*g_bus->flash_device()`. -/
  flash : FlashDevice
  /-- `g_srm_buffer`. -/
  buffer : ℕ → U8
  /-- `g_srm_buffer.size()`. -/
  bufferSize : ℕ
  /-- `g_srm_header_bytes`. -/
  headerBytes : ℕ
  /-- `g_srm_flash_bytes`. -/
  flashBytes : ℕ
  /-- `g_srm_overlay_pending`. -/
  overlayPending : Bool

namespace SaveRam

open Sst39vf (FlashOp sectorOf)

/-- The size of the flash, as `retro_load_game` reads it in the system information. -/
def flashSizeOf (si : SystemInfo) : ℕ :=
  if Bus.flashBase < si.pffsEnd then (si.pffsEnd - Bus.flashBase).toNat else 0x80000

/-- `retro_load_game`, on the bus it has made: `none` stands for `false`. -/
def retroLoadGame {D : Type} (bus : Bus D) (data : List U8) : Option SaveRam :=
  match readPfiHeaderBlob (some data) with
  | .error _ => none
  | .ok hdr =>
    let flashSize := flashSizeOf hdr.sysinfo
    match Sst39vf.forMinBytes flashSize with
    | .error _ => none
    | .ok chip =>
      match pfiLoadBlob { bus with flash := .sst39vf chip } (some data) with
      | (.error _, _) => none
      | (.ok _, bus) =>
        let headerBytes := min (max PfiHeader.bytes hdr.offset.toNat) data.length
        some
          { flash := bus.flash
            buffer := fun i =>
              if i < headerBytes then data.getD i 0 else bus.flash.mem (i - headerBytes)
            bufferSize := headerBytes + flashSize
            headerBytes := headerBytes
            flashBytes := flashSize
            overlayPending := true }

variable (r : SaveRam)

/-- The frontend fills the buffer, which has as many bytes as before. -/
def frontendWrites (contents : ℕ → U8) : SaveRam :=
  { r with buffer := fun i => if i < r.bufferSize then contents i else r.buffer i }

/-- The check of the header in a saved buffer. -/
def headerOk (contents : ℕ → U8) : Bool :=
  let incoming := PfiHeader.ofBytes ((List.range PfiHeader.bytes).map contents)
  incoming.signatureOk && incoming.sysinfo.size = 32

/-- The overlay of the first `retro_run`: `load_image` may throw. -/
def overlay : Except String SaveRam :=
  if !r.overlayPending then .ok r
  else
    let r := { r with overlayPending := false }
    if r.bufferSize < r.headerBytes + r.flashBytes then .ok r
    else if headerOk r.buffer then
      (r.flash.loadImage 0
        ((List.range r.flashBytes).map fun i => r.buffer (r.headerBytes + i))).map
          fun flash => { r with flash }
    else .ok r

/-- The copy of one dirty sector. -/
def copySector (buffer : ℕ → U8) (sector : ℕ) : ℕ → U8 :=
  let off := sector * r.flash.sectorSize
  if r.flashBytes ≤ off then buffer
  else fun i =>
    if r.headerBytes + off ≤ i ∧
        i < r.headerBytes + off + min r.flash.sectorSize (r.flashBytes - off) then
      r.flash.mem (i - r.headerBytes)
    else buffer i

/-- The dirty sectors are copied to the buffer, and are clean. -/
def sync : SaveRam :=
  if 0 < r.bufferSize ∧ 0 < r.flash.sectorSize ∧ r.flash.anyDirty then
    { r with
      buffer := r.flash.forEachDirtySector.foldl r.copySector r.buffer
      flash := r.flash.clearDirty }
  else r

/-- The program runs for a frame, and the dirty sectors are copied. -/
def frame (ops : List FlashOp) : SaveRam := sync { r with flash := r.flash.commanded ops }

/-- `retro_run`, with the commands its program makes; an exception ends it. -/
def retroRun (ops : List FlashOp) : Except String SaveRam := r.overlay.map (·.frame ops)

/-! ### The buffer as a mirror -/

/-- **The buffer reflects the flash**: the device has the bytes the buffer has room for,
and they are the bytes of the buffer. -/
def Mirrors : Prop :=
  r.flashBytes ≤ r.flash.size ∧
    ∀ i < r.flashBytes, r.buffer (r.headerBytes + i) = r.flash.mem i

/-- At the end of every `retro_run` of a run the buffer reflects the flash. -/
def AllMirror : SaveRam → List (List FlashOp) → Prop
  | _, [] => True
  | r, ops :: frames => ∃ r', r.retroRun ops = .ok r' ∧ r'.Mirrors ∧ AllMirror r' frames

/-! ### Copying the dirty sectors -/

variable {r} {chip : Sst39vf}

/-- The byte `i` of the flash in the buffer, once a sector has been copied. -/
theorem copySector_apply (hflash : r.flash = .sst39vf chip) (buffer : ℕ → U8) (s : ℕ) {i : ℕ}
    (hi : i < r.flashBytes) :
    r.copySector buffer s (r.headerBytes + i) =
      if sectorOf i = s then chip.mem i else buffer (r.headerBytes + i) := by
  have hsize : r.flash.sectorSize = Sst39vf.sectorSize := by rw [hflash]; rfl
  have hmem : r.flash.mem = chip.mem := by rw [hflash]; rfl
  unfold copySector
  rw [hsize, hmem]
  by_cases hpast : r.flashBytes ≤ s * Sst39vf.sectorSize
  · rw [if_pos hpast, if_neg]
    rw [Sst39vf.sectorOf_eq_iff]
    omega
  · rw [if_neg hpast, Nat.add_sub_cancel_left]
    refine if_congr ?_ rfl rfl
    rw [Sst39vf.sectorOf_eq_iff]
    omega

/-- The sectors of a list, copied. -/
theorem foldl_copySector (hflash : r.flash = .sst39vf chip) (l : List ℕ) (buffer : ℕ → U8)
    {i : ℕ} (hi : i < r.flashBytes) :
    l.foldl r.copySector buffer (r.headerBytes + i) =
      if sectorOf i ∈ l then chip.mem i else buffer (r.headerBytes + i) := by
  induction l generalizing buffer with
  | nil => rfl
  | cons s l ih =>
    rw [List.foldl_cons, ih, copySector_apply hflash buffer s hi]
    by_cases hs : sectorOf i = s
    · rw [if_pos hs, ite_self, if_pos (hs ▸ List.mem_cons_self)]
    · rw [if_neg hs]
      refine if_congr ?_ rfl rfl
      rw [List.mem_cons, or_iff_right hs]

/-- **The copy at the end of a frame**: a byte of the buffer comes from the flash, if its
sector is dirty; afterwards none is. -/
theorem sync_spec (hflash : r.flash = .sst39vf chip) (hbuf : 0 < r.bufferSize) :
    ∃ chip' : Sst39vf, r.sync.flash = .sst39vf chip' ∧ chip'.mem = chip.mem ∧
      chip'.memSize = chip.memSize ∧ (∀ s, chip'.isSectorDirty s = false) ∧
      ∀ i < r.flashBytes, r.sync.buffer (r.headerBytes + i) =
        if chip.isSectorDirty (sectorOf i) then chip.mem i else r.buffer (r.headerBytes + i) := by
  have hsize : 0 < r.flash.sectorSize := by
    rw [hflash]
    exact (by decide : 0 < Sst39vf.sectorSize)
  have hmem (s : ℕ) : s ∈ r.flash.forEachDirtySector ↔ chip.isSectorDirty s = true := by
    rw [hflash]
    exact chip.mem_forEachDirtySector
  have hany : r.flash.anyDirty = chip.anyDirty := by rw [hflash]; rfl
  unfold sync
  by_cases hdirty : chip.anyDirty = true
  · rw [if_pos ⟨hbuf, hsize, hany.trans hdirty⟩]
    refine ⟨chip.clearDirty, by rw [hflash]; rfl, rfl, rfl, fun s => ?_, fun i hi => ?_⟩
    · exact PfiWriteback.isSectorDirty_clearDirty chip s
    · exact (foldl_copySector hflash _ _ hi).trans (if_congr (hmem _) rfl rfl)
  · have hclean (s : ℕ) : chip.isSectorDirty s = false := by
      by_contra h
      refine hdirty (chip.anyDirty_iff.mpr (List.ne_nil_of_mem (a := s) ?_))
      exact chip.mem_forEachDirtySector.mpr (Bool.eq_true_of_not_eq_false h)
    rw [if_neg fun h => hdirty (hany.symm.trans h.2.2)]
    refine ⟨chip, hflash, rfl, rfl, hclean, fun i _ => ?_⟩
    rw [hclean, if_neg Bool.false_ne_true]

/-! ### The commands of a frame -/

/-- A byte the commands change lies in a dirty sector. -/
theorem exec_dirty_of_change (f : Sst39vf) (ops : List FlashOp) {i : ℕ} (hi : i < f.memSize)
    (h : (ActionRun.exec FlashOp.apply f ops).mem i ≠ f.mem i) :
    (ActionRun.exec FlashOp.apply f ops).isSectorDirty (sectorOf i) = true := by
  have hinv : (ActionRun.exec FlashOp.apply f ops).memSize = f.memSize ∧
      ((ActionRun.exec FlashOp.apply f ops).mem i ≠ f.mem i →
        (ActionRun.exec FlashOp.apply f ops).dirty (sectorOf i) = true) := by
    refine ActionRun.exec_preserves
      (I := fun g : Sst39vf => g.memSize = f.memSize ∧
        (g.mem i ≠ f.mem i → g.dirty (sectorOf i) = true))
      ?_ ⟨rfl, fun h => absurd rfl h⟩ ops
    rintro g op ⟨hsize, hdirty⟩
    cases op with
    | reset => exact ⟨hsize, hdirty⟩
    | write offset data =>
      refine ⟨(g.write16_memSize offset data).trans hsize, fun hne => ?_⟩
      refine g.write16_dirty_of_change (hsize ▸ hi) ?_
      by_cases hch : (g.write16 offset data).1.mem i = g.mem i
      · exact .inr (hdirty fun heq => hne (hch.trans heq))
      · exact .inl hch
  rw [Sst39vf.isSectorDirty_iff]
  refine ⟨?_, hinv.2 h⟩
  exact Sst39vf.sectorOf_lt _ (hinv.1 ▸ hi)

/-- **A state between frames**: the overlay has been dealt with, and nothing is dirty. -/
structure Settled (r : SaveRam) (chip : Sst39vf) : Prop where
  flash : r.flash = .sst39vf chip
  clean : ∀ s, chip.isSectorDirty s = false
  buffer : 0 < r.bufferSize
  overlay : r.overlayPending = false

theorem exec_memSize (f : Sst39vf) (ops : List FlashOp) :
    (ActionRun.exec FlashOp.apply f ops).memSize = f.memSize :=
  ActionRun.exec_preserves (I := fun g : Sst39vf => g.memSize = f.memSize)
    (fun g op h => by
      cases op with
      | reset => exact h
      | write offset data => exact (g.write16_memSize offset data).trans h)
    rfl ops

/-- **One frame**: the state is settled again, and a byte of the buffer is that of the
flash exactly when it was before or the frame has written its sector. -/
theorem Settled.frame (h : r.Settled chip) (ops : List FlashOp) :
    ∃ chip' : Sst39vf, (r.frame ops).Settled chip' ∧ chip'.memSize = chip.memSize ∧
      (r.frame ops).flashBytes = r.flashBytes ∧
      (r.flashBytes ≤ chip.memSize → ((r.frame ops).Mirrors ↔ ∀ i < r.flashBytes,
        r.buffer (r.headerBytes + i) = chip.mem i ∨
          (ActionRun.exec FlashOp.apply chip ops).isSectorDirty (sectorOf i) = true)) := by
  have hflash : FlashDevice.commanded ops r.flash =
      .sst39vf (ActionRun.exec FlashOp.apply chip ops) := by rw [h.flash]; rfl
  obtain ⟨chip', hflash', hmem, hsize, hclean, hbuffer⟩ :=
    sync_spec (r := { r with flash := r.flash.commanded ops }) hflash h.buffer
  have hsize' : chip'.memSize = chip.memSize := hsize.trans (exec_memSize chip ops)
  have hsync : (r.frame ops).bufferSize = r.bufferSize ∧ (r.frame ops).headerBytes = r.headerBytes ∧
      (r.frame ops).flashBytes = r.flashBytes ∧
      (r.frame ops).overlayPending = r.overlayPending := by
    unfold SaveRam.frame sync
    split_ifs <;> exact ⟨rfl, rfl, rfl, rfl⟩
  obtain ⟨hbs, hhb, hfb, hop⟩ := hsync
  refine ⟨chip', ⟨hflash', hclean, hbs ▸ h.buffer, hop.trans h.overlay⟩, hsize', hfb, ?_⟩
  intro hfit
  have hfits : (r.frame ops).flashBytes ≤ (r.frame ops).flash.size := by
    rw [hfb, show (r.frame ops).flash = _ from hflash']
    exact hfit.trans_eq hsize'.symm
  refine (and_iff_right hfits).trans ?_
  rw [hfb, hhb, show (r.frame ops).flash = _ from hflash']
  refine forall₂_congr fun i hi => ?_
  change (r.frame ops).buffer _ = chip'.mem i ↔ _
  rw [hmem, show (r.frame ops).buffer _ = _ from hbuffer i hi]
  split_ifs with hd
  · exact iff_of_true rfl (.inr hd)
  · have hsame : (ActionRun.exec FlashOp.apply chip ops).mem i = chip.mem i := by
      by_contra hne
      exact hd (exec_dirty_of_change chip ops (Nat.lt_of_lt_of_le hi hfit) hne)
    rw [hsame, or_iff_left hd]

theorem Settled.retroRun (h : r.Settled chip) (ops : List FlashOp) :
    r.retroRun ops = .ok (r.frame ops) := by
  unfold SaveRam.retroRun SaveRam.overlay
  rw [h.overlay]
  rfl

/-- Once the buffer reflects the flash, it does so for good. -/
theorem Settled.allMirror (h : r.Settled chip) (hm : r.Mirrors) (frames : List (List FlashOp)) :
    r.AllMirror frames := by
  induction frames generalizing r chip with
  | nil => trivial
  | cons ops frames ih =>
    have hfit : r.flashBytes ≤ chip.memSize := by
      have := hm.1
      rwa [h.flash] at this
    obtain ⟨chip', h', -, -, hmirror⟩ := h.frame ops
    have hsame (i : ℕ) (hi : i < r.flashBytes) : r.buffer (r.headerBytes + i) = chip.mem i := by
      have := hm.2 i hi
      rwa [h.flash] at this
    have hm' : (r.frame ops).Mirrors := (hmirror hfit).mpr fun i hi => .inl (hsame i hi)
    exact ⟨_, h.retroRun ops, hm', ih h' hm'⟩

/-- **A settled state and the run that follows**: the run reflects the flash throughout
exactly if it does so at the end of its first frame. -/
theorem Settled.allMirror_iff_fits (h : r.Settled chip) (ops : List FlashOp)
    (frames : List (List FlashOp)) :
    r.AllMirror (ops :: frames) ↔ r.flashBytes ≤ chip.memSize ∧
      ∀ i < r.flashBytes, r.buffer (r.headerBytes + i) = chip.mem i ∨
        (ActionRun.exec FlashOp.apply chip ops).isSectorDirty (sectorOf i) = true := by
  obtain ⟨chip', h', hsize, hfb, hmirror⟩ := h.frame ops
  constructor
  · rintro ⟨r', hr, hm, -⟩
    rw [h.retroRun] at hr
    rw [← Except.ok.inj hr] at hm
    have hfit : r.flashBytes ≤ chip.memSize := by
      have := hm.1
      rwa [h'.flash, hfb, show (FlashDevice.sst39vf chip').size = _ from hsize] at this
    exact ⟨hfit, (hmirror hfit).mp hm⟩
  · rintro ⟨hfit, hsame⟩
    have hm := (hmirror hfit).mpr hsame
    exact ⟨_, h.retroRun ops, hm, h'.allMirror hm frames⟩

/-! ### The first frame -/

/-- **A loaded game**, which the frontend has not seen yet. -/
structure Loaded (r : SaveRam) (chip : Sst39vf) : Prop where
  flash : r.flash = .sst39vf chip
  clean : ∀ s, chip.isSectorDirty s = false
  bufferSize : r.bufferSize = r.headerBytes + r.flashBytes
  header : PfiHeader.bytes ≤ r.headerBytes
  overlay : r.overlayPending = true

theorem forMinBytes_clean {n : ℕ} {f : Sst39vf} (h : Sst39vf.forMinBytes n = .ok f) (s : ℕ) :
    f.isSectorDirty s = false := by
  unfold Sst39vf.forMinBytes Sst39vf.construct at h
  split_ifs at h
  all_goals
    rw [← Except.ok.inj h]
    exact Bool.and_false _

/-- What `retro_load_game` leaves. -/
theorem retroLoadGame_loaded {D : Type} {bus : Bus D} {data : List U8}
    (h : retroLoadGame bus data = some r) : ∃ chip, r.Loaded chip := by
  unfold retroLoadGame at h
  split at h
  case h_1 => exact nomatch h
  case h_2 hdr hhdr =>
    dsimp only at h
    split at h
    case h_1 => exact nomatch h
    case h_2 chip hchip =>
      split at h
      case h_1 => exact nomatch h
      case h_2 info bus' hload =>
        obtain ⟨mem, hbus⟩ := pfiLoadBlob_bus hload
        rw [← Option.some.inj h]
        refine ⟨{ chip with mem }, by rw [hbus]; rfl,
          fun s => forMinBytes_clean hchip s, rfl, ?_, rfl⟩
        exact le_min (le_max_left _ _) (readPfiHeaderBlob_length hhdr)

/-- The header the frontend has left in the buffer. -/
theorem Loaded.headerOk_buffer (h : r.Loaded chip) (contents : ℕ → U8) :
    headerOk (r.frontendWrites contents).buffer = headerOk contents := by
  have hmap : (List.range PfiHeader.bytes).map (r.frontendWrites contents).buffer =
      (List.range PfiHeader.bytes).map contents := by
    refine List.map_congr_left fun i hi => if_pos ?_
    have hlt := List.mem_range.mp hi
    have hheader := h.header
    rw [h.bufferSize]
    omega
  unfold headerOk
  rw [hmap]

/-- The flash part the frontend has left in the buffer. -/
theorem Loaded.flash_buffer (h : r.Loaded chip) (contents : ℕ → U8) {i : ℕ}
    (hi : i < r.flashBytes) :
    (r.frontendWrites contents).buffer (r.headerBytes + i) = contents (r.headerBytes + i) :=
  if_pos (by rw [h.bufferSize]; omega)

/-- The overlay, on the buffer the frontend has left. -/
theorem Loaded.overlay_eq (h : r.Loaded chip) (contents : ℕ → U8) :
    (r.frontendWrites contents).overlay =
      if headerOk contents then
        (r.flash.loadImage 0 ((List.range r.flashBytes).map fun i =>
            (r.frontendWrites contents).buffer (r.headerBytes + i))).map
          fun flash => { r.frontendWrites contents with overlayPending := false, flash }
      else .ok { r.frontendWrites contents with overlayPending := false } := by
  have hpending : ¬(!(r.frontendWrites contents).overlayPending) = true := by
    rw [show (r.frontendWrites contents).overlayPending = true from h.overlay]
    decide
  have hfull : ¬(r.frontendWrites contents).bufferSize <
      (r.frontendWrites contents).headerBytes + (r.frontendWrites contents).flashBytes := by
    rw [show (r.frontendWrites contents).bufferSize = _ from h.bufferSize]
    exact Nat.lt_irrefl _
  unfold SaveRam.overlay
  rw [if_neg hpending]
  dsimp only
  rw [if_neg hfull, h.headerOk_buffer]
  rfl

theorem Loaded.bufferSize_pos (h : r.Loaded chip) : 0 < r.bufferSize := by
  have hheader := h.header
  rw [h.bufferSize]
  exact Nat.lt_of_lt_of_le (by decide : 0 < PfiHeader.bytes) (by omega)

/-- A first frame whose overlay leaves a settled state, and the run that follows. -/
theorem Settled.allMirror_congr {r₁ : SaveRam} (h : r.Settled chip) (hover : r₁.overlay = .ok r)
    (ops : List FlashOp) (frames : List (List FlashOp)) :
    r₁.AllMirror (ops :: frames) ↔ r.AllMirror (ops :: frames) := by
  unfold AllMirror
  rw [h.retroRun, SaveRam.retroRun, hover]
  rfl

/-- **A refused header**: the image of the game stays, and the buffer keeps what the
frontend has put there. -/
theorem Loaded.allMirror_refused (h : r.Loaded chip) {contents : ℕ → U8}
    (hok : headerOk contents = false) (ops : List FlashOp) (frames : List (List FlashOp)) :
    (r.frontendWrites contents).AllMirror (ops :: frames) ↔ r.flashBytes ≤ chip.memSize ∧
      ∀ i < r.flashBytes, contents (r.headerBytes + i) = chip.mem i ∨
        (ActionRun.exec FlashOp.apply chip ops).isSectorDirty (sectorOf i) = true := by
  have hover := h.overlay_eq contents
  rw [hok, if_neg Bool.false_ne_true] at hover
  have hset : Settled { r.frontendWrites contents with overlayPending := false } chip :=
    ⟨h.flash, h.clean, h.bufferSize_pos, rfl⟩
  rw [hset.allMirror_congr hover, hset.allMirror_iff_fits]
  refine and_congr Iff.rfl (forall₂_congr fun i hi => or_congr ?_ Iff.rfl)
  rw [← h.flash_buffer contents hi]
  rfl

/-- **An accepted header**: the saved image replaces that of the game, if it fits, and
else the first `retro_run` throws. -/
theorem Loaded.allMirror_accepted (h : r.Loaded chip) {contents : ℕ → U8}
    (hok : headerOk contents = true) (ops : List FlashOp) (frames : List (List FlashOp)) :
    (r.frontendWrites contents).AllMirror (ops :: frames) ↔ r.flashBytes ≤ chip.memSize := by
  have hover := h.overlay_eq contents
  rw [hok, if_pos rfl, h.flash, FlashDevice.loadImage, List.length_map, List.length_range,
    show (0 : U32).toNat = 0 from rfl, Nat.zero_add] at hover
  by_cases hfit : r.flashBytes ≤ chip.memSize
  · rw [if_neg (Nat.not_lt.mpr hfit)] at hover
    refine iff_of_true ?_ hfit
    generalize hmem : blit chip.mem 0 ((List.range r.flashBytes).map fun i =>
      (r.frontendWrites contents).buffer (r.headerBytes + i)) = mem at hover
    have hset : Settled { r.frontendWrites contents with
        overlayPending := false, flash := .sst39vf { chip with mem } } { chip with mem } :=
      ⟨rfl, fun s => h.clean s, h.bufferSize_pos, rfl⟩
    have hm : Mirrors { r.frontendWrites contents with
        overlayPending := false, flash := .sst39vf { chip with mem } } := by
      refine ⟨hfit, fun i hi => ?_⟩
      change (r.frontendWrites contents).buffer (r.headerBytes + i) = mem i
      rw [← hmem, blit_map_range (Nat.zero_le i) (show i - 0 < r.flashBytes from hi)]
      rfl
    exact (hset.allMirror_congr hover ops frames).mpr (hset.allMirror hm _)
  · rw [if_pos (Nat.not_le.mp hfit)] at hover
    refine iff_of_false ?_ hfit
    rintro ⟨r', hr', -⟩
    rw [SaveRam.retroRun, hover] at hr'
    cases hr'

/-- **The save buffer reflects the flash, exactly when this is so.** A game has been
loaded, the frontend has written `contents` into the buffer, and the program makes the
commands of `ops` in the first frame. Then the buffer reflects the flash at the end of
every `retro_run` if and only if

* the flash of the game fits the device, and
* the saved header is accepted, or each byte of the flash part that is not the one in the
  flash lies in a sector the program writes in the first frame. -/
theorem allMirror_iff {D : Type} (bus : Bus D) (data : List U8)
    (h : retroLoadGame bus data = some r) (contents : ℕ → U8) (ops : List FlashOp)
    (frames : List (List FlashOp)) :
    (r.frontendWrites contents).AllMirror (ops :: frames) ↔
      r.flashBytes ≤ r.flash.size ∧
        (headerOk contents = true ∨ ∀ i < r.flashBytes,
          contents (r.headerBytes + i) = r.flash.mem i ∨
            sectorOf i ∈ (r.flash.commanded ops).forEachDirtySector) := by
  obtain ⟨chip, hl⟩ := retroLoadGame_loaded h
  have hsize : r.flash.size = chip.memSize := by rw [hl.flash]; rfl
  have hmem : r.flash.mem = chip.mem := by rw [hl.flash]; rfl
  have hsectors (s : ℕ) : s ∈ (r.flash.commanded ops).forEachDirtySector ↔
      (ActionRun.exec FlashOp.apply chip ops).isSectorDirty s = true := by
    rw [hl.flash]
    exact Sst39vf.mem_forEachDirtySector _
  rw [hsize, hmem]
  cases hok : headerOk contents with
  | false =>
    rw [hl.allMirror_refused hok, or_iff_right Bool.false_ne_true]
    simp only [hsectors]
  | true => rw [hl.allMirror_accepted hok, or_iff_left_of_imp fun _ => rfl, and_iff_left rfl]

/-- The game of two bytes loads. -/
theorem retroLoadGame_tinyPfi : ∃ r, retroLoadGame tinyBus tinyPfi = some r :=
  Option.isSome_iff_exists.mp (by decide)

/-- A saved buffer of zeros, whose header is refused: the buffer stays different from the
flash. -/
theorem zeros_not_mirrored :
    ∃ r, retroLoadGame tinyBus tinyPfi = some r ∧
      ¬(r.frontendWrites fun _ => 0).AllMirror [[]] := by
  obtain ⟨r, hr⟩ := retroLoadGame_tinyPfi
  refine ⟨r, hr, fun hall => ?_⟩
  obtain ⟨chip, hl⟩ := retroLoadGame_loaded hr
  have hfirst : (retroLoadGame tinyBus tinyPfi).map (fun r => (r.flashBytes, r.flash.mem 0)) =
      some (2, 0xAB) := by decide
  rw [hr, Option.map_some, hl.flash] at hfirst
  obtain ⟨hbytes, hbyte⟩ := Prod.mk.inj (Option.some.inj hfirst)
  have hsame := ((hl.allMirror_refused (by decide) [] []).mp hall).2 0 (by rw [hbytes]; decide)
  rcases hsame with h | h
  · exact absurd (h.trans hbyte) (by decide)
  · exact Bool.noConfusion ((hl.clean (sectorOf 0)).symm.trans h)

theorem allMirror_iff_tinyPfi :
    ∃ r, retroLoadGame tinyBus tinyPfi = some r ∧
      ((r.frontendWrites fun i => tinyPfi.getD i 0).AllMirror [[]] ↔
        r.flashBytes ≤ r.flash.size ∧
          (headerOk (fun i => tinyPfi.getD i 0) = true ∨ ∀ i < r.flashBytes,
            tinyPfi.getD (r.headerBytes + i) 0 = r.flash.mem i ∨
              sectorOf i ∈ (r.flash.commanded []).forEachDirtySector)) := by
  obtain ⟨r, hr⟩ := retroLoadGame_tinyPfi
  exact ⟨r, hr, allMirror_iff tinyBus tinyPfi hr _ [] []⟩

end SaveRam
