import PieceEmu.Core.StackWords
import PieceEmu.System.BoardMemory
import PieceEmu.System.SaveRam
import PieceEmu.System.WritebackMirror

/-!
# Sessions

What the program of the board writes to its flash is to be there the next time the
emulator is started. Three parts of the emulator have to agree on it, and none of them
looks at the others: the loader copies the image into the chip, the program changes the
chip through its commands, and the writeback copies dirty sectors to the file.

A session (`Boot.run`) is all of `main` that touches the file: the load, the attachment,
any run of the CPU interleaved with polls and with whatever else changes the machine, and
the final flush. A poll is one step: what the CPU thread writes while a poll copies the
sectors is the subject of the window of a flush. `sessions_carry` says that over any sequence
of sessions each one finds in the declared part of the chip what the one before left there.
Three things have to be arranged for it.

* **The chip may be larger than the image** the header declares. The mirror is then one of
  the declared bytes only (`Session.Kept`).
* **The header has to survive**, and no write reaches it (`Session.Kept.header`).
* **The next load has to find the image whole**, so the file may grow, but not shrink
  (`Session.length_le_file`).
-/

open Sst39vf (FlashOp sectorOf)

/-! ### The loader, on a file that holds its image -/

/-- **The file holds an image** of `flashSize` bytes, behind a header that is read. -/
structure HoldsImage (data : List U8) (hdr : PfiHeader) : Prop where
  header : readPfiHeaderBlob (some data) = .ok hdr
  declared : Bus.flashBase < hdr.sysinfo.pffsEnd
  whole : hdr.offset.toNat + (hdr.sysinfo.pffsEnd - Bus.flashBase).toNat ≤ data.length

namespace PfiHeader

/-- The size of the flash image that the header declares. -/
def flashSize (hdr : PfiHeader) : ℕ := (hdr.sysinfo.pffsEnd - Bus.flashBase).toNat

/-- The image the header points to. -/
def imageIn (hdr : PfiHeader) (data : List U8) : List U8 :=
  (data.drop hdr.offset.toNat).take hdr.flashSize

end PfiHeader

/-- The bytes of a header, read off a file. -/
theorem readPfiHeaderBlob_congr {data data' : List U8}
    (h : data'.take PfiHeader.bytes = data.take PfiHeader.bytes)
    (hlen : data.length ≤ data'.length) {hdr : PfiHeader}
    (hread : readPfiHeaderBlob (some data) = .ok hdr) :
    readPfiHeaderBlob (some data') = .ok hdr := by
  have hlong := readPfiHeaderBlob_length hread
  have hread' : checkPfiHeader (.ofBytes (data.take PfiHeader.bytes)) = .ok hdr := by
    rwa [readPfiHeaderBlob, if_neg (Nat.not_lt.mpr hlong)] at hread
  rw [readPfiHeaderBlob, if_neg (Nat.not_lt.mpr (hlong.trans hlen)), h, hread']

/-- A header that is read points behind itself. -/
theorem bytes_le_offset {data : List U8} {hdr : PfiHeader}
    (hread : readPfiHeaderBlob (some data) = .ok hdr) : PfiHeader.bytes ≤ hdr.offset.toNat := by
  have hlong := readPfiHeaderBlob_length hread
  rw [readPfiHeaderBlob, if_neg (Nat.not_lt.mpr hlong), checkPfiHeader] at hread
  split_ifs at hread with hsig hoff
  cases hread
  exact Nat.not_lt.mp hoff

namespace HoldsImage

variable {D : Type} {data : List U8} {hdr : PfiHeader} (h : HoldsImage data hdr)
include h

theorem flashSize_pos : 0 < hdr.flashSize := by
  have hlt := h.declared
  unfold PfiHeader.flashSize
  bv_omega

theorem imageIn_length : (hdr.imageIn data).length = hdr.flashSize := by
  have := h.whole
  rw [PfiHeader.imageIn, List.length_take, List.length_drop]
  exact Nat.min_eq_left (Nat.le_sub_of_add_le' this)

/-- **The whole image is loaded**, into any chip that has room for it. -/
theorem pfiLoad_eq (b : Bus D) (hfit : hdr.flashSize ≤ b.flash.size) :
    pfiLoad b data =
      (.ok ⟨hdr.sysinfo, hdr.flashSize, hdr.offset⟩,
        b.withFlashMem (blit b.flash.mem 0 (hdr.imageIn data))) := by
  have hwhole := h.whole
  have hcopies := loadChunks_copies data hdr.offset.toNat b
    (hdr.sysinfo.pffsEnd - Bus.flashBase).isLt (Nat.zero_le _) (Nat.zero_le _)
  have hmin : min (hdr.sysinfo.pffsEnd - Bus.flashBase).toNat (data.drop hdr.offset.toNat).length =
      hdr.flashSize := by
    rw [List.length_drop]
    exact Nat.min_eq_left (Nat.le_sub_of_add_le' hwhole)
  rw [hmin, List.take_zero, blit_nil, Bus.withFlashMem_self, Nat.add_zero, Copies,
    if_neg (Nat.not_lt.mpr hfit)] at hcopies
  have hdeclared : ¬hdr.sysinfo.pffsEnd ≤ Bus.flashBase := BitVec.not_le.mpr h.declared
  rw [pfiLoad, readPfiHeader_eq, h.header, Except.map]
  dsimp only
  rw [if_neg hdeclared, InFile.fseek_natCast]
  dsimp only
  rw [hcopies]
  dsimp only
  rw [if_neg (Nat.pos_iff_ne_zero.mp h.flashSize_pos)]
  rfl

/-- The same of the loader for blobs. -/
theorem pfiLoadBlob_eq (b : Bus D) (hfit : hdr.flashSize ≤ b.flash.size) :
    pfiLoadBlob b (some data) =
      (.ok ⟨hdr.sysinfo, hdr.flashSize, hdr.offset⟩,
        b.withFlashMem (blit b.flash.mem 0 (hdr.imageIn data))) := by
  have hpast : ¬data.length < hdr.offset.toNat :=
    Nat.not_lt.mpr ((Nat.le_add_right _ _).trans h.whole)
  have hmin : min (hdr.sysinfo.pffsEnd - Bus.flashBase).toNat (data.length - hdr.offset.toNat) =
      hdr.flashSize := Nat.min_eq_left (Nat.le_sub_of_add_le' h.whole)
  have hlen : ((data.drop hdr.offset.toNat).take hdr.flashSize).length = hdr.flashSize :=
    h.imageIn_length
  have hfits : ¬b.flash.size < (0 : U32).toNat + hdr.flashSize := by
    rw [show (0 : U32).toNat = 0 from rfl, Nat.zero_add]
    exact Nat.not_lt.mpr hfit
  rw [pfiLoadBlob, h.header]
  dsimp only
  rw [if_neg (BitVec.not_le.mpr h.declared), Option.getD_some, if_neg hpast, hmin,
    if_neg (Nat.pos_iff_ne_zero.mp h.flashSize_pos), Bus.loadFlash_eq, hlen, if_neg hfits]
  rfl

/-- A file with the same header, and at least as long, holds an image as well. -/
theorem congr {data' : List U8}
    (hsame : data'.take PfiHeader.bytes = data.take PfiHeader.bytes)
    (hlen : data.length ≤ data'.length) : HoldsImage data' hdr :=
  ⟨readPfiHeaderBlob_congr hsame hlen h.header, h.declared, h.whole.trans hlen⟩

end HoldsImage

/-! ### A session -/

variable {D : Type}

/-- What happens between the load and the final flush. -/
inductive SessionAct (D : Type)
  /-- An action of the CPU. Its dirty callbacks, if it makes any, leave a time stamp. -/
  | cpu (a : CpuAction) (stamp : Option U64)
  /-- Peripherals, buttons, a reset: whatever else changes the machine but its flash. -/
  | devices (f : Machine D → Machine D) (keeps : ∀ m, (f m).bus.flash = m.bus.flash)
  /-- `poll(now_us)`, which the main loop calls: one step, in which the CPU thread does not
  write. -/
  | poll (nowUs : U64)

/-- The emulator between attachment and shutdown: the machine, and the writeback with the
calls of `write_at` so far. The device of the writeback is the one on the bus. -/
structure Session (D : Type) where
  machine : Machine D
  disk : PfiWriteback.MirrorRun

namespace Session

/-- The machine has changed, and with it the device of the writeback. -/
def follow (s : Session D) (m : Machine D) (stamp : Option U64) : Session D where
  machine := m
  disk := { s.disk with
    writeback := { s.disk.writeback with
      flash :=
        match m.bus.flash with
        | .sst39vf chip => chip
        | .flat _ => s.disk.writeback.flash
      lastDirtyUs := stamp.getD s.disk.writeback.lastDirtyUs } }

/-- The writeback has changed, and with it the device on the bus. -/
def withDisk (s : Session D) (disk : PfiWriteback.MirrorRun) : Session D where
  machine := { s.machine with bus := { s.machine.bus with flash := .sst39vf disk.writeback.flash } }
  disk := disk

variable (io : IoSpace D)

/-- One action. -/
def step (s : Session D) : SessionAct D → Session D
  | .cpu a stamp => s.follow (a.act io s.machine) stamp
  | .devices f _ => s.follow (f s.machine) none
  | .poll nowUs => s.withDisk (s.disk.step (.poll nowUs))

/-- `shutdown_flush`, after the CPU thread has ended. -/
def shutdown (s : Session D) : Session D := s.withDisk s.disk.shutdown

/-- The file, which had `size` bytes: a write past its end makes it longer. -/
def file (size : ℕ) (s : Session D) : List U8 :=
  (List.range (s.disk.calls.foldl (fun n c => max n (c.1 + c.2)) size)).map
    s.disk.writeback.file

end Session

/-- One start of the emulator: the machine it makes, with the chip it installs for the
size on its command line, and what happens until it is left. -/
structure Boot (D : Type) where
  machine : Machine D
  chip : Sst39vf
  debounceMs : ℤ
  acts : List (SessionAct D)

/-- What a session leaves behind. -/
structure Outcome where
  /-- The contents of the chip once the image is loaded. -/
  loaded : ℕ → U8
  /-- The contents of the chip at the end. -/
  left : ℕ → U8
  /-- The file. -/
  file : List U8

namespace Boot

variable (io : IoSpace D) (boot : Boot D)

/-- The session once `pfi_load` has returned: the CPU starts at the reset vector. A byte
past the end of the file is read back as zero if a later write leaves a gap. -/
def start (data : List U8) (info : PfiInfo) (bus : Bus D) : Session D :=
  let entry := bus.read32 io Bus.flashBase
  let chip :=
    match entry.2.flash with
    | .sst39vf chip => chip
    | .flat _ => boot.chip
  { machine := { boot.machine with bus := entry.2, cpu := { boot.machine.cpu with pc := entry.1 } }
    disk := ⟨.attach chip .writeBack true (fun i => data.getD i 0) info.flashOffsetInPfi
      boot.debounceMs, []⟩ }

/-- `main`: an exception of the loader ends it. -/
def run (data : List U8) : Except PfiError Outcome :=
  match pfiLoad { boot.machine.bus with flash := .sst39vf boot.chip } data with
  | (.error e, _) => .error e
  | (.ok info, bus) =>
    let s := (ActionRun.exec (Session.step io) (boot.start io data info bus) boot.acts).shutdown
    .ok ⟨bus.flash.mem, s.machine.bus.flash.mem, s.file data.length⟩

end Boot

/-- One session after another, on one file. -/
def sessions (io : IoSpace D) : List U8 → List (Boot D) → List (Except PfiError Outcome)
  | _, [] => []
  | data, boot :: boots =>
    match boot.run io data with
    | .error e => .error e :: sessions io data boots
    | .ok o => .ok o :: sessions io o.file boots

/-! ### The device of the writeback is written to the file -/

namespace PfiWriteback

/-- **A flush without failures**, read at a byte of the device: it comes from the device if
its sector is dirty. -/
theorem flushDirtySectors_allOk_file {w : PfiWriteback} (hopen : w.fileOpen = true) {i : ℕ}
    (hi : i < w.flash.memSize) :
    (flushDirtySectors allOk w).1.file (w.flashOffsetInPfi.toNat + i) =
      if w.flash.dirty (sectorOf i) then w.flash.mem i
      else w.file (w.flashOffsetInPfi.toNat + i) := by
  have hfile : (flushDirtySectors allOk w).1.file =
      (w.flash.forEachDirtySector.foldl (flushSector allOk) (w, 0)).1.file := by
    rw [flushDirtySectors_fst allOk hopen]
    split_ifs <;> rfl
  rw [hfile, foldl_flushSector_file]
  refine if_congr ?_ rfl rfl
  rw [Sst39vf.mem_forEachDirtySector, Sst39vf.isSectorDirty_iff]
  exact ⟨And.right, fun h => ⟨w.flash.sectorOf_lt hi, h⟩⟩

/-- In front of the device a flush writes nothing. -/
theorem flushDirtySectors_allOk_file_of_lt {w : PfiWriteback} (hopen : w.fileOpen = true) {i : ℕ}
    (hi : i < w.flashOffsetInPfi.toNat) :
    (flushDirtySectors allOk w).1.file i = w.file i := by
  have hfile : (flushDirtySectors allOk w).1.file =
      (w.flash.forEachDirtySector.foldl (flushSector allOk) (w, 0)).1.file := by
    rw [flushDirtySectors_fst allOk hopen]
    split_ifs <;> rfl
  rw [hfile]
  refine foldl_flushSector_file_of_not_mem w ?_ 0
  intro s _ hs
  omega

end PfiWriteback

/-! ### The invariant of a session -/

namespace Session

variable {F n : ℕ} {off : U32} {front : ℕ → U8} {s : Session D}

/-- **The file keeps the declared part of the chip**: its first `F` bytes, of `n`, are in the
file at `off`, up to dirty sectors, and in front of them the file is what it was. -/
structure Kept (F n : ℕ) (off : U32) (front : ℕ → U8) (s : Session D) : Prop where
  attached : s.machine.bus.flash = .sst39vf s.disk.writeback.flash
  attachment : s.disk.writeback.attachment = (.writeBack, true, off)
  memSize : s.disk.writeback.flash.memSize = n
  same : ∀ i < F, s.disk.writeback.file (off.toNat + i) ≠ s.disk.writeback.flash.mem i →
    s.disk.writeback.flash.dirty (sectorOf i) = true
  header : ∀ i < off.toNat, s.disk.writeback.file i = front i

/-- **The file holds the declared part of the chip.** -/
def Saved (F : ℕ) (off : U32) (s : Session D) : Prop :=
  ∀ i < F, s.disk.writeback.file (off.toNat + i) = s.disk.writeback.flash.mem i

/-- A byte is in a dirty sector after some commands if they change it, or it was before. -/
theorem exec_dirty (f : Sst39vf) (ops : List FlashOp) {i : ℕ} (hi : i < f.memSize)
    (h : (ActionRun.exec FlashOp.apply f ops).mem i ≠ f.mem i ∨ f.dirty (sectorOf i) = true) :
    (ActionRun.exec FlashOp.apply f ops).dirty (sectorOf i) = true := by
  induction ops generalizing f with
  | nil => exact h.resolve_left fun hne => hne rfl
  | cons op ops ih =>
    have hsize : (op.apply f).memSize = f.memSize := SaveRam.exec_memSize f [op]
    refine ih (op.apply f) (hsize.symm ▸ hi) ?_
    cases op with
    | reset => exact h
    | write offset data =>
      rw [or_iff_not_imp_left, not_not]
      intro hmem
      refine f.write16_dirty_of_change hi (h.imp_left fun hne heq => hne ?_)
      exact hmem.trans heq

/-- The commands of a program keep the file, whatever else they do to the machine. -/
theorem Kept.follow (h : Kept F n off front s) (hF : F ≤ n) {m : Machine D} {ops : List FlashOp}
    (hm : m.bus.flash = s.machine.bus.flash.commanded ops) (stamp : Option U64) :
    Kept F n off front (s.follow m stamp) := by
  have hflash : m.bus.flash =
      .sst39vf (ActionRun.exec FlashOp.apply s.disk.writeback.flash ops) := by
    rw [hm, h.attached, FlashDevice.commanded]
  have hdev : (s.follow m stamp).disk.writeback.flash =
      ActionRun.exec FlashOp.apply s.disk.writeback.flash ops := by
    simp only [Session.follow, hflash]
  refine ⟨?_, h.attachment, ?_, ?_, h.header⟩
  · rw [hdev]
    exact hflash
  · rw [hdev, SaveRam.exec_memSize, h.memSize]
  · intro i hi hne
    rw [hdev] at hne ⊢
    refine exec_dirty _ ops (h.memSize.symm ▸ Nat.lt_of_lt_of_le hi hF) ?_
    rw [or_iff_not_imp_left, not_not]
    intro hmem
    exact h.same i hi fun heq => hne (heq.trans hmem.symm)

/-- **A flush keeps the file, and saves the chip**; the time of the last dirty event may have
been forgotten before. -/
theorem Kept.flush (h : Kept F n off front s) (hF : F ≤ n) {w : PfiWriteback}
    (hflash : w.flash = s.disk.writeback.flash) (hfile : w.file = s.disk.writeback.file)
    (hattached : w.attachment = s.disk.writeback.attachment) (calls : List (ℕ × ℕ)) :
    let s' := s.withDisk ⟨(PfiWriteback.flushDirtySectors PfiWriteback.allOk w).1, calls⟩
    Kept F n off front s' ∧ Saved F off s' := by
  intro s'
  have hatt : w.attachment = (.writeBack, true, off) := hattached.trans h.attachment
  have hopen : w.fileOpen = true := congrArg (·.2.1) hatt
  have hoff : w.flashOffsetInPfi = off := congrArg (·.2.2) hatt
  have hdevice := PfiWriteback.flushDirtySectors_flash PfiWriteback.allOk hopen
  have hmem : s'.disk.writeback.flash.mem = w.flash.mem ∧
      s'.disk.writeback.flash.memSize = w.flash.memSize := by
    change (PfiWriteback.flushDirtySectors PfiWriteback.allOk w).1.flash.mem = _ ∧
      (PfiWriteback.flushDirtySectors PfiWriteback.allOk w).1.flash.memSize = _
    rw [hdevice]
    split_ifs <;> exact ⟨rfl, rfl⟩
  have hsaved : Saved F off s' := by
    intro i hi
    have hlt : i < w.flash.memSize := by
      rw [hflash, h.memSize]
      exact Nat.lt_of_lt_of_le hi hF
    have hbyte := PfiWriteback.flushDirtySectors_allOk_file hopen hlt
    rw [hoff] at hbyte
    rw [hmem.1]
    refine hbyte.trans ?_
    -- a dirty sector is copied, and a clean one was equal already
    split_ifs with hdirty
    · rfl
    · rw [hflash, hfile] at *
      by_contra hne
      exact hdirty (h.same i hi hne)
  refine ⟨⟨rfl, ?_, ?_, fun i hi hne => absurd (hsaved i hi) hne, ?_⟩, hsaved⟩
  · have hattached := PfiWriteback.foldl_flushSector_attachment w
      w.flash.forEachDirtySector 0
    change (PfiWriteback.flushDirtySectors PfiWriteback.allOk w).1.attachment = _
    rw [PfiWriteback.flushDirtySectors_fst PfiWriteback.allOk hopen]
    split_ifs <;> exact hattached.trans hatt
  · rw [hmem.2, hflash, h.memSize]
  · intro i hi
    refine (PfiWriteback.flushDirtySectors_allOk_file_of_lt hopen (hoff.symm ▸ hi)).trans ?_
    rw [hfile]
    exact h.header i hi

/-- A writeback that is left alone is the one on the bus. -/
theorem withDisk_disk (hatt : s.machine.bus.flash = .sst39vf s.disk.writeback.flash) :
    s.withDisk s.disk = s := by
  rw [withDisk, ← hatt]

variable {io : IoSpace D}

/-- **What one action keeps.** -/
theorem Kept.step (hio : io.KeepsFlash) (h : Kept F n off front s) (hF : F ≤ n)
    (a : SessionAct D) : Kept F n off front (s.step io a) := by
  cases a with
  | cpu a stamp =>
    obtain ⟨ops, hops⟩ := Machine.exec_commanded hio s.machine [a]
    exact h.follow hF hops stamp
  | devices f keeps =>
    refine h.follow hF (show _ = s.machine.bus.flash.commanded [] from ?_) none
    rw [keeps, h.attached]
    rfl
  | poll nowUs =>
    rw [Session.step, PfiWriteback.MirrorRun.step]
    by_cases hdue : s.disk.writeback.pollDue nowUs = true
    · rw [PfiWriteback.poll, if_pos hdue]
      exact (h.flush hF (w := { s.disk.writeback with lastDirtyUs := 0 }) rfl rfl rfl _).1
    · rw [PfiWriteback.poll, if_neg hdue, if_neg hdue]
      exact (withDisk_disk h.attached).symm ▸ h

/-- **The final flush saves the chip.** -/
theorem Kept.shutdown (h : Kept F n off front s) (hF : F ≤ n) :
    Kept F n off front s.shutdown ∧ Saved F off s.shutdown := by
  rw [Session.shutdown, PfiWriteback.MirrorRun.shutdown]
  by_cases hdue : s.disk.writeback.shutdownDue = true
  · rw [PfiWriteback.shutdownFlush, if_pos hdue]
    exact h.flush hF rfl rfl rfl _
  · rw [PfiWriteback.shutdownFlush, if_neg hdue, if_neg hdue]
    change Kept F n off front (s.withDisk s.disk) ∧ Saved F off (s.withDisk s.disk)
    rw [withDisk_disk h.attached]
    refine ⟨h, fun i hi => ?_⟩
    -- nothing is dirty, or the flush would have been due
    by_contra hne
    have hlt : i < s.disk.writeback.flash.memSize := h.memSize ▸ Nat.lt_of_lt_of_le hi hF
    have hany : s.disk.writeback.flash.anyDirty = true := by
      refine (Sst39vf.anyDirty_iff _).mpr (List.ne_nil_of_mem (a := sectorOf i) ?_)
      rw [Sst39vf.mem_forEachDirtySector, Sst39vf.isSectorDirty_iff]
      exact ⟨s.disk.writeback.flash.sectorOf_lt hlt, h.same i hi hne⟩
    have hmode : s.disk.writeback.mode = .writeBack := congrArg (·.1) h.attachment
    have hopen : s.disk.writeback.fileOpen = true := congrArg (·.2.1) h.attachment
    refine hdue ?_
    rw [PfiWriteback.shutdownDue, hmode, hopen, hany]
    rfl

/-- The file does not shrink. -/
theorem length_le_file (size : ℕ) (s : Session D) : size ≤ (s.file size).length := by
  rw [Session.file, List.length_map, List.length_range]
  generalize s.disk.calls = calls
  induction calls generalizing size with
  | nil => exact Nat.le_refl _
  | cons c calls ih => exact (Nat.le_max_left _ _).trans (ih _)

end Session

/-! ### From one session to the next -/

variable {io : IoSpace D} {data : List U8} {hdr : PfiHeader}

/-- A byte of the image, in the file. -/
theorem imageIn_getD {i : ℕ} (hi : i < hdr.flashSize) :
    (hdr.imageIn data).getD i 0 = data.getD (hdr.offset.toNat + i) 0 := by
  rw [PfiHeader.imageIn, List.getD_eq_getElem?_getD, List.getElem?_take_of_lt hi,
    List.getElem?_drop, List.getD_eq_getElem?_getD]

/-- The front of the file, byte by byte. -/
theorem Session.take_file (size : ℕ) (s : Session D) {k : ℕ} (hk : k ≤ size) :
    (s.file size).take k = (List.range k).map s.disk.writeback.file := by
  have hlen := s.length_le_file size
  rw [Session.file, List.length_map, List.length_range] at hlen
  rw [Session.file, ← List.map_take, List.take_range, Nat.min_eq_left (hk.trans hlen)]

/-- A byte of the file. -/
theorem Session.getD_file (size : ℕ) (s : Session D) {k : ℕ} (hk : k < size) :
    (s.file size).getD k 0 = s.disk.writeback.file k := by
  have hlen := s.length_le_file size
  rw [List.getD_eq_getElem _ _ (Nat.lt_of_lt_of_le hk hlen)]
  simp [Session.file]

namespace Boot

variable {boot : Boot D}

/-- **The session that starts** with a loaded image keeps the file. -/
theorem start_kept (h : HoldsImage data hdr)
    (bus : Bus D)
    (hbus : bus.flash =
      .sst39vf { boot.chip with mem := blit boot.chip.mem 0 (hdr.imageIn data) }) :
    Session.Kept hdr.flashSize boot.chip.memSize hdr.offset (fun i => data.getD i 0)
      (boot.start io data ⟨hdr.sysinfo, hdr.flashSize, hdr.offset⟩ bus) := by
  have hflash : (bus.read32 io Bus.flashBase).2.flash =
      .sst39vf { boot.chip with mem := blit boot.chip.mem 0 (hdr.imageIn data) } :=
    (bus.read32_sameCells io Bus.flashBase).2.2.2.trans hbus
  have hwriteback : (boot.start io data ⟨hdr.sysinfo, hdr.flashSize, hdr.offset⟩ bus).disk.writeback
      = .attach { boot.chip with mem := blit boot.chip.mem 0 (hdr.imageIn data) } .writeBack true
        (fun i => data.getD i 0) hdr.offset boot.debounceMs := by
    simp only [Boot.start, hflash]
  refine ⟨?_, ?_, ?_, ?_, ?_⟩
  · rw [hwriteback]
    exact hflash
  · rw [hwriteback]
    rfl
  · rw [hwriteback]
    rfl
  · intro i hi hne
    rw [hwriteback] at hne
    refine absurd ?_ hne
    have hlen : i < (hdr.imageIn data).length := h.imageIn_length.symm ▸ hi
    change data.getD (hdr.offset.toNat + i) 0 = blit boot.chip.mem 0 (hdr.imageIn data) i
    rw [blit_of_mem (Nat.zero_le i) hlen, ← imageIn_getD hi, List.getD_eq_getElem _ _ hlen]
    rfl
  · intro i _
    rw [hwriteback]
    rfl

/-- **One session**: it starts with the image in the file, and what it leaves in the declared
part of the chip is the image in the file it leaves. -/
theorem run_eq (hio : io.KeepsFlash) (h : HoldsImage data hdr)
    (hfit : hdr.flashSize ≤ boot.chip.memSize) :
    ∃ o, boot.run io data = .ok o ∧
      (∀ i < hdr.flashSize, o.loaded i = data.getD (hdr.offset.toNat + i) 0) ∧
      (∀ i < hdr.flashSize, o.file.getD (hdr.offset.toNat + i) 0 = o.left i) ∧
      o.file.take hdr.offset.toNat = data.take hdr.offset.toNat ∧
      data.length ≤ o.file.length := by
  obtain ⟨bus, hload, hbus⟩ :
      ∃ bus, pfiLoad { boot.machine.bus with flash := .sst39vf boot.chip } data =
          (.ok ⟨hdr.sysinfo, hdr.flashSize, hdr.offset⟩, bus) ∧
        bus.flash = .sst39vf { boot.chip with mem := blit boot.chip.mem 0 (hdr.imageIn data) } :=
    ⟨_, h.pfiLoad_eq _ hfit, rfl⟩
  have hstart : Session.Kept hdr.flashSize boot.chip.memSize hdr.offset (fun i => data.getD i 0)
      (boot.start io data ⟨hdr.sysinfo, hdr.flashSize, hdr.offset⟩ bus) :=
    start_kept h bus hbus
  -- `Kept` holds at the start, and every action of the session keeps it
  have hrun := ActionRun.exec_preserves
    (I := Session.Kept hdr.flashSize boot.chip.memSize hdr.offset fun i => data.getD i 0)
    (fun _ a hs => hs.step hio hfit a) hstart boot.acts
  obtain ⟨hkept, hsaved⟩ := hrun.shutdown hfit
  rw [Boot.run, hload]
  refine ⟨_, rfl, ?_, ?_, ?_, Session.length_le_file _ _⟩
  · intro i hi
    have hlen : i < (hdr.imageIn data).length := h.imageIn_length.symm ▸ hi
    change bus.flash.mem i = _
    rw [hbus]
    change blit boot.chip.mem 0 (hdr.imageIn data) i = _
    rw [blit_of_mem (Nat.zero_le i) hlen, ← imageIn_getD hi, List.getD_eq_getElem _ _ hlen]
    rfl
  · intro i hi
    have hlt : hdr.offset.toNat + i < data.length :=
      Nat.lt_of_lt_of_le (Nat.add_lt_add_left hi _) h.whole
    rw [Session.getD_file _ _ hlt, hsaved i hi]
    exact congrFun (congrArg FlashDevice.mem hkept.attached.symm) i
  · have hoff : hdr.offset.toNat ≤ data.length := (Nat.le_add_right _ _).trans h.whole
    rw [Session.take_file _ _ hoff]
    refine List.ext_getElem (by simp [hoff]) fun i h₁ h₂ => ?_
    have hi : i < hdr.offset.toNat := by simpa using h₁
    have hlt : i < data.length := Nat.lt_of_lt_of_le hi hoff
    rw [List.getElem_map, List.getElem_range, hkept.header i hi, List.getElem_take,
      List.getD_eq_getElem _ _ hlt]

end Boot

/-- **The flash is carried** from one session to the next: the first session finds `mem` in
the first `F` bytes of the chip, and every other one what the one before has left there. -/
def Carried (F : ℕ) : (ℕ → U8) → List Outcome → Prop
  | _, [] => True
  | mem, o :: os => (∀ i < F, o.loaded i = mem i) ∧ Carried F o.left os

/-- Only the first bytes matter. -/
theorem Carried.congr {F : ℕ} {mem mem' : ℕ → U8} {os : List Outcome} (h : Carried F mem os)
    (heq : ∀ i < F, mem i = mem' i) : Carried F mem' os := by
  cases os with
  | nil => exact trivial
  | cons o os => exact ⟨fun i hi => (h.1 i hi).trans (heq i hi), h.2⟩

/-- **What a program writes to the flash is there the next time**: on a file that holds the
image its header declares, every session of any sequence loads, the first with the image in
the file and every later one with what the program before it has left, and the file in front
of the image stays as it is. -/
theorem sessions_carry (hio : io.KeepsFlash) (h : HoldsImage data hdr) (boots : List (Boot D))
    (hfit : ∀ boot ∈ boots, hdr.flashSize ≤ boot.chip.memSize) :
    ∃ os, sessions io data boots = os.map .ok ∧
      Carried hdr.flashSize (fun i => data.getD (hdr.offset.toNat + i) 0) os ∧
      ∀ o ∈ os, o.file.take hdr.offset.toNat = data.take hdr.offset.toNat := by
  induction boots generalizing data with
  | nil => exact ⟨[], rfl, trivial, fun _ ho => absurd ho List.not_mem_nil⟩
  | cons boot boots ih =>
    obtain ⟨hboot, hboots⟩ := List.forall_mem_cons.mp hfit
    obtain ⟨o, hrun, hloaded, hleft, htake, hlen⟩ := boot.run_eq hio h hboot
    have hheader : o.file.take PfiHeader.bytes = data.take PfiHeader.bytes := by
      have hle := bytes_le_offset h.header
      rw [← Nat.min_eq_left hle, ← List.take_take, htake, List.take_take]
    obtain ⟨os, hos, hcarried, hfiles⟩ := ih (h.congr hheader hlen) hboots
    refine ⟨o :: os, ?_, ⟨hloaded, ?_⟩, ?_⟩
    · rw [sessions, hrun]
      exact congrArg (Except.ok o :: ·) hos
    · exact hcarried.congr hleft
    · intro o' ho'
      rcases List.mem_cons.mp ho' with rfl | ho'
      · exact htake
      · exact (hfiles o' ho').trans htake

/-- Register handlers that leave the memories alone leave the flash alone. -/
theorem IoSpace.KeepsMemory.keepsFlash (hio : io.KeepsMemory) : io.KeepsFlash where
  write h addr v b := (hio.write h addr v b).flash
  writeByte h addr v b := (hio.writeByte h addr v b).flash

/-- A PFI file with a flash image of eight bytes, the vector of a reset to 0x100 and an erased
word. -/
def vectorPfi : List U8 :=
  [0x31, 0x49, 0x46, 0x50, 40, 0, 0, 0, 32, 0] ++ List.replicate 26 0 ++
    [8, 0, 0xC0, 0, 0x00, 0x01, 0x00, 0x00, 0xFF, 0xFF, 0xFF, 0xFF]

/-- The board with a chip of 64 KB, and in its RAM at 0x100 a program that unlocks the chip and
programs the word behind the vector. -/
def programBoot (acts : List (SessionAct PiecePeripherals)) : Boot PiecePeripherals where
  machine :=
    let m := Machine.boardOfRom []
    { m with
      cpu := { m.cpu with
        r := fun i => [0xC0AAAA, 0xC05554, 0xAA, 0x55, 0xA0, 0xC00004, 0x1234].getD i.toNat 0 }
      bus := { m.bus with
        iram := fun i => [0x02, 0x38, 0x13, 0x38, 0x04, 0x38, 0x56, 0x38].getD (i - 0x100) 0 } }
  chip := ⟨0x10000, Sst39vf.isPowerOfTwo_64K, Sst39vf.sector_le_64K, fun _ => 0xFF,
    fun _ => false, .normal⟩
  debounceMs := 2000
  acts := acts

/-- The program runs, and the writeback is polled after it. -/
def programActs : List (SessionAct PiecePeripherals) :=
  [.cpu .step none, .cpu .step none, .cpu .step none, .cpu .step (some 1), .poll 2000001]

/-- Two sessions of the board: in the first the program changes the flash. -/
theorem sessions_carry_program :
    ((programBoot programActs).run (OtherDevices.absent.attach .cpuRunner) vectorPfi).map
        (fun o => (o.left 4, o.left 5)) = .ok (0x34, 0x12) ∧
    ∃ os, sessions (OtherDevices.absent.attach .cpuRunner) vectorPfi
        [programBoot programActs, programBoot [.poll 1]] = os.map .ok ∧
      Carried (PfiHeader.ofBytes vectorPfi).flashSize
        (fun i => vectorPfi.getD ((PfiHeader.ofBytes vectorPfi).offset.toNat + i) 0) os ∧
      ∀ o ∈ os, o.file.take (PfiHeader.ofBytes vectorPfi).offset.toNat =
        vectorPfi.take (PfiHeader.ofBytes vectorPfi).offset.toNat :=
  ⟨by decide +kernel, sessions_carry
    (OtherDevices.absent.attach_keepsMemory OtherDevices.absent_keepsMemory _).keepsFlash
    ⟨by decide, by decide, by decide⟩ _ (by decide)⟩
