import PieceEmu.System.PfiSession

/-!
# Saved games

The frontend of the libretro core keeps the save buffer in a `.srm` file, and puts it back
after the next `retro_load_game`. So what a program has written to its flash comes back by
way of a file that the frontend takes for opaque. It is not: it has the header of the game
in front of the flash, and is a PFI file.

A session (`Play.run`) loads the game, puts back the `.srm` if there is one, runs some
frames, and saves the buffer. `SaveRam.plays_carry` says that over any sequence of
sessions the flash is carried, as it is for the other front end, and that
every `.srm` holds an image the loaders load: the flash as the session has left it.
-/

open Sst39vf (FlashOp)

namespace SaveRam

variable {D : Type} {r : SaveRam} {chip : Sst39vf}

/-- The bytes of the buffer, as the frontend saves them. -/
def srm (r : SaveRam) : List U8 := (List.range r.bufferSize).map r.buffer

end SaveRam

/-- A session of the core: the bus it makes, and the commands the program makes in each
frame, of which there is a first. -/
structure Play (D : Type) where
  bus : Bus D
  first : List FlashOp
  frames : List (List FlashOp)

namespace Play

variable {D : Type} (p : Play D)

/-- The session: `none` if the game is refused. The overlay is done by the first
`retro_run`, before its program runs; an exception of it ends the session. -/
def run (game : List U8) (saved : Option (List U8)) : Option (Except String Outcome) :=
  (SaveRam.retroLoadGame p.bus game).map fun r => do
    let r :=
      match saved with
      | none => r
      | some srm => r.frontendWrites fun i => srm.getD i 0
    let start ← r.overlay
    let final ← (p.first :: p.frames).foldlM SaveRam.retroRun r
    return ⟨start.flash.mem, final.flash.mem, final.srm⟩

end Play

/-- One session after another: each is given the `.srm` of the one before. -/
def plays {D : Type} (game : List U8) :
    Option (List U8) → List (Play D) → List (Option (Except String Outcome))
  | _, [] => []
  | saved, p :: ps =>
    match p.run game saved with
    | some (.ok o) => some (.ok o) :: plays game (some o.file) ps
    | refused => refused :: plays game saved ps

namespace SaveRam

variable {D : Type} {r : SaveRam} {chip : Sst39vf}

/-! ### The game -/

/-- **A game as it is loaded**, from a file that holds its image: the chip holds the image,
and the buffer is the header of the file in front of it. -/
structure LoadedFrom (game : List U8) (hdr : PfiHeader) (r : SaveRam) (chip : Sst39vf) : Prop where
  loaded : r.Loaded chip
  flashBytes : r.flashBytes = hdr.flashSize
  headerBytes : r.headerBytes = hdr.offset.toNat
  mem : ∀ i < hdr.flashSize, chip.mem i = game.getD (hdr.offset.toNat + i) 0
  buffer : ∀ i < hdr.offset.toNat, r.buffer i = game.getD i 0
  image : ∀ i, r.buffer (r.headerBytes + i) = chip.mem i

/-- The size the header declares is the one the game is loaded with. -/
theorem flashSizeOf_eq {hdr : PfiHeader} (h : Bus.flashBase < hdr.sysinfo.pffsEnd) :
    flashSizeOf hdr.sysinfo = hdr.flashSize := if_pos h

/-- **`retro_load_game`**, on a file that holds its image and a chip made for its size. -/
theorem retroLoadGame_eq (bus : Bus D) {game : List U8} {hdr : PfiHeader}
    (h : HoldsImage game hdr) (hchip : Sst39vf.forMinBytes hdr.flashSize = .ok chip)
    (hfit : hdr.flashSize ≤ chip.memSize) :
    ∃ r, retroLoadGame bus game = some r ∧
      r.LoadedFrom game hdr { chip with mem := blit chip.mem 0 (hdr.imageIn game) } := by
  have hoff := h.whole
  have hle := bytes_le_offset h.header
  have hload := h.pfiLoadBlob_eq { bus with flash := .sst39vf chip } hfit
  have hbytes : min (max PfiHeader.bytes hdr.offset.toNat) game.length = hdr.offset.toNat := by
    omega
  rw [retroLoadGame, h.header]
  dsimp only
  rw [flashSizeOf_eq h.declared, hchip]
  dsimp only
  rw [hload]
  dsimp only
  rw [hbytes]
  refine ⟨_, rfl, ⟨rfl, fun s => forMinBytes_clean hchip s, rfl, hle, rfl⟩, rfl, rfl, ?_, ?_, ?_⟩
  · intro i hi
    have hlen : i < (hdr.imageIn game).length := h.imageIn_length.symm ▸ hi
    change blit chip.mem 0 (hdr.imageIn game) i = _
    rw [blit_of_mem (Nat.zero_le i) hlen, ← imageIn_getD hi, List.getD_eq_getElem _ _ hlen]
    rfl
  · intro i hi
    exact if_pos hi
  · intro i
    change (if hdr.offset.toNat + i < hdr.offset.toNat then _ else _) = _
    rw [if_neg (by omega), Nat.add_sub_cancel_left]
    rfl

/-! ### The frames of a session -/

/-- **Between frames**: the state is settled, the buffer reflects the flash, and its header is
that of the game. -/
structure Playing (game : List U8) (hdr : PfiHeader) (r : SaveRam) : Prop where
  settled : ∃ chip, r.Settled chip
  mirrors : r.Mirrors
  flashBytes : r.flashBytes = hdr.flashSize
  headerBytes : r.headerBytes = hdr.offset.toNat
  bufferSize : r.bufferSize = r.headerBytes + r.flashBytes
  header : ∀ i < hdr.offset.toNat, r.buffer i = game.getD i 0

variable {game : List U8} {hdr : PfiHeader}

/-- The copy of the dirty sectors leaves the header alone. -/
theorem copySector_of_lt (buffer : ℕ → U8) (s : ℕ) {i : ℕ} (hi : i < r.headerBytes) :
    r.copySector buffer s i = buffer i := by
  rw [copySector]
  split_ifs
  · rfl
  · exact if_neg (by omega)

theorem sync_of_lt {i : ℕ} (hi : i < r.headerBytes) : r.sync.buffer i = r.buffer i := by
  rw [sync]
  split_ifs
  · exact foldl_keep (f := fun buffer : ℕ → U8 => buffer i)
      (fun s _ buffer => copySector_of_lt buffer s hi) r.buffer
  · rfl

/-- **One frame.** -/
theorem Playing.frame (h : r.Playing game hdr) (ops : List FlashOp) :
    r.retroRun ops = .ok (r.frame ops) ∧ (r.frame ops).Playing game hdr := by
  obtain ⟨chip, hset⟩ := h.settled
  obtain ⟨chip', hset', -, hfb, hmirror⟩ := hset.frame ops
  have hfit : r.flashBytes ≤ chip.memSize := by
    have := h.mirrors.1
    rwa [hset.flash] at this
  have hsame (i : ℕ) (hi : i < r.flashBytes) : r.buffer (r.headerBytes + i) = chip.mem i := by
    have := h.mirrors.2 i hi
    rwa [hset.flash] at this
  have hsync : (r.frame ops).bufferSize = r.bufferSize ∧
      (r.frame ops).headerBytes = r.headerBytes := by
    unfold SaveRam.frame sync
    split_ifs <;> exact ⟨rfl, rfl⟩
  refine ⟨hset.retroRun ops, ⟨chip', hset'⟩, (hmirror hfit).mpr fun i hi => .inl (hsame i hi),
    hfb.trans h.flashBytes, hsync.2.trans h.headerBytes, ?_, fun i hi => ?_⟩
  · rw [hsync.1, hsync.2, hfb, h.bufferSize]
  · have hlt : i < r.headerBytes := h.headerBytes.symm ▸ hi
    exact (sync_of_lt (r := { r with flash := r.flash.commanded ops }) hlt).trans (h.header i hi)

/-- **All frames.** -/
theorem Playing.frames (h : r.Playing game hdr) (frames : List (List FlashOp)) :
    ∃ final, frames.foldlM retroRun r = .ok final ∧ final.Playing game hdr := by
  induction frames generalizing r with
  | nil => exact ⟨r, rfl, h⟩
  | cons ops frames ih =>
    obtain ⟨hrun, hframe⟩ := h.frame ops
    obtain ⟨final, hfinal, hplaying⟩ := ih hframe
    refine ⟨final, ?_, hplaying⟩
    rw [List.foldlM_cons, hrun]
    exact hfinal

/-- **What is saved is a PFI file** with the flash in it. -/
theorem Playing.srm_holds (h : r.Playing game hdr) (hgame : HoldsImage game hdr) :
    HoldsImage r.srm hdr ∧
      (∀ i < hdr.flashSize, r.srm.getD (hdr.offset.toNat + i) 0 = r.flash.mem i) ∧
      ∀ i < hdr.offset.toNat, r.srm.getD i 0 = game.getD i 0 := by
  have hle := bytes_le_offset hgame.header
  have hoff : hdr.offset.toNat ≤ game.length := (Nat.le_add_right _ _).trans hgame.whole
  have hsize : r.bufferSize = hdr.offset.toNat + hdr.flashSize := by
    rw [h.bufferSize, h.headerBytes, h.flashBytes]
  have hlen : r.srm.length = hdr.offset.toNat + hdr.flashSize := by
    rw [srm, List.length_map, List.length_range, hsize]
  have hget {k : ℕ} (hk : k < hdr.offset.toNat + hdr.flashSize) : r.srm.getD k 0 = r.buffer k := by
    rw [List.getD_eq_getElem _ _ (hlen.symm ▸ hk)]
    simp [srm]
  have htake : r.srm.take PfiHeader.bytes = game.take PfiHeader.bytes := by
    refine List.ext_getElem (by simp only [List.length_take]; omega) fun i h₁ h₂ => ?_
    have hi : i < PfiHeader.bytes := (List.length_take_le _ _).trans_lt' h₁
    rw [List.getElem_take, List.getElem_take, ← List.getD_eq_getElem _ 0,
      ← List.getD_eq_getElem _ 0, hget (by omega), h.header i (by omega)]
  refine ⟨⟨?_, hgame.declared, hlen.ge⟩, fun i hi => ?_, fun i hi => ?_⟩
  · have hlong : PfiHeader.bytes ≤ r.srm.length := by omega
    have hread := hgame.header
    rw [readPfiHeaderBlob, if_neg (Nat.not_lt.mpr (readPfiHeaderBlob_length hgame.header))] at hread
    rw [readPfiHeaderBlob, if_neg (Nat.not_lt.mpr hlong), htake]
    exact hread
  · rw [hget (by omega), ← h.headerBytes]
    exact h.mirrors.2 i (h.flashBytes.symm ▸ hi)
  · rw [hget (by omega), h.header i hi]

/-! ### The first frame -/

/-- The header of the game is accepted. -/
theorem headerOk_of_game (hgame : HoldsImage game hdr) {contents : ℕ → U8}
    (h : ∀ i < PfiHeader.bytes, contents i = game.getD i 0) : headerOk contents = true := by
  have hlong := readPfiHeaderBlob_length hgame.header
  have hbytes : (List.range PfiHeader.bytes).map contents = game.take PfiHeader.bytes := by
    refine List.ext_getElem (by simp [hlong]) fun i h₁ h₂ => ?_
    have hi : i < PfiHeader.bytes := by simpa using h₁
    rw [List.getElem_map, List.getElem_range, List.getElem_take, h i hi,
      List.getD_eq_getElem _ _ (Nat.lt_of_lt_of_le hi hlong)]
  have hread := hgame.header
  rw [readPfiHeaderBlob, if_neg (Nat.not_lt.mpr hlong), checkPfiHeader] at hread
  rw [headerOk, hbytes]
  split_ifs at hread with hsig hoff hsize
  cases hread
  rw [Bool.not_eq_true', Bool.not_eq_false] at hsig
  rw [hsig, Bool.true_and, decide_eq_true_iff]
  exact not_not.mp hsize

/-- **The overlay**, on a buffer with the header of the game: the flash is the one in the
buffer, and the session is under way. -/
theorem Loaded.overlay_playing (h : r.Loaded chip) (hgame : HoldsImage game hdr)
    (hfit : hdr.flashSize ≤ chip.memSize) (hbytes : r.flashBytes = hdr.flashSize)
    (hoffset : r.headerBytes = hdr.offset.toNat)
    (hheader : ∀ i < hdr.offset.toNat, r.buffer i = game.getD i 0) :
    ∃ start, r.overlay = .ok start ∧ start.Playing game hdr ∧
      (∀ i < hdr.flashSize, start.flash.mem i = r.buffer (r.headerBytes + i)) := by
  have hle := bytes_le_offset hgame.header
  have hok : headerOk r.buffer = true :=
    headerOk_of_game hgame fun i hi => hheader i (Nat.lt_of_lt_of_le hi hle)
  have hpending : ¬(!r.overlayPending) = true := by rw [h.overlay]; decide
  have hfull : ¬r.bufferSize < r.headerBytes + r.flashBytes :=
    Nat.not_lt.mpr h.bufferSize.ge
  have hfits : ¬chip.memSize < (0 : U32).toNat +
      ((List.range r.flashBytes).map fun i => r.buffer (r.headerBytes + i)).length := by
    rw [List.length_map, List.length_range, hbytes, show (0 : U32).toNat = 0 from rfl,
      Nat.zero_add]
    exact Nat.not_lt.mpr hfit
  have hmem (i : ℕ) (hi : i < r.flashBytes) :
      blit chip.mem (0 : U32).toNat ((List.range r.flashBytes).map fun i =>
        r.buffer (r.headerBytes + i)) i = r.buffer (r.headerBytes + i) := by
    rw [show (0 : U32).toNat = 0 from rfl,
      blit_map_range (Nat.zero_le i) (show i - 0 < r.flashBytes from hi)]
    rfl
  rw [SaveRam.overlay, if_neg hpending]
  dsimp only
  rw [if_neg hfull, if_pos hok, h.flash, FlashDevice.loadImage, if_neg hfits]
  refine ⟨_, rfl, ⟨⟨_, rfl, h.clean, h.bufferSize_pos, rfl⟩, ⟨?_, ?_⟩, hbytes, hoffset,
    h.bufferSize, hheader⟩, ?_⟩
  · exact hbytes.trans_le hfit
  · exact fun i hi => (hmem i hi).symm
  · exact fun i hi => hmem i (hbytes.symm ▸ hi)

end SaveRam

/-! ### From one session to the next -/

/-- There is a chip for every size up to 2 MB. -/
theorem exists_forMinBytes {n : ℕ} (hn : n ≤ 0x200000) :
    ∃ chip, Sst39vf.forMinBytes n = .ok chip ∧ n ≤ chip.memSize := by
  rw [Sst39vf.forMinBytes]
  split_ifs with h
  · rw [Sst39vf.construct, dif_pos ⟨⟨19, rfl⟩, by decide⟩]
    exact ⟨_, rfl, h⟩
  · rw [Sst39vf.construct, dif_pos ⟨⟨21, rfl⟩, by decide⟩]
    exact ⟨_, rfl, hn⟩

section Sessions

variable {D : Type} {game : List U8} {hdr : PfiHeader}

/-- A saved buffer that can be put back: it has the header of the game. -/
def SavedFrom (game : List U8) (hdr : PfiHeader) (srm : List U8) : Prop :=
  HoldsImage srm hdr ∧ ∀ i < hdr.offset.toNat, srm.getD i 0 = game.getD i 0

/-- **One session**, the first or after a saved buffer has been put back. -/
theorem Play.run_eq (hgame : HoldsImage game hdr) (hsize : hdr.flashSize ≤ 0x200000)
    (p : Play D) (saved : Option (List U8)) (hsaved : ∀ srm ∈ saved, SavedFrom game hdr srm) :
    ∃ o, p.run game saved = some (.ok o) ∧
      (∀ i < hdr.flashSize, o.loaded i = (saved.getD game).getD (hdr.offset.toNat + i) 0) ∧
      (∀ i < hdr.flashSize, o.file.getD (hdr.offset.toNat + i) 0 = o.left i) ∧
      SavedFrom game hdr o.file := by
  obtain ⟨chip, hchip, hfit⟩ := exists_forMinBytes hsize
  obtain ⟨r, hload, hfrom⟩ := SaveRam.retroLoadGame_eq p.bus hgame hchip hfit
  generalize hr' : (match saved with
    | none => r
    | some srm => r.frontendWrites fun i => srm.getD i 0) = r'
  -- the game with its buffer, which is the file that is put back
  obtain ⟨hloaded, hbytes, hoffset, hbuffer⟩ :
      r'.Loaded { chip with mem := blit chip.mem 0 (hdr.imageIn game) } ∧
        r'.flashBytes = hdr.flashSize ∧ r'.headerBytes = hdr.offset.toNat ∧
        ∀ i < hdr.offset.toNat + hdr.flashSize, r'.buffer i = (saved.getD game).getD i 0 := by
    subst hr'
    cases saved with
    | none =>
      refine ⟨hfrom.loaded, hfrom.flashBytes, hfrom.headerBytes, fun i hi => ?_⟩
      rcases Nat.lt_or_ge i hdr.offset.toNat with h | h
      · exact hfrom.buffer i h
      · obtain ⟨j, rfl⟩ := Nat.exists_eq_add_of_le h
        rw [← hfrom.headerBytes, hfrom.image, hfrom.headerBytes]
        exact hfrom.mem j (by omega)
    | some srm =>
      obtain ⟨hflash, hclean, hbs, hheader, hover⟩ := hfrom.loaded
      refine ⟨⟨hflash, hclean, hbs, hheader, hover⟩, hfrom.flashBytes, hfrom.headerBytes,
        fun i hi => if_pos ?_⟩
      rw [hbs, hfrom.headerBytes, hfrom.flashBytes]
      exact hi
  have hheader (i : ℕ) (hi : i < hdr.offset.toNat) : r'.buffer i = game.getD i 0 := by
    rw [hbuffer i (by omega)]
    cases saved with
    | none => rfl
    | some srm => exact (hsaved srm rfl).2 i hi
  obtain ⟨start, hstart, hplaying, hmem⟩ :=
    hloaded.overlay_playing hgame hfit hbytes hoffset hheader
  obtain ⟨final, hfinal, hend⟩ := hplaying.frames (p.first :: p.frames)
  obtain ⟨hholds, hflash, hfront⟩ := hend.srm_holds hgame
  refine ⟨⟨start.flash.mem, final.flash.mem, final.srm⟩, ?_, fun i hi => ?_, hflash, hholds, hfront⟩
  · have hfirst : r'.retroRun p.first = start.retroRun p.first := by
      rw [SaveRam.retroRun, hstart, (hplaying.frame p.first).1]
      rfl
    rw [List.foldlM_cons, ← hfirst, ← List.foldlM_cons] at hfinal
    rw [Play.run, hload, Option.map_some]
    dsimp only
    rw [hr', hstart]
    change some (do
      let final ← (p.first :: p.frames).foldlM SaveRam.retroRun r'
      pure (⟨start.flash.mem, final.flash.mem, final.srm⟩ : Outcome)) = _
    rw [hfinal]
    rfl
  · refine (hmem i hi).trans ?_
    rw [hoffset]
    exact hbuffer _ (by omega)

/-- **Saved games come back**: over any sequence of sessions of a game, each given the buffer
the one before has saved, no session fails, the first finds the flash of the game and every
later one the flash that the program before has left; and every saved buffer is a PFI file
that holds the flash its session has left. -/
theorem plays_carry (hgame : HoldsImage game hdr) (hsize : hdr.flashSize ≤ 0x200000)
    (ps : List (Play D)) :
    ∃ os, plays game none ps = os.map (some ∘ .ok) ∧
      Carried hdr.flashSize (fun i => game.getD (hdr.offset.toNat + i) 0) os ∧
      ∀ o ∈ os, HoldsImage o.file hdr ∧
        ∀ i < hdr.flashSize, o.file.getD (hdr.offset.toNat + i) 0 = o.left i := by
  suffices h : ∀ saved : Option (List U8), (∀ srm ∈ saved, SavedFrom game hdr srm) →
      ∃ os, plays game saved ps = os.map (some ∘ .ok) ∧
        Carried hdr.flashSize (fun i => (saved.getD game).getD (hdr.offset.toNat + i) 0) os ∧
        ∀ o ∈ os, HoldsImage o.file hdr ∧
          ∀ i < hdr.flashSize, o.file.getD (hdr.offset.toNat + i) 0 = o.left i by
    exact h none (fun srm hsrm => absurd hsrm (Option.some_ne_none srm).symm)
  induction ps with
  | nil => exact fun _ _ => ⟨[], rfl, trivial, fun _ ho => absurd ho List.not_mem_nil⟩
  | cons p ps ih =>
    intro saved hsaved
    obtain ⟨o, hrun, hloaded, hleft, hfile⟩ := p.run_eq hgame hsize saved hsaved
    obtain ⟨os, hos, hcarried, hfiles⟩ := ih (some o.file) (by
      rintro srm ⟨⟩
      exact hfile)
    refine ⟨o :: os, ?_, ⟨hloaded, hcarried.congr hleft⟩, ?_⟩
    · rw [plays, hrun]
      exact congrArg (some (Except.ok o) :: ·) hos
    · rintro o' ho'
      rcases List.mem_cons.mp ho' with rfl | ho'
      · exact ⟨hfile.1, hleft⟩
      · exact hfiles o' ho'

end Sessions

/-- Two sessions of the tiny game; in the first its program writes to two sectors. -/
theorem plays_carry_tinyPfi :
    ∃ os, plays tinyPfi none
        [⟨tinyBus, PfiWriteback.programTwoSectors, [[]]⟩, ⟨tinyBus, [], []⟩] =
          os.map (some ∘ .ok) ∧
      Carried (PfiHeader.ofBytes tinyPfi).flashSize
        (fun i => tinyPfi.getD ((PfiHeader.ofBytes tinyPfi).offset.toNat + i) 0) os ∧
      ∀ o ∈ os, HoldsImage o.file (PfiHeader.ofBytes tinyPfi) ∧
        ∀ i < (PfiHeader.ofBytes tinyPfi).flashSize,
          o.file.getD ((PfiHeader.ofBytes tinyPfi).offset.toNat + i) 0 = o.left i :=
  plays_carry ⟨by decide, by decide, by decide⟩ (by decide) _
