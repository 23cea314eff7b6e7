import PieceEmu.Debug.PfiLoader
import PieceEmu.Tools.Pfi

/-!
# Building an image from a kernel

`mkpfi.c`: a kernel is put into a flash image behind a boot vector. The body is copied as it is
read, in pieces of up to a sector, and the rest of the flash is filled up by whole sectors. The
sectors are counted by pieces, and the last piece may be short: then nothing fills the rest of
its sector, and the image ends too early (`Mkpfi.written_eq_iff`). An image is laid out as it
should be exactly if the kernel is a whole number of sectors (`Mkpfi.main_exact_iff`).

The kernel and the image are taken to be different files: with one name for both, `fopen`
empties the kernel between the check of its signature and the copy.
-/

namespace Mkpfi

/-! ### The arguments -/

/-- `KERNEL_SIGNATURE`. -/
def kernelSignature : List U8 := "Piece Kernel Program".toList.map fun c => BitVec.ofNat 8 c.toNat

/-- `si_default`. -/
def siDefault : SystemInfo where
  size := 0x20
  hardVer := 0x100
  biosVer := 0x11d
  biosDate := 0xaa7
  sysClock := 0x16e3600
  vddeVoltage := 0xce4
  resv1 := 0
  sramTop := 0x100000
  sramEnd := 0x140000
  pffsTop := 0xc28000
  pffsEnd := 0xc00000

/-- `hdr`, for a flash that ends at `pffsEnd`. -/
def header (pffsEnd : U32) : PfiHeader where
  signature := 0x31 ||| (0x49 : U32) <<< 8 ||| (0x46 : U32) <<< 16 ||| (0x50 : U32) <<< 24
  offset := BitVec.ofNat 32 PfiHeader.imageOffset
  sysinfo := { siDefault with pffsEnd }

/-- What `main` takes from its arguments. -/
structure Options where
  src : Option String := none
  dst : Option String := none
  pffsEnd : U32 := siDefault.pffsEnd + (512 : U32) <<< 10

/-- One round of the loop over the arguments. -/
def Options.arg (o : Options) (arg : String) : Options :=
  if arg = "-512kb" then { o with pffsEnd := siDefault.pffsEnd + (512 : U32) <<< 10 }
  else if arg = "-2mb" then { o with pffsEnd := siDefault.pffsEnd + (2048 : U32) <<< 10 }
  else if o.src = none ∧ arg.toList.head? ≠ some '-' then { o with src := arg }
  else if o.src ≠ none ∧ o.dst = none ∧ arg.toList.head? ≠ some '-' then { o with dst := arg }
  else o

/-- The arguments, without the name of the program. -/
def parse (args : List String) : Options := args.foldl .arg {}

/-! ### The image -/

/-- `boot_addr`: the reset vector. -/
def bootAddr : List U8 := [0x04, 0x20, 0xC0, 0x00]

/-- The size of `buf`, a sector. -/
def sector : ℕ := 4096

theorem sector_pos : 0 < sector := by decide

/-- The loop that copies the kernel: what it writes, and what it leaves of the sectors. -/
def copyLoop (fpi : InFile) (nsectors : ℤ) : List U8 × ℤ :=
  if (fpi.fread sector).1 = [] then ([], nsectors)
  else
    let r := copyLoop (fpi.fread sector).2 (nsectors - 1)
    ((fpi.fread sector).1 ++ r.1, r.2)
termination_by fpi.rest.length
decreasing_by
  rename_i hne
  obtain ⟨hread, hrest⟩ := fpi.fread_rest sector
  have hpos := sector_pos
  have := List.length_pos_of_ne_nil hne
  rw [hread, List.length_take] at this
  rw [hrest, List.length_drop]
  omega

/-- The loop that fills the sectors that are left. -/
def padLoop (nsectors : ℤ) : List U8 :=
  if 0 < nsectors then List.replicate sector 0xFF ++ padLoop (nsectors - 1) else []
termination_by nsectors.toNat

/-- What is written for a kernel that was accepted. -/
def output (hdr : PfiHeader) (input : List U8) : List U8 :=
  let boot := (List.range sector).map (blit (fun _ => 0xFF) 0 bootAddr)
  let blank : List U8 := List.replicate sector 0xFF
  let nsectors : ℤ := ((hdr.sysinfo.pffsEnd - flashTop) >>> 12).toNat - 2
  let (body, nsectors) := copyLoop ⟨input, 0⟩ nsectors
  hdr.area ++ boot ++ blank ++ body ++ padLoop nsectors

/-- The first 28 bytes hold the signature; `junk` is what `buf` holds behind a shorter file. The
signature has no NUL, so `strncmp` compares all of its bytes. -/
def kernelOk (junk : ℕ → U8) (input : List U8) : Bool :=
  let buf := blit junk 0 (InFile.fread ⟨input, 0⟩ (8 + kernelSignature.length)).1
  (List.range kernelSignature.length).map (fun i => buf (8 + i)) = kernelSignature

/-- `usage`. -/
def usage : ℤ × Option (List U8) := (-1, none)

/-- `run`: the exit code, and the file that was written. -/
def run (junk : ℕ → U8) (src : Option (List U8)) (create : Bool) (hdr : PfiHeader) :
    ℤ × Option (List U8) :=
  match src with
  | none => usage
  | some input =>
    if !kernelOk junk input then usage
    else if !create then usage
    else (0, some (output hdr input))

/-- `main`, on the files that can be read and the names that can be created. A kernel that
is its own image, which `fopen` would empty before it is copied, is left out. -/
def main (files : String → Option (List U8)) (create : String → Bool) (junk : ℕ → U8)
    (args : List String) : ℤ × Option (List U8) :=
  let o := parse args
  match o.src with
  | none => usage
  | some src => run junk (files src) (create (o.dst.getD "piece.pfi")) (header o.pffsEnd)

/-! ### What is written -/

/-- The kernel is copied whole, and each piece of it, also a short one, counts as a sector. -/
theorem copyLoop_eq (fpi : InFile) (nsectors : ℤ) :
    copyLoop fpi nsectors =
      (fpi.rest, nsectors - ((fpi.rest.length + (sector - 1)) / sector : ℕ)) := by
  -- the induction is on what is left of the kernel; a short piece leaves nothing
  induction hn : fpi.rest.length using Nat.strong_induction_on generalizing fpi nsectors with
  | _ n ih =>
  obtain ⟨hread, hrest⟩ := fpi.fread_rest sector
  have hsector : sector = 4096 := rfl
  rw [copyLoop, hread]
  by_cases hnil : fpi.rest = []
  · rw [hnil, List.length_nil] at hn
    rw [hnil, List.take_nil, if_pos rfl, ← hn, hsector]
    simp
  · have hpos : 0 < fpi.rest.length := List.length_pos_of_ne_nil hnil
    have htake : fpi.rest.take sector ≠ [] := by
      rw [← List.length_pos_iff, List.length_take]
      omega
    have hdrop : (fpi.rest.drop sector).length = n - sector := by rw [List.length_drop, hn]
    rw [if_neg htake, ih (n - sector) (by omega) _ _ (hrest ▸ hdrop), hrest]
    dsimp only
    rw [List.take_append_drop]
    have hcount : (n + (sector - 1)) / sector = (n - sector + (sector - 1)) / sector + 1 := by
      rw [hsector]
      omega
    rw [hcount, Int.natCast_succ, Int.sub_sub, Int.add_comm 1]

theorem padLoop_eq (nsectors : ℤ) :
    padLoop nsectors = List.replicate (sector * nsectors.toNat) 0xFF := by
  induction hn : nsectors.toNat generalizing nsectors with
  | zero => rw [padLoop, if_neg (by omega), Nat.mul_zero, List.replicate_zero]
  | succ n ih =>
    rw [padLoop, if_pos (by omega), ih (nsectors - 1) (by omega), ← List.replicate_add,
      Nat.mul_succ, Nat.add_comm]

/-! ### What should be written -/

/-- Where the kernel lies in the flash. -/
def bodyOffset : ℕ := 0x2000

/-- The flash of a unit with this kernel. -/
def flashByte (input : List U8) (i : ℕ) : U8 :=
  if i < bootAddr.length then bootAddr.getD i 0xFF
  else if bodyOffset ≤ i then input.getD (i - bodyOffset) 0xFF
  else 0xFF

/-- The flash of a unit with this kernel, as a file holds it. -/
def flashImage (hdr : PfiHeader) (input : List U8) : List U8 :=
  (List.range (Pfi.span hdr).toNat).map (flashByte input)

theorem flashImage_length (hdr : PfiHeader) (input : List U8) :
    (flashImage hdr input).length = (Pfi.span hdr).toNat := by
  rw [flashImage, List.length_map, List.length_range]

/-- **An exact image**: the header, and then the whole flash and nothing else, which is also
what `PFIOpen` and `pfi_load` see. -/
structure Exact (hdr : PfiHeader) (input out : List U8) : Prop where
  layout : out = hdr.area ++ flashImage hdr input
  opened : ∀ (pfi : Pfi) (malloc : U32 → Option (ℕ → U8)) (fuel : ℕ), 32 ≤ fuel →
    malloc (Pfi.span hdr) ≠ none → ∃ r mem, Pfi.openFile fuel malloc pfi (some out) = some r ∧
      r.ok = true ∧ r.pfi = ⟨hdr, some mem, Pfi.span hdr⟩ ∧
      ∀ i < (Pfi.span hdr).toNat, mem i = flashByte input i
  loaded : ∀ (D : Type) (b : Bus D), (Pfi.span hdr).toNat ≤ b.flash.size → ∃ mem,
    pfiLoad b out = (.ok ⟨hdr.sysinfo, (Pfi.span hdr).toNat, hdr.offset⟩, b.withFlashMem mem) ∧
      ∀ i < (Pfi.span hdr).toNat, mem i = flashByte input i

/-! ### How far it goes -/

/-- The bytes of flash that `run` writes. -/
def written (hdr : PfiHeader) (input : List U8) : ℕ :=
  sector + sector + input.length + sector *
    (((Pfi.span hdr >>> 12).toNat - 2 : ℤ) - ((input.length + (sector - 1)) / sector : ℕ)).toNat

/-- Between the boot vector and the kernel, and behind it, the flash is erased. -/
theorem flashByte_blank {input : List U8} {i : ℕ} (hboot : bootAddr.length ≤ i)
    (hbody : i < bodyOffset ∨ bodyOffset + input.length ≤ i) : flashByte input i = 0xFF := by
  rw [flashByte, if_neg (Nat.not_lt.mpr hboot)]
  by_cases h : bodyOffset ≤ i
  · rw [if_pos h, List.getD_eq_default]
    omega
  · rw [if_neg h]

theorem flashByte_boot {input : List U8} {i : ℕ} (hi : i < sector) :
    flashByte input i = blit (fun _ => 0xFF) 0 bootAddr i := by
  by_cases hboot : i < bootAddr.length
  · rw [flashByte, if_pos hboot, blit_of_mem (Nat.zero_le i) hboot,
      List.getD_eq_getElem _ _ hboot]
    rfl
  · have hlt : sector ≤ bodyOffset := by decide
    rw [flashByte_blank (Nat.not_lt.mp hboot) (.inl (hi.trans_le hlt)),
      blit_of_ge (by rw [Nat.zero_add]; exact Nat.not_lt.mp hboot)]

theorem flashByte_body (input : List U8) (i : ℕ) :
    flashByte input (bodyOffset + i) = input.getD i 0xFF := by
  have hboot : ¬bodyOffset + i < bootAddr.length := by
    have : bootAddr.length ≤ bodyOffset := by decide
    omega
  rw [flashByte, if_neg hboot, if_pos (Nat.le_add_right _ _), Nat.add_sub_cancel_left]

/-- **What is written** is right as far as it goes. -/
theorem output_eq (hdr : PfiHeader) (input : List U8) :
    output hdr input = hdr.area ++ (List.range (written hdr input)).map (flashByte input) := by
  have hsectors : sector + sector = bodyOffset := rfl
  have hlt : sector ≤ bodyOffset := by decide
  have hbootLen : bootAddr.length ≤ sector := by decide
  have hboot : (List.range sector).map (flashByte input) =
      (List.range sector).map (blit (fun _ => 0xFF) 0 bootAddr) :=
    List.map_congr_left fun i hi => flashByte_boot (List.mem_range.mp hi)
  have hblank : ((List.range sector).map fun i => flashByte input (sector + i)) =
      List.replicate sector 0xFF :=
    map_range_const fun i hi => flashByte_blank (by omega) (.inl (by omega))
  have hbody : ((List.range input.length).map fun i => flashByte input (bodyOffset + i)) =
      input := by
    simp only [flashByte_body]
    exact map_range_getD input 0xFF
  have hpad (n : ℕ) : ((List.range n).map fun i =>
      flashByte input (bodyOffset + input.length + i)) = List.replicate n 0xFF :=
    map_range_const fun i hi => flashByte_blank (by omega) (.inr (by omega))
  rw [written, map_range_add, map_range_add, map_range_add, hsectors, hboot, hblank, hbody, hpad,
    output, copyLoop_eq]
  dsimp only
  rw [padLoop_eq]
  simp only [List.append_assoc]
  rfl

section Sizes

variable {hdr : PfiHeader} {input : List U8} {k : ℕ}

/-- **The length of the image**: the last sector of the kernel is not filled up. -/
theorem written_eq_iff (hspan : (Pfi.span hdr).toNat = 2 ^ k) (hk : 13 ≤ k)
    (hfit : input.length + bodyOffset ≤ (Pfi.span hdr).toNat) :
    written hdr input = (Pfi.span hdr).toNat ↔ sector ∣ input.length := by
  obtain ⟨m, hm⟩ : sector ∣ (Pfi.span hdr).toNat := by
    rw [hspan]
    exact Nat.pow_dvd_pow 2 (by omega : 12 ≤ k)
  have hsector : sector = 4096 := rfl
  have hbody : bodyOffset = 8192 := rfl
  have hsectors : (Pfi.span hdr >>> 12).toNat = m := by
    rw [BitVec.toNat_ushiftRight, Nat.shiftRight_eq_div_pow, hm]
    exact Nat.mul_div_cancel_left m sector_pos
  -- the pieces that fit leave a sector each, so what is missing is missing from the last one
  rw [written, hsectors, hm, hsector]
  rw [hm, hsector, hbody] at hfit
  omega

/-- A power of two is its own device size. -/
theorem deviceSize_span (hspan : (Pfi.span hdr).toNat = 2 ^ k) :
    Pfi.deviceSize (Pfi.span hdr) = (Pfi.span hdr).toNat := by
  rw [Pfi.deviceSize, hspan, Nat.clog_pow 2 k (by decide)]

end Sizes

/-! ### What the readers see -/

theorem signatureOk_header (pffsEnd : U32) : (header pffsEnd).signatureOk = true :=
  decide_eq_true (by decide :
    (0x31 ||| (0x49 : U32) <<< 8 ||| (0x46 : U32) <<< 16 ||| (0x50 : U32) <<< 24) &&&
      0xFFFFFF00 = 0x50464900)

section Readers

variable {pffsEnd : U32} {k : ℕ}

/-- `PFIOpen` finds the whole flash. -/
theorem openFile_flashImage (hspan : (Pfi.span (header pffsEnd)).toNat = 2 ^ k) (hk : 13 ≤ k)
    (hk' : k ≤ 31) {fuel : ℕ} (hfuel : 32 ≤ fuel) {malloc : U32 → Option (ℕ → U8)}
    (hmalloc : malloc (Pfi.span (header pffsEnd)) ≠ none) (pfi : Pfi) (input : List U8) :
    ∃ r mem, Pfi.openFile fuel malloc pfi
        (some ((header pffsEnd).area ++ flashImage (header pffsEnd) input)) = some r ∧
      r.ok = true ∧ r.pfi = ⟨header pffsEnd, some mem, Pfi.span (header pffsEnd)⟩ ∧
      ∀ i < (Pfi.span (header pffsEnd)).toNat, mem i = flashByte input i := by
  obtain ⟨mem₀, hmem₀⟩ := Option.ne_none_iff_exists'.mp hmalloc
  have hsize := deviceSize_span hspan
  have hofNat : BitVec.ofNat 32 (Pfi.deviceSize (Pfi.span (header pffsEnd))) =
      Pfi.span (header pffsEnd) := by
    rw [hsize, BitVec.ofNat_toNat, BitVec.setWidth_eq]
  have hmax : (Pfi.span (header pffsEnd)).toNat ≤ 2 ^ 31 := by
    rw [hspan]
    exact Nat.pow_le_pow_right Nat.two_pos hk'
  have hchunk : Pfi.chunk ≤ Pfi.deviceSize (Pfi.span (header pffsEnd)) := by
    rw [hsize, hspan]
    exact Nat.pow_le_pow_right Nat.two_pos (by omega : 12 ≤ k)
  obtain ⟨stores, hopen⟩ := Pfi.openFile_area pfi (signatureOk_header pffsEnd) rfl hmax hchunk
    hfuel (hofNat ▸ hmem₀) (flashImage (header pffsEnd) input)
  rw [hofNat, hsize, List.take_of_length_le (Nat.le_of_eq (flashImage_length _ _))] at hopen
  exact ⟨_, _, hopen, rfl, rfl, fun i hi => blit_map_range (Nat.zero_le i) hi⟩

/-- `pfi_load` loads the whole flash. -/
theorem pfiLoad_flashImage (hspan : (Pfi.span (header pffsEnd)).toNat = 2 ^ k)
    (hend : ¬pffsEnd ≤ Bus.flashBase) {D : Type} {b : Bus D}
    (hfit : (Pfi.span (header pffsEnd)).toNat ≤ b.flash.size) (input : List U8) :
    ∃ mem, pfiLoad b ((header pffsEnd).area ++ flashImage (header pffsEnd) input) =
        (.ok ⟨(header pffsEnd).sysinfo, (Pfi.span (header pffsEnd)).toNat,
          (header pffsEnd).offset⟩, b.withFlashMem mem) ∧
      ∀ i < (Pfi.span (header pffsEnd)).toNat, mem i = flashByte input i := by
  have hlen := flashImage_length (header pffsEnd) input
  have hcheck : checkPfiHeader (header pffsEnd) = .ok (header pffsEnd) := by
    rw [checkPfiHeader, signatureOk_header]
    rfl
  have hne : flashImage (header pffsEnd) input ≠ [] := by
    rw [← List.length_pos_iff, hlen, hspan]
    exact Nat.two_pow_pos k
  have hload := pfiLoad_area b hcheck rfl hend hlen hne (hlen.trans_le hfit)
  rw [hlen] at hload
  exact ⟨_, hload, fun i hi => blit_map_range (Nat.zero_le i) hi⟩

end Readers

/-! ### The whole program -/

/-- A flash of 512 KB or of 2 MB. -/
def Options.Sized (o : Options) : Prop :=
  o.pffsEnd = siDefault.pffsEnd + (512 : U32) <<< 10 ∨
    o.pffsEnd = siDefault.pffsEnd + (2048 : U32) <<< 10

theorem Options.Sized.arg {o : Options} (h : o.Sized) (arg : String) : (o.arg arg).Sized := by
  rw [Options.arg]
  split_ifs
  · exact .inl rfl
  · exact .inr rfl
  · exact h
  · exact h
  · exact h

/-- The flash sizes there are. -/
theorem span_parse (args : List String) :
    (Pfi.span (header (parse args).pffsEnd)).toNat = 2 ^ 19 ∨
      (Pfi.span (header (parse args).pffsEnd)).toNat = 2 ^ 21 := by
  have hsized : (parse args).Sized :=
    List.foldlRecOn args Options.arg (.inl rfl) fun _ ho arg _ => ho.arg arg
  rcases hsized with h | h
  · rw [h]
    exact .inl rfl
  · rw [h]
    exact .inr rfl

/-- **An image is exact** if and only if its kernel is a whole number of sectors. -/
theorem output_exact_iff {pffsEnd : U32} {k : ℕ}
    (hspan : (Pfi.span (header pffsEnd)).toNat = 2 ^ k) (hk : 13 ≤ k) (hk' : k ≤ 31)
    {input : List U8} (hfit : input.length + bodyOffset ≤ (Pfi.span (header pffsEnd)).toNat) :
    Exact (header pffsEnd) input (output (header pffsEnd) input) ↔ sector ∣ input.length := by
  rw [← written_eq_iff hspan hk hfit]
  constructor
  · -- an exact image is as long as the flash
    intro hexact
    have hlen := congrArg List.length hexact.layout
    rw [output_eq, List.length_append, List.length_append, flashImage_length, List.length_map,
      List.length_range] at hlen
    exact Nat.add_left_cancel hlen
  · intro hwritten
    have hlayout : output (header pffsEnd) input =
        (header pffsEnd).area ++ flashImage (header pffsEnd) input := by
      rw [output_eq, hwritten, flashImage]
    have hle : (Pfi.span (header pffsEnd)).toNat ≤ 2 ^ 31 := by
      rw [hspan]
      exact Nat.pow_le_pow_right Nat.two_pos hk'
    have hend : ¬pffsEnd ≤ Bus.flashBase := by
      have hpos := Nat.two_pow_pos k
      have htop : pffsEnd.toNat = Bus.flashBase.toNat + (Pfi.span (header pffsEnd)).toNat :=
        (Pfi.pffsEnd_of_span_le hle).2
      rw [BitVec.le_def]
      omega
    refine ⟨hlayout, fun pfi malloc fuel hfuel hmalloc => ?_, fun D b hfit => ?_⟩
    · rw [hlayout]
      exact openFile_flashImage hspan hk hk' hfuel hmalloc pfi input
    · rw [hlayout]
      exact pfiLoad_flashImage hspan hend hfit input

section Main

variable {files : String → Option (List U8)} {create : String → Bool} {junk : ℕ → U8}
  {args : List String} {src : String} {input out : List U8}

variable (files create junk) in
/-- What `main` does with a kernel that it can read. -/
theorem main_eq (hsrc : (parse args).src = some src) (hinput : files src = some input) :
    main files create junk args =
      if kernelOk junk input && create ((parse args).dst.getD "piece.pfi") then
        (0, some (output (header (parse args).pffsEnd) input))
      else usage := by
  rw [main, hsrc]
  dsimp only
  rw [hinput, run]
  cases kernelOk junk input with
  | false => rfl
  | true => cases create ((parse args).dst.getD "piece.pfi") <;> rfl

/-- What `main` writes for a kernel that it accepts. -/
theorem main_written (hsrc : (parse args).src = some src) (hinput : files src = some input)
    (hmain : main files create junk args = (0, some out)) :
    out = output (header (parse args).pffsEnd) input := by
  rw [main_eq files create junk hsrc hinput] at hmain
  split_ifs at hmain
  · exact (Option.some.inj (Prod.mk.inj hmain).2).symm
  · exact nomatch hmain

/-- **`mkpfi` lays the image out exactly** if and only if the kernel is a whole number of
sectors, of the kernels that fit. -/
theorem main_exact_iff (hsrc : (parse args).src = some src) (hinput : files src = some input)
    (hmain : main files create junk args = (0, some out))
    (hfit : input.length + bodyOffset ≤ (Pfi.span (header (parse args).pffsEnd)).toNat) :
    Exact (header (parse args).pffsEnd) input out ↔ sector ∣ input.length := by
  rw [main_written hsrc hinput hmain]
  rcases span_parse args with hspan | hspan
  · exact output_exact_iff hspan (by decide) (by decide) hfit
  · exact output_exact_iff hspan (by decide) (by decide) hfit

end Main

/-- A kernel that ends with its signature. -/
def bareKernel : List U8 := List.replicate 8 0 ++ kernelSignature

/-- The same kernel, filled up to a sector. -/
def wholeKernel : List U8 := bareKernel ++ List.replicate 4068 0xFF

theorem main_exact_iff_wholeKernel :
    ∃ out, main (fun _ => some wholeKernel) (fun _ => true) (fun _ => 0) ["-2mb", "all.bin"] =
        (0, some out) ∧
      Exact (header (parse ["-2mb", "all.bin"]).pffsEnd) wholeKernel out := by
  have hsrc : (parse ["-2mb", "all.bin"]).src = some "all.bin" := by decide
  have hlen : wholeKernel.length = sector := by
    rw [wholeKernel, List.length_append, List.length_replicate]
    rfl
  have hmain := main_eq (fun _ => some wholeKernel) (fun _ => true) (fun _ => 0) hsrc rfl
  rw [if_pos (by decide)] at hmain
  refine ⟨_, hmain, (main_exact_iff hsrc rfl hmain ?_).mpr ⟨1, hlen⟩⟩
  rw [hlen]
  decide

/-- **A short kernel** of 28 bytes is accepted, and its image ends 4068 bytes too early. -/
theorem main_bareKernel :
    main (fun _ => some bareKernel) (fun _ => true) (fun _ => 0) ["all.bin"] =
        (0, some (output (header 0xC80000) bareKernel)) ∧
      (output (header 0xC80000) bareKernel).length + 4068 =
        PfiHeader.imageOffset + (Pfi.span (header 0xC80000)).toNat ∧
      ¬Exact (header 0xC80000) bareKernel (output (header 0xC80000) bareKernel) := by
  have hsrc : (parse ["all.bin"]).src = some "all.bin" := by decide
  have hmain := main_eq (fun _ => some bareKernel) (fun _ => true) (fun _ => 0) hsrc rfl
  rw [if_pos (by decide)] at hmain
  refine ⟨hmain, ?_, ?_⟩
  · rw [output_eq, List.length_append, List.length_map, List.length_range, PfiHeader.area_length]
    rfl
  · rw [output_exact_iff (k := 19) rfl (by decide) (by decide) (by decide)]
    decide

end Mkpfi
