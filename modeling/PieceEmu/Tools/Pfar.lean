import PieceEmu.Lib.CText
import PieceEmu.Lib.Run
import PieceEmu.Tools.PfiRoundTrip
import PieceEmu.Tools.PffsLayout

/-!
# The archive tool

`pfar` opens an image file, works on the file system in it, and saves the whole image again
when everything has gone well. What it works on are the bytes of a buffer; what its user sees
is an archive, a map from names to contents (`Pfar.Archive`).

An image file *holds* an archive (`Pfar.Holds`) when `PFIOpen` accepts it, its file system is
well formed, and every name extracts to what the archive has for it. Two things keep this
relation over any number of calls of the tool, with anything done to the other files of the
host in between (`Pfar.session_holds`):

* each operation on the buffer is an operation on the map
  (`Pfar.HasFiles.add`, `Pfar.HasFiles.delete`);
* a saved image is opened with the same files in it (`Pfar.holds_save`).

A call that fails on one of several files leaves the image file as it was, also if others
were added before. The report of a call, on the other hand, is about the files only: whether
the image could be written is not looked at.
-/

/-- The files of the host, each at its path, and which paths can be written. -/
structure Host where
  file : List U8 → Option (List U8)
  writable : List U8 → Bool

namespace Host

variable (host : Host)

/-- Writing a file. -/
def write (path bytes : List U8) : Host :=
  if host.writable path then { host with file := Function.update host.file path (some bytes) }
  else host

/-- What both calls of `fopen` in `PFFSAddFileAs` find. -/
def disk (filename : List U8) : Pffs.Disk := ⟨host.file filename, host.file filename⟩

/-- What takes the bytes of `PFFSExtractFile`. -/
def sink (diskName : List U8) : Pffs.Sink :=
  { Pffs.Sink.whole with opens := host.writable diskName }

end Host

namespace Pfar

open CText Pffs

/-! ### The command line -/

/-- The action flags. -/
inductive Action
  | add
  | addAs
  | delete
  | extract
  | list
  | view
  deriving DecidableEq

/-- An action flag by its letter. -/
def Action.ofLetter (c : U8) : Option Action :=
  if c = ch 'a' then some add
  else if c = ch 'A' then some addAs
  else if c = ch 'd' then some delete
  else if c = ch 'e' then some extract
  else if c = ch 'l' then some list
  else if c = ch 'v' then some view
  else none

/-- `pfi_path`, `action` and `args`, which is null when it is empty. -/
structure Options where
  pfiPath : Option (List U8) := none
  action : Action := .list
  args : List (List U8) := []
  deriving DecidableEq

/-- The loop of `main` over the command line. A flag that is not known is skipped, with a
message. -/
def parse : List (List U8) → Options → Options
  | [], o => o
  | p :: rest, o =>
    if o.pfiPath = none ∧ p.headD 0 ≠ ch '-' then parse rest { o with pfiPath := some p }
    else if p.headD 0 ≠ ch '-' then { o with args := p :: rest }
    else parse rest { o with action := (Action.ofLetter (p.getD 1 0)).getD o.action }

/-! ### The actions -/

/-- The rounds of a loop along a chain. -/
def fuel : ℕ := maxFat + 1

/-- The loop of `-a`: the image, and whether every file was added. -/
def addAll (host : Host) (img : Image) : List (List U8) → Image × Bool
  | [] => (img, true)
  | filename :: args =>
    match addFileAs img filename none (host.disk filename) with
    | (img, .ok ()) => addAll host img args
    | (img, .error _) => (img, false)

/-- The loop of `-d`. -/
def deleteAll (img : Image) : List (List U8) → Option (Image × Bool)
  | [] => some (img, true)
  | pffsName :: args =>
    match deleteFile fuel img pffsName with
    | some (img, true) => deleteAll img args
    | some (img, false) => some (img, false)
    | none => none

/-- The loop of `-e`: a file that fails is skipped. -/
def extractAll (img : Image) : Host → List (List U8) → Option Host
  | host, [] => some host
  | host, pffsName :: args =>
    match extractFile fuel img (host.sink pffsName) pffsName with
    | some (some bytes) => extractAll img (host.write pffsName bytes) args
    | some none => extractAll img host args
    | none => none

/-- What a call of the tool leaves. -/
structure Result where
  host : Host
  /-- It has reported that the modifications are written. -/
  done : Bool := false

/-- `PFISave`, and the report. The buffer has the image in it. -/
def saved (host : Host) (pfi : Pfi) (mem : ℕ → U8) (pfiPath : List U8) (img : Image) : Result where
  host :=
    match (pfi.save (host.writable pfiPath) (bufferOf pfi.header mem img)).1 with
    | some bytes => host.write pfiPath bytes
    | none => host
  done := true

/-- `run`, on an image that was opened. `-l` and `-v` only print. -/
def run (host : Host) (pfi : Pfi) (mem : ℕ → U8) (pfiPath : List U8) (action : Action)
    (args : List (List U8)) : Option Result :=
  let img := imageOf pfi.header mem
  match action, args with
  | .add, args =>
    if args = [] then some { host }
    else
      match addAll host img args with
      | (img, true) => some (saved host pfi mem pfiPath img)
      | (_, false) => some { host }
  | .addAs, [filename, pffsName] =>
    match addFileAs img filename (some pffsName) (host.disk filename) with
    | (img, .ok ()) => some (saved host pfi mem pfiPath img)
    | (_, .error _) => some { host }
  | .addAs, _ => some { host }
  | .delete, args =>
    if args = [] then some { host }
    else
      match deleteAll img args with
      | some (img, true) => some (saved host pfi mem pfiPath img)
      | some (_, false) => some { host }
      | none => none
  | .extract, args => (extractAll img host args).map fun host => { host }
  | .list, _ => some { host }
  | .view, _ => some { host }

/-- `PFIInit`. -/
def pfiInit : Pfi where
  header := .ofBytes []
  buffer := none
  size := 0

/-- `main`. `malloc` is what the allocator returns for a size. -/
def main (malloc : U32 → Option (ℕ → U8)) (argv : List (List U8)) (host : Host) : Option Result :=
  let o := parse argv {}
  match o.pfiPath with
  | none => some { host }
  | some pfiPath =>
    match Pfi.openFile 32 malloc pfiInit (host.file pfiPath) with
    | none => none
    | some r =>
      match r.ok, r.pfi.buffer with
      | true, some mem => run host r.pfi mem pfiPath o.action o.args
      | _, _ => some { host }

/-! ### What the user sees -/

/-- An archive: the contents of the files, by name. -/
abbrev Archive := List U8 → Option (List U8)

/-- The archive with the file put in under a name. -/
def Archive.put (m : Archive) (name : List U8) (content : Option (List U8)) : Archive :=
  Function.update m (cstr name) content

theorem Archive.put_self (m : Archive) (name : List U8) (content : Option (List U8)) :
    m.put name content (cstr name) = content := Function.update_self ..

theorem Archive.put_of_ne (m : Archive) {name other : List U8} (h : other ≠ cstr name)
    (content : Option (List U8)) : m.put name content other = m other :=
  Function.update_of_ne h ..

/-- The archive after a call that has done what it was asked for. -/
def Archive.after (host : Host) (m : Archive) : Action → List (List U8) → Archive
  | .add, args => args.foldl (fun m filename => m.put (basename filename) (host.file filename)) m
  | .addAs, [filename, pffsName] =>
    m.put (if pffsName.headD 0 = 0 then basename filename else pffsName) (host.file filename)
  | .delete, args => args.foldl (fun m pffsName => m.put pffsName none) m
  | _, _ => m

/-- The host after files of an archive were extracted. -/
def Archive.extractTo (m : Archive) (host : Host) (args : List (List U8)) : Host :=
  args.foldl (fun host pffsName =>
    match m (cstr pffsName) with
    | some bytes => host.write pffsName bytes
    | none => host) host

/-- **An image has the files of an archive**, in the area of a header. -/
structure HasFiles (h : PfiHeader) (img : Image) (m : Archive) : Prop where
  pffsTop : img.pffsTop = h.sysinfo.pffsTop
  pffsEnd : img.pffsEnd = h.sysinfo.pffsEnd
  wellFormed : ∃ reserved chains, WellFormed reserved img chains
  contents : ∀ name, extractFile fuel img .whole name = some (m (cstr name))

/-- The image in a file. -/
def fileImage (h : PfiHeader) (data : List U8) : Image :=
  imageOf h fun p => data.getD (h.offset.toNat + p) 0

/-- **A file holds an archive**, behind this header. -/
structure HoldsWith (h : PfiHeader) (data : List U8) (m : Archive) : Prop where
  accepts : Pfi.Accepts data h
  area : HasArea h
  span_le : (Pfi.span h).toNat ≤ 2 ^ 31
  length : h.offset.toNat + (Pfi.span h).toNat ≤ data.length
  files : HasFiles h (fileImage h data) m

/-- **A file holds an archive.** -/
def Holds (data : List U8) (m : Archive) : Prop := ∃ h, HoldsWith h data m

/-! ### Names -/

section Names

variable {s t : List U8}

theorem findFile_cstr (h : cstr s = cstr t) (m : MasterBlock) : findFile m s = findFile m t := by
  rw [findFile, findFile, checkFileName_congr h]
  split_ifs
  · rfl
  · refine List.find?_congr fun i _ => congrArg ((m.dir i).inUse && ·) ?_
    rw [Bool.eq_iff_iff, strncmpEq_iff, strncmpEq_iff, h]

/-- Names are strings: what is behind a NUL does not count. -/
theorem extractFile_cstr (h : cstr s = cstr t) (img : Image) (sink : Sink) :
    extractFile fuel img sink s = extractFile fuel img sink t := by
  rw [extractFile, extractFile, findFile_cstr h]

end Names

section Files

variable {h : PfiHeader} {img img' : Image} {m : Archive}

/-- The files of an image that looks the same are the same. -/
theorem HasFiles.same (hf : HasFiles h img m) (hsame : SameImage img img') :
    HasFiles h img' m where
  pffsTop := hsame.pffsTop.trans hf.pffsTop
  pffsEnd := hsame.pffsEnd.trans hf.pffsEnd
  wellFormed := by
    obtain ⟨reserved, chains, hw⟩ := hf.wellFormed
    exact ⟨reserved, chains, hw.same hsame⟩
  contents name := by
    obtain ⟨reserved, chains, hw⟩ := hf.wellFormed
    rw [hw.extractFile_same hsame, hf.contents]

/-- What an operation on one name has to do to the contents. -/
theorem contents_put {name : List U8} {content : Option (List U8)}
    (hf : HasFiles h img m) (hname : extractFile fuel img' .whole name = some content)
    (hothers : SameOthers name img img') (other : List U8) :
    extractFile fuel img' .whole other = some (m.put name content (cstr other)) := by
  by_cases heq : cstr other = cstr name
  · rw [extractFile_cstr heq, hname, heq, m.put_self]
  · rw [hothers fuel .whole other heq, hf.contents, m.put_of_ne heq]

/-! ### One operation -/

/-- **An addition that succeeds** puts the file into the archive. -/
theorem HasFiles.add (hf : HasFiles h img m) {filename content : List U8}
    {pffsNameIn : Option (List U8)}
    (hadd : addFileAs img filename pffsNameIn ⟨some content, some content⟩ = (img', .ok ()))
    (hsize : content.length ≤ 0xFFFFF000) :
    ∃ name, resolveName filename pffsNameIn = .ok name ∧
      HasFiles h img' (m.put name (some content)) := by
  obtain ⟨reserved, chains, hw⟩ := hf.wellFormed
  rcases addFileAs_cases img filename pffsNameIn ⟨some content, some content⟩ with ⟨e, he⟩ |
    ⟨name, content', bytes, m₁, i, old, m', hname, hcheck, hfirst, hsecond, hentry, halloc, hrun⟩
  · rw [he] at hadd
    cases hadd
  obtain rfl := Option.some.inj hfirst
  obtain rfl := Option.some.inj hsecond
  have himg : img' = { img with
      msb := m'
      data := writeLoop m'.fat (sectorsOf (BitVec.ofNat 32 content.length)) (m'.dir i).chain
        content img.data } := congrArg Prod.fst (hadd.symm.trans hrun)
  have hmod : (BitVec.ofNat 32 content.length).toNat = content.length := by
    rw [BitVec.toNat_ofNat, Nat.mod_eq_of_lt (by omega)]
  have hkept : Kept reserved img chains name img' true := by
    rw [himg]
    exact addFileAs_kept hw hcheck hentry halloc ((Nat.mod_le _ _).trans hsize)
  obtain ⟨⟨chains', hw', -⟩, -⟩ := hkept
  obtain ⟨q, -, hpath, hnd, hqlt, hq, hfound, hsize', hothers⟩ :=
    hw.linked.ofCode.addition hcheck hentry halloc content
  rw [← himg] at hothers
  refine ⟨name, hname, by rw [himg]; exact hf.pffsTop, by rw [himg]; exact hf.pffsEnd,
    ⟨reserved, chains', hw'⟩, contents_put hf ?_ hothers⟩
  -- the chain is long enough for what has been written along it
  have hlong : content.length ≤ 4096 * q.length := by
    rw [hq, sectorsOf_eq (hmod.symm ▸ hsize), sectorsFor, hmod]
    omega
  have hback : ∀ img₁ : Image, img₁.msb = m' →
      img₁.data = writeLoop m'.fat q.length (m'.dir i).chain content img.data →
      extractFile fuel img₁ .whole name = some (some content) := by
    rintro img₁ rfl hdata
    have hloop : extractLoop img₁ .whole fuel 0 content.length (img₁.msb.dir i).chain =
        some content :=
      extractLoop_writeLoop hpath hnd hqlt hlong (fun s _ => congrFun hdata s)
        (Nat.lt_succ_of_le (length_le_of_nodup hnd hqlt)) 0
    rw [extractFile, hfound]
    dsimp only
    rw [hsize', hmod, hloop]
    rfl
  exact hback img' (by rw [himg]) (by rw [himg, hq])

/-- **A deletion** takes the file out of the archive, and succeeds if there is one. -/
theorem HasFiles.delete (hf : HasFiles h img m) (name : List U8) :
    ∃ img', deleteFile fuel img name = some (img', (m (cstr name)).isSome) ∧
      HasFiles h img' (m.put name none) := by
  obtain ⟨reserved, chains, hw⟩ := hf.wellFormed
  have hcontents := hf.contents name
  rw [extractFile] at hcontents
  cases hfind : findFile img.msb name with
  | none =>
    rw [hfind] at hcontents
    have hnone : m (cstr name) = none := (Option.some.inj hcontents).symm
    refine ⟨img, by rw [deleteFile, hfind, hnone]; rfl, ?_⟩
    rw [Archive.put, ← hnone, Function.update_eq_self]
    exact hf
  | some i =>
    obtain ⟨hi, heq⟩ := (hw.findFile_eq_some (findFile_some hfind).1).mp hfind
    have hsome : (m (cstr name)).isSome = true := by
      rw [hfind] at hcontents
      dsimp only at hcontents
      rw [if_pos (show Sink.whole.opens = true from rfl)] at hcontents
      cases hloop : extractLoop img .whole fuel 0 (img.msb.dir i).size.toNat
          (img.msb.dir i).chain with
      | none =>
        rw [hloop] at hcontents
        cases hcontents
      | some bytes =>
        rw [hloop] at hcontents
        rw [← Option.some.inj hcontents]
        rfl
    refine ⟨{ img with msb := erase img chains i }, ?_, hf.pffsTop, hf.pffsEnd,
      ⟨reserved, chains, hw.erase hi⟩, contents_put hf ?_ (hw.linked.ofCode.deletion hfind)⟩
    · rw [hsome]
      exact hw.linked.deleteFile_eq hfind (Nat.lt_succ_self _)
    rw [extractFile, hw.findFile_erase hi (findFile_some hfind).1 heq]

/-! ### The loops of the actions -/

/-- All files have a size that does not wrap. -/
def Host.Small (host : Host) (args : List (List U8)) : Prop :=
  ∀ filename ∈ args, ∀ content, host.file filename = some content → content.length ≤ 0xFFFFF000

theorem HasFiles.addOne (hf : HasFiles h img m) {host : Host} {filename : List U8}
    {pffsNameIn : Option (List U8)}
    (hadd : addFileAs img filename pffsNameIn (host.disk filename) = (img', .ok ()))
    (hsmall : ∀ content, host.file filename = some content → content.length ≤ 0xFFFFF000) :
    ∃ name, resolveName filename pffsNameIn = .ok name ∧
      HasFiles h img' (m.put name (host.file filename)) := by
  cases hfile : host.file filename with
  | none =>
    -- there is nothing to open
    rcases addFileAs_cases img filename pffsNameIn (host.disk filename) with ⟨e, he⟩ |
      ⟨name, content, bytes, m₁, i, old, m', hname, hcheck, hfirst, -⟩
    · rw [he] at hadd
      cases hadd
    · exact absurd (hfile.symm.trans hfirst) nofun
  | some content =>
    rw [Host.disk, hfile] at hadd
    exact hf.add hadd (hsmall content hfile)

theorem HasFiles.addAll (hf : HasFiles h img m) {host : Host} {args : List (List U8)}
    (hadd : addAll host img args = (img', true)) (hsmall : Host.Small host args) :
    HasFiles h img' (m.after host .add args) := by
  induction args generalizing img m with
  | nil =>
    obtain rfl : img = img' := congrArg Prod.fst hadd
    exact hf
  | cons filename args ih =>
    rw [Pfar.addAll] at hadd
    rcases hone : addFileAs img filename none (host.disk filename) with ⟨img₁, e | ⟨⟩⟩
    · rw [hone] at hadd
      cases hadd
    · rw [hone] at hadd
      obtain ⟨name, hname, hf₁⟩ := hf.addOne hone (hsmall filename List.mem_cons_self)
      obtain rfl : basename filename = name := Except.ok.inj hname
      exact ih hf₁ hadd fun f hmem => hsmall f (List.mem_cons_of_mem _ hmem)

theorem HasFiles.deleteAll (hf : HasFiles h img m) (host : Host) (args : List (List U8)) :
    ∃ img' ok, deleteAll img args = some (img', ok) ∧
      (ok = true → HasFiles h img' (m.after host .delete args)) := by
  induction args generalizing img m with
  | nil => exact ⟨img, true, rfl, fun _ => hf⟩
  | cons pffsName args ih =>
    obtain ⟨img₁, hone, hf₁⟩ := hf.delete pffsName
    rw [Pfar.deleteAll, hone]
    cases (m (cstr pffsName)).isSome with
    | false => exact ⟨img₁, false, rfl, nofun⟩
    | true => exact ih hf₁

/-- **Extracting** hands out what the archive has. -/
theorem HasFiles.extractAll (hf : HasFiles h img m) (host : Host) (args : List (List U8)) :
    extractAll img host args = some (m.extractTo host args) := by
  induction args generalizing host with
  | nil => rfl
  | cons pffsName args ih =>
    rw [Pfar.extractAll, Archive.extractTo, List.foldl_cons]
    by_cases hw : host.writable pffsName = true
    · have hsink : host.sink pffsName = .whole := by
        rw [Host.sink, hw]
        rfl
      rw [hsink, hf.contents]
      cases m (cstr pffsName) with
      | none => exact ih host
      | some bytes => exact ih _
    · rw [Bool.not_eq_true] at hw
      have hskip : extractFile fuel img (host.sink pffsName) pffsName = some none := by
        rw [extractFile]
        cases findFile img.msb pffsName with
        | none => rfl
        | some i => exact if_neg (by rw [Host.sink, hw]; exact Bool.false_ne_true)
      have hsame (bytes : List U8) : host.write pffsName bytes = host := by
        rw [Host.write, hw]
        rfl
      rw [hskip]
      refine (ih host).trans ?_
      rw [Archive.extractTo]
      cases m (cstr pffsName) with
      | none => rfl
      | some bytes =>
        dsimp only
        rw [hsame]

/-! ### Saving and opening -/

variable {data : List U8}

/-- **A saved image** holds the files of the image that is in the buffer. -/
theorem holds_save {pfi : Pfi} {m : Archive} {img : Image}
    (hsig : pfi.header.signatureOk = true) (harea : HasArea pfi.header)
    (hspan : (Pfi.span pfi.header).toNat ≤ 2 ^ 31)
    (hsize : pfi.size = BitVec.ofNat 32 (Pfi.deviceSize (Pfi.span pfi.header)))
    (hf : HasFiles pfi.header img m) (mem : ℕ → U8) :
    ∃ data, (pfi.save true (bufferOf pfi.header mem img)).1 = some data ∧ Holds data m := by
  have hsize' : pfi.size.toNat = Pfi.deviceSize (Pfi.span pfi.header) := by
    rw [hsize, Pfi.toNat_deviceSize hspan]
  have hbyte (p : ℕ) (hp : p < (Pfi.span pfi.header).toNat) :
      (pfi.saved.header.area ++ (List.range pfi.size.toNat).map
        (bufferOf pfi.header mem img)).getD (PfiHeader.imageOffset + p) 0 =
      bufferOf pfi.header mem img p := by
    have hlt : p < pfi.size.toNat := hsize' ▸ hp.trans_le (Pfi.span_le_deviceSize _)
    rw [List.getD_append_right _ _ _ _ (by rw [PfiHeader.area_length]; omega),
      PfiHeader.area_length, Nat.add_sub_cancel_left, List.getD_eq_getElem _ _ (by simpa using hlt),
      List.getElem_map, List.getElem_range]
  have haccepts := Pfi.accepts_area (h := pfi.saved.header) hsig
    ((List.range pfi.size.toNat).map (bufferOf pfi.header mem img))
  refine ⟨_, congrArg Prod.fst (pfi.save_eq _), pfi.saved.header, haccepts,
    ⟨harea.top_le, harea.whole⟩, hspan, ?_, ?_⟩
  · rw [List.length_append, PfiHeader.area_length, List.length_map, List.length_range, hsize']
    exact Nat.add_le_add_left (Pfi.span_le_deviceSize _) _
  · obtain ⟨htop, hend, hw, hcontents⟩ :=
      (hf.same (sameImage_bufferOf mem hf.pffsTop hf.pffsEnd)).same
        (sameImage_of_bytes harea hbyte)
    exact ⟨htop, hend, hw, hcontents⟩

/-- **An image file is opened** with its files in the buffer, if there is memory for it. -/
theorem HoldsWith.openFile (hh : HoldsWith h data m) (malloc : U32 → Option (ℕ → U8)) :
    ∃ r, Pfi.openFile 32 malloc pfiInit (some data) = some r ∧
      (r.ok = false ∧ malloc (BitVec.ofNat 32 (Pfi.deviceSize (Pfi.span h))) = none ∨
        ∃ mem, r.ok = true ∧ r.pfi.header = h ∧ r.pfi.buffer = some mem ∧
          r.pfi.size = BitVec.ofNat 32 (Pfi.deviceSize (Pfi.span h)) ∧
          HasFiles h (imageOf h mem) m) := by
  refine ⟨_, Pfi.openFile_eq malloc pfiInit hh.accepts hh.span_le le_rfl, ?_⟩
  cases hmalloc : malloc (BitVec.ofNat 32 (Pfi.deviceSize (Pfi.span h))) with
  | none =>
    rw [Pfi.opened_of_malloc_none hmalloc]
    exact .inl ⟨rfl, rfl⟩
  | some mem =>
    rw [Pfi.opened_of_malloc_some hmalloc]
    have hdvd : Pfi.chunk ∣ Pfi.deviceSize (Pfi.span h) - 0 :=
      Pfi.chunk_dvd_deviceSize (hh.area.chunk_le.trans (Pfi.span_le_deviceSize _))
    have hspec := (Pfi.readLoop_spec ⟨data, h.offset.toNat⟩ mem (Nat.zero_le _) hdvd).1
    refine .inr ⟨_, rfl, rfl, rfl, rfl, hh.files.same (sameImage_of_bytes hh.area fun p hp => ?_)⟩
    rw [Pfi.toNat_deviceSize hh.span_le, hspec, Nat.sub_zero]
    have hlength := hh.length
    have hdevice := Pfi.span_le_deviceSize (Pfi.span h)
    change p < (Pfi.span h).toNat at hp
    have hlt : p < ((data.drop h.offset.toNat).take (Pfi.deviceSize (Pfi.span h))).length := by
      rw [List.length_take, List.length_drop]
      omega
    rw [show InFile.rest ⟨data, h.offset.toNat⟩ = data.drop h.offset.toNat from rfl,
      blit_of_mem (Nat.zero_le p) hlt, List.getD_eq_getElem _ _ (by omega)]
    simp only [Nat.sub_zero, List.getElem_take, List.getElem_drop]

end Files

/-! ### A call -/

/-- The files of the host that a call adds. -/
def sources : Action → List (List U8) → List (List U8)
  | .add, args => args
  | .addAs, args => args.take 1
  | _, _ => []

variable {host : Host} {pfiPath data : List U8} {m : Archive} {action : Action}
  {args : List (List U8)}

/-- **How a call can end.** -/
inductive Outcome (host : Host) (pfiPath : List U8) (m : Archive) (action : Action)
    (args : List (List U8)) : Result → Prop
  /-- Nothing has changed. -/
  | failed : Outcome host pfiPath m action args { host }
  /-- The image file holds the new archive. -/
  | written (data : List U8) (hw : host.writable pfiPath = true)
    (hdata : Holds data (m.after host action args)) :
    Outcome host pfiPath m action args { host := host.write pfiPath data, done := true }
  /-- Nothing has changed, and the report is wrong. -/
  | unwritable (hw : host.writable pfiPath = false) :
    Outcome host pfiPath m action args { host, done := true }
  /-- The files have been handed out. -/
  | extracted (haction : action = .extract) :
    Outcome host pfiPath m action args { host := m.extractTo host args }

/-- The name that `-A` puts a file under. -/
theorem resolveName_override {filename pffsName name : List U8}
    (h : resolveName filename (some pffsName) = .ok name) :
    name = if pffsName.headD 0 = 0 then basename filename else pffsName := by
  rw [resolveName] at h
  split_ifs at h ⊢
  · exact (Except.ok.inj h).symm
  · exact (Except.ok.inj h).symm

section Run

variable {pfi : Pfi} {mem : ℕ → U8}

/-- The handle of an image that was opened. -/
structure OpenedWith (pfi : Pfi) (mem : ℕ → U8) (m : Archive) : Prop where
  signature : pfi.header.signatureOk = true
  area : HasArea pfi.header
  span_le : (Pfi.span pfi.header).toNat ≤ 2 ^ 31
  size : pfi.size = BitVec.ofNat 32 (Pfi.deviceSize (Pfi.span pfi.header))
  files : HasFiles pfi.header (imageOf pfi.header mem) m

theorem OpenedWith.saved_outcome (ho : OpenedWith pfi mem m) {img : Image}
    (hf : HasFiles pfi.header img (m.after host action args)) :
    Outcome host pfiPath m action args (saved host pfi mem pfiPath img) := by
  rw [saved]
  cases hw : host.writable pfiPath with
  | false => exact .unwritable hw
  | true =>
    obtain ⟨data, hsave, hdata⟩ := holds_save ho.signature ho.area ho.span_le ho.size hf mem
    rw [hsave]
    exact .written data hw hdata

/-- **Every action comes to an end**, and in one of these ways. -/
theorem OpenedWith.run_outcome (ho : OpenedWith pfi mem m)
    (hsmall : Host.Small host (sources action args)) :
    ∃ r, run host pfi mem pfiPath action args = some r ∧
      Outcome host pfiPath m action args r := by
  cases action with
  | add =>
    rw [run]
    split_ifs
    · exact ⟨_, rfl, .failed⟩
    · rcases hadd : addAll host (imageOf pfi.header mem) args with ⟨img, _ | _⟩
      · exact ⟨_, rfl, .failed⟩
      · exact ⟨_, rfl, ho.saved_outcome (ho.files.addAll hadd hsmall)⟩
  | addAs =>
    match args with
    | [filename, pffsName] =>
      rw [run]
      rcases hadd : addFileAs (imageOf pfi.header mem) filename (some pffsName)
        (host.disk filename) with ⟨img, e | ⟨⟩⟩
      · exact ⟨_, rfl, .failed⟩
      · obtain ⟨name, hname, hf⟩ := ho.files.addOne hadd (hsmall filename List.mem_cons_self)
        rw [resolveName_override hname] at hf
        exact ⟨_, rfl, ho.saved_outcome hf⟩
    | [] | [_] | _ :: _ :: _ :: _ => exact ⟨_, rfl, .failed⟩
  | delete =>
    rw [run]
    split_ifs
    · exact ⟨_, rfl, .failed⟩
    · obtain ⟨img, ok, hdelete, hf⟩ := ho.files.deleteAll host args
      rw [hdelete]
      cases ok with
      | false => exact ⟨_, rfl, .failed⟩
      | true => exact ⟨_, rfl, ho.saved_outcome (hf rfl)⟩
  | extract =>
    refine ⟨_, ?_, .extracted rfl⟩
    rw [run, ho.files.extractAll]
    rfl
  | list => exact ⟨_, rfl, .failed⟩
  | view => exact ⟨_, rfl, .failed⟩

end Run

/-- A call on an image file opens it, if there is memory. -/
theorem Holds.main_eq (hh : Holds data m) (hfile : host.file pfiPath = some data)
    {argv : List (List U8)} (hargv : parse argv {} = ⟨some pfiPath, action, args⟩)
    (malloc : U32 → Option (ℕ → U8)) :
    (∃ n, malloc n = none) ∧ main malloc argv host = some { host } ∨
      ∃ pfi mem, OpenedWith pfi mem m ∧
        main malloc argv host = run host pfi mem pfiPath action args := by
  obtain ⟨h, hh⟩ := hh
  obtain ⟨r, hopen, hr⟩ := hh.openFile malloc
  rw [main, hargv]
  dsimp only
  rw [hfile, hopen]
  dsimp only
  rcases hr with ⟨hok, hmalloc⟩ | ⟨mem, hok, rfl, hbuffer, hsize, hf⟩
  · rw [hok]
    exact .inl ⟨⟨_, hmalloc⟩, rfl⟩
  · rw [hok, hbuffer]
    exact .inr ⟨r.pfi, mem, ⟨hh.accepts.signature, hh.area, hh.span_le, hsize, hf⟩, rfl⟩

/-- **Every call on an image file comes to an end**, and in one of these ways. -/
theorem Holds.main_outcome (hh : Holds data m) (hfile : host.file pfiPath = some data)
    {argv : List (List U8)} (hargv : parse argv {} = ⟨some pfiPath, action, args⟩)
    (hsmall : Host.Small host (sources action args)) (malloc : U32 → Option (ℕ → U8)) :
    ∃ r, main malloc argv host = some r ∧ Outcome host pfiPath m action args r := by
  rcases hh.main_eq hfile hargv malloc with ⟨-, hmain⟩ | ⟨pfi, mem, ho, hmain⟩
  · exact ⟨_, hmain, .failed⟩
  · rw [hmain]
    exact ho.run_outcome hsmall

/-! ### A session -/

/-- The host with an image file on it, and what its user takes to be in there: after each
call that has reported its modifications, and could write them, what it was asked for. -/
structure Desk where
  host : Host
  archive : Archive

/-- What happens on the host. -/
inductive DeskAct
  /-- A call of the tool. -/
  | call (malloc : U32 → Option (ℕ → U8)) (argv : List (List U8))
  /-- Anything done to the other files, and to what can be written. -/
  | edit (host : Host)

namespace Desk

variable (pfiPath) in
/-- One act, with the image file at `pfiPath`. -/
def step (s : Desk) : DeskAct → Desk
  | .call malloc argv =>
    match main malloc argv s.host with
    | none => s
    | some r =>
      let o := parse argv {}
      { host := r.host
        archive :=
          if r.done && s.host.writable pfiPath then s.archive.after s.host o.action o.args
          else s.archive }
  | .edit host =>
    { s with
      host := { host with file := Function.update host.file pfiPath (s.host.file pfiPath) } }

variable (pfiPath) in
/-- What is asked of a call: it is about this image file and does not extract over it, and
the files it adds are not of 4 GB. -/
def Allowed (s : Desk) : DeskAct → Prop
  | .call _ argv =>
    (parse argv {}).pfiPath = some pfiPath ∧
      ((parse argv {}).action = .extract → pfiPath ∉ (parse argv {}).args) ∧
      Host.Small s.host (sources (parse argv {}).action (parse argv {}).args)
  | .edit _ => True

variable (pfiPath) in
/-- **The image file holds the archive.** -/
def Faithful (s : Desk) : Prop :=
  ∃ data, s.host.file pfiPath = some data ∧ Holds data s.archive

theorem file_write (host : Host) {path other : List U8} (bytes : List U8) (h : other ≠ path) :
    (host.write path bytes).file other = host.file other := by
  rw [Host.write]
  split_ifs
  · exact Function.update_of_ne h ..
  · rfl

/-- Extracting leaves the other files alone. -/
theorem file_extractTo (m : Archive) (host : Host) {args : List (List U8)} {other : List U8}
    (h : other ∉ args) : (m.extractTo host args).file other = host.file other := by
  induction args generalizing host with
  | nil => rfl
  | cons pffsName args ih =>
    obtain ⟨hne, hrest⟩ := not_or.mp (mt List.mem_cons.mpr h)
    rw [Archive.extractTo, List.foldl_cons]
    refine (ih _ hrest).trans ?_
    cases m (cstr pffsName) with
    | none => rfl
    | some bytes => exact file_write host bytes hne

theorem Faithful.step {s : Desk} (h : Faithful pfiPath s) (a : DeskAct)
    (ha : Allowed pfiPath s a) : Faithful pfiPath (s.step pfiPath a) := by
  obtain ⟨data, hfile, hdata⟩ := h
  cases a with
  | edit host => exact ⟨data, (Function.update_self ..).trans hfile, hdata⟩
  | call malloc argv =>
    obtain ⟨hpath, hkeep, hsmall⟩ := ha
    have hargv : parse argv {} =
        ⟨some pfiPath, (parse argv {}).action, (parse argv {}).args⟩ := by rw [← hpath]
    obtain ⟨r, hmain, hr⟩ := hdata.main_outcome hfile hargv hsmall malloc
    rw [Desk.step, hmain]
    cases hr with
    | failed => exact ⟨data, hfile, hdata⟩
    | written data' hw hdata' =>
      refine ⟨data', ?_, ?_⟩
      · change (s.host.write pfiPath data').file pfiPath = _
        rw [Host.write, if_pos hw]
        exact Function.update_self ..
      · change Holds data' (if (true && s.host.writable pfiPath) = true then _ else _)
        rw [hw]
        exact hdata'
    | unwritable hw =>
      refine ⟨data, hfile, ?_⟩
      change Holds data (if (true && s.host.writable pfiPath) = true then _ else _)
      rw [hw]
      exact hdata
    | extracted haction =>
      exact ⟨data, (file_extractTo _ _ (hkeep haction)).trans hfile, hdata⟩

end Desk

/-- **The tool is an archive.** After any calls of it, whatever is done to the other files of
the host in between, the image file holds the archive of the calls that have reported their
modifications; the next call comes to an end; and if there is memory to open the image,
extracting files hands out what the archive has for them, and deleting a file is reported
exactly when the archive has it. -/
theorem session_holds {s : Desk} (h : s.Faithful pfiPath) {as : List DeskAct}
    (hallowed : ActionRun.Along (Desk.step pfiPath) (Desk.Allowed pfiPath) s as) :
    let t := ActionRun.exec (Desk.step pfiPath) s as
    t.Faithful pfiPath ∧
      (∀ malloc argv, t.Allowed pfiPath (.call malloc argv) → main malloc argv t.host ≠ none) ∧
      (∀ malloc argv args, parse argv {} = ⟨some pfiPath, .extract, args⟩ →
        (∀ n, malloc n ≠ none) →
        main malloc argv t.host = some { host := t.archive.extractTo t.host args }) ∧
      ∀ malloc argv pffsName, parse argv {} = ⟨some pfiPath, .delete, [pffsName]⟩ →
        (∀ n, malloc n ≠ none) →
        ∃ r, main malloc argv t.host = some r ∧ r.done = (t.archive (cstr pffsName)).isSome := by
  intro t
  have ht : t.Faithful pfiPath :=
    ActionRun.exec_invariant (I := fun s => s.Faithful pfiPath) (fun _ a hs ha => hs.step a ha)
      h hallowed
  refine ⟨ht, fun malloc argv ha => ?_, fun malloc argv args hargv hmalloc => ?_,
    fun malloc argv pffsName hargv hmalloc => ?_⟩
  · obtain ⟨data, hfile, hdata⟩ := ht
    obtain ⟨hpath, -, hsmall⟩ := ha
    have hargv : parse argv {} =
        ⟨some pfiPath, (parse argv {}).action, (parse argv {}).args⟩ := by rw [← hpath]
    obtain ⟨r, hmain, -⟩ := hdata.main_outcome hfile hargv hsmall malloc
    rw [hmain]
    exact Option.some_ne_none r
  · obtain ⟨data, hfile, hdata⟩ := ht
    rcases hdata.main_eq hfile hargv malloc with ⟨⟨n, hn⟩, -⟩ | ⟨pfi, mem, ho, hmain⟩
    · exact absurd hn (hmalloc n)
    · rw [hmain, run, ho.files.extractAll]
      rfl
  · obtain ⟨data, hfile, hdata⟩ := ht
    rcases hdata.main_eq hfile hargv malloc with ⟨⟨n, hn⟩, -⟩ | ⟨pfi, mem, ho, hmain⟩
    · exact absurd hn (hmalloc n)
    · obtain ⟨img, hdelete, -⟩ := ho.files.delete pffsName
      rw [hmain, run, if_neg (List.cons_ne_nil _ _), deleteAll, hdelete]
      cases (t.archive (cstr pffsName)).isSome with
      | false => exact ⟨_, rfl, rfl⟩
      | true => exact ⟨_, rfl, rfl⟩

/-! ### An empty image -/

/-- The header of a device of two sectors. -/
def emptyHeader : PfiHeader :=
  { Pfi.tightHeader with sysinfo := { Pfi.tightHeader.sysinfo with pffsEnd := 0xC02000 } }

/-- A file system with one sector for files, and none in it. -/
def emptyArea : Image := { emptyImage with pffsTop := 0xC00000, pffsEnd := 0xC02000 }

theorem hasFiles_emptyArea : HasFiles emptyHeader emptyArea fun _ => none where
  pffsTop := rfl
  pffsEnd := rfl
  wellFormed :=
    ⟨(· = 0), fun _ => [], { emptyImage_wellFormed with
      inside := fun _ _ _ hs => absurd hs List.not_mem_nil
      free := fun s hs => emptyImage_wellFormed.free s (hs.trans (by decide)) }⟩
  contents name := by
    have hnot : findFile emptyArea.msb name = none := by
      refine Option.eq_none_iff_forall_ne_some.mpr fun i hi => ?_
      have hin : Directory.erased.inUse = true := (findFile_some hi).2.2.1
      exact absurd hin (by decide)
    rw [extractFile, hnot]

/-- The image file, as the tool saves it. -/
def emptyFile : List U8 :=
  ((⟨emptyHeader, none, 0x2000⟩ : Pfi).save true
    (bufferOf emptyHeader (fun _ => 0xFF) emptyArea)).1.getD []

theorem holds_emptyFile : Holds emptyFile fun _ => none := by
  have hsig : (⟨emptyHeader, none, 0x2000⟩ : Pfi).header.signatureOk = true := by decide
  obtain ⟨data, hsave, hdata⟩ := holds_save hsig ⟨by decide, by decide⟩ (by decide) (by decide)
    hasFiles_emptyArea fun _ => 0xFF
  rw [emptyFile, hsave]
  exact hdata

/-- The image, and a file next to it. -/
def emptyDesk : Desk where
  host :=
    { file := fun path =>
        if path = str "piece.pfi" then some emptyFile
        else if path = str "x/a.txt" then some [1, 2, 3] else none
      writable := fun _ => true }
  archive := fun _ => none

/-- `pfar piece.pfi -a x/a.txt`, and then `pfar -e piece.pfi a.txt`. -/
theorem session_holds_emptyDesk :
    let t := ActionRun.exec (Desk.step (str "piece.pfi")) emptyDesk
      [.call (fun _ => some fun _ => 0) [str "piece.pfi", str "-a", str "x/a.txt"],
        .edit emptyDesk.host]
    t.Faithful (str "piece.pfi") ∧
      main (fun _ => some fun _ => 0) [str "-e", str "piece.pfi", str "a.txt"] t.host =
        some { host := t.archive.extractTo t.host [str "a.txt"] } := by
  have hparse : parse [str "piece.pfi", str "-a", str "x/a.txt"] {} =
      ⟨some (str "piece.pfi"), .add, [str "x/a.txt"]⟩ := by decide
  have hfaithful : emptyDesk.Faithful (str "piece.pfi") := by
    refine ⟨emptyFile, ?_, holds_emptyFile⟩
    change (if str "piece.pfi" = str "piece.pfi" then some emptyFile else
      if str "piece.pfi" = str "x/a.txt" then some [1, 2, 3] else none) = _
    rw [if_pos rfl]
  have hfile : emptyDesk.host.file (str "x/a.txt") = some [1, 2, 3] := by
    change (if str "x/a.txt" = str "piece.pfi" then some emptyFile else
      if str "x/a.txt" = str "x/a.txt" then some [1, 2, 3] else none) = _
    rw [if_neg (by decide), if_pos rfl]
  have hallowed : ActionRun.Along (Desk.step (str "piece.pfi")) (Desk.Allowed (str "piece.pfi"))
      emptyDesk [.call (fun _ => some fun _ => 0) [str "piece.pfi", str "-a", str "x/a.txt"],
        .edit emptyDesk.host] := by
    refine ⟨?_, trivial, trivial⟩
    rw [Desk.Allowed, hparse]
    refine ⟨rfl, nofun, fun filename hmem content hcontent => ?_⟩
    obtain rfl := List.mem_singleton.mp hmem
    obtain rfl := Option.some.inj (hfile.symm.trans hcontent)
    decide
  obtain ⟨ht, -, hextract, -⟩ := session_holds hfaithful hallowed
  exact ⟨ht, hextract _ _ _ (by decide) nofun⟩

end Pfar
