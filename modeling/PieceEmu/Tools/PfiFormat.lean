import PieceEmu.Lib.Words

/-!
# The PFI file format

The header of a flash image file, which the loaders of the emulator and the tools on the host
share: 40 bytes, little-endian and without padding.
-/

/-- `FLASH_TOP`. -/
def flashTop : U32 := 0xC00000

/-- `SYSTEMINFO`. -/
structure SystemInfo where
  size : U16
  hardVer : U16
  biosVer : U16
  biosDate : U16
  sysClock : U32
  vddeVoltage : U16
  resv1 : U16
  sramTop : U32
  sramEnd : U32
  pffsTop : U32
  pffsEnd : U32
  deriving DecidableEq, Repr

/-- `PFIHEADER`. -/
structure PfiHeader where
  signature : U32
  offset : U32
  sysinfo : SystemInfo
  deriving DecidableEq, Repr

namespace PfiHeader

/-- `sizeof(PFIHEADER)`. -/
def bytes : ℕ := 40

/-- `PFI_IMAGE_OFFSET`: the header, rounded up to 16 bytes. -/
def imageOffset : ℕ := (bytes + (16 - 1)) / 16 * 16

/-- The header in the first bytes of some data, little-endian. -/
def ofBytes (data : List U8) : PfiHeader :=
  let mem : ℕ → U8 := fun i => data.getD i 0
  { signature := Words.le32 mem 0
    offset := Words.le32 mem 4
    sysinfo :=
      { size := Words.le16 mem 8
        hardVer := Words.le16 mem 10
        biosVer := Words.le16 mem 12
        biosDate := Words.le16 mem 14
        sysClock := Words.le32 mem 16
        vddeVoltage := Words.le16 mem 20
        resv1 := Words.le16 mem 22
        sramTop := Words.le32 mem 24
        sramEnd := Words.le32 mem 28
        pffsTop := Words.le32 mem 32
        pffsEnd := Words.le32 mem 36 } }

/-- The bytes of a header. -/
def toBytes (h : PfiHeader) : List U8 :=
  Words.bytes32 h.signature ++ (Words.bytes32 h.offset ++
    (Words.bytes16 h.sysinfo.size ++ (Words.bytes16 h.sysinfo.hardVer ++
    (Words.bytes16 h.sysinfo.biosVer ++ (Words.bytes16 h.sysinfo.biosDate ++
    (Words.bytes32 h.sysinfo.sysClock ++ (Words.bytes16 h.sysinfo.vddeVoltage ++
    (Words.bytes16 h.sysinfo.resv1 ++ (Words.bytes32 h.sysinfo.sramTop ++
    (Words.bytes32 h.sysinfo.sramEnd ++ (Words.bytes32 h.sysinfo.pffsTop ++
    (Words.bytes32 h.sysinfo.pffsEnd ++ []))))))))))))

/-- The header and the padding behind it, up to where a tool on the host puts the image. -/
def area (h : PfiHeader) : List U8 := h.toBytes ++ List.replicate (imageOffset - bytes) 0xFF

/-- The signature, but for its version byte. -/
def signatureOk (h : PfiHeader) : Bool := h.signature &&& 0xFFFFFF00 = 0x50464900

@[simp] theorem toBytes_length (h : PfiHeader) : h.toBytes.length = bytes := rfl

theorem area_length (h : PfiHeader) : h.area.length = imageOffset := by
  rw [area, List.length_append, toBytes_length, List.length_replicate]
  rfl

/-- The header in front of an image. -/
theorem take_area_append (h : PfiHeader) (image : List U8) :
    (h.area ++ image).take bytes = h.toBytes := by
  rw [area, List.append_assoc]
  exact List.take_left' h.toBytes_length

/-- The image behind a header. -/
theorem drop_area_append (h : PfiHeader) (image : List U8) :
    (h.area ++ image).drop imageOffset = image :=
  List.drop_left' h.area_length

open Words in
/-- **A header reads back as it was written.** -/
theorem ofBytes_toBytes (h : PfiHeader) : ofBytes h.toBytes = h := by
  have hfields (data : List U8) : ofBytes data =
      ⟨listLe32 data 0, listLe32 data 4,
        ⟨listLe16 data 8, listLe16 data 10, listLe16 data 12, listLe16 data 14,
          listLe32 data 16, listLe16 data 20, listLe16 data 22, listLe32 data 24,
          listLe32 data 28, listLe32 data 32, listLe32 data 36⟩⟩ := rfl
  rw [hfields, toBytes]
  simp only [listLe16_bytes16, listLe32_bytes32, listLe16_skip16, listLe16_skip32,
    listLe32_skip16, listLe32_skip32]

end PfiHeader
