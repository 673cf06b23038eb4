import Dissect.Image.Basic
import Dissect.Image.Cursor
import Dissect.Image.Name
import Dissect.Text.Part

/-!
Portable executables.

Only the fixed headers can make the reading fail. A section table cut short by the end of the file
gives the sections that are there whole; data directories and imports that cannot be read are left
out.
-/

namespace Dissect.Pe

/-- The fields of the file header that are used. -/
structure FileHeader where
  machine : Nat
  sectionCount : Nat
  timeStamp : Nat
  optionalSize : Nat
  characteristics : Nat
  deriving DecidableEq, Repr

/-- The fields of the optional header that are used; all are zero when the file has none. -/
structure OptionalHeader where
  magic : Nat := 0
  entryRva : Nat := 0
  imageBase : Nat := 0
  imageSize : Nat := 0
  subsystem : Nat := 0
  dllCharacteristics : Nat := 0
  /-- Address and size of each data directory. -/
  directories : List (Nat × Nat) := []
  deriving DecidableEq, Repr

/-- Both headers, and where the section table starts. -/
structure Header where
  file : FileHeader
  optional : OptionalHeader
  tableOffset : Nat
  deriving DecidableEq, Repr

def magic32 : Nat := 0x10B
def magic64 : Nat := 0x20B

/-- Addresses of the image have 64 bits. -/
def OptionalHeader.isWide (h : OptionalHeader) : Bool := h.magic == magic64

def readFileHeader : Reader FileHeader := Reader.record do
  let machine ← Reader.u16
  let sectionCount ← Reader.u16
  let timeStamp ← Reader.u32
  let _symbolTable ← Reader.u32
  let _symbolCount ← Reader.u32
  let optionalSize ← Reader.u16
  let characteristics ← Reader.u16
  return { machine, sectionCount, timeStamp, optionalSize, characteristics }

/-- At most `count` directories, all of which end before `limit`. -/
def readDirectoryTable (limit : Nat) : Nat → Reader (List (Nat × Nat))
  | 0 => return []
  | count + 1 => do
    if limit < (← get).offset + 8 then
      return []
    let rva ← Reader.u32
    let size ← Reader.u32
    let rest ← readDirectoryTable limit count
    return (rva, size) :: rest

/-- The data directories of an optional header that ends at `limit`. -/
def readDirectories (wide : Bool) (limit : Nat) : Reader (List (Nat × Nat)) := do
  -- stack and heap sizes, loader flags
  Reader.skip (if wide then 32 else 16)
  Reader.skip 4
  let count ← Reader.u32
  readDirectoryTable limit (min count 16)

/-- The part of the optional header in front of the data directories. -/
def readOptionalFields : Reader OptionalHeader := do
  let magic ← Reader.u16
  if magic ≠ magic32 ∧ magic ≠ magic64 then
    throw (.invalidHeader (.optionalMagic magic))
  let wide := magic == magic64
  -- linker version, sizes of code and data
  Reader.skip 2
  Reader.skip 12
  let entryRva ← Reader.u32
  -- base of code, and base of data where there is one
  Reader.skip 4
  if !wide then
    Reader.skip 4
  let imageBase ← Reader.word wide
  -- alignments, versions, a reserved field
  Reader.skip 8
  Reader.skip 12
  Reader.skip 4
  let imageSize ← Reader.u32
  -- header size, checksum
  Reader.skip 8
  let subsystem ← Reader.u16
  let dllCharacteristics ← Reader.u16
  return { magic, entryRva, imageBase, imageSize, subsystem, dllCharacteristics }

/-- The optional header that starts at the cursor and has the given size. Directories that cannot be
read count as absent. -/
def readOptionalHeader (size : Nat) : Reader OptionalHeader := do
  let limit := (← get).offset + size
  let fields ← readOptionalFields
  match (readDirectories fields.isWide limit).run (← get) with
  | .ok (directories, _) => return { fields with directories }
  | .error _ => return fields

def dosMagic : Nat := 0x5A4D
def signature : Nat := 0x4550

def readHeader : Reader Header := do
  let magic ← Reader.u16
  if magic ≠ dosMagic then
    throw (.invalidMagic dosMagic magic)
  Reader.seek 0x3C
  let start ← Reader.u32
  Reader.seek start
  let found ← Reader.u32
  if found ≠ signature then
    throw (.invalidMagic signature found)
  let file ← readFileHeader
  let optional ← if file.optionalSize < 2 then pure {} else readOptionalHeader file.optionalSize
  return { file, optional, tableOffset := start + 24 + file.optionalSize }

/-- The headers of a file. -/
def header (data : Bytes) : Except ParseError Header :=
  readHeader.runAt data 0 .little

/-- The architecture of a machine number; an unknown machine is known by the width of its
addresses. -/
def architecture (h : Header) : Architecture :=
  match h.file.machine with
  | 0x014C => .x86
  | 0x8664 => .x64
  | 0x01C0 | 0x01C4 => .arm32
  | 0xAA64 => .arm64
  | _ => if h.optional.isWide then .x64 else .x86

/-- A bit of a header field is set. -/
def hasBit (field bit : Nat) : Bool := field.testBit bit

def sectionFlags (characteristics : Nat) : SectionFlags where
  code := hasBit characteristics 5
  initialized := hasBit characteristics 6
  uninitialized := hasBit characteristics 7
  execute := hasBit characteristics 29
  read := hasBit characteristics 30
  write := hasBit characteristics 31

def sectionKind (name : String) (characteristics : Nat) : SectionKind :=
  if name == ".text" || hasBit characteristics 5 then .code
  else if name == ".data" || name == ".bss" then .data
  else if name == ".rsrc" then .resources
  else if name == ".idata" then .imports
  else if name == ".edata" then .exports
  else if Text.contains name "debug" then .debug
  else .unknown

/-- An entry of the section table. -/
def readSection : Reader Section := do
  let field ← Reader.bytes 8
  let virtualSize ← Reader.u32
  let virtualAddress ← Reader.u32
  let rawSize ← Reader.u32
  let rawOffset ← Reader.u32
  -- relocations and line numbers
  Reader.skip 12
  let characteristics ← Reader.u32
  let name := Image.fixedName field
  return {
    name
    virtualAddress := UInt64.ofNat virtualAddress
    virtualSize := UInt64.ofNat virtualSize
    rawOffset := UInt64.ofNat rawOffset
    rawSize := UInt64.ofNat rawSize
    flags := sectionFlags characteristics
    kind := sectionKind name characteristics }

/-- The first entries of a section table of `count` entries, up to one that the file cuts off. -/
def sectionsFrom (data : Bytes) : Nat → Nat → List Section
  | 0, _ => []
  | count + 1, offset =>
    match readSection.runAt data offset .little with
    | .ok s => s :: sectionsFrom data count (offset + 40)
    | .error _ => []

/-- The sections of a file. -/
def sections (data : Bytes) (h : Header) : List Section :=
  sectionsFrom data h.file.sectionCount h.tableOffset

/-- The address of the library name in an import descriptor of twenty bytes. -/
def readImportName : Reader Nat := do
  Reader.skip 12
  let name ← Reader.u32
  Reader.skip 4
  return name

/-- Library names of at most `count` import descriptors, up to one without a name. An address
outside every section is taken as a position in the file. -/
def importsFrom (data : Bytes) (image : Image) : Nat → Nat → Except ParseError (List String)
  | 0, _ => .ok []
  | count + 1, offset => do
    let rva ← readImportName.runAt data offset .little
    if rva = 0 then
      return []
    let rva := UInt64.ofNat rva
    let name := Image.nameAt data ((image.fileOffset? rva).getD rva).toNat 256
    let rest ← importsFrom data image count (offset + 20)
    return if name.isEmpty then rest else name :: rest

/-- Where the import table stands: at its data directory, or at the start of the section named for
imports. -/
def importTable? (h : OptionalHeader) (image : Image) : Option UInt64 :=
  let listed := match h.directories[1]? with
    | some (rva, _) => if rva = 0 then none else image.fileOffset? (UInt64.ofNat rva)
    | none => none
  listed <|> (image.findSection ".idata").map (·.rawOffset)

/-- The imported libraries; none when the table runs over the end of the file. -/
def libraries (data : Bytes) (h : OptionalHeader) (image : Image) : List String :=
  match importTable? h image with
  | none => []
  | some offset =>
    match importsFrom data image 4096 offset.toNat with
    | .ok names => names
    | .error _ => []

/-- Section names that packers leave behind. -/
def packerSections : List String :=
  ["UPX0", "UPX1", ".aspack", ".adata", "MEW", ".mew", ".vmp"]

/-- The packer that the sections point to: one known by a section name, or an unknown one when code
makes up more than four fifths of the file. -/
def packer? (sections : List Section) : Option String :=
  match sections.find? fun s => packerSections.contains s.name with
  | some s => some ("Known Packer: " ++ s.name)
  | none =>
    let total := sections.foldl (fun total s => total + s.rawSize.toNat) 0
    match sections.find? (·.name == ".text") with
    | some text =>
      if 0 < total ∧ Float.ofNat text.rawSize.toNat / Float.ofNat total > 0.8 then
        some "Unknown Packer (High code ratio)"
      else none
    | none => none

/-- The header values that are reported, by name. -/
def facts (h : Header) : List (String × String) :=
  let usual : List (String × String) := [
    ("characteristics", Numeral.hexMarked4 h.file.characteristics),
    ("dll_characteristics", Numeral.hexMarked4 h.optional.dllCharacteristics),
    ("image_base", Numeral.hexMarked h.optional.imageBase),
    ("is_64bit", if h.optional.isWide then "true" else "false"),
    ("machine", Numeral.hexMarked4 h.file.machine),
    ("number_of_sections", Numeral.decimal h.file.sectionCount),
    ("optional_magic", Numeral.hexMarked h.optional.magic),
    ("size_of_image", Numeral.hexMarked h.optional.imageSize),
    ("subsystem", Numeral.decimal h.optional.subsystem)]
  let odd := if 3 ≤ h.file.sectionCount ∧ h.file.sectionCount ≤ 10 then []
    else [("suspicious_section_count", "true")]
  usual ++ odd ++ [("time_date_stamp", Numeral.decimal h.file.timeStamp)]

/-- The image that a file with the given headers describes. -/
def imageOf (data : Bytes) (h : Header) : Image :=
  let imageBase := UInt64.ofNat h.optional.imageBase
  let image : Image := {
    format := .pe
    architecture := architecture h
    platform := .windows
    entryPoint := imageBase + UInt64.ofNat h.optional.entryRva
    imageBase
    sections := sections data h
    facts := facts h }
  let packer := packer? image.sections
  { image with
    libraries := libraries data h.optional image
    packed := packer.isSome
    packer }

/-- Reads a file as a portable executable. -/
def parse (data : Bytes) : Except ParseError Image := (header data).map (imageOf data)

end Dissect.Pe
