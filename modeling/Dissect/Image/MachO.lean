import Dissect.Image.Basic
import Dissect.Image.Cursor
import Dissect.Image.Name

/-!
Mach-O images, alone in their file or as a slice of a universal one.

A slice is read in place, from its offset in the file. The walk over the load commands stops at the
first one that is malformed or cut short; what was read up to there is kept, the sections of a
command cut short included.
-/

namespace Dissect.MachO

/-- Width of addresses and byte order of an image. -/
structure Layout where
  wide : Bool
  order : ByteOrder
  deriving DecidableEq, Repr

/-- The fields of the header that are used. -/
structure Header where
  cpu : Nat
  fileType : Nat
  commandCount : Nat
  deriving DecidableEq, Repr

/-- What the load commands say. -/
structure Commands where
  sections : List Section := []
  /-- Address of the segment that holds the code. -/
  textBase : UInt64 := 0
  /-- Offset of the entry point from the start of the code segment. -/
  entryOffset : Option UInt64 := none
  deriving DecidableEq, Repr

def magic32 : Nat := 0xFEEDFACE
def magic64 : Nat := 0xFEEDFACF
def universalMagic : Nat := 0xCAFEBABE

/-- The layout that goes with the first four bytes, read with the most significant byte first. -/
def layout? (magic : Nat) : Except ParseError Layout :=
  if magic = magic32 then .ok ⟨false, .big⟩
  else if magic = magic64 then .ok ⟨true, .big⟩
  else if magic = 0xCEFAEDFE then .ok ⟨false, .little⟩
  else if magic = 0xCFFAEDFE then .ok ⟨true, .little⟩
  else .error (.invalidMagic magic64 magic)

def readHeader (wide : Bool) : Reader Header := do
  let _magic ← Reader.u32
  let cpu ← Reader.u32
  let _cpuSubtype ← Reader.u32
  let fileType ← Reader.u32
  let commandCount ← Reader.u32
  let _commandSize ← Reader.u32
  let _flags ← Reader.u32
  if wide then
    let _reserved ← Reader.u32
  return { cpu, fileType, commandCount }

def architecture (cpu : Nat) : Architecture :=
  if cpu = 7 then .x86
  else if cpu = 0x01000007 then .x64
  else if cpu = 12 then .arm32
  else if cpu = 0x0100000C then .arm64
  else .unknown

/-- A section header as it is stored. -/
structure SectionHeader where
  name : String
  address : Nat
  size : Nat
  offset : Nat
  flags : Nat
  deriving DecidableEq, Repr

def readSectionHeader (wide : Bool) : Reader SectionHeader := do
  let name ← Reader.bytes 16
  let _segment ← Reader.bytes 16
  let address ← Reader.word wide
  let size ← Reader.word wide
  let offset ← Reader.u32
  let _alignment ← Reader.u32
  let _relocationOffset ← Reader.u32
  let _relocationCount ← Reader.u32
  let flags ← Reader.u32
  let _reserved1 ← Reader.u32
  let _reserved2 ← Reader.u32
  if wide then
    let _reserved3 ← Reader.u32
  return { name := Image.fixedName name, address, size, offset, flags }

/-- Section holds instructions. -/
def SectionHeader.hasCode (s : SectionHeader) : Bool := s.flags.testBit 31 || s.flags.testBit 10

/-- Section holds no bytes of the file. -/
def SectionHeader.isEmpty (s : SectionHeader) : Bool := s.flags % 256 == 1

/-- The segment fields that its sections depend on. -/
structure Segment where
  name : String
  address : Nat
  protection : Nat
  sectionCount : Nat
  deriving DecidableEq, Repr

def readSegment (wide : Bool) : Reader Segment := do
  let name ← Reader.bytes 16
  let address ← Reader.word wide
  let _size ← Reader.word wide
  let _fileOffset ← Reader.word wide
  let _fileSize ← Reader.word wide
  let _maxProtection ← Reader.u32
  let protection ← Reader.u32
  let sectionCount ← Reader.u32
  let _flags ← Reader.u32
  return { name := Image.fixedName name, address, protection, sectionCount }

def sectionFlags (segment : Segment) (s : SectionHeader) : SectionFlags where
  read := segment.protection.testBit 0
  write := segment.protection.testBit 1
  execute := segment.protection.testBit 2
  code := s.hasCode
  initialized := !s.isEmpty
  uninitialized := s.isEmpty

def sectionKind (s : SectionHeader) : SectionKind :=
  if s.name == "__text" || s.hasCode then .code
  else if ["__cstring", "__const", "__data", "__bss"].contains s.name then .data
  else .unknown

/-- The section that a header describes in an image that starts at `base`. -/
def sectionOf (base : Nat) (segment : Segment) (s : SectionHeader) : Section where
  name := segment.name ++ "," ++ s.name
  virtualAddress := UInt64.ofNat s.address
  virtualSize := UInt64.ofNat s.size
  rawOffset := Word.addSaturating (UInt64.ofNat base) (UInt64.ofNat s.offset)
  rawSize := if s.isEmpty then 0 else UInt64.ofNat s.size
  flags := sectionFlags segment s
  kind := sectionKind s

/-- At most `count` section headers, and the cursor after them when all of them are there. -/
def sectionHeadersFrom (wide : Bool) : Nat → Cursor → List SectionHeader × Option Cursor
  | 0, c => ([], some c)
  | count + 1, c =>
    match (readSectionHeader wide).run c with
    | .ok (s, c') =>
      let (rest, last) := sectionHeadersFrom wide count c'
      (s :: rest, last)
    | .error _ => ([], none)

/-- Takes in a segment command whose fields start at the cursor; false when it is cut short. -/
def segmentCommand (base : Nat) (wide : Bool) (c : Cursor) (found : Commands) :
    Commands × Bool :=
  match (readSegment wide).run c with
  | .ok (segment, c') =>
    let textBase := if segment.name == "__TEXT" then UInt64.ofNat segment.address
      else found.textBase
    let (headers, last) := sectionHeadersFrom wide segment.sectionCount c'
    ({ found with
        textBase
        sections := found.sections ++ headers.map (sectionOf base segment) }, last.isSome)
  | .error _ => (found, false)

/-- Takes in the command that gives the entry point; false when it is cut short. -/
def entryCommand (c : Cursor) (found : Commands) : Commands × Bool :=
  match Reader.u64.run c with
  | .ok (offset, _) => ({ found with entryOffset := some (UInt64.ofNat offset) }, true)
  | .error _ => (found, false)

/-- Number and size of a load command. -/
def readCommand : Reader (Nat × Nat) := do
  let command ← Reader.u32
  let size ← Reader.u32
  return (command, size)

/-- Takes in one load command; false when the walk ends there. -/
def command (base : Nat) (number : Nat) (c : Cursor) (found : Commands) : Commands × Bool :=
  if number = 0x1 then segmentCommand base false c found
  else if number = 0x19 then segmentCommand base true c found
  else if number = 0x80000028 then entryCommand c found
  else (found, true)

/-- Takes in at most `count` load commands from the cursor on. -/
def commandsFrom (base : Nat) : Nat → Cursor → Commands → Commands
  | 0, _, found => found
  | count + 1, c, found =>
    match readCommand.run c with
    | .ok ((number, size), c') =>
      if size < 8 then found
      else
        match command base number c' found with
        | (found', true) => commandsFrom base count { c with offset := c.offset + size } found'
        | (found', false) => found'
    | .error _ => found

def entryPoint (found : Commands) : UInt64 :=
  match found.entryOffset with
  | some offset => found.textBase + offset
  | none => 0

/-- The image with a header and what its load commands say. -/
def assemble (order : ByteOrder) (header : Header) (found : Commands) : Image where
  format := .machO
  architecture := architecture header.cpu
  platform := .macOS
  entryPoint := entryPoint found
  sections := found.sections
  facts := [
    ("endianness", match order with | .little => "little" | .big => "big"),
    ("filetype", Numeral.decimal header.fileType),
    ("ncmds", Numeral.decimal header.commandCount)]

/-- The image of the given layout that starts at `base`. -/
def imageAt (data : Bytes) (base : Nat) (layout : Layout) : Except ParseError Image := do
  let (header, c) ← (readHeader layout.wide).run ⟨data, base, layout.order⟩
  return assemble layout.order header (commandsFrom base header.commandCount c {})

/-- Processor and offset of a slice of a universal file. -/
def readSlice : Reader (Nat × Nat) := do
  let cpu ← Reader.u32
  let _cpuSubtype ← Reader.u32
  let offset ← Reader.u32
  let _size ← Reader.u32
  let _alignment ← Reader.u32
  return (cpu, offset)

/-- The offset of the slice to read: the first one for a 64-bit processor, or else the first one for
a 32-bit processor, which is `second` if one has been passed. -/
def chooseSlice (second : Option Nat) : Nat → Reader (Option Nat)
  | 0 => return second
  | count + 1 => do
    let (cpu, offset) ← readSlice
    if cpu = 0x01000007 ∨ cpu = 0x0100000C then
      return some offset
    else if cpu = 7 ∨ cpu = 12 then
      chooseSlice (second <|> some offset) count
    else
      chooseSlice second count

/-- The offset of the slice to read in a universal file. -/
def sliceOffset (data : Bytes) : Except ParseError Nat := do
  let choice : Reader (Option Nat) := do
    let _magic ← Reader.u32
    let count ← Reader.u32
    chooseSlice none count
  match ← choice.runAt data 0 .big with
  | some offset => return offset
  | none => throw (.invalidHeader .noSlice)

/-- The first four bytes at a position, most significant byte first. -/
def magicAt (data : Bytes) (offset : Nat) : Except ParseError Nat :=
  Reader.u32.runAt data offset .big

/-- Reads the image that stands alone from a position on. -/
def thinAt (data : Bytes) (base : Nat) : Except ParseError Image := do
  let layout ← layout? (← magicAt data base)
  imageAt data base layout

/-- Reads a Mach-O file. -/
def parse (data : Bytes) : Except ParseError Image := do
  if (← magicAt data 0) = universalMagic then
    let offset ← sliceOffset data
    let image ← thinAt data offset
    return { image with
      facts := image.facts.take 1 ++ [("fat_slice_offset", Numeral.hexMarked offset)] ++
        image.facts.drop 1 }
  else
    thinAt data 0

end Dissect.MachO
