import Dissect.Image.Basic
import Dissect.Image.Cursor
import Dissect.Image.Name
import Dissect.Text.Part

/-!
Executable and linkable format.

The file header gives the width of addresses and the byte order of everything after it. Only the
file header can make the reading fail; a section table cut short gives the sections in front of the
cut. Imported libraries are not looked for.
-/

namespace Dissect.Elf

structure Header where
  wide : Bool
  order : ByteOrder
  type : Nat
  machine : Nat
  entry : Nat
  tableOffset : Nat
  entrySize : Nat
  sectionCount : Nat
  /-- Index of the section that holds the section names. -/
  nameTable : Nat
  deriving DecidableEq, Repr

/-- An entry of the section table as it is stored. -/
structure SectionHeader where
  name : Nat
  type : Nat
  flags : Nat
  address : Nat
  offset : Nat
  size : Nat
  deriving DecidableEq, Repr

/-- First four bytes of a file, read as a number with the least significant byte first. -/
def magic : Nat := 0x464C457F

def wideOf? : Nat → Except ParseError Bool
  | 1 => .ok false
  | 2 => .ok true
  | n => .error (.invalidHeader (.elfClass n))

def orderOf? : Nat → Except ParseError ByteOrder
  | 1 => .ok .little
  | 2 => .ok .big
  | n => .error (.invalidHeader (.elfEncoding n))

/-- The header fields after the first sixteen bytes. -/
def readFields (wide : Bool) (order : ByteOrder) : Reader Header := do
  let type ← Reader.u16
  let machine ← Reader.u16
  let _version ← Reader.u32
  let entry ← Reader.word wide
  let _programOffset ← Reader.word wide
  let tableOffset ← Reader.word wide
  let _flags ← Reader.u32
  let _headerSize ← Reader.u16
  let _programEntrySize ← Reader.u16
  let _programCount ← Reader.u16
  let entrySize ← Reader.u16
  let sectionCount ← Reader.u16
  let nameTable ← Reader.u16
  return { wide, order, type, machine, entry, tableOffset, entrySize, sectionCount, nameTable }

/-- The header of a file. -/
def header (data : Bytes) : Except ParseError Header := do
  -- the first sixteen bytes are read as one
  let ident ← (Reader.bytes 16).runAt data 0 .little
  let found := ByteOrder.little.value (ident.take 4)
  if found ≠ magic then
    throw (.invalidMagic magic found)
  let wide ← wideOf? ((ident.drop 4).headD 0).toNat
  let order ← orderOf? ((ident.drop 5).headD 0).toNat
  (readFields wide order).runAt data 16 order

def architecture (h : Header) : Architecture :=
  match h.machine with
  | 3 => .x86
  | 62 => .x64
  | 40 => .arm32
  | 183 => .arm64
  | _ => .unknown

def readSectionHeader (wide : Bool) : Reader SectionHeader := do
  let name ← Reader.u32
  let type ← Reader.u32
  let flags ← Reader.word wide
  let address ← Reader.word wide
  let offset ← Reader.word wide
  let size ← Reader.word wide
  return { name, type, flags, address, offset, size }

/-- The first entries of a section table of `count` entries, up to one that the file cuts off. -/
def sectionHeadersFrom (data : Bytes) (h : Header) : Nat → Nat → List SectionHeader
  | 0, _ => []
  | count + 1, offset =>
    match (readSectionHeader h.wide).runAt data offset h.order with
    | .ok s => s :: sectionHeadersFrom data h count (offset + h.entrySize)
    | .error _ => []

/-- The section table; there is none at position zero. -/
def sectionHeaders (data : Bytes) (h : Header) : List SectionHeader :=
  if h.tableOffset = 0 then [] else sectionHeadersFrom data h h.sectionCount h.tableOffset

/-- Section holds no bytes of the file. -/
def SectionHeader.isEmpty (s : SectionHeader) : Bool := s.type == 8

def SectionHeader.isWritable (s : SectionHeader) : Bool := s.flags.testBit 0
def SectionHeader.isLoaded (s : SectionHeader) : Bool := s.flags.testBit 1
def SectionHeader.isExecutable (s : SectionHeader) : Bool := s.flags.testBit 2

def sectionFlags (s : SectionHeader) : SectionFlags where
  read := s.isLoaded
  write := s.isWritable
  execute := s.isExecutable
  code := s.isExecutable
  initialized := !s.isEmpty && s.isLoaded
  uninitialized := s.isEmpty

def sectionKind (name : String) (s : SectionHeader) : SectionKind :=
  if s.isExecutable then .code
  else if name == ".rodata" || name == ".data" || name == ".bss" then .data
  else if Text.startsWith name ".debug" then .debug
  else if name == ".dynsym" || name == ".dynstr" then .imports
  else .unknown

/-- The name of a section, from the section of names; empty when it lies outside that section. -/
def sectionName (data : Bytes) (names : Option SectionHeader) (s : SectionHeader) : String :=
  match names with
  | some table => if s.name < table.size then Image.nameAt data (table.offset + s.name) 256 else ""
  | none => ""

def sectionOf (name : String) (s : SectionHeader) : Section where
  name := name
  virtualAddress := UInt64.ofNat s.address
  virtualSize := UInt64.ofNat s.size
  rawOffset := UInt64.ofNat s.offset
  rawSize := if s.isEmpty then 0 else UInt64.ofNat s.size
  flags := sectionFlags s
  kind := sectionKind name s

/-- The sections of a file. -/
def sections (data : Bytes) (h : Header) : List Section :=
  let table := sectionHeaders data h
  table.map fun s => sectionOf (sectionName data table[h.nameTable]? s) s

/-- The header values that are reported, by name. -/
def facts (h : Header) : List (String × String) := [
  ("class", if h.wide then "ELF64" else "ELF32"),
  ("e_machine", Numeral.decimal h.machine),
  ("e_type", Numeral.decimal h.type),
  ("endianness", match h.order with | .little => "little" | .big => "big")]

/-- The image that a file with the given header describes. -/
def imageOf (data : Bytes) (h : Header) : Image where
  format := .elf
  architecture := architecture h
  platform := .linux
  entryPoint := UInt64.ofNat h.entry
  sections := sections data h
  facts := facts h

/-- Reads a file in executable and linkable format. -/
def parse (data : Bytes) : Except ParseError Image := (header data).map (imageOf data)

end Dissect.Elf
