import Mathlib
import Dissect.Proofs.Image.Acceptance
import Dissect.Proofs.Image.MachO.Placement
import Dissect.Proofs.Image.Writing

/-!
Images that are written and read back.

An image is a header and load commands, in either byte order. The header is wide or narrow with the
file, a segment and its sections with the command. Reading what is written gives the sections of all
segments and the entry point, in whatever order the commands come.
-/

namespace Dissect.MachO

open Reader

/-! ### Records -/

/-- The header, without the number of load commands. -/
structure FileRecord where
  cpu : Field 4
  cpuSubtype : Field 4
  fileType : Field 4
  commandSize : Field 4
  flags : Field 4
  /-- In wide files only. -/
  reserved : Field 4

structure SectionRecord (wide : Bool) where
  name : FieldName 16
  segment : FieldName 16
  address : Field (wordSize wide)
  size : Field (wordSize wide)
  offset : Field 4
  alignment : Field 4
  relocationOffset : Field 4
  relocationCount : Field 4
  attributes : Field 4
  reserved1 : Field 4
  reserved2 : Field 4
  /-- In wide segments only. -/
  reserved3 : Field 4

structure SegmentRecord (wide : Bool) where
  name : FieldName 16
  address : Field (wordSize wide)
  size : Field (wordSize wide)
  fileOffset : Field (wordSize wide)
  fileSize : Field (wordSize wide)
  maxProtection : Field 4
  protection : Field 4
  flags : Field 4
  sections : List (SectionRecord wide)

/-- A load command: a segment, the entry point, or any other one. -/
inductive LoadCommand
  | segment (wide : Bool) (s : SegmentRecord wide)
  | entry (offset stackSize : Field 8)
  | other (number : Field 4) (body : Bytes)
      (hnumber : number ≠ 0x1 ∧ number ≠ 0x19 ∧ number ≠ 0x80000028)

namespace LoadCommand

def number : LoadCommand → Field 4
  | segment false _ => 0x1
  | segment true _ => 0x19
  | entry _ _ => 0x80000028
  | other number _ _ => number

/-- The size of the command in bytes, with its number and size. -/
def size : LoadCommand → ℕ
  | segment wide s =>
    8 + (if wide then 64 else 48) + s.sections.length * if wide then 80 else 68
  | entry _ _ => 24
  | other _ body _ => 8 + body.length

end LoadCommand

/-- An image that stands alone in its file. The sizes and the number of its commands fit into their
fields. -/
structure ThinFile where
  wide : Bool
  header : FileRecord
  commands : List LoadCommand
  size_lt : ∀ c ∈ commands, c.size < 2 ^ 32
  count_lt : commands.length < 2 ^ 32

/-! ### Their bytes -/

def SectionRecord.write {wide : Bool} (order : ByteOrder) (s : SectionRecord wide) : Bytes :=
  [s.name.write, s.segment.write, s.address.write order, s.size.write order, s.offset.write order,
    s.alignment.write order, s.relocationOffset.write order, s.relocationCount.write order,
    s.attributes.write order, s.reserved1.write order, s.reserved2.write order,
    if wide then s.reserved3.write order else []].flatten

/-- The fields of a segment, without its sections. -/
def SegmentRecord.writeFields {wide : Bool} (order : ByteOrder) (s : SegmentRecord wide) : Bytes :=
  [s.name.write, s.address.write order, s.size.write order, s.fileOffset.write order,
    s.fileSize.write order, s.maxProtection.write order, s.protection.write order,
    Field.write (n := 4) order (.ofNat _ s.sections.length), s.flags.write order].flatten

namespace LoadCommand

/-- The number and the size of a command. -/
def writeHead (order : ByteOrder) (c : LoadCommand) : Bytes :=
  [c.number.write order, Field.write (n := 4) order (.ofNat _ c.size)].flatten

/-- What stands behind the number and the size of a command. -/
def writeBody (order : ByteOrder) : LoadCommand → Bytes
  | segment _ s => s.writeFields order ++ s.sections.flatMap (·.write order)
  | entry offset stackSize => offset.write order ++ stackSize.write order
  | other _ body _ => body

def write (order : ByteOrder) (c : LoadCommand) : Bytes := c.writeHead order ++ c.writeBody order

end LoadCommand

namespace ThinFile

def magic (f : ThinFile) : Field 4 := if f.wide then 0xFEEDFACF else 0xFEEDFACE

def writeHeader (order : ByteOrder) (f : ThinFile) : Bytes :=
  [f.magic.write order, f.header.cpu.write order, f.header.cpuSubtype.write order,
    f.header.fileType.write order, Field.write (n := 4) order (.ofNat _ f.commands.length),
    f.header.commandSize.write order, f.header.flags.write order,
    if f.wide then f.header.reserved.write order else []].flatten

def write (order : ByteOrder) (f : ThinFile) : Bytes :=
  f.writeHeader order ++ f.commands.flatMap (·.write order)

end ThinFile

/-! ### What they say -/

namespace SectionRecord

variable {wide : Bool}

/-- The section has instructions, some or nothing else. -/
def hasCode (s : SectionRecord wide) : Bool := s.attributes.meets (0x80000000 ||| 0x400)

/-- The section is filled with zeros and has no bytes in the file. -/
def isZeroFill (s : SectionRecord wide) : Bool := s.attributes &&& 0xFF == 1

def kind (s : SectionRecord wide) : SectionKind :=
  if s.name.text = "__text" ∨ s.hasCode then .code
  else if s.name.text ∈ ["__cstring", "__const", "__data", "__bss"] then .data
  else .unknown

/-- The section that a record in a segment stands for. -/
def toSection (segment : SegmentRecord wide) (s : SectionRecord wide) : Section where
  name := segment.name.text ++ "," ++ s.name.text
  virtualAddress := UInt64.ofNat s.address.toNat
  virtualSize := UInt64.ofNat s.size.toNat
  rawOffset := UInt64.ofNat s.offset.toNat
  rawSize := if s.isZeroFill then 0 else UInt64.ofNat s.size.toNat
  flags := {
    read := segment.protection.meets 0x1
    write := segment.protection.meets 0x2
    execute := segment.protection.meets 0x4
    code := s.hasCode
    initialized := !s.isZeroFill
    uninitialized := s.isZeroFill }
  kind := s.kind

end SectionRecord

namespace LoadCommand

def sections : LoadCommand → List Section
  | segment _ s => s.sections.map (·.toSection s)
  | _ => []

/-- The address of the segment of code. -/
def textAddress? : LoadCommand → Option UInt64
  | segment _ s => if s.name.text = "__TEXT" then some (UInt64.ofNat s.address.toNat) else none
  | _ => none

def entryOffset? : LoadCommand → Option UInt64
  | entry offset _ => some (UInt64.ofNat offset.toNat)
  | _ => none

end LoadCommand

namespace ThinFile

/-- The last entry offset, counted from the last segment of code. -/
def entryPoint (f : ThinFile) : UInt64 :=
  match (f.commands.filterMap (·.entryOffset?)).getLast? with
  | some offset => (f.commands.filterMap (·.textAddress?)).getLast?.getD 0 + offset
  | none => 0

/-- The image that is written. Only one of its facts tells the byte order. -/
def image (order : ByteOrder) (f : ThinFile) : Image where
  format := .machO
  architecture := architecture f.header.cpu.toNat
  platform := .macOS
  entryPoint := f.entryPoint
  sections := f.commands.flatMap (·.sections)
  facts := [
    ("endianness", match order with | .little => "little" | .big => "big"),
    ("filetype", Numeral.decimal f.header.fileType.toNat),
    ("ncmds", Numeral.decimal f.commands.length)]

end ThinFile

/-! ### Sections and segments -/

section

variable {wide : Bool} (order : ByteOrder)

/-- The header of a section as it is read. -/
def SectionRecord.toHeader (s : SectionRecord wide) : SectionHeader where
  name := s.name.text
  address := s.address.toNat
  size := s.size.toNat
  offset := s.offset.toNat
  flags := s.attributes.toNat

/-- The fields of a segment as they are read. -/
def SegmentRecord.toSegment (s : SegmentRecord wide) : Segment where
  name := s.name.text
  address := s.address.toNat
  protection := s.protection.toNat
  sectionCount := s.sections.length

lemma length_writeSection (s : SectionRecord wide) :
    (s.write order).length = if wide then 80 else 68 := by
  simp only [SectionRecord.write, List.flatten_cons, List.length_append, Field.length_write,
    FieldName.length_write]
  cases wide <;> simp [wordSize]

lemma length_writeFields (s : SegmentRecord wide) :
    (s.writeFields order).length = if wide then 64 else 48 := by
  simp only [SegmentRecord.writeFields, List.flatten_cons, List.length_append, Field.length_write,
    FieldName.length_write]
  cases wide <;> simp [wordSize]

lemma length_writeSections (ss : List (SectionRecord wide)) :
    (ss.flatMap (·.write order)).length = ss.length * if wide then 80 else 68 := by
  induction ss with
  | nil => simp
  | cons s ss ih =>
    rw [List.flatMap_cons, List.length_append, length_writeSection, ih, List.length_cons]
    ring

lemma decodes_sectionHeader (s : SectionRecord wide) :
    Decodes (readSectionHeader wide) order (s.write order) s.toHeader := by
  -- the name is read as bytes, and made a text when the whole record is there
  have hheader : s.toHeader = { s.toHeader with name := Image.fixedName s.name.write } := by
    rw [s.name.fixedName_write]
    rfl
  rw [hheader]
  exact (decodes_name s.name).bind <| (decodes_name s.segment).bind <|
    (decodes_word wide s.address).bind <| (decodes_word wide s.size).bind <|
    (decodes_u32 s.offset).bind <| (decodes_u32 s.alignment).bind <|
    (decodes_u32 s.relocationOffset).bind <| (decodes_u32 s.relocationCount).bind <|
    (decodes_u32 s.attributes).bind <| (decodes_u32 s.reserved1).bind <|
    (decodes_u32 s.reserved2).bind <| decodes_wideEnd wide s.reserved3 _

lemma decodes_segment (s : SegmentRecord wide) (hcount : s.sections.length < 2 ^ 32) :
    Decodes (readSegment wide) order (s.writeFields order) s.toSegment := by
  have hsections : (BitVec.ofNat 32 s.sections.length).toNat = s.sections.length :=
    Field.toNat_ofNat (n := 4) hcount
  have hsegment : s.toSegment = { s.toSegment with
      name := Image.fixedName s.name.write
      sectionCount := (BitVec.ofNat 32 s.sections.length).toNat } := by
    rw [s.name.fixedName_write, hsections]
    rfl
  rw [hsegment]
  exact (decodes_name s.name).bind <| (decodes_word wide s.address).bind <|
    (decodes_word wide s.size).bind <| (decodes_word wide s.fileOffset).bind <|
    (decodes_word wide s.fileSize).bind <| (decodes_u32 s.maxProtection).bind <|
    (decodes_u32 s.protection).bind <| (decodes_u32 _).bind <|
    (decodes_u32 s.flags).bind <| decodes_pure _

/-- All headers of a segment are read, in order. -/
lemma sectionHeadersFrom_write (ss : List (SectionRecord wide)) (front rest : Bytes) :
    sectionHeadersFrom wide ss.length
        ⟨front ++ (ss.flatMap (·.write order) ++ rest), front.length, order⟩ =
      (ss.map (·.toHeader), some ⟨front ++ (ss.flatMap (·.write order) ++ rest),
        front.length + (ss.flatMap (·.write order)).length, order⟩) := by
  induction ss generalizing front with
  | nil => rfl
  | cons s ss ih =>
    have hhead := decodes_sectionHeader order s front (ss.flatMap (·.write order) ++ rest)
    have htail := ih (front ++ s.write order)
    simp only [List.append_assoc, List.length_append] at htail
    simp only [List.flatMap_cons, List.append_assoc, List.length_cons, sectionHeadersFrom, hhead,
      htail, List.map_cons, List.length_append, Nat.add_assoc]

lemma hasCode_toHeader (s : SectionRecord wide) : s.toHeader.hasCode = s.hasCode := by
  unfold SectionHeader.hasCode SectionRecord.hasCode SectionRecord.toHeader
  rw [Field.meets_or, Field.meets_eq_testBit (i := 31) (by decide) (by decide),
    Field.meets_eq_testBit (i := 10) (by decide) (by decide)]

lemma isEmpty_toHeader (s : SectionRecord wide) : s.toHeader.isEmpty = s.isZeroFill := by
  have hmask : (s.attributes &&& 0xFF).toNat = s.attributes.toNat % 256 := by
    rw [BitVec.toNat_and]
    exact Nat.and_two_pow_sub_one_eq_mod _ 8
  unfold SectionHeader.isEmpty SectionRecord.isZeroFill SectionRecord.toHeader
  rw [Bool.eq_iff_iff, beq_iff_eq, beq_iff_eq, ← BitVec.toNat_inj, hmask]
  rfl

lemma sectionOf_toHeader (segment : SegmentRecord wide) (s : SectionRecord wide) :
    sectionOf 0 segment.toSegment s.toHeader = s.toSection segment := by
  have hraw : (sectionOf 0 segment.toSegment s.toHeader).rawOffset =
      UInt64.ofNat s.offset.toNat := by
    have hlt : s.toHeader.offset < 2 ^ 32 := s.offset.isLt
    rw [← UInt64.toNat_inj, toNat_rawOffset hlt, Word.toNat_ofNat_of_lt]
    · rfl
    · exact lt_trans hlt (by decide)
  have hkind : sectionKind s.toHeader = s.kind := by
    unfold sectionKind SectionRecord.kind
    rw [hasCode_toHeader]
    simp [SectionRecord.toHeader]
  have hflags : sectionFlags segment.toSegment s.toHeader = (s.toSection segment).flags := by
    unfold sectionFlags SectionRecord.toSection SegmentRecord.toSegment
    simp only [hasCode_toHeader, isEmpty_toHeader]
    rw [Field.meets_eq_testBit (i := 0) (by decide) (by decide),
      Field.meets_eq_testBit (i := 1) (by decide) (by decide),
      Field.meets_eq_testBit (i := 2) (by decide) (by decide)]
  unfold sectionOf at hraw ⊢
  simp only at hraw
  rw [hraw, hkind, hflags, isEmpty_toHeader]
  rfl

end

/-! ### Load commands -/

section

variable (order : ByteOrder)

/-- What is known after one more command. -/
def Commands.take (found : Commands) (c : LoadCommand) : Commands where
  sections := found.sections ++ c.sections
  textBase := c.textAddress?.getD found.textBase
  entryOffset := c.entryOffset?.or found.entryOffset

lemma eight_le_size (c : LoadCommand) : 8 ≤ c.size := by
  cases c <;> simp only [LoadCommand.size] <;> omega

lemma length_writeCommand (c : LoadCommand) : (c.write order).length = c.size := by
  have hhead : (c.writeHead order).length = 8 := by simp [LoadCommand.writeHead]
  rw [LoadCommand.write, List.length_append, hhead]
  cases c with
  | segment wide s =>
    simp only [LoadCommand.writeBody, LoadCommand.size, List.length_append, length_writeFields,
      length_writeSections]
    omega
  | entry offset stackSize => simp [LoadCommand.writeBody, LoadCommand.size]
  | other number body hnumber => simp [LoadCommand.writeBody, LoadCommand.size]

lemma decodes_command (c : LoadCommand) (hsize : c.size < 2 ^ 32) :
    Decodes readCommand order (c.writeHead order) (c.number.toNat, c.size) := by
  have hfield : (BitVec.ofNat 32 c.size).toNat = c.size := Field.toNat_ofNat (n := 4) hsize
  have h : Decodes readCommand order (c.writeHead order)
      (c.number.toNat, (BitVec.ofNat 32 c.size).toNat) :=
    (decodes_u32 c.number).bind <| (decodes_u32 _).bind <| decodes_pure _
  rwa [hfield] at h

lemma sectionCount_lt {wide : Bool} {s : SegmentRecord wide}
    (hsize : (LoadCommand.segment wide s).size < 2 ^ 32) : s.sections.length < 2 ^ 32 := by
  cases wide <;>
    simp only [LoadCommand.size, Bool.false_eq_true, if_true, if_false] at hsize <;> omega

/-- A segment is taken in with all of its sections. -/
lemma segmentCommand_write {wide : Bool} (s : SegmentRecord wide)
    (hcount : s.sections.length < 2 ^ 32) (front rest : Bytes) (found : Commands) :
    segmentCommand 0 wide
        ⟨front ++ (s.writeFields order ++ (s.sections.flatMap (·.write order) ++ rest)),
          front.length, order⟩ found = (found.take (.segment wide s), true) := by
  have hfields := decodes_segment order s hcount front (s.sections.flatMap (·.write order) ++ rest)
  have hheaders := sectionHeadersFrom_write order s.sections (front ++ s.writeFields order) rest
  simp only [List.append_assoc, List.length_append] at hheaders
  have hsections : (s.sections.map (·.toHeader)).map (sectionOf 0 s.toSegment) =
      s.sections.map (·.toSection s) := by
    rw [List.map_map]
    exact List.map_congr_left fun r _ => sectionOf_toHeader s r
  have hcount' : s.toSegment.sectionCount = s.sections.length := rfl
  simp only [segmentCommand, hfields, hcount', hheaders, hsections]
  by_cases htext : s.name.text = "__TEXT" <;>
    simp [Commands.take, LoadCommand.sections, LoadCommand.textAddress?, LoadCommand.entryOffset?,
      SegmentRecord.toSegment, htext]

/-- One step of the walk: a command that is written is taken in. -/
lemma command_write (c : LoadCommand) (hsize : c.size < 2 ^ 32) (front rest : Bytes)
    (found : Commands) :
    command 0 c.number.toNat ⟨front ++ (c.writeBody order ++ rest), front.length, order⟩ found =
      (found.take c, true) := by
  cases c with
  | segment wide s =>
    have h := segmentCommand_write order s (sectionCount_lt hsize) front rest found
    simp only [LoadCommand.writeBody, List.append_assoc]
    cases wide <;> exact h
  | entry offset stackSize =>
    have hoffset : Decodes u64 order (offset.write order) offset.toNat := decodes_number offset
    have h := hoffset front (stackSize.write order ++ rest)
    change entryCommand _ found = _
    simp only [LoadCommand.writeBody, List.append_assoc, entryCommand, h]
    simp [Commands.take, LoadCommand.sections, LoadCommand.textAddress?, LoadCommand.entryOffset?]
  | other number body hnumber =>
    obtain ⟨hnarrow, hwide, hentry⟩ := hnumber
    have h₁ : number.toNat ≠ 0x1 := fun h => hnarrow (BitVec.eq_of_toNat_eq h)
    have h₂ : number.toNat ≠ 0x19 := fun h => hwide (BitVec.eq_of_toNat_eq h)
    have h₃ : number.toNat ≠ 0x80000028 := fun h => hentry (BitVec.eq_of_toNat_eq h)
    unfold command
    rw [LoadCommand.number, if_neg h₁, if_neg h₂, if_neg h₃]
    simp [Commands.take, LoadCommand.sections, LoadCommand.textAddress?, LoadCommand.entryOffset?]

/-- The whole walk takes in one command after the other. -/
lemma commandsFrom_write (cs : List LoadCommand) (hsize : ∀ c ∈ cs, c.size < 2 ^ 32)
    (front rest : Bytes) (found : Commands) :
    commandsFrom 0 cs.length
        ⟨front ++ (cs.flatMap (·.write order) ++ rest), front.length, order⟩ found =
      cs.foldl Commands.take found := by
  induction cs generalizing front found with
  | nil => rfl
  | cons c cs ih =>
    obtain ⟨hc, hcs⟩ := List.forall_mem_cons.mp hsize
    have hlen := length_writeCommand order c
    have hread := decodes_command order c hc front
      (c.writeBody order ++ (cs.flatMap (·.write order) ++ rest))
    have hcommand := command_write order c hc (front ++ c.writeHead order)
      (cs.flatMap (·.write order) ++ rest) found
    -- the next command is looked for behind the size that this one tells
    have hnext := ih hcs (front ++ c.write order) (found.take c)
    rw [List.length_append, hlen] at hnext
    simp only [LoadCommand.write, List.append_assoc, List.length_append] at hread hcommand hnext
    simp only [LoadCommand.write, List.flatMap_cons, List.append_assoc, List.length_cons,
      commandsFrom, hread]
    rw [if_neg (Nat.not_lt.mpr (eight_le_size c)), hcommand]
    exact hnext

/-- Sections add up, and of the rest the last one counts. -/
lemma foldl_take (cs : List LoadCommand) (found : Commands) :
    cs.foldl Commands.take found =
      { sections := found.sections ++ cs.flatMap (·.sections)
        textBase := (cs.filterMap (·.textAddress?)).getLast?.getD found.textBase
        entryOffset := (cs.filterMap (·.entryOffset?)).getLast?.or found.entryOffset } := by
  induction cs generalizing found with
  | nil => simp
  | cons c cs ih =>
    rw [List.foldl_cons, ih]
    congr 1
    · simp [Commands.take]
    · rcases h : c.textAddress? with _ | a <;> simp [Commands.take, h, List.getLast?_cons]
    · rcases h : c.entryOffset? with _ | e <;> simp [Commands.take, h, List.getLast?_cons]

end

/-! ### Files -/

section

variable (order : ByteOrder)

lemma decodes_header (f : ThinFile) :
    Decodes (readHeader f.wide) order (f.writeHeader order)
      ⟨f.header.cpu.toNat, f.header.fileType.toNat, f.commands.length⟩ := by
  have hfield : (BitVec.ofNat 32 f.commands.length).toNat = f.commands.length :=
    Field.toNat_ofNat (n := 4) f.count_lt
  rw [← hfield]
  exact (decodes_u32 f.magic).bind <| (decodes_u32 f.header.cpu).bind <|
    (decodes_u32 f.header.cpuSubtype).bind <| (decodes_u32 f.header.fileType).bind <|
    (decodes_u32 _).bind <| (decodes_u32 f.header.commandSize).bind <|
    (decodes_u32 f.header.flags).bind <| decodes_wideEnd f.wide f.header.reserved _

/-- The magic number tells the byte order it was written in. -/
lemma exists_magic (f : ThinFile) : ∃ w x y z, f.magic.write order = [w, x, y, z] ∧
    layout? (ByteOrder.big.value [w, x, y, z]) = .ok ⟨f.wide, order⟩ ∧
    ByteOrder.big.value [w, x, y, z] ≠ universalMagic := by
  unfold ThinFile.magic
  cases f.wide <;> cases order <;> exact ⟨_, _, _, _, rfl, by decide, by decide⟩

lemma parse_eq_image (f : ThinFile) (rest : Bytes) :
    parse (f.write order ++ rest) = .ok (f.image order) := by
  obtain ⟨w, x, y, z, hmagic, hlayout, huniversal⟩ := exists_magic order f
  have hthin : parse (f.write order ++ rest) =
      imageAt (f.write order ++ rest) 0 ⟨f.wide, order⟩ := by
    have h := parse_eq_imageAt hlayout huniversal
    simp only [ThinFile.write, ThinFile.writeHeader, hmagic, List.flatten_cons, List.append_assoc,
      List.cons_append, List.nil_append]
    exact h _
  have hheader := decodes_header order f [] (f.commands.flatMap (·.write order) ++ rest)
  have hcommands := commandsFrom_write order f.commands f.size_lt (f.writeHeader order) rest {}
  simp only [List.nil_append, List.length_nil, Nat.zero_add] at hheader
  rw [hthin, imageAt_eq, ThinFile.write, List.append_assoc, hheader]
  simp only [Except.map, hcommands, foldl_take, List.nil_append, Option.or_none]
  rfl

end

/-- **Reading gives back what was written.** Whatever stands behind it, a written image is read with
the sections of all its segments in the order of the commands, and starts at the last entry offset
from the last segment of code, wherever these stand. The two byte orders give the same image, but
for the fact that tells the byte order. -/
theorem parse_write (f : ThinFile) (rest rest' : Bytes) :
    (∀ order, parse (f.write order ++ rest) = .ok (f.image order)) ∧
    ∃ i j, parse (f.write .little ++ rest) = .ok i ∧ parse (f.write .big ++ rest') = .ok j ∧
      { j with facts := [] } = { i with facts := [] } ∧
      j.facts.filter (·.1 ≠ "endianness") = i.facts.filter (·.1 ≠ "endianness") := by
  refine ⟨fun order => parse_eq_image order f rest, f.image .little, f.image .big,
    parse_eq_image .little f rest, parse_eq_image .big f rest', rfl, ?_⟩
  simp [ThinFile.image]

def textSegment : FieldName 16 :=
  ⟨"__TEXT", by simp, by simp, by rintro c ⟨⟩; decide, by rintro c ⟨⟩; decide⟩

def textSection : FieldName 16 :=
  ⟨"__text", by simp, by simp, by rintro c ⟨⟩; decide, by rintro c ⟨⟩; decide⟩

/-- A narrow file in which the entry point comes in front of a wide segment, with a command between
them that is skipped. -/
def entryFirst : ThinFile where
  wide := false
  header := ⟨0x01000007, 3, 2, 187, 0, 0⟩
  commands := [
    .entry 0x20 0,
    .other 0x1B [1, 2, 3] (by decide),
    .segment true {
      name := textSegment, address := 0x100000000, size := 0x1000, fileOffset := 0
      fileSize := 0x1000, maxProtection := 7, protection := 5, flags := 0
      sections := [{
        name := textSection, segment := textSegment, address := 0x100000020, size := 0x10
        offset := 0x20, alignment := 4, relocationOffset := 0, relocationCount := 0
        attributes := 0x80000400, reserved1 := 0, reserved2 := 0, reserved3 := 0 }] }]
  size_lt := by simp [LoadCommand.size]
  count_lt := by decide

theorem parse_write_entryFirst :
    ∃ i, parse (entryFirst.write .big ++ [0xC3]) = .ok i ∧ i.entryPoint = 0x100000020 ∧
      i.sections.map (fun s => (s.name, s.kind, s.rawOffset, s.rawSize)) =
        [("__TEXT,__text", .code, 0x20, 0x10)] := by
  obtain ⟨h, -⟩ := parse_write entryFirst [0xC3] []
  exact ⟨entryFirst.image .big, h .big, by decide +kernel, by decide +kernel⟩

end Dissect.MachO
