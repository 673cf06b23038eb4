import Mathlib
import Dissect.Proofs.Image.Overlay
import Dissect.Proofs.Image.Writing
import Dissect.Proofs.Word

/-!
Portable executables that are written and read back.

The headers stand behind a program for an older system, as far into the file as its first part says.
The section table stands behind the optional header, as far from its start as the file header says,
however much of that is used. Reading what is written gives back the headers and the sections; of a
file that is cut in the table, it gives the sections whose entries are whole.
-/

namespace Dissect

/-- One text stands in another. -/
lemma Text.contains_iff {s part : String} : contains s part ↔ part.toList <:+: s.toList := by
  unfold contains
  induction s.toList with
  | nil => simp [standsIn]
  | cons c cs ih =>
    rw [standsIn, Bool.or_eq_true, ih, List.infix_cons_iff, List.isPrefixOf_iff_prefix]

namespace Pe

open Reader

/-! ### Records -/

/-- The optional header. Fields next to each other that are not looked at count as one. -/
structure OptionalRecord where
  wide : Bool
  linkerVersion : Field 2
  contentSizes : Field 12
  entryRva : Field 4
  codeBase : Field 4
  /-- In narrow headers only. -/
  dataBase : Field 4
  imageBase : Field (wordSize wide)
  alignments : Field 8
  versions : Field 12
  reserved : Field 4
  imageSize : Field 4
  headerSizeAndSum : Field 8
  subsystem : Field 2
  dllCharacteristics : Field 2
  stackAndHeapSizes : Field (if wide then 32 else 16)
  loaderFlags : Field 4
  /-- Address and size of each data directory. -/
  directories : List (Field 4 × Field 4)
  directories_le : directories.length ≤ 16
  /-- What the header has behind its directories. -/
  padding : Bytes

structure SectionRecord where
  name : FieldName 8
  virtualSize : Field 4
  virtualAddress : Field 4
  rawSize : Field 4
  rawOffset : Field 4
  relocations : Field 12
  characteristics : Field 4

/-- The size of the optional header. -/
def OptionalRecord.size (o : OptionalRecord) : ℕ :=
  72 + (if o.wide then 32 else 16) + 8 + 8 * o.directories.length + o.padding.length

/-- A file up to the end of its section table. Positions, sizes and counts fit into their fields. -/
structure File where
  /-- What stands between the first two bytes and the position of the headers. -/
  dosFields : Bytes
  dosFields_length : dosFields.length = 58
  /-- What stands between that position and the headers. -/
  stub : Bytes
  machine : Field 2
  timeStamp : Field 4
  symbolTable : Field 4
  symbolCount : Field 4
  characteristics : Field 2
  optional : OptionalRecord
  sections : List SectionRecord
  start_lt : 0x40 + stub.length < 2 ^ 32
  size_lt : optional.size < 2 ^ 16
  count_lt : sections.length < 2 ^ 16

namespace File

/-- Where the headers start. -/
def start (f : File) : ℕ := 0x40 + f.stub.length

/-- Where the section table starts. -/
def tableOffset (f : File) : ℕ := f.start + 24 + f.optional.size

end File

/-! ### Their bytes -/

namespace OptionalRecord

def magic (o : OptionalRecord) : Field 2 := if o.wide then 0x20B else 0x10B

/-- The part in front of the data directories. -/
def writeFields (o : OptionalRecord) : Bytes :=
  [o.magic.write .little, o.linkerVersion.write .little, o.contentSizes.write .little,
    o.entryRva.write .little, o.codeBase.write .little,
    if o.wide then [] else o.dataBase.write .little, o.imageBase.write .little,
    o.alignments.write .little, o.versions.write .little, o.reserved.write .little,
    o.imageSize.write .little, o.headerSizeAndSum.write .little, o.subsystem.write .little,
    o.dllCharacteristics.write .little].flatten

def writeDirectory (d : Field 4 × Field 4) : Bytes := d.1.write .little ++ d.2.write .little

/-- The data directories, with what stands in front of them and behind them. -/
def writeDirectories (o : OptionalRecord) : Bytes :=
  [o.stackAndHeapSizes.write .little, o.loaderFlags.write .little,
    Field.write (n := 4) .little (.ofNat _ o.directories.length),
    o.directories.flatMap writeDirectory, o.padding].flatten

end OptionalRecord

def SectionRecord.write (s : SectionRecord) : Bytes :=
  [s.name.write, s.virtualSize.write .little, s.virtualAddress.write .little,
    s.rawSize.write .little, s.rawOffset.write .little, s.relocations.write .little,
    s.characteristics.write .little].flatten

namespace File

/-- All that stands in front of the headers. -/
def writeFront (f : File) : Bytes :=
  [0x4D, 0x5A] ++ (f.dosFields ++ (Field.write (n := 4) .little (.ofNat _ f.start) ++ f.stub))

def writeFileHeader (f : File) : Bytes :=
  [f.machine.write .little, Field.write (n := 2) .little (.ofNat _ f.sections.length),
    f.timeStamp.write .little, f.symbolTable.write .little, f.symbolCount.write .little,
    Field.write (n := 2) .little (.ofNat _ f.optional.size),
    f.characteristics.write .little].flatten

/-- The signature, the file header, and the optional header up to its directories. -/
def writeHeaders (f : File) : Bytes :=
  [0x50, 0x45, 0, 0] ++ (f.writeFileHeader ++ f.optional.writeFields)

def writeTable (f : File) : Bytes := f.sections.flatMap (·.write)

def write (f : File) : Bytes :=
  f.writeFront ++ (f.writeHeaders ++ (f.optional.writeDirectories ++ f.writeTable))

end File

/-! ### What they say -/

namespace SectionRecord

def kind (s : SectionRecord) : SectionKind :=
  if s.name.text = ".text" ∨ s.characteristics.meets 0x20 then .code
  else if s.name.text ∈ [".data", ".bss"] then .data
  else if s.name.text = ".rsrc" then .resources
  else if s.name.text = ".idata" then .imports
  else if s.name.text = ".edata" then .exports
  else if "debug".toList <:+: s.name.text.toList then .debug
  else .unknown

def toSection (s : SectionRecord) : Section where
  name := s.name.text
  virtualAddress := UInt64.ofNat s.virtualAddress.toNat
  virtualSize := UInt64.ofNat s.virtualSize.toNat
  rawOffset := UInt64.ofNat s.rawOffset.toNat
  rawSize := UInt64.ofNat s.rawSize.toNat
  flags := {
    code := s.characteristics.meets 0x20
    initialized := s.characteristics.meets 0x40
    uninitialized := s.characteristics.meets 0x80
    execute := s.characteristics.meets 0x20000000
    read := s.characteristics.meets 0x40000000
    write := s.characteristics.meets 0x80000000 }
  kind := s.kind

end SectionRecord

namespace File

/-- The architecture of the machine, or of the width of addresses if the machine is not known. -/
def architecture (f : File) : Architecture :=
  if f.machine = 0x14C then .x86
  else if f.machine = 0x8664 then .x64
  else if f.machine = 0x1C0 ∨ f.machine = 0x1C4 then .arm32
  else if f.machine = 0xAA64 then .arm64
  else if f.optional.wide then .x64
  else .x86

/-- The image says what the headers say, and has the given sections. -/
structure Describes (f : File) (ss : List SectionRecord) (i : Image) : Prop where
  format : i.format = .pe
  platform : i.platform = .windows
  architecture : i.architecture = f.architecture
  imageBase : i.imageBase.toNat = f.optional.imageBase.toNat
  entryPoint : i.entryPoint.toNat =
    (f.optional.imageBase.toNat + f.optional.entryRva.toNat) % 2 ^ 64
  sections : i.sections = ss.map (·.toSection)

end File

/-! ### Sections -/

section

variable {d rest : Bytes}

lemma length_writeSection (s : SectionRecord) : s.write.length = 40 := by
  simp only [SectionRecord.write, List.flatten_cons, List.length_append, Field.length_write,
    FieldName.length_write, List.flatten_nil, List.length_nil]

lemma hasBit_eq_meets (v mask : Field 4) (i : ℕ) (hi : i < 32)
    (hmask : mask = BitVec.twoPow 32 i) : hasBit v.toNat i = v.meets mask :=
  (Field.meets_eq_testBit (n := 4) hi hmask).symm

lemma sectionFlags_eq (s : SectionRecord) :
    sectionFlags s.characteristics.toNat = s.toSection.flags := by
  unfold sectionFlags SectionRecord.toSection
  rw [hasBit_eq_meets _ 0x20 5 (by decide) (by decide),
    hasBit_eq_meets _ 0x40 6 (by decide) (by decide),
    hasBit_eq_meets _ 0x80 7 (by decide) (by decide),
    hasBit_eq_meets _ 0x20000000 29 (by decide) (by decide),
    hasBit_eq_meets _ 0x40000000 30 (by decide) (by decide),
    hasBit_eq_meets _ 0x80000000 31 (by decide) (by decide)]

lemma sectionKind_eq (s : SectionRecord) :
    sectionKind s.name.text s.characteristics.toNat = s.kind := by
  unfold sectionKind SectionRecord.kind
  rw [hasBit_eq_meets _ 0x20 5 (by decide) (by decide)]
  simp only [Bool.or_eq_true, beq_iff_eq, List.mem_cons, List.not_mem_nil, or_false,
    Text.contains_iff]

lemma decodes_section (s : SectionRecord) : Decodes readSection .little s.write s.toSection := by
  have hsection : s.toSection = { s.toSection with
      name := Image.fixedName s.name.write
      flags := sectionFlags s.characteristics.toNat
      kind := sectionKind (Image.fixedName s.name.write) s.characteristics.toNat } := by
    rw [s.name.fixedName_write, sectionFlags_eq, sectionKind_eq]
    rfl
  rw [hsection]
  exact (decodes_name s.name).bind <| (decodes_u32 s.virtualSize).bind <|
    (decodes_u32 s.virtualAddress).bind <| (decodes_u32 s.rawSize).bind <|
    (decodes_u32 s.rawOffset).bind <| (decodes_skip s.relocations).bind <|
    (decodes_u32 s.characteristics).bind <| decodes_pure _

/-- An entry that the end of the file cuts is not read. -/
lemma sectionsFrom_of_short (count : ℕ) {offset : ℕ} (h : d.length < offset + 40) :
    sectionsFrom d count offset = [] := by
  cases count with
  | zero => rfl
  | succ count =>
    obtain ⟨f, hf⟩ := fixed_section
    have hshort : ¬Cursor.Has ⟨d, offset, .little⟩ 40 := by
      rw [Cursor.has_iff (by decide)]
      exact Nat.not_le.mpr h
    obtain ⟨e, he, -⟩ := hf.error _ hshort
    simp only [sectionsFrom, runAt, he, Except.map]

/-- As many entries are read as stand whole in the file. -/
lemma sectionsFrom_write (ss : List SectionRecord) (offset : ℕ)
    (hd : d.drop offset <+: ss.flatMap (·.write) ++ rest) :
    sectionsFrom d ss.length offset =
      (ss.take (min ss.length ((d.length - offset) / 40))).map (·.toSection) := by
  induction ss generalizing offset with
  | nil => rfl
  | cons s ss ih =>
    by_cases hlen : d.length < offset + 40
    · have hnone : (d.length - offset) / 40 = 0 := Nat.div_eq_of_lt (by omega)
      rw [sectionsFrom_of_short _ hlen, hnone]
      rfl
    · rw [List.flatMap_cons, List.append_assoc] at hd
      have hat : d.HasAt offset s.write := by
        refine List.prefix_of_prefix_length_le (List.prefix_append _ _) hd ?_
        rw [length_writeSection, List.length_drop]
        omega
      have hne : s.write ≠ [] := by
        rw [← List.length_pos_iff, length_writeSection]
        decide
      have hread := (decodes_section s).runAt_of_hasAt hat hne
      have hrest : d.drop (offset + 40) <+: ss.flatMap (·.write) ++ rest := by
        have hdrop := hd.drop 40
        rwa [List.drop_drop, List.drop_append_of_le_length (length_writeSection s).ge,
          List.drop_of_length_le (length_writeSection s).le, List.nil_append] at hdrop
      have hcount : (d.length - offset) / 40 = (d.length - (offset + 40)) / 40 + 1 := by omega
      simp only [List.length_cons, sectionsFrom, hread, ih _ hrest, hcount,
        Nat.succ_min_succ, List.take_succ_cons, List.map_cons]

end

/-! ### The optional header -/

section

variable (o : OptionalRecord)

/-- The optional header as it is read, with the directories that were found. -/
def OptionalRecord.toHeader (directories : List (ℕ × ℕ)) : OptionalHeader where
  magic := o.magic.toNat
  entryRva := o.entryRva.toNat
  imageBase := o.imageBase.toNat
  imageSize := o.imageSize.toNat
  subsystem := o.subsystem.toNat
  dllCharacteristics := o.dllCharacteristics.toNat
  directories := directories

/-- The directories as they are read. -/
def OptionalRecord.directoryValues : List (ℕ × ℕ) :=
  o.directories.map fun d => (d.1.toNat, d.2.toNat)

lemma isWide_toHeader (directories : List (ℕ × ℕ)) :
    (o.toHeader directories).isWide = o.wide := by
  change (BitVec.toNat (if o.wide then (0x20B : Field 2) else 0x10B) == 0x20B) = o.wide
  cases o.wide <;> rfl

lemma length_writeOptional : o.writeFields.length = 72 := by
  unfold OptionalRecord.writeFields
  simp only [List.flatten_cons, List.length_append, Field.length_write, List.flatten_nil,
    List.length_nil]
  cases o.wide <;> rfl

lemma length_writeDirectories : o.writeDirectories.length + 72 = o.size := by
  have hds (ds : List (Field 4 × Field 4)) :
      (ds.flatMap OptionalRecord.writeDirectory).length = 8 * ds.length := by
    simp [OptionalRecord.writeDirectory, Nat.mul_comm]
  simp only [OptionalRecord.writeDirectories, OptionalRecord.size, List.flatten_cons,
    List.length_append, Field.length_write, hds, List.flatten_nil, List.length_nil]
  omega

/-- Both widths have the same length up to the directories, so both are read field by field. -/
lemma decodes_optionalFields :
    Decodes readOptionalFields .little o.writeFields (o.toHeader []) := by
  obtain ⟨wide, linkerVersion, contentSizes, entryRva, codeBase, dataBase, imageBase, alignments,
    versions, reserved, imageSize, headerSizeAndSum, subsystem, dllCharacteristics,
    _, _, _, _, _⟩ := o
  have hfields {n : ℕ} (v : Field n) : Decodes (skip n) .little (v.write .little) () :=
    decodes_skip v
  cases wide with
  | false =>
    refine (decodes_u16 0x10B).bind ?_
    exact (hfields linkerVersion).bind <| (hfields contentSizes).bind <|
      (decodes_u32 entryRva).bind <| (hfields codeBase).bind <| (hfields dataBase).bind <|
      (decodes_word false imageBase).bind <| (hfields alignments).bind <|
      (hfields versions).bind <| (hfields reserved).bind <| (decodes_u32 imageSize).bind <|
      (hfields headerSizeAndSum).bind <| (decodes_u16 subsystem).bind <|
      (decodes_u16 dllCharacteristics).bind <| decodes_pure _
  | true =>
    refine (decodes_u16 0x20B).bind ?_
    exact (hfields linkerVersion).bind <| (hfields contentSizes).bind <|
      (decodes_u32 entryRva).bind <| (hfields codeBase).bind <|
      (decodes_word true imageBase).bind <| (hfields alignments).bind <|
      (hfields versions).bind <| (hfields reserved).bind <| (decodes_u32 imageSize).bind <|
      (hfields headerSizeAndSum).bind <| (decodes_u16 subsystem).bind <|
      (decodes_u16 dllCharacteristics).bind <| decodes_pure _

/-- The directories that are found when the optional header starts at a position of the file. -/
def OptionalRecord.directoriesIn (d : Bytes) (k : ℕ) : List (ℕ × ℕ) :=
  match (readDirectories o.wide (k + o.size)).run ⟨d, k + 72, .little⟩ with
  | .ok (directories, _) => directories
  | .error _ => []

lemma run_optionalHeader_of_hasAt {d : Bytes} {k : ℕ} (h : d.HasAt k o.writeFields) :
    (readOptionalHeader o.size).run ⟨d, k, .little⟩ =
      .ok (o.toHeader (o.directoriesIn d k), ⟨d, k + 72, .little⟩) := by
  have hne : o.writeFields ≠ [] := by
    rw [← List.length_pos_iff, length_writeOptional]
    decide
  have hfields := (decodes_optionalFields o).run_of_hasAt h hne
  rw [length_writeOptional] at hfields
  unfold readOptionalHeader
  rw [run_get_bind, run_bind_of_ok hfields, run_get_bind, isWide_toHeader]
  unfold OptionalRecord.directoriesIn
  dsimp only
  rcases (readDirectories o.wide (k + o.size)).run ⟨d, k + 72, .little⟩ with e | ⟨directories, c⟩
  · rfl
  · rfl

/-- All directories are read when the header does not end among them. -/
lemma run_readDirectoryTable (ds : List (Field 4 × Field 4)) (front rest : Bytes) (limit : ℕ)
    (hlimit : front.length + 8 * ds.length ≤ limit) :
    ∃ c, (readDirectoryTable limit ds.length).run
        ⟨front ++ (ds.flatMap OptionalRecord.writeDirectory ++ rest), front.length, .little⟩ =
      .ok (ds.map fun d => (d.1.toNat, d.2.toNat), c) := by
  induction ds generalizing front with
  | nil => exact ⟨_, rfl⟩
  | cons d ds ih =>
    obtain ⟨rva, size⟩ := d
    have hrva := @decodes_u32 .little rva front
      (size.write .little ++ (ds.flatMap OptionalRecord.writeDirectory ++ rest))
    have hsize := @decodes_u32 .little size (front ++ rva.write .little)
      (ds.flatMap OptionalRecord.writeDirectory ++ rest)
    obtain ⟨c, hrest⟩ := ih (front ++ (rva.write .little ++ size.write .little)) (by
      simp only [List.length_append, Field.length_write, List.length_cons] at hlimit ⊢
      omega)
    simp only [List.append_assoc, List.length_append, Nat.add_assoc] at hrva hsize hrest
    refine ⟨c, ?_⟩
    have hroom : ¬limit < front.length + 8 := by
      rw [List.length_cons] at hlimit
      omega
    simp only [List.flatMap_cons, OptionalRecord.writeDirectory, List.append_assoc,
      List.length_cons, readDirectoryTable]
    rw [run_get_bind, if_neg hroom, run_bind_of_ok hrva, run_bind_of_ok hsize,
      run_bind_of_ok hrest]
    rfl

/-- A header that is all there has the directories that were written. -/
lemma directoriesIn_write {front : Bytes} {k : ℕ} (hfront : front.length = k + 72) (rest : Bytes) :
    o.directoriesIn (front ++ (o.writeDirectories ++ rest)) k = o.directoryValues := by
  have hcount : (BitVec.ofNat 32 o.directories.length).toNat = o.directories.length :=
    Field.toNat_ofNat (n := 4) (lt_of_le_of_lt o.directories_le (by decide))
  have hsizes := @decodes_skip .little _ o.stackAndHeapSizes front
    (o.loaderFlags.write .little ++ (Field.write (n := 4) .little (.ofNat _ o.directories.length) ++
      (o.directories.flatMap OptionalRecord.writeDirectory ++ (o.padding ++ rest))))
  have hflags := @decodes_skip .little _ o.loaderFlags
    (front ++ o.stackAndHeapSizes.write .little)
    (Field.write (n := 4) .little (.ofNat _ o.directories.length) ++
      (o.directories.flatMap OptionalRecord.writeDirectory ++ (o.padding ++ rest)))
  have hnumber := @decodes_u32 .little (.ofNat _ o.directories.length)
    (front ++ (o.stackAndHeapSizes.write .little ++ o.loaderFlags.write .little))
    (o.directories.flatMap OptionalRecord.writeDirectory ++ (o.padding ++ rest))
  obtain ⟨c, htable⟩ := run_readDirectoryTable o.directories
    (front ++ (o.stackAndHeapSizes.write .little ++ (o.loaderFlags.write .little ++
      Field.write (n := 4) .little (.ofNat _ o.directories.length)))) (o.padding ++ rest)
    (k + o.size) (by
      simp only [List.length_append, Field.length_write, OptionalRecord.size, hfront]
      omega)
  simp only [List.append_assoc, List.length_append, Nat.add_assoc] at hsizes hflags hnumber htable
  have hrun : (readDirectories o.wide (k + o.size)).run
      ⟨front ++ (o.writeDirectories ++ rest), k + 72, .little⟩ = .ok (o.directoryValues, c) := by
    simp only [OptionalRecord.writeDirectories, List.flatten_cons, List.flatten_nil,
      List.append_nil, List.append_assoc]
    rw [← hfront, readDirectories, run_bind_of_ok hsizes, run_bind_of_ok hflags,
      run_bind_of_ok hnumber, hcount, min_eq_left o.directories_le]
    exact htable
  rw [OptionalRecord.directoriesIn, hrun]

end

/-! ### Files -/

section

variable (f : File)

/-- The file header as it is read. -/
def File.toFileHeader : FileHeader where
  machine := f.machine.toNat
  sectionCount := f.sections.length
  timeStamp := f.timeStamp.toNat
  optionalSize := f.optional.size
  characteristics := f.characteristics.toNat

/-- The headers as they are read, with the directories that were found. -/
def File.toHeader (directories : List (ℕ × ℕ)) : Header where
  file := f.toFileHeader
  optional := f.optional.toHeader directories
  tableOffset := f.tableOffset

lemma decodes_fileHeader : Decodes readFileHeader .little f.writeFileHeader f.toFileHeader := by
  have hcount : (BitVec.ofNat 16 f.sections.length).toNat = f.sections.length :=
    Field.toNat_ofNat (n := 2) f.count_lt
  have hsize : (BitVec.ofNat 16 f.optional.size).toNat = f.optional.size :=
    Field.toNat_ofNat (n := 2) f.size_lt
  have hheader : f.toFileHeader = { f.toFileHeader with
      sectionCount := (BitVec.ofNat 16 f.sections.length).toNat
      optionalSize := (BitVec.ofNat 16 f.optional.size).toNat } := by
    rw [hcount, hsize]
    rfl
  rw [hheader]
  exact Decodes.record <| (decodes_u16 f.machine).bind <| (decodes_u16 _).bind <|
    (decodes_u32 f.timeStamp).bind <| (decodes_u32 f.symbolTable).bind <|
    (decodes_u32 f.symbolCount).bind <| (decodes_u16 _).bind <|
    (decodes_u16 f.characteristics).bind <| decodes_pure _

lemma length_writeFileHeader : f.writeFileHeader.length = 20 := by
  simp only [File.writeFileHeader, List.flatten_cons, List.length_append, Field.length_write,
    List.flatten_nil, List.length_nil]

lemma length_writeFront : f.writeFront.length = f.start := by
  simp only [File.writeFront, List.length_append, Field.length_write, f.dosFields_length,
    List.length_cons, List.length_nil, File.start]
  omega

lemma length_writeHeaders : f.writeHeaders.length = 96 := by
  simp only [File.writeHeaders, List.length_append, length_writeFileHeader, length_writeOptional,
    List.length_cons, List.length_nil]

/-- A file that goes on behind its headers with other bytes. -/
def File.followedBy (e : Bytes) : Bytes := f.writeFront ++ (f.writeHeaders ++ e)

lemma hasAt_dosMagic (e : Bytes) : (f.followedBy e).HasAt 0 [0x4D, 0x5A] := by
  unfold File.followedBy File.writeFront
  simp only [List.append_assoc]
  exact Bytes.hasAt_append [] _ _

lemma hasAt_start (e : Bytes) :
    (f.followedBy e).HasAt 0x3C (Field.write (n := 4) .little (.ofNat _ f.start)) := by
  have h := Bytes.hasAt_append ([0x4D, 0x5A] ++ f.dosFields)
    (Field.write (n := 4) .little (.ofNat _ f.start)) (f.stub ++ (f.writeHeaders ++ e))
  rw [List.length_append, f.dosFields_length] at h
  change Bytes.HasAt _ 0x3C _ at h
  simpa only [File.followedBy, File.writeFront, List.append_assoc] using h

lemma hasAt_headers (e : Bytes) :
    (f.followedBy e).HasAt f.start [0x50, 0x45, 0, 0] ∧
    (f.followedBy e).HasAt (f.start + 4) f.writeFileHeader ∧
    (f.followedBy e).HasAt (f.start + 24) f.optional.writeFields := by
  have h : (f.followedBy e).HasAt f.start f.writeHeaders := by
    rw [← length_writeFront]
    exact Bytes.hasAt_append _ _ _
  obtain ⟨hsignature, h⟩ := Bytes.hasAt_append_iff.mp h
  obtain ⟨hfile, hoptional⟩ := Bytes.hasAt_append_iff.mp h
  rw [length_writeFileHeader] at hoptional
  exact ⟨hsignature, hfile, hoptional⟩

/-- The headers are read whatever comes behind them; only the directories depend on it. -/
lemma header_followedBy (e : Bytes) :
    header (f.followedBy e) =
      .ok (f.toHeader (f.optional.directoriesIn (f.followedBy e) (f.start + 24))) := by
  obtain ⟨hsignature, hfile, hoptional⟩ := hasAt_headers f e
  have hdosRead : Decodes u16 .little [0x4D, 0x5A] dosMagic := decodes_u16 (0x5A4D : Field 2)
  have hdosRun := hdosRead.run_of_hasAt (hasAt_dosMagic f e) (by simp)
  have hstartRead :
      Decodes u32 .little (Field.write (n := 4) .little (.ofNat _ f.start)) f.start := by
    have h : Decodes u32 .little _ _ := decodes_u32 (.ofNat _ f.start)
    have hfield : (BitVec.ofNat 32 f.start).toNat = f.start := Field.toNat_ofNat (n := 4) f.start_lt
    rwa [hfield] at h
  have hstartRun := hstartRead.run_of_hasAt (hasAt_start f e) (by
    rw [← List.length_pos_iff, Field.length_write]
    decide)
  have hsignatureRead : u32.run ⟨f.followedBy e, f.start, .little⟩ =
      .ok (signature, ⟨f.followedBy e, f.start + 4, .little⟩) := by
    have h : Decodes u32 .little [0x50, 0x45, 0, 0] signature := decodes_u32 (0x4550 : Field 4)
    exact h.run_of_hasAt hsignature (by simp)
  have hfileRead := (decodes_fileHeader f).run_of_hasAt hfile (by
    rw [← List.length_pos_iff, length_writeFileHeader]
    decide)
  rw [length_writeFileHeader] at hfileRead
  have hoptionalRead := run_optionalHeader_of_hasAt f.optional hoptional
  have hsize : ¬f.optional.size < 2 := by
    unfold OptionalRecord.size
    omega
  -- the reader goes to the start of the headers, which the first part names, and reads on there
  rw [header, runAt, readHeader, run_bind_of_ok hdosRun, if_neg (by decide)]
  dsimp only
  rw [run_seek_bind, run_bind_of_ok hstartRun, run_seek_bind, run_bind_of_ok hsignatureRead,
    if_neg (by decide), run_bind_of_ok hfileRead]
  change Except.map _ ((if f.optional.size < 2 then _ else _ : Reader Header).run _) = _
  rw [if_neg hsize]
  exact congrArg (Except.map Prod.fst) (run_bind_of_ok hoptionalRead _)

/-- A file that is cut behind its headers still starts with them. -/
lemma exists_followedBy {rest d : Bytes} (hd : d <+: f.write ++ rest)
    (hlen : f.start + 24 + 72 ≤ d.length) : ∃ e, d = f.followedBy e := by
  have hfront : f.writeFront ++ f.writeHeaders <+: d := by
    refine List.prefix_of_prefix_length_le ?_ hd ?_
    · exact ⟨f.optional.writeDirectories ++ f.writeTable ++ rest, by simp [File.write]⟩
    · rw [List.length_append, length_writeFront, length_writeHeaders]
      omega
  obtain ⟨e, rfl⟩ := hfront
  exact ⟨e, by rw [File.followedBy, List.append_assoc]⟩

/-- The table stands where the headers say. -/
lemma drop_tableOffset (rest : Bytes) :
    (f.write ++ rest).drop f.tableOffset = f.writeTable ++ rest := by
  have hdirectories := length_writeDirectories f.optional
  have hlen : (f.writeFront ++ (f.writeHeaders ++ f.optional.writeDirectories)).length =
      f.tableOffset := by
    simp only [List.length_append, length_writeFront, length_writeHeaders, File.tableOffset]
    omega
  have hwrite : f.write ++ rest = (f.writeFront ++ (f.writeHeaders ++
      f.optional.writeDirectories)) ++ (f.writeTable ++ rest) := by
    simp only [File.write, List.append_assoc]
  rw [hwrite, ← hlen, List.drop_left]

lemma length_write : f.write.length = f.tableOffset + 40 * f.sections.length := by
  have hdirectories := length_writeDirectories f.optional
  have htable : f.writeTable.length = 40 * f.sections.length := by
    simp [File.writeTable, length_writeSection, Nat.mul_comm]
  simp only [File.write, List.length_append, length_writeFront, length_writeHeaders, htable,
    File.tableOffset]
  omega

lemma architecture_toHeader (directories : List (ℕ × ℕ)) :
    Pe.architecture (f.toHeader directories) = f.architecture := by
  have hmachine (n : Field 2) : f.machine = n ↔ f.machine.toNat = n.toNat := BitVec.toNat_inj.symm
  have hwide := isWide_toHeader f.optional directories
  unfold Pe.architecture File.architecture
  simp only [hmachine, File.toHeader, File.toFileHeader, hwide]
  split <;> simp_all

/-- The image of a file whose headers were read. -/
lemma describes_imageOf {rest d : Bytes} (hd : d <+: f.write ++ rest)
    (directories : List (ℕ × ℕ)) :
    f.Describes (f.sections.take (min f.sections.length ((d.length - f.tableOffset) / 40)))
      (imageOf d (f.toHeader directories)) := by
  have hbase : f.optional.imageBase.toNat < 2 ^ 64 := by
    refine lt_of_lt_of_le f.optional.imageBase.isLt (Nat.pow_le_pow_right (by decide) ?_)
    cases f.optional.wide <;> decide
  have htable : d.drop f.tableOffset <+: f.sections.flatMap (·.write) ++ rest := by
    have hdrop := hd.drop f.tableOffset
    rwa [drop_tableOffset] at hdrop
  constructor
  case format => rfl
  case platform => rfl
  case architecture => exact architecture_toHeader f directories
  case imageBase => exact Word.toNat_ofNat_of_lt hbase
  case entryPoint =>
    change (UInt64.ofNat f.optional.imageBase.toNat +
      UInt64.ofNat f.optional.entryRva.toNat).toNat = _
    rw [UInt64.toNat_add, UInt64.toNat_ofNat', UInt64.toNat_ofNat', ← Nat.add_mod]
  case sections => exact sectionsFrom_write f.sections f.tableOffset htable

lemma exists_parse {rest d : Bytes} (hd : d <+: f.write ++ rest)
    (hlen : f.start + 24 + 72 ≤ d.length) :
    ∃ i, parse d = .ok i ∧ f.Describes
      (f.sections.take (min f.sections.length ((d.length - f.tableOffset) / 40))) i := by
  obtain ⟨e, rfl⟩ := exists_followedBy f hd hlen
  rw [parse, header_followedBy]
  exact ⟨_, rfl, describes_imageOf f hd _⟩

end

/-- **Reading gives back what was written.** A file is read with its headers and data directories,
and with all its sections in order. Of a file that is cut somewhere behind the fixed part of its
headers, the sections are read whose entries are there as a whole. -/
theorem parse_written (f : File) (rest : Bytes) :
    (∃ i, parse (f.write ++ rest) = .ok i ∧ f.Describes f.sections i) ∧
    header (f.write ++ rest) = .ok (f.toHeader f.optional.directoryValues) ∧
    ∀ d, d <+: f.write ++ rest → f.start + 24 + 72 ≤ d.length →
      ∃ i, parse d = .ok i ∧ f.Describes
        (f.sections.take (min f.sections.length ((d.length - f.tableOffset) / 40))) i := by
  refine ⟨?_, ?_, fun d => exists_parse f⟩
  · have hlen := length_write f
    have hstart : f.start + 24 + 72 ≤ f.tableOffset := by
      simp only [File.tableOffset, OptionalRecord.size]
      omega
    have hall : min f.sections.length (((f.write ++ rest).length - f.tableOffset) / 40) =
        f.sections.length := by
      rw [List.length_append]
      omega
    have h := exists_parse f (List.prefix_refl (f.write ++ rest)) (by
      rw [List.length_append]
      omega)
    rwa [hall, List.take_length] at h
  · have hwhole : f.write ++ rest =
        f.followedBy (f.optional.writeDirectories ++ (f.writeTable ++ rest)) := by
      simp only [File.write, File.followedBy, List.append_assoc]
    have hfront : (f.writeFront ++ f.writeHeaders).length = f.start + 24 + 72 := by
      rw [List.length_append, length_writeFront, length_writeHeaders]
    have hdirectories := directoriesIn_write f.optional hfront (f.writeTable ++ rest)
    rw [List.append_assoc] at hdirectories
    rw [hwhole, header_followedBy]
    exact congrArg (fun directories => Except.ok (f.toHeader directories)) hdirectories

/-- A file of two sections for an unknown machine, loaded so far up that the address of its entry
point starts again at zero. -/
def highLoaded : File where
  dosFields := List.replicate 58 0
  dosFields_length := rfl
  stub := List.replicate 8 0x90
  machine := 0x5064
  timeStamp := 0
  symbolTable := 0
  symbolCount := 0
  characteristics := 0x22
  optional := {
    wide := true, linkerVersion := 14, contentSizes := 0, entryRva := 0x2000, codeBase := 0x1000
    dataBase := 0, imageBase := (0xFFFFFFFFFFFFF000 : Field 8), alignments := 0, versions := 0
    reserved := 0, imageSize := 0x3000, headerSizeAndSum := 0, subsystem := 3
    dllCharacteristics := 0x160, stackAndHeapSizes := 0, loaderFlags := 0
    directories := [(0x2000, 0x28)], directories_le := by decide, padding := [0, 0, 0] }
  sections := [
    ⟨⟨"CODE", by simp, by simp, by rintro c ⟨⟩; decide, by rintro c ⟨⟩; decide⟩,
      0x10, 0x1000, 0x200, 0x400, 0, 0x60000020⟩,
    ⟨⟨".rsrc", by simp, by simp, by rintro c ⟨⟩; decide, by rintro c ⟨⟩; decide⟩,
      0x20, 0x2000, 0x200, 0x600, 0, 0x40000040⟩]
  start_lt := by decide
  size_lt := by decide
  count_lt := by decide

/-- Without its last byte, the file has one section less. -/
theorem parse_written_highLoaded :
    highLoaded.write.length = 299 ∧
    (∃ i, parse highLoaded.write = .ok i ∧ i.sections.map (·.name) = ["CODE", ".rsrc"]) ∧
    ∃ i, parse (highLoaded.write.take 298) = .ok i ∧ i.architecture = .x64 ∧
      i.entryPoint.toNat = 0x1000 ∧ i.sections.map (·.name) = ["CODE"] := by
  have hlen : highLoaded.write.length = 299 := length_write highLoaded
  obtain ⟨hwhole, -, hcut⟩ := parse_written highLoaded []
  rw [List.append_nil] at hwhole hcut
  obtain ⟨i, hi, hdescribes⟩ := hwhole
  obtain ⟨j, hj, hdescribed⟩ := hcut _ (List.take_prefix 298 _) (by
    rw [List.length_take, hlen]
    decide)
  rw [List.length_take, hlen] at hdescribed
  exact ⟨hlen, ⟨i, hi, congrArg (List.map (·.name)) hdescribes.sections⟩, j, hj,
    hdescribed.architecture, hdescribed.entryPoint,
    congrArg (List.map (·.name)) hdescribed.sections⟩

end Pe

end Dissect
