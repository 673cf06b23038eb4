import Mathlib
import Dissect.Proofs.Image.Acceptance
import Dissect.Proofs.Image.Writing

/-!
Files in executable and linkable format that are written and read back.

A record is what a file says about its image. A layout is how the file says it: how wide and in
which byte order the numbers are, and where the section table stands. The names of the sections
stand in one of the sections, which may lie anywhere in the file. Reading a file that holds a record
gives the image of the record, whatever the layout.
-/

namespace Dissect.Elf

open Reader

/-! ### Records -/

/-- A section with its name. -/
structure SectionRecord where
  name : EndedName 256
  type : Field 4
  flags : Field 8
  address : Field 8
  offset : Field 8
  size : Field 8

/-- What a file says about its image. -/
structure Record where
  type : Field 2
  machine : Field 2
  entry : Field 8
  sections : List SectionRecord
  count_lt : sections.length < 2 ^ 16

/-- How a file says it. -/
structure Layout where
  wide : Bool
  order : ByteOrder
  /-- What stands behind the byte order in the first sixteen bytes. -/
  padding : Bytes
  padding_length : padding.length = 10
  version : Field 4
  programOffset : Field 8
  flags : Field 4
  headerSize : Field 2
  programEntrySize : Field 2
  programCount : Field 2
  tableOffset : Field 8
  /-- The distance from one entry of the section table to the next. -/
  entrySize : Field 2
  /-- Index of the section that holds the section names. -/
  nameTable : Field 2

/-! ### Their bytes -/

/-- An entry of the section table, whose name stands at the given place among the names. -/
def SectionRecord.write (wide : Bool) (order : ByteOrder) (place : Field 4) (s : SectionRecord) :
    Bytes :=
  [place.write order, s.type.write order, (s.flags.asWord wide).write order,
    (s.address.asWord wide).write order, (s.offset.asWord wide).write order,
    (s.size.asWord wide).write order].flatten

/-- The numbers of the section fit into their fields. -/
structure SectionRecord.Fits (wide : Bool) (s : SectionRecord) : Prop where
  flags : s.flags.Fits wide
  address : s.address.Fits wide
  offset : s.offset.Fits wide
  size : s.size.Fits wide

namespace Layout

/-- The first sixteen bytes of a file. -/
def writeIdent (l : Layout) : Bytes :=
  0x7F :: 0x45 :: 0x4C :: 0x46 :: (if l.wide then 2 else 1) ::
    (match l.order with | .little => 1 | .big => 2) :: l.padding

/-- The header fields after the first sixteen bytes. -/
def writeFields (l : Layout) (r : Record) : Bytes :=
  [r.type.write l.order, r.machine.write l.order, l.version.write l.order,
    (r.entry.asWord l.wide).write l.order, (l.programOffset.asWord l.wide).write l.order,
    (l.tableOffset.asWord l.wide).write l.order, l.flags.write l.order,
    l.headerSize.write l.order, l.programEntrySize.write l.order, l.programCount.write l.order,
    l.entrySize.write l.order, Field.write (n := 2) l.order (.ofNat _ r.sections.length),
    l.nameTable.write l.order].flatten

/-- The name stands at the given place in the section of names, with the byte that ends it. -/
def HasName (l : Layout) (r : Record) (d : Bytes) (place : ℕ) (name : EndedName 256) : Prop :=
  ∃ t, r.sections[l.nameTable.toNat]? = some t ∧
    Bytes.HasAt (d.slice t.offset.toNat t.size.toNat) place name.write

/-- The file holds the record in the given layout. -/
structure Encodes (l : Layout) (r : Record) (d : Bytes) : Prop where
  header : d.HasAt 0 (l.writeIdent ++ l.writeFields r)
  entry_fits : r.entry.Fits l.wide
  tableOffset_fits : l.tableOffset.Fits l.wide
  tableOffset_ne : l.tableOffset.toNat ≠ 0
  section_fits : ∀ s ∈ r.sections, s.Fits l.wide
  sections : ∀ i s, r.sections[i]? = some s → ∃ place : Field 4,
    d.HasAt (l.tableOffset.toNat + i * l.entrySize.toNat) (s.write l.wide l.order place) ∧
      l.HasName r d place.toNat s.name

end Layout

/-! ### What they say -/

namespace SectionRecord

/-- The section has no bytes in the file. -/
def isNoBits (s : SectionRecord) : Bool := s.type == 8

def kind (s : SectionRecord) : SectionKind :=
  if s.flags.meets 0x4 then .code
  else if s.name.text ∈ [".rodata", ".data", ".bss"] then .data
  else if ".debug".toList <+: s.name.text.toList then .debug
  else if s.name.text ∈ [".dynsym", ".dynstr"] then .imports
  else .unknown

def toSection (s : SectionRecord) : Section where
  name := s.name.text
  virtualAddress := UInt64.ofNat s.address.toNat
  virtualSize := UInt64.ofNat s.size.toNat
  rawOffset := UInt64.ofNat s.offset.toNat
  rawSize := if s.isNoBits then 0 else UInt64.ofNat s.size.toNat
  flags := {
    read := s.flags.meets 0x2
    write := s.flags.meets 0x1
    execute := s.flags.meets 0x4
    code := s.flags.meets 0x4
    initialized := !s.isNoBits && s.flags.meets 0x2
    uninitialized := s.isNoBits }
  kind := s.kind

end SectionRecord

namespace Record

def architecture (r : Record) : Architecture :=
  if r.machine = 3 then .x86
  else if r.machine = 62 then .x64
  else if r.machine = 40 then .arm32
  else if r.machine = 183 then .arm64
  else .unknown

/-- The image of a record. Two of its facts tell the layout. -/
def image (wide : Bool) (order : ByteOrder) (r : Record) : Image where
  format := .elf
  architecture := r.architecture
  platform := .linux
  entryPoint := UInt64.ofNat r.entry.toNat
  sections := r.sections.map (·.toSection)
  facts := [
    ("class", if wide then "ELF64" else "ELF32"),
    ("e_machine", Numeral.decimal r.machine.toNat),
    ("e_type", Numeral.decimal r.type.toNat),
    ("endianness", match order with | .little => "little" | .big => "big")]

end Record

/-! ### Sections -/

section

variable {wide : Bool} {order : ByteOrder} {d : Bytes}

/-- An entry of the section table as it is read. -/
def SectionRecord.toHeader (place : Field 4) (s : SectionRecord) : SectionHeader where
  name := place.toNat
  type := s.type.toNat
  flags := s.flags.toNat
  address := s.address.toNat
  offset := s.offset.toNat
  size := s.size.toNat

lemma decodes_sectionHeader {s : SectionRecord} (h : s.Fits wide) (place : Field 4) :
    Decodes (readSectionHeader wide) order (s.write wide order place) (s.toHeader place) :=
  (decodes_u32 place).bind <| (decodes_u32 s.type).bind <| (decodes_asWord h.flags).bind <|
    (decodes_asWord h.address).bind <| (decodes_asWord h.offset).bind <|
    (decodes_asWord h.size).bind <| decodes_pure _

lemma write_ne_nil (s : SectionRecord) (place : Field 4) : s.write wide order place ≠ [] := by
  have hplace : place.write order ≠ [] := by
    rw [← List.length_pos_iff, Field.length_write]
    decide
  exact List.append_ne_nil_of_left_ne_nil hplace _

/-- All entries of a section table are read, in order, however far they are from each other. -/
lemma sectionHeadersFrom_encoded {h : Header} {P : Field 4 → SectionRecord → Prop}
    (ss : List SectionRecord) (offset : ℕ) (hfits : ∀ s ∈ ss, s.Fits h.wide)
    (hss : ∀ i s, ss[i]? = some s → ∃ place,
      d.HasAt (offset + i * h.entrySize) (s.write h.wide h.order place) ∧ P place s) :
    List.Forall₂ (fun s g => ∃ place, g = s.toHeader place ∧ P place s) ss
      (sectionHeadersFrom d h ss.length offset) := by
  induction ss generalizing offset with
  | nil => exact .nil
  | cons s ss ih =>
    obtain ⟨hs, hfits⟩ := List.forall_mem_cons.mp hfits
    obtain ⟨place, hat, hP⟩ := hss 0 s rfl
    rw [Nat.zero_mul, Nat.add_zero] at hat
    have hread := (decodes_sectionHeader hs place).runAt_of_hasAt hat (write_ne_nil s place)
    have hrest := ih (offset + h.entrySize) hfits fun i t ht => by
      obtain ⟨place, hat, hP⟩ := hss (i + 1) t ht
      refine ⟨place, ?_, hP⟩
      rwa [Nat.add_assoc, Nat.add_comm h.entrySize, ← Nat.succ_mul]
    simp only [List.length_cons, sectionHeadersFrom, hread]
    exact .cons ⟨place, rfl, hP⟩ hrest

lemma isEmpty_toHeader (s : SectionRecord) (place : Field 4) :
    (s.toHeader place).isEmpty = s.isNoBits := by
  unfold SectionHeader.isEmpty SectionRecord.isNoBits SectionRecord.toHeader
  rw [Bool.eq_iff_iff, beq_iff_eq, beq_iff_eq, ← BitVec.toNat_inj]
  rfl

lemma sectionOf_toHeader (s : SectionRecord) (place : Field 4) :
    sectionOf s.name.text (s.toHeader place) = s.toSection := by
  have hwrite : (s.toHeader place).isWritable = s.flags.meets 0x1 :=
    (Field.meets_eq_testBit (by decide) (by decide)).symm
  have hload : (s.toHeader place).isLoaded = s.flags.meets 0x2 :=
    (Field.meets_eq_testBit (by decide) (by decide)).symm
  have hexecute : (s.toHeader place).isExecutable = s.flags.meets 0x4 :=
    (Field.meets_eq_testBit (by decide) (by decide)).symm
  have hkind : sectionKind s.name.text (s.toHeader place) = s.kind := by
    unfold sectionKind SectionRecord.kind Text.startsWith
    rw [hexecute]
    simp only [Bool.or_eq_true, beq_iff_eq, or_assoc, List.isPrefixOf_iff_prefix, List.mem_cons,
      List.not_mem_nil, or_false]
  unfold sectionOf SectionRecord.toSection sectionFlags
  rw [hkind, hwrite, hload, hexecute, isEmpty_toHeader]
  rfl

/-- The name of a section is looked up among the names. -/
lemma sectionName_toHeader {l : Layout} {r : Record} {s t : SectionRecord} {place : Field 4}
    (place' : Field 4) (ht : r.sections[l.nameTable.toNat]? = some t)
    (h : l.HasName r d place.toNat s.name) :
    sectionName d (some (t.toHeader place')) (s.toHeader place) = s.name.text := by
  obtain ⟨t', ht', hat⟩ := h
  obtain rfl : t' = t := Option.some.inj (ht'.symm.trans ht)
  have hlt : place.toNat < t'.size.toNat := by
    have hle := hat.le s.name.write_ne_nil
    have hpos := List.length_pos_of_ne_nil s.name.write_ne_nil
    rw [Bytes.slice, List.length_take] at hle
    omega
  change (if place.toNat < t'.size.toNat then _ else _) = _
  rw [if_pos hlt]
  exact EndedName.nameAt_of_hasAt hat.of_slice

end

/-! ### Files -/

section

variable {l : Layout} {r : Record} {d : Bytes}

/-- The header of a file as it is read. -/
def Layout.toHeader (l : Layout) (r : Record) : Header where
  wide := l.wide
  order := l.order
  type := r.type.toNat
  machine := r.machine.toNat
  entry := r.entry.toNat
  tableOffset := l.tableOffset.toNat
  entrySize := l.entrySize.toNat
  sectionCount := r.sections.length
  nameTable := l.nameTable.toNat

lemma decodes_fields (hentry : r.entry.Fits l.wide) (htable : l.tableOffset.Fits l.wide) :
    Decodes (readFields l.wide l.order) l.order (l.writeFields r) (l.toHeader r) := by
  have hcount : (BitVec.ofNat 16 r.sections.length).toNat = r.sections.length :=
    Field.toNat_ofNat (n := 2) r.count_lt
  have hheader : l.toHeader r =
      { l.toHeader r with sectionCount := (BitVec.ofNat 16 r.sections.length).toNat } := by
    rw [hcount]
    rfl
  rw [hheader]
  exact (decodes_u16 r.type).bind <| (decodes_u16 r.machine).bind <|
    (decodes_u32 l.version).bind <| (decodes_asWord hentry).bind <|
    (decodes_word l.wide (l.programOffset.asWord l.wide)).bind <| (decodes_asWord htable).bind <|
    (decodes_u32 l.flags).bind <| (decodes_u16 l.headerSize).bind <|
    (decodes_u16 l.programEntrySize).bind <| (decodes_u16 l.programCount).bind <|
    (decodes_u16 l.entrySize).bind <| (decodes_u16 _).bind <| (decodes_u16 l.nameTable).bind <|
    decodes_pure _

lemma Layout.length_writeIdent (l : Layout) : l.writeIdent.length = 16 := by
  simp [writeIdent, l.padding_length]

/-- The first sixteen bytes tell the width and the byte order of the rest. -/
lemma header_writeIdent (l : Layout) (rest : Bytes) :
    header (l.writeIdent ++ rest) =
      (readFields l.wide l.order).runAt (l.writeIdent ++ rest) 16 l.order := by
  have hdetect : Format.detect l.writeIdent = .elf := rfl
  obtain ⟨x, y, hx, hy, hheader⟩ := header_eq hdetect l.length_writeIdent.ge
  have hwide : wideOf? x.toNat = .ok l.wide := by
    obtain rfl := Option.some.inj hx
    cases l.wide <;> rfl
  have horder : orderOf? y.toNat = .ok l.order := by
    obtain rfl := Option.some.inj hy
    cases l.order <;> rfl
  rw [hheader rest, hwide]
  change (orderOf? y.toNat >>= fun order => _) = _
  rw [horder]
  rfl

lemma Layout.Encodes.header_eq (h : l.Encodes r d) : Elf.header d = .ok (l.toHeader r) := by
  obtain ⟨rest, rfl⟩ := h.header
  have hfields := decodes_fields h.entry_fits h.tableOffset_fits l.writeIdent rest
  rw [List.append_assoc, header_writeIdent, runAt]
  rw [l.length_writeIdent] at hfields
  rw [hfields]
  rfl

/-- Every section has a name, so as soon as there is one the section of names is read too. -/
lemma Layout.HasName.exists_getElem {headers : List SectionHeader} {place : ℕ}
    {name : EndedName 256} {P : Field 4 → SectionRecord → Prop} (h : l.HasName r d place name)
    (hheaders : List.Forall₂ (fun s g => ∃ place, g = s.toHeader place ∧ P place s) r.sections
      headers) :
    ∃ t place', r.sections[l.nameTable.toNat]? = some t ∧
      headers[l.nameTable.toNat]? = some (t.toHeader place') := by
  obtain ⟨t, ht, -⟩ := h
  obtain ⟨hlt, hget⟩ := List.getElem?_eq_some_iff.mp ht
  have hlt' : l.nameTable.toNat < headers.length := by rwa [← hheaders.length_eq]
  obtain ⟨place', hg, -⟩ := hheaders.get hlt hlt'
  refine ⟨t, place', ht, ?_⟩
  rw [List.getElem?_eq_getElem hlt', ← hget]
  exact congrArg some hg

/-- The sections are read with their names. -/
lemma Layout.Encodes.sections_eq (h : l.Encodes r d) :
    Elf.sections d (l.toHeader r) = r.sections.map (·.toSection) := by
  have htable : sectionHeaders d (l.toHeader r) =
      sectionHeadersFrom d (l.toHeader r) r.sections.length l.tableOffset.toNat :=
    if_neg h.tableOffset_ne
  have hheaders := sectionHeadersFrom_encoded (h := l.toHeader r)
    (P := fun place s => l.HasName r d place.toNat s.name) r.sections l.tableOffset.toNat
    h.section_fits h.sections
  rw [← htable] at hheaders
  have hall : List.Forall₂ Eq (r.sections.map (·.toSection)) (Elf.sections d (l.toHeader r)) := by
    rw [Elf.sections, List.forall₂_map_left_iff, List.forall₂_map_right_iff]
    refine hheaders.imp ?_
    rintro s _ ⟨place, rfl, hname⟩
    obtain ⟨t, place', ht, hget⟩ := hname.exists_getElem hheaders
    have hname' := sectionName_toHeader place' ht hname
    have hget' : (sectionHeaders d (l.toHeader r))[(l.toHeader r).nameTable]? =
        some (t.toHeader place') := hget
    rw [hget', hname', sectionOf_toHeader]
  rw [List.forall₂_eq_eq_eq] at hall
  exact hall.symm

lemma architecture_toHeader (l : Layout) (r : Record) :
    Elf.architecture (l.toHeader r) = r.architecture := by
  have hmachine (n : Field 2) : r.machine = n ↔ r.machine.toNat = n.toNat :=
    BitVec.toNat_inj.symm
  unfold Elf.architecture Record.architecture Layout.toHeader
  simp only [hmachine]
  split <;> simp_all

lemma Layout.Encodes.parse_eq (h : l.Encodes r d) : parse d = .ok (r.image l.wide l.order) := by
  rw [parse, h.header_eq]
  change Except.ok (imageOf d (l.toHeader r)) = _
  rw [imageOf, h.sections_eq, architecture_toHeader]
  rfl

end

/-- **Reading gives back what was written.** A file that holds a record is read as the image of the
record. All layouts of a record give the same image, but for the facts that tell the layout. -/
theorem parse_encoded {l : Layout} {r : Record} {d : Bytes} (h : l.Encodes r d) :
    parse d = .ok (r.image l.wide l.order) ∧
    ∀ (l' : Layout) (d' : Bytes), l'.Encodes r d' → ∃ i j, parse d = .ok i ∧ parse d' = .ok j ∧
      { j with facts := [] } = { i with facts := [] } ∧
      j.facts.filter (·.1 ∉ ["class", "endianness"]) =
        i.facts.filter (·.1 ∉ ["class", "endianness"]) := by
  refine ⟨h.parse_eq, fun l' d' h' => ?_⟩
  refine ⟨r.image l.wide l.order, r.image l'.wide l'.order, h.parse_eq, h'.parse_eq, rfl, ?_⟩
  simp [Record.image]

/-- A program with code, zeros that are not in the file, and the names of all sections. -/
def named : Record where
  type := 2
  machine := 62
  entry := 0x401000
  sections := [
    ⟨⟨"", by simp, by simp⟩, 0, 0, 0, 0, 0⟩,
    ⟨⟨".text", by simp, by simp⟩, 1, 6, 0x401000, 0x40, 0x10⟩,
    ⟨⟨".bss", by simp, by simp⟩, 8, 3, 0x402000, 0x40, 0x1000⟩,
    ⟨⟨".shstrtab", by simp, by simp⟩, 3, 0, 0, 0x40, 22⟩]
  count_lt := by decide

/-- The section table stands behind the names, its entries further from each other than need be. -/
def namesFirst (wide : Bool) (order : ByteOrder) : Layout where
  wide := wide
  order := order
  padding := List.replicate 10 0
  padding_length := rfl
  version := 1
  programOffset := 0
  flags := 0
  headerSize := 64
  programEntrySize := 0
  programCount := 0
  tableOffset := 86
  entrySize := 70
  nameTable := 3

/-- The bytes, filled up with zeros to a length. -/
def filled (n : ℕ) (bs : Bytes) : Bytes := bs ++ List.replicate (n - bs.length) 0

def namedFile (wide : Bool) (order : ByteOrder) : Bytes :=
  filled 64 ((namesFirst wide order).writeIdent ++ (namesFirst wide order).writeFields named) ++
    (0 :: (Bytes.ofAscii ".text" ++ [0] ++ Bytes.ofAscii ".bss" ++ [0] ++
      Bytes.ofAscii ".shstrtab" ++ [0])) ++
    (named.sections.zip [0, 1, 7, 12]).flatMap fun (s, place) =>
      filled 70 (s.write wide order place)

lemma encodes_named (wide : Bool) (order : ByteOrder) :
    (namesFirst wide order).Encodes named (namedFile wide order) where
  header := by cases wide <;> cases order <;> decide +kernel
  entry_fits _ := by decide
  tableOffset_fits _ := by simp [namesFirst]
  tableOffset_ne := by simp [namesFirst]
  section_fits := by
    intro s hs
    fin_cases hs <;> constructor <;> simp [Field.Fits]
  sections := by
    intro i s hs
    match i with
    | 0 =>
      cases hs
      refine ⟨0, ?_, _, rfl, ?_⟩ <;> cases wide <;> cases order <;> decide +kernel
    | 1 =>
      cases hs
      refine ⟨1, ?_, _, rfl, ?_⟩ <;> cases wide <;> cases order <;> decide +kernel
    | 2 =>
      cases hs
      refine ⟨7, ?_, _, rfl, ?_⟩ <;> cases wide <;> cases order <;> decide +kernel
    | 3 =>
      cases hs
      refine ⟨12, ?_, _, rfl, ?_⟩ <;> cases wide <;> cases order <;> decide +kernel

theorem parse_encoded_named :
    (namesFirst false .big).Encodes named (namedFile false .big) ∧
    (namesFirst true .little).Encodes named (namedFile true .little) ∧
    ∃ i j, parse (namedFile false .big) = .ok i ∧ parse (namedFile true .little) = .ok j ∧
      j.sections = i.sections ∧
      i.sections.map (fun s => (s.name, s.kind, s.virtualSize, s.rawSize)) =
        [("", .unknown, 0, 0), (".text", .code, 0x10, 0x10), (".bss", .data, 0x1000, 0),
          (".shstrtab", .unknown, 22, 22)] := by
  have hnarrow := encodes_named false .big
  have hwide := encodes_named true .little
  obtain ⟨hparse, hsame⟩ := parse_encoded hnarrow
  obtain ⟨i, j, hi, hj, heq, -⟩ := hsame _ _ hwide
  have hsections := congrArg Image.sections heq
  obtain rfl : i = named.image false .big := Except.ok.inj (hi.symm.trans hparse)
  exact ⟨hnarrow, hwide, _, j, hi, hj, hsections, by decide +kernel⟩

end Dissect.Elf
