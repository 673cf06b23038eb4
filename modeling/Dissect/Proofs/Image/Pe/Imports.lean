import Mathlib
import Dissect.Proofs.Image.Pe.Header
import Dissect.Proofs.Image.Pe.RoundTrip

/-!
The libraries that a portable executable imports.

The import table stands where the second data directory says, or else at the start of the first
section named for it. It is a list of descriptors that ends with one without a name; each of the
others leads to a name through the sections. If the end of the file cuts a descriptor before the
list has ended, there are no libraries at all; otherwise they are the names in their order, without
the empty ones. So a table that is written into a section is read back.
-/

namespace Dissect.Pe

open Reader

variable {d : Bytes} {ss : List Section}

/-! ### The table and its names -/

/-- Where the byte at an address stands in the file: in the first section that covers the
address. -/
def place? (ss : List Section) (rva : ℕ) : Option ℕ :=
  (ss.find? fun s => s.Covers rva).map fun s => s.rawOffset.toNat + (rva - s.virtualAddress.toNat)

/-- Where the import table starts: at the place of its data directory, or else where the first
section named for imports does. -/
def tableStart? (d : Bytes) (ss : List Section) : Option ℕ :=
  (((directoryList d)[1]?.filter fun e => e.1 ≠ 0).bind fun e => place? ss e.1).or
    ((ss.find? fun s => s.name = ".idata").map fun s => s.rawOffset.toNat)

/-- The address of the library name in a descriptor of the table, which has twenty bytes. -/
def nameRva (d : Bytes) (table j : ℕ) : ℕ := numberAt d (table + 20 * j + 12) 4

/-- The end of the file cuts one of the first `n` descriptors, and all in front of it have a
name. -/
def Cut (d : Bytes) (table n : ℕ) : Prop :=
  ∃ j < n, d.length < table + 20 * j + 20 ∧ ∀ k < j, nameRva d table k ≠ 0

/-- The addresses of names in the first `n` descriptors, up to one without a name. -/
def nameRvas (d : Bytes) (table n : ℕ) : List ℕ :=
  ((List.range n).map (nameRva d table)).takeWhile (· ≠ 0)

/-- Where the name with an address stands. An address in no section is a position in the file. -/
def namePlace (ss : List Section) (rva : ℕ) : ℕ := (place? ss rva).getD rva

/-- The name with an address: up to a zero byte, the end of the file or 256 bytes. -/
def libraryName (d : Bytes) (ss : List Section) (rva : ℕ) : String :=
  Utf8.decodeLossy (((d.drop (namePlace ss rva)).take 256).takeWhile (· ≠ 0))

/-- The names that the first `n` descriptors lead to, without the empty ones. -/
def libraryNames (d : Bytes) (ss : List Section) (table n : ℕ) : List String :=
  ((nameRvas d table n).map (libraryName d ss)).filter (· ≠ "")

lemma nameRva_lt (d : Bytes) (table j : ℕ) : nameRva d table j < 2 ^ 32 := numberAt_lt d _ 4

/-! ### One descriptor -/

lemma nameRva_succ (d : Bytes) (table j : ℕ) :
    nameRva d table (j + 1) = nameRva d (table + 20) j := by
  unfold nameRva
  congr 1
  omega

lemma cut_succ {table n : ℕ} :
    Cut d table (n + 1) ↔
      d.length < table + 20 ∨ nameRva d table 0 ≠ 0 ∧ Cut d (table + 20) n := by
  constructor
  · rintro ⟨_ | j, hj, hlen, hnames⟩
    · exact .inl (by omega)
    · refine .inr ⟨hnames 0 (by omega), j, by omega, by omega, fun k hk => ?_⟩
      rw [← nameRva_succ]
      exact hnames (k + 1) (by omega)
  · rintro (hlen | ⟨hname, j, hj, hlen, hnames⟩)
    · exact ⟨0, by omega, by omega, by simp⟩
    · refine ⟨j + 1, by omega, by omega, fun k hk => ?_⟩
      cases k with
      | zero => exact hname
      | succ k =>
        rw [nameRva_succ]
        exact hnames k (by omega)

lemma not_cut_zero {table : ℕ} : ¬Cut d table 0 := by
  rintro ⟨j, hj, -⟩
  omega

lemma nameRvas_succ (d : Bytes) (table n : ℕ) :
    nameRvas d table (n + 1) =
      if nameRva d table 0 = 0 then [] else nameRva d table 0 :: nameRvas d (table + 20) n := by
  have hshift : nameRva d table ∘ Nat.succ = nameRva d (table + 20) :=
    funext fun j => nameRva_succ d table j
  unfold nameRvas
  rw [List.range_succ_eq_map, List.map_cons, List.map_map, hshift, List.takeWhile_cons]
  by_cases h : nameRva d table 0 = 0 <;> simp [h]

lemma libraryNames_succ (d : Bytes) (ss : List Section) (table n : ℕ) :
    libraryNames d ss table (n + 1) =
      if nameRva d table 0 = 0 then []
      else if libraryName d ss (nameRva d table 0) = "" then libraryNames d ss (table + 20) n
      else libraryName d ss (nameRva d table 0) :: libraryNames d ss (table + 20) n := by
  unfold libraryNames
  rw [nameRvas_succ]
  split
  · rfl
  · rw [List.map_cons, List.filter_cons]
    by_cases h : libraryName d ss (nameRva d table 0) = "" <;> simp [h]

lemma reads_importName : ∃ f, Reads readImportName 20 f ∧
    ∀ (order : ByteOrder) (bs : Bytes), f order bs = order.value (bs.slice 12 4) := by
  unfold readImportName
  refine ⟨_, (reads_skip (by decide)).bind fun _ => reads_u32.bind fun name =>
    (reads_skip (by decide)).bind fun _ => reads_pure name, fun order bs => ?_⟩
  simp [Bytes.slice]

/-- A descriptor that is all there. -/
lemma runAt_importName {table : ℕ} (h : table + 20 ≤ d.length) :
    readImportName.runAt d table .little = .ok (nameRva d table 0) := by
  obtain ⟨f, hf, hvalue⟩ := reads_importName
  have hslice : Bytes.slice (d.slice table 20) 12 4 = d.slice (table + 12) 4 :=
    Bytes.slice_slice (by decide)
  rw [runAt, hf.ok _ (.inr h), hvalue]
  exact congrArg (fun bs => Except.ok (ByteOrder.little.value bs)) hslice

lemma runAt_importName_of_cut {table : ℕ} (h : d.length < table + 20) :
    ∃ e, readImportName.runAt d table .little = .error e := by
  obtain ⟨f, hf, -⟩ := reads_importName
  obtain ⟨e, he, -⟩ := hf.error ⟨d, table, .little⟩ (by
    rw [Cursor.has_iff (by decide)]
    exact Nat.not_le.mpr h)
  exact ⟨e, by rw [runAt, he]; rfl⟩

/-! ### Addresses -/

/-- All numbers in the header of a section have four bytes. -/
def SmallSections (ss : List Section) : Prop := ∀ s ∈ ss, s.rawOffset.toNat < 2 ^ 32

lemma yields_section : Yields readSection fun s => s.rawOffset.toNat < 2 ^ 32 := by
  refine .after fun field => .after fun virtualSize => .after fun virtualAddress =>
    .after fun rawSize => .bind (yields_number (n := 4) (by decide)) fun rawOffset hraw =>
    .after fun _ => .after fun characteristics => yields_pure ?_
  change (UInt64.ofNat rawOffset).toNat < 2 ^ 32
  rw [Word.toNat_ofNat_of_lt (hraw.trans (by decide))]
  exact hraw

lemma smallSections_sectionsFrom (d : Bytes) (count offset : ℕ) :
    SmallSections (sectionsFrom d count offset) := by
  induction count generalizing offset with
  | zero => simp [SmallSections, sectionsFrom]
  | succ count ih =>
    rcases h : readSection.runAt d offset .little with e | s
    · simp [SmallSections, sectionsFrom, h]
    · simp only [SmallSections, sectionsFrom, h]
      exact List.forall_mem_cons.mpr ⟨yields_section.runAt h, ih (offset + 40)⟩

/-- A place is a sum that is not too large for a word. -/
lemma fileOffset?_eq {image : Image} (hss : SmallSections image.sections) {rva : ℕ}
    (hrva : rva < 2 ^ 32) :
    (image.fileOffset? (UInt64.ofNat rva)).map (·.toNat) = place? image.sections rva := by
  have hword : (UInt64.ofNat rva).toNat = rva := Word.toNat_ofNat_of_lt (hrva.trans (by decide))
  unfold Image.fileOffset? place?
  rw [image.sectionContaining_eq, hword]
  rcases hs : image.sections.find? (fun s => s.Covers rva) with _ | s <;> rw [hs]
  · rfl
  · have hcovers : s.Covers rva := by simpa using List.find?_some hs
    have hraw := hss s (List.mem_of_find?_eq_some hs)
    have hcontains : s.containsRva (UInt64.ofNat rva) := by
      rwa [Section.containsRva_iff, hword]
    have hdistance : (UInt64.ofNat rva - s.virtualAddress).toNat =
        rva - s.virtualAddress.toNat := by
      rw [UInt64.toNat_sub_of_le _ _ (UInt64.le_iff_toNat_le.mpr (hword.symm ▸ hcovers.1)), hword]
    have hsum : s.rawOffset.toNat + (UInt64.ofNat rva - s.virtualAddress).toNat < 2 ^ 64 := by
      omega
    have hoffset : s.fileOffset? (UInt64.ofNat rva) =
        some (s.rawOffset + (UInt64.ofNat rva - s.virtualAddress)) := by
      rw [Section.fileOffset?, if_pos hcontains, Word.addChecked]
      exact if_pos hsum
    rw [Option.bind_some, hoffset, Option.map_some, Option.map_some,
      Word.toNat_add_of_lt hsum, hdistance]

/-- The name of a descriptor. -/
lemma nameAt_eq {image : Image} (hss : SmallSections image.sections) {rva : ℕ}
    (hrva : rva < 2 ^ 32) :
    Image.nameAt d ((image.fileOffset? (UInt64.ofNat rva)).getD (UInt64.ofNat rva)).toNat 256 =
      libraryName d image.sections rva := by
  have hword : (UInt64.ofNat rva).toNat = rva := Word.toNat_ofNat_of_lt (hrva.trans (by decide))
  have hplace : ((image.fileOffset? (UInt64.ofNat rva)).getD (UInt64.ofNat rva)).toNat =
      namePlace image.sections rva := by
    rw [namePlace, ← fileOffset?_eq hss hrva]
    cases image.fileOffset? (UInt64.ofNat rva) with
    | none => exact hword
    | some k => rfl
  rw [hplace, Image.nameAt_eq_decodeLossy]
  rfl

/-! ### The whole table -/

/-- The walk over the descriptors fails if one is cut, and gives the names otherwise. -/
lemma importsFrom_eq (d : Bytes) {image : Image} (hss : SmallSections image.sections)
    (n table : ℕ) :
    (Cut d table n → ∃ e, importsFrom d image n table = .error e) ∧
    (¬Cut d table n → importsFrom d image n table =
      .ok (libraryNames d image.sections table n)) := by
  induction n generalizing table with
  | zero => exact ⟨fun h => absurd h not_cut_zero, fun _ => rfl⟩
  | succ n ih =>
    rw [cut_succ, libraryNames_succ]
    unfold importsFrom
    by_cases hlen : d.length < table + 20
    · obtain ⟨e, he⟩ := runAt_importName_of_cut hlen
      rw [he]
      exact ⟨fun _ => ⟨e, rfl⟩, fun h => absurd (.inl hlen) h⟩
    rw [runAt_importName (Nat.le_of_not_lt hlen)]
    change (_ → ∃ e, (if nameRva d table 0 = 0 then _ else _) = _) ∧
      (_ → (if nameRva d table 0 = 0 then _ else _) = _)
    by_cases hname : nameRva d table 0 = 0
    · simp [hlen, hname]
      rfl
    rw [if_neg hname, if_neg hname, nameAt_eq hss (nameRva_lt d table 0)]
    obtain ⟨hcut, hwhole⟩ := ih (table + 20)
    simp only [hlen, hname, false_or, ne_eq, not_false_eq_true, true_and]
    refine ⟨fun h => ?_, fun h => ?_⟩
    · obtain ⟨e, he⟩ := hcut h
      exact ⟨e, by rw [he]; rfl⟩
    · rw [hwhole h]
      change Except.ok _ = Except.ok _
      simp [String.isEmpty_iff]

lemma fst_lt_of_mem_directoryList {e : ℕ × ℕ} (h : e ∈ directoryList d) : e.1 < 2 ^ 32 := by
  unfold directoryList at h
  split at h
  · obtain ⟨j, -, rfl⟩ := List.mem_map.mp h
    exact numberAt_lt d _ 4
  · simp at h

/-- The table starts where the sections and the second data directory say. -/
lemma importTable?_eq {h : OptionalHeader} {image : Image} (hd : h.directories = directoryList d)
    (hss : SmallSections image.sections) :
    (importTable? h image).map (·.toNat) = tableStart? d image.sections := by
  have hnamed : ((image.findSection ".idata").map (·.rawOffset)).map (·.toNat) =
      (image.sections.find? fun s => s.name = ".idata").map fun s => s.rawOffset.toNat :=
    Option.map_map _ _ _
  unfold importTable? tableStart?
  rw [hd, ← hnamed]
  rcases he : (directoryList d)[1]? with _ | ⟨rva, size⟩
  · simp
  · have hrva := fst_lt_of_mem_directoryList (List.mem_of_getElem? he)
    by_cases hzero : rva = 0
    · simp [hzero, Option.filter_some]
    · have hplace := fileOffset?_eq hss hrva
      simp only [hzero, if_false, Option.filter_some, ne_eq, not_false_eq_true, decide_true,
        if_true, Option.bind_some, ← hplace]
      cases image.fileOffset? (UInt64.ofNat rva) <;> simp

/-- What the libraries of a file are. -/
lemma libraries_of_parse {i : Image} (hi : parse d = .ok i) :
    (tableStart? d i.sections = none → i.libraries = []) ∧
    ∀ table, tableStart? d i.sections = some table →
      (Cut d table 4096 → i.libraries = []) ∧
      (¬Cut d table 4096 → i.libraries = libraryNames d i.sections table 4096) := by
  obtain ⟨h, hd, rfl⟩ := exists_header_of_parse hi
  obtain ⟨image, hlibraries, hsections⟩ : ∃ image : Image,
      (imageOf d h).libraries = libraries d h.optional image ∧
        image.sections = (imageOf d h).sections := ⟨_, rfl, rfl⟩
  have hss : SmallSections image.sections := hsections ▸ smallSections_sectionsFrom d _ _
  have htable := importTable?_eq (directories_of_header hd) hss
  rw [← hsections, hlibraries, libraries]
  rcases himport : importTable? h.optional image with _ | offset <;> rw [himport] at htable
  · rw [← htable]
    exact ⟨fun _ => rfl, by simp⟩
  · rw [← htable]
    refine ⟨by simp, fun table ht => ?_⟩
    obtain rfl : offset.toNat = table := by simpa using ht
    obtain ⟨hcut, hwhole⟩ := importsFrom_eq d hss 4096 offset.toNat
    refine ⟨fun h => ?_, fun h => ?_⟩
    · obtain ⟨e, he⟩ := hcut h
      simp only [he]
    · simp only [hwhole h]

/-! ### Tables that are written -/

/-- The name of a library has up to 256 characters. -/
structure LibraryName extends EndedName 257 where
  ne_empty : text ≠ ""

/-- A descriptor that leads to a name. Fields that are not looked at count as one. -/
structure ImportRecord where
  name : LibraryName
  rva : Field 4
  rva_ne_zero : rva ≠ 0
  lookup : Field 12
  thunk : Field 4

def writeDescriptor (lookup : Field 12) (rva thunk : Field 4) : Bytes :=
  lookup.write .little ++ (rva.write .little ++ thunk.write .little)

/-- The descriptors, and one without a name that ends them. -/
structure ImportTable where
  records : List ImportRecord
  records_le : records.length ≤ 4096
  endLookup : Field 12
  endThunk : Field 4

def ImportTable.write (t : ImportTable) : Bytes :=
  t.records.flatMap (fun r => writeDescriptor r.lookup r.rva r.thunk) ++
    writeDescriptor t.endLookup 0 t.endThunk

/-- The table starts at a position of the file, and each name stands where its address leads. -/
structure ImportTable.StandsAt (t : ImportTable) (d : Bytes) (ss : List Section) (table : ℕ) :
    Prop where
  hasAt : d.HasAt table t.write
  names : ∀ r ∈ t.records, d.HasAt (namePlace ss r.rva.toNat) r.name.write

lemma numberAt_of_hasAt {k n : ℕ} {v : Field n} (h : d.HasAt k (v.write .little)) :
    numberAt d k n = v.toNat := by
  have hslice := List.prefix_iff_eq_take.mp h
  rw [v.length_write] at hslice
  rw [numberAt, Bytes.slice, ← hslice, v.value_write]

@[simp] lemma length_writeDescriptor (lookup : Field 12) (rva thunk : Field 4) :
    (writeDescriptor lookup rva thunk).length = 20 := by simp [writeDescriptor]

lemma nameRva_of_hasAt {lookup : Field 12} {rva thunk : Field 4} {table : ℕ}
    (h : d.HasAt table (writeDescriptor lookup rva thunk)) :
    table + 20 ≤ d.length ∧ nameRva d table 0 = rva.toNat := by
  constructor
  · simpa using h.le (List.ne_nil_of_length_pos (by simp))
  · obtain ⟨-, h⟩ := Bytes.hasAt_append_iff.mp h
    rw [Field.length_write] at h
    exact numberAt_of_hasAt (Bytes.hasAt_append_iff.mp h).1

lemma libraryName_of_hasAt {name : LibraryName} {rva : ℕ}
    (h : d.HasAt (namePlace ss rva) name.write) : libraryName d ss rva = name.text := by
  have hname := Image.nameAt_of_hasAt name.ascii (Nat.le_of_lt_succ name.length_lt) h
  rwa [Image.nameAt_eq_decodeLossy] at hname

/-- One descriptor after the other gives its name, until the one that ends them. -/
lemma libraryNames_of_hasAt {lookup : Field 12} {thunk : Field 4} (rs : List ImportRecord)
    (hnames : ∀ r ∈ rs, d.HasAt (namePlace ss r.rva.toNat) r.name.write) {n table : ℕ}
    (hn : rs.length ≤ n)
    (hat : d.HasAt table (rs.flatMap (fun r => writeDescriptor r.lookup r.rva r.thunk) ++
      writeDescriptor lookup 0 thunk)) :
    ¬Cut d table n ∧ libraryNames d ss table n = rs.map (·.name.text) := by
  induction rs generalizing n table with
  | nil =>
    cases n with
    | zero => exact ⟨not_cut_zero, rfl⟩
    | succ n =>
      obtain ⟨hlen, hrva⟩ := nameRva_of_hasAt hat
      rw [cut_succ, libraryNames_succ, hrva]
      exact ⟨by simp [hlen], rfl⟩
  | cons r rs ih =>
    obtain ⟨n, rfl⟩ : ∃ m, n = m + 1 := ⟨n - 1, by simp at hn; omega⟩
    rw [List.flatMap_cons, List.append_assoc, Bytes.hasAt_append_iff,
      length_writeDescriptor] at hat
    obtain ⟨hlen, hrva⟩ := nameRva_of_hasAt hat.1
    obtain ⟨hname, hnames⟩ := List.forall_mem_cons.mp hnames
    obtain ⟨hcut, hrest⟩ := ih hnames (by simpa using hn) hat.2
    have hne : r.rva.toNat ≠ 0 := fun h => r.rva_ne_zero (BitVec.eq_of_toNat_eq h)
    rw [cut_succ, libraryNames_succ, hrva, libraryName_of_hasAt hname, hrest, if_neg hne,
      if_neg r.name.ne_empty]
    exact ⟨by simp [hlen, hcut], rfl⟩

/-! ### The libraries -/

/-- Without a table there are no libraries, and neither are there if the file ends in a descriptor.
Otherwise they are the names that the descriptors lead to, so a table that was written is read
back. -/
theorem libraries_eq_names (d : Bytes) (i : Image) (hi : parse d = .ok i) :
    (tableStart? d i.sections = none → i.libraries = []) ∧
    ∀ table, tableStart? d i.sections = some table →
      (Cut d table 4096 → i.libraries = []) ∧
      (¬Cut d table 4096 → i.libraries = libraryNames d i.sections table 4096) ∧
      ∀ t : ImportTable, t.StandsAt d i.sections table →
        i.libraries = t.records.map (·.name.text) := by
  obtain ⟨hnone, hsome⟩ := libraries_of_parse hi
  refine ⟨hnone, fun table htable => ?_⟩
  obtain ⟨hcut, hwhole⟩ := hsome table htable
  refine ⟨hcut, hwhole, fun t ht => ?_⟩
  obtain ⟨hnot, hnames⟩ := libraryNames_of_hasAt t.records ht.names t.records_le ht.hasAt
  rw [hwhole hnot, hnames]

/-- Two libraries. The address of the first name lies in a section; that of the second is a position
in the file. -/
def sockets : ImportTable where
  records := [
    ⟨⟨⟨"KERNEL32.dll", by simp, by simp⟩, by simp⟩, 0x303C, by decide, 0x3100, 0x3200⟩,
    ⟨⟨⟨"WS2_32.dll", by simp, by simp⟩, by simp⟩, 353, by decide, 0, 0x3300⟩]
  records_le := by decide
  endLookup := 7
  endThunk := 0

/-- The headers of a file with addresses of 32 bits that has its import table in the second
section. -/
def socketHeaders : File :=
  { highLoaded with
    stub := []
    machine := 0x14C
    optional := {
      wide := false, linkerVersion := 14, contentSizes := 0, entryRva := 0x1000, codeBase := 0x1000
      dataBase := 0x3000, imageBase := (0x400000 : Field 4), alignments := 0, versions := 0
      reserved := 0, imageSize := 0x4000, headerSizeAndSum := 0, subsystem := 3
      dllCharacteristics := 0, stackAndHeapSizes := 0, loaderFlags := 0
      directories := [(0, 0), (0x3000, 0x3C)], directories_le := by decide, padding := [] }
    sections := [
      ⟨⟨"INIT", by simp, by simp, by rintro c ⟨⟩; decide, by rintro c ⟨⟩; decide⟩,
        0x10, 0x1000, 0x200, 0x400, 0, 0x60000020⟩,
      ⟨⟨".rdata", by simp, by simp, by rintro c ⟨⟩; decide, by rintro c ⟨⟩; decide⟩,
        0x100, 0x3000, 0x200, 280, 0, 0x40000040⟩]
    start_lt := by decide
    size_lt := by decide
    count_lt := by decide }

/-- The headers, the table and the names. -/
def socketFile : Bytes :=
  socketHeaders.write ++ (sockets.write ++ sockets.records.flatMap fun r => r.name.write)

theorem libraries_eq_names_sockets :
    ∃ i, parse socketFile = .ok i ∧ tableStart? socketFile i.sections = some 280 ∧
      sockets.StandsAt socketFile i.sections 280 ∧
      place? i.sections 0x303C = some 340 ∧ place? i.sections 353 = none ∧
      i.libraries = ["KERNEL32.dll", "WS2_32.dll"] := by
  have hfound : (parse socketFile).toOption.map (fun i => decide (
      tableStart? socketFile i.sections = some 280 ∧ socketFile.HasAt 280 sockets.write ∧
      (∀ r ∈ sockets.records,
        socketFile.HasAt (namePlace i.sections r.rva.toNat) r.name.write) ∧
      place? i.sections 0x303C = some 340 ∧ place? i.sections 353 = none)) = some true := by
    decide +kernel
  rcases hi : parse socketFile with e | i <;> rw [hi] at hfound
  · cases hfound
  obtain ⟨htable, hat, hnames, hmapped, hplain⟩ := of_decide_eq_true (Option.some.inj hfound)
  exact ⟨i, rfl, htable, ⟨hat, hnames⟩, hmapped, hplain,
    ((libraries_eq_names socketFile i hi).2 280 htable).2.2 sockets ⟨hat, hnames⟩⟩

end Dissect.Pe
