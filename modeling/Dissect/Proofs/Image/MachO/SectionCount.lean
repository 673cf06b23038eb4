import Mathlib
import Dissect.Proofs.Image.MachO.Universal
import Dissect.Proofs.Image.Overlay

/-!
How many sections a file can have.

A segment command counts its section headers, and they are read behind it as far as the file goes.
The next command is read where the size of this one says, which need not be behind those headers. So
the same bytes can be read as headers of several commands. As long as every command has its headers
inside its size, a file has no more sections than it has room for; otherwise it may have as many
more as the headers reach over the ends of their commands. Commands have at least eight bytes, so
the number of sections is at most quadratic in the length of the file.
-/

namespace Dissect.MachO

open Reader

/-! ### The sections of a command -/

/-- The number of sections that a command adds whose fields start at the cursor. -/
def sectionsIn (number : ℕ) (c : Cursor) : ℕ := (command 0 number c {}).1.sections.length

/-- The command is not cut short by the end of the file. -/
def isWhole (number : ℕ) (c : Cursor) : Bool := (command 0 number c {}).2

/-- What a command adds does not depend on what was found before. -/
lemma command_eq (base number : ℕ) (c : Cursor) (found : Commands) :
    (command base number c found).1.sections.length =
      found.sections.length + sectionsIn number c ∧
    (command base number c found).2 = isWhole number c := by
  have hsegment (wide : Bool) : (segmentCommand base wide c found).1.sections.length =
      found.sections.length + (segmentCommand 0 wide c {}).1.sections.length ∧
      (segmentCommand base wide c found).2 = (segmentCommand 0 wide c {}).2 := by
    unfold segmentCommand
    split <;> simp
  have hentry : (entryCommand c found).1.sections.length = found.sections.length +
      (entryCommand c {}).1.sections.length ∧ (entryCommand c found).2 = (entryCommand c {}).2 := by
    unfold entryCommand
    split <;> simp
  unfold sectionsIn isWhole command
  split_ifs
  · exact hsegment false
  · exact hsegment true
  · exact hentry
  · simp

lemma length_sectionHeadersFrom (wide : Bool) (count : ℕ) (c : Cursor)
    (h : 0 < (sectionHeadersFrom wide count c).1.length) :
    c.offset + (if wide then 80 else 68) * (sectionHeadersFrom wide count c).1.length ≤
      c.data.length := by
  induction count generalizing c with
  | zero => simp [sectionHeadersFrom] at h
  | succ count ih =>
    rcases hread : (readSectionHeader wide).run c with e | ⟨s, c'⟩
    · simp [sectionHeadersFrom, hread] at h
    · obtain ⟨f, hf⟩ := fixed_sectionHeader wide
      obtain ⟨hc, -, rfl⟩ := hf.of_run hread
      rw [Cursor.has_iff (by split <;> decide)] at hc
      simp only [sectionHeadersFrom, hread, List.length_cons, Nat.mul_succ]
      by_cases hmore : 0 < (sectionHeadersFrom wide count
          (c.advance (if wide then 80 else 68))).1.length
      · have hrest := ih _ hmore
        simp only [Cursor.advance] at hrest ⊢
        omega
      · rw [Nat.pos_iff_ne_zero, not_not] at hmore
        rw [hmore]
        omega

/-- The bytes from the start of a segment command to the end of its first section headers. -/
def extent (number sections : ℕ) : ℕ :=
  if number = 0x19 then 72 + 80 * sections else 56 + 68 * sections

lemma le_extent (number sections : ℕ) : 56 + 68 * sections ≤ extent number sections := by
  unfold extent
  split <;> omega

lemma length_segmentCommand (wide : Bool) (c : Cursor)
    (h : 0 < (segmentCommand 0 wide c {}).1.sections.length) :
    c.offset + (if wide then 64 else 48) +
      (if wide then 80 else 68) * (segmentCommand 0 wide c {}).1.sections.length ≤
        c.data.length := by
  unfold segmentCommand at h ⊢
  rcases hread : (readSegment wide).run c with e | ⟨segment, c'⟩ <;> rw [hread] at h
  · simp at h
  · obtain ⟨f, hf⟩ := fixed_segment wide
    obtain ⟨-, -, rfl⟩ := hf.of_run hread
    simp only [List.nil_append, List.length_map] at h ⊢
    exact length_sectionHeadersFrom wide segment.sectionCount _ h

/-- The section headers of a command are all in the file. -/
lemma extent_le {number : ℕ} {c : Cursor} (h : 0 < sectionsIn number (c.advance 8)) :
    c.offset + extent number (sectionsIn number (c.advance 8)) ≤ c.data.length := by
  by_cases hnarrow : number = 0x1
  · subst hnarrow
    have hlen : c.offset + 8 + 48 + 68 * sectionsIn 0x1 (c.advance 8) ≤ c.data.length :=
      length_segmentCommand false (c.advance 8) h
    rw [extent, if_neg (by decide)]
    omega
  by_cases hwide : number = 0x19
  · subst hwide
    have hlen : c.offset + 8 + 64 + 80 * sectionsIn 0x19 (c.advance 8) ≤ c.data.length :=
      length_segmentCommand true (c.advance 8) h
    rw [extent, if_pos rfl]
    omega
  -- no other command has sections
  unfold sectionsIn command at h
  rw [if_neg hnarrow, if_neg hwide] at h
  split at h
  · simp [sections_entryCommand] at h
  · simp at h

/-! ### The walk over the commands -/

/-- A command that the walk takes in. -/
structure Taken where
  number : ℕ
  /-- The size that it gives for itself. -/
  size : ℕ
  /-- The number of its sections. -/
  sections : ℕ

/-- How far the section headers of a command reach over its end. -/
def Taken.overrun (t : Taken) : ℕ :=
  if t.sections = 0 then 0 else extent t.number t.sections - t.size

/-- The commands that the walk takes in from the cursor on. -/
def takenFrom : ℕ → Cursor → List Taken
  | 0, _ => []
  | count + 1, c =>
    match readCommand.run c with
    | .ok ((number, size), c') =>
      if size < 8 then []
      else ⟨number, size, sectionsIn number c'⟩ ::
        if isWhole number c' then takenFrom count { c with offset := c.offset + size } else []
    | .error _ => []

/-- The sections are those of the commands. -/
lemma length_commandsFrom (base count : ℕ) (c : Cursor) (found : Commands) :
    (commandsFrom base count c found).sections.length =
      found.sections.length + ((takenFrom count c).map (·.sections)).sum := by
  induction count generalizing c found with
  | zero => rfl
  | succ count ih =>
    rcases hread : readCommand.run c with e | ⟨⟨number, size⟩, c'⟩
    · simp [commandsFrom, takenFrom, hread]
    · obtain ⟨hlen, hwhole⟩ := command_eq base number c' found
      simp only [commandsFrom, takenFrom, hread]
      split
      · rfl
      · rcases hp : command base number c' found with ⟨found', _ | _⟩ <;>
          rw [hp] at hlen hwhole <;> dsimp only at hlen hwhole ⊢
        · simp [← hwhole, hlen]
        · rw [ih, if_pos hwhole.symm, hlen, List.map_cons, List.sum_cons, Nat.add_assoc]

/-- One step of the walk: it ends in front of a command, with it, or goes on where its size says. -/
lemma takenFrom_succ (count : ℕ) (c : Cursor) :
    takenFrom (count + 1) c = [] ∨ ∃ t : Taken, 8 ≤ t.size ∧
      (0 < t.sections → c.offset + extent t.number t.sections ≤ c.data.length) ∧
      (takenFrom (count + 1) c = [t] ∨
        takenFrom (count + 1) c = t :: takenFrom count (c.advance t.size)) := by
  rcases hread : readCommand.run c with e | ⟨⟨number, size⟩, c'⟩
  · exact .inl (by simp [takenFrom, hread])
  obtain ⟨f, hf⟩ := fixed_command
  obtain ⟨-, -, rfl⟩ := hf.of_run hread
  simp only [takenFrom, hread]
  split
  · exact .inl rfl
  · next hsize =>
    refine .inr ⟨⟨number, size, sectionsIn number (c.advance 8)⟩, Nat.le_of_not_lt hsize,
      extent_le, ?_⟩
    split
    · exact .inr rfl
    · exact .inl rfl

/-- The headers of a command take up its size and what they reach over its end. -/
lemma Taken.le_size_add_overrun (t : Taken) : 68 * t.sections ≤ t.size + t.overrun := by
  have hextent := le_extent t.number t.sections
  unfold overrun
  split <;> omega

/-- The walk never goes back, so bytes are counted twice only where headers reach over the end of
their command. -/
lemma sum_sections_le (count : ℕ) (c : Cursor) :
    68 * ((takenFrom count c).map (·.sections)).sum ≤
      (c.data.length - c.offset) + ((takenFrom count c).map (·.overrun)).sum := by
  induction count generalizing c with
  | zero => simp [takenFrom]
  | succ count ih =>
    rcases takenFrom_succ count c with hnone | ⟨t, hsize, hextent, hlast | hmore⟩
    · simp [hnone]
    · have hle := le_extent t.number t.sections
      simp only [hlast, List.map_cons, List.map_nil, List.sum_cons, List.sum_nil]
      omega
    · have hrest := ih (c.advance t.size)
      have hle := le_extent t.number t.sections
      have hcommand := t.le_size_add_overrun
      simp only [hmore, List.map_cons, List.sum_cons, Nat.mul_add]
      simp only [Cursor.advance] at hrest ⊢
      omega

/-- Headers in `r` bytes, followed by the commands that start at least eight bytes later. -/
lemma add_le_quadratic {r k m : ℕ} (hk : 68 * k ≤ r) (hm : 1088 * m ≤ (r - 8) * r) :
    1088 * (k + m) ≤ r * (r + 8) := by
  rcases Nat.lt_or_ge r 8 with hr | hr
  · have hk : k = 0 := by omega
    have hr : r - 8 = 0 := by omega
    rw [hr, Nat.zero_mul] at hm
    have hm : m = 0 := by omega
    simp [hk, hm]
  · obtain ⟨q, rfl⟩ := Nat.exists_eq_add_of_le hr
    calc 1088 * (k + m) = 16 * (68 * k) + 1088 * m := by ring
      _ ≤ 16 * (8 + q) + (8 + q - 8) * (8 + q) := by gcongr
      _ = (8 + q) * (8 + q + 8) := by rw [Nat.add_sub_cancel_left]; ring

/-- Each command has its headers in the rest of the file, which gets shorter from one command to the
next. -/
lemma sum_sections_quadratic (count : ℕ) (c : Cursor) :
    1088 * ((takenFrom count c).map (·.sections)).sum ≤
      (c.data.length - c.offset - 56) * (c.data.length - c.offset - 48) := by
  induction count generalizing c with
  | zero => simp [takenFrom]
  | succ count ih =>
    rcases takenFrom_succ count c with hnone | ⟨t, hsize, hextent, htaken⟩
    · simp [hnone]
    have hle := le_extent t.number t.sections
    have hrest : _ ≤ (c.data.length - (c.offset + t.size) - 56) *
        (c.data.length - (c.offset + t.size) - 48) := ih (c.advance t.size)
    obtain ⟨m, hsum, hm⟩ : ∃ m, ((takenFrom (count + 1) c).map (·.sections)).sum =
        t.sections + m ∧ 1088 * m ≤ (c.data.length - (c.offset + t.size) - 56) *
          (c.data.length - (c.offset + t.size) - 48) := by
      rcases htaken with hlast | hmore
      · exact ⟨0, by simp [hlast], by simp⟩
      · exact ⟨_, by rw [hmore, List.map_cons, List.sum_cons], hrest⟩
    rw [hsum]
    by_cases hroom : c.offset + 56 ≤ c.data.length
    · obtain ⟨r, hr⟩ := Nat.exists_eq_add_of_le hroom
      have hright : c.data.length - c.offset - 48 = c.data.length - c.offset - 56 + 8 := by omega
      rw [hright]
      refine add_le_quadratic (by omega) (hm.trans (Nat.mul_le_mul ?_ ?_)) <;> omega
    · have hzero : c.data.length - (c.offset + t.size) - 56 = 0 := by omega
      rw [hzero, Nat.zero_mul] at hm
      omega

/-! ### Files -/

/-- Where the image that is read starts. -/
def imageStart (d : Bytes) : Except ParseError ℕ := do
  if (← magicAt d 0) = universalMagic then sliceOffset d else return 0

/-- The number of load commands of the image that is read, and where they start. -/
def walkOf (d : Bytes) : Except ParseError (ℕ × Cursor) := do
  let base ← imageStart d
  let layout ← layout? (← magicAt d base)
  let (header, c) ← (readHeader layout.wide).run ⟨d, base, layout.order⟩
  return (header.commandCount, c)

/-- The load commands that are taken in. -/
def takenCommands (d : Bytes) : List Taken :=
  match walkOf d with
  | .ok (count, c) => takenFrom count c
  | .error _ => []

lemma parse_eq_ok {d : Bytes} {i : Image} (hi : parse d = .ok i) :
    ∃ base j, imageStart d = .ok base ∧ thinAt d base = .ok j ∧ i.sections = j.sections := by
  unfold parse at hi
  unfold imageStart
  rcases hmagic : magicAt d 0 with e | magic <;> rw [hmagic] at hi
  · cases hi
  change (if _ then _ else _) = _ at hi
  change ∃ base j, (if magic = universalMagic then _ else _) = _ ∧ _
  split at hi
  · next huniversal =>
    rw [if_pos huniversal]
    rcases hbase : sliceOffset d with e | base <;> rw [hbase] at hi
    · cases hi
    change (thinAt d base >>= _) = _ at hi
    rcases hthin : thinAt d base with e | j <;> rw [hthin] at hi
    · cases hi
    cases hi
    exact ⟨base, j, rfl, hthin, rfl⟩
  · next hthin =>
    rw [if_neg hthin]
    exact ⟨0, i, rfl, hi, rfl⟩

/-- The sections of a file are those of its load commands, which stand behind its header. -/
lemma exists_walkOf {d : Bytes} {i : Image} (hi : parse d = .ok i) :
    ∃ count c, walkOf d = .ok (count, c) ∧ c.data = d ∧ 28 ≤ c.offset ∧
      i.sections.length = ((takenFrom count c).map (·.sections)).sum := by
  obtain ⟨base, j, hbase, hthin, hsections⟩ := parse_eq_ok hi
  obtain ⟨magic, layout, header, c, hmagic, hlayout, hheader, rfl⟩ := thinAt_eq_ok hthin
  have hwalk : walkOf d = .ok (header.commandCount, c) := by
    simp [walkOf, hbase, hmagic, hlayout, hheader, bind, Except.bind, pure, Except.pure]
  obtain ⟨f, hf⟩ := fixed_header layout.wide
  obtain ⟨-, -, hc⟩ := hf.of_run hheader
  have hcount := length_commandsFrom base header.commandCount c {}
  refine ⟨header.commandCount, c, hwalk, by rw [hc]; rfl, ?_, ?_⟩
  · rw [hc, Cursor.advance]
    dsimp only
    split <;> omega
  · rw [hsections]
    exact hcount.trans (Nat.zero_add _)

/-- **The sections of a file are bounded by what its load commands declare.** They are as many as
the commands together have. If no command has section headers that reach over its end, they take up
no more than the file, with 68 bytes or more for each; otherwise no more than the file and all that
is read over the ends of commands. In any case there are at most quadratically many. -/
theorem sections_bounded (d : Bytes) (i : Image) (hi : parse d = .ok i) :
    i.sections.length = ((takenCommands d).map (·.sections)).sum ∧
    ((∀ t ∈ takenCommands d, t.overrun = 0) → 68 * i.sections.length ≤ d.length) ∧
    68 * i.sections.length ≤ d.length + ((takenCommands d).map (·.overrun)).sum ∧
    1088 * i.sections.length ≤ (d.length - 84) * (d.length - 76) := by
  obtain ⟨count, c, hwalk, rfl, hoffset, hcount⟩ := exists_walkOf hi
  have htaken : takenCommands c.data = takenFrom count c := by rw [takenCommands, hwalk]
  have hlinear := sum_sections_le count c
  have hquadratic := sum_sections_quadratic count c
  rw [htaken, hcount]
  refine ⟨rfl, fun hnone => ?_, by omega, hquadratic.trans (Nat.mul_le_mul ?_ ?_)⟩
  · have hzero : ((takenFrom count c).map (·.overrun)).sum = 0 := by
      simpa [List.sum_eq_zero_iff] using hnone
    omega
  · omega
  · omega

/-- A segment whose two section headers end with it. -/
theorem sections_bounded_twoSections :
    (∃ i, parse (Image.cutFile ++ [0]) = .ok i ∧ i.sections.length = 2 ∧
      68 * i.sections.length ≤ (Image.cutFile ++ [0]).length) ∧
    ∀ t ∈ takenCommands (Image.cutFile ++ [0]), t.overrun = 0 := by
  have hcount : (parse (Image.cutFile ++ [0])).toOption.map (·.sections.length) = some 2 := by
    decide +kernel
  have hnone : ∀ t ∈ takenCommands (Image.cutFile ++ [0]), t.overrun = 0 := by decide +kernel
  rcases hi : parse (Image.cutFile ++ [0]) with e | i <;> rw [hi] at hcount
  · cases hcount
  · exact ⟨⟨i, rfl, Option.some.inj hcount, (sections_bounded _ i hi).2.1 hnone⟩, hnone⟩

/-- Three commands of eight bytes each, every one of which counts one section. Its header is read in
bytes that are part of the headers of the others. -/
def overlappingFile : Bytes :=
  [0xCE, 0xFA, 0xED, 0xFE, 7, 0, 0, 0, 3, 0, 0, 0, 2, 0, 0, 0, 3, 0, 0, 0, 24, 0, 0, 0] ++
    List.replicate 4 0 ++ (List.replicate 17 [1, 0, 0, 0, 8, 0, 0, 0]).flatten ++ [1, 0, 0, 0]

/-- The file has 168 bytes, which is not enough for three section headers. -/
theorem sections_exceed_file :
    ∃ i, parse overlappingFile = .ok i ∧ i.sections.length = 3 ∧
      ¬68 * i.sections.length ≤ overlappingFile.length := by
  have hcount : (parse overlappingFile).toOption.map (·.sections.length) = some 3 := by
    decide +kernel
  rcases hi : parse overlappingFile with e | i <;> rw [hi] at hcount
  · cases hcount
  · have hthree : i.sections.length = 3 := Option.some.inj hcount
    exact ⟨i, rfl, hthree, by rw [hthree]; decide +kernel⟩

end Dissect.MachO
