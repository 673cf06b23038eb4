import Mathlib
import Dissect.Image.MachO
import Dissect.Proofs.Image.Reading
import Dissect.Proofs.Word

/-!
Images that do not start where their file does.

An image is read twice, once on its own and once behind other bytes. All of its records stand at
distances from its start, so both readings go the same way, and fail for the same reason. Only what
a section says about its place in the file is counted from the start of the file.
-/

namespace Dissect

/-! ### Readings behind other bytes -/

namespace Cursor

/-- The cursor in a file that has more bytes in front. -/
def behind (front : Bytes) (c : Cursor) : Cursor :=
  ⟨front ++ c.data, front.length + c.offset, c.order⟩

variable (front : Bytes) (c : Cursor)

lemma remaining_behind : (c.behind front).remaining = c.remaining := by
  simp only [remaining, behind, List.length_append]
  omega

lemma next_behind (n : ℕ) : (c.behind front).next n = c.next n := by
  unfold next Bytes.slice behind
  rw [List.drop_length_add_append c.offset]

lemma inside_behind (n : ℕ) : (c.behind front).offset + n ≤ (c.behind front).data.length ↔
    c.offset + n ≤ c.data.length := by
  simp only [behind, List.length_append]
  omega

end Cursor

namespace Reader

variable {α β : Type} {r : Reader α} {g : α → Reader β}

/-- The reading goes the same way behind any other bytes. -/
def Relative (r : Reader α) : Prop :=
  ∀ (front : Bytes) (c : Cursor),
    r.run (c.behind front) = (r.run c).map (Prod.map id (Cursor.behind front))

lemma relative_pure (a : α) : Relative (pure a) := fun _ _ => rfl

lemma relative_bytes (n : ℕ) : Relative (bytes n) := by
  intro front c
  rw [run_bytes, run_bytes, Cursor.remaining_behind, Cursor.next_behind]
  by_cases h : c.offset + n ≤ c.data.length
  · rw [if_pos h, if_pos ((c.inside_behind front n).mpr h)]
    simp [Except.map, Cursor.behind, Cursor.advance, Nat.add_assoc]
  · rw [if_neg h, if_neg (mt (c.inside_behind front n).mp h)]
    rfl

lemma Relative.bind (hr : Relative r) (hg : ∀ a, Relative (g a)) : Relative (r >>= g) := by
  intro front c
  have hfront := hr front c
  rcases hc : r.run c with e | ⟨a, c'⟩
  · rw [hc] at hfront
    rw [run_bind_of_error hfront, run_bind_of_error hc]
    rfl
  · rw [hc] at hfront
    rw [run_bind_of_ok hfront, run_bind_of_ok hc]
    exact hg a front c'

lemma relative_number (n : ℕ) : Relative (number n) := by
  intro front c
  exact (relative_bytes n).bind (fun bs => relative_pure (c.order.value bs)) front c

lemma relative_u32 : Relative u32 := relative_number 4
lemma relative_u64 : Relative u64 := relative_number 8
lemma relative_word (wide : Bool) : Relative (word wide) := relative_number _

lemma relative_wideEnd (wide : Bool) (a : α) :
    Relative (if wide then u32 >>= fun _ => pure a else pure a) := by
  cases wide with
  | false => exact relative_pure a
  | true => exact relative_u32.bind fun _ => relative_pure a

lemma Relative.runAt (hr : Relative r) (front data : Bytes) (order : ByteOrder) :
    r.runAt (front ++ data) front.length order = r.runAt data 0 order := by
  have h := hr front ⟨data, 0, order⟩
  unfold Reader.runAt
  change (r.run (Cursor.behind front ⟨data, 0, order⟩)).map Prod.fst = _
  rw [h]
  rcases r.run ⟨data, 0, order⟩ with e | ⟨a, c'⟩ <;> rfl

end Reader

/-! ### Sections that are moved -/

namespace Section

/-- The section in a file with more bytes in front. -/
def moved (distance : ℕ) (s : Section) : Section :=
  { s with rawOffset := s.rawOffset + UInt64.ofNat distance }

/-- The place of the section is a field of four bytes. -/
def Near (s : Section) : Prop := s.rawOffset.toNat < 2 ^ 32

lemma Near.toNat_moved {s : Section} (h : s.Near) {distance : ℕ} (hd : distance < 2 ^ 32) :
    (s.moved distance).rawOffset.toNat = s.rawOffset.toNat + distance := by
  unfold Near at h
  exact Word.toNat_add_ofNat (by omega)

/-- The moved section has the same data in the longer file. -/
lemma Near.data_moved {s : Section} (h : s.Near) {distance : ℕ} (hd : distance < 2 ^ 32)
    (file : Bytes) : (s.moved distance).data file = s.data (file.drop distance) := by
  have hplace := h.toNat_moved hd
  unfold data Bytes.slice
  rw [hplace, List.drop_drop, Nat.add_comm]
  rfl

end Section

namespace MachO

open Reader

/-! ### Records -/

lemma relative_header (wide : Bool) : Relative (readHeader wide) :=
  relative_u32.bind fun _ => relative_u32.bind fun _ => relative_u32.bind fun _ =>
    relative_u32.bind fun _ => relative_u32.bind fun _ => relative_u32.bind fun _ =>
    relative_u32.bind fun _ => relative_wideEnd wide _

lemma relative_segment (wide : Bool) : Relative (readSegment wide) := by
  have hword := relative_word wide
  exact (relative_bytes 16).bind fun _ => hword.bind fun _ => hword.bind fun _ =>
    hword.bind fun _ => hword.bind fun _ => relative_u32.bind fun _ => relative_u32.bind fun _ =>
    relative_u32.bind fun _ => relative_u32.bind fun _ => relative_pure _

lemma relative_sectionHeader (wide : Bool) : Relative (readSectionHeader wide) := by
  have hword := relative_word wide
  exact (relative_bytes 16).bind fun _ => (relative_bytes 16).bind fun _ => hword.bind fun _ =>
    hword.bind fun _ => relative_u32.bind fun _ => relative_u32.bind fun _ =>
    relative_u32.bind fun _ => relative_u32.bind fun _ => relative_u32.bind fun _ =>
    relative_u32.bind fun _ => relative_u32.bind fun _ => relative_wideEnd wide _

lemma relative_command : Relative readCommand :=
  relative_u32.bind fun _ => relative_u32.bind fun _ => relative_pure _

lemma yields_sectionHeader (wide : Bool) :
    Yields (readSectionHeader wide) fun s => s.offset < 2 ^ 32 := by
  refine .after fun name => .after fun _ => .after fun address => .after fun size =>
    .bind (yields_number (n := 4) (by decide)) fun offset hoffset => .after fun _ =>
    .after fun _ => .after fun _ => .after fun flags => .after fun _ => .after fun _ => ?_
  cases wide with
  | false => exact yields_pure hoffset
  | true => exact .after fun _ => yields_pure hoffset

lemma offset_lt_of_mem (wide : Bool) (count : ℕ) (c : Cursor) :
    ∀ s ∈ (sectionHeadersFrom wide count c).1, s.offset < 2 ^ 32 := by
  induction count generalizing c with
  | zero => simp [sectionHeadersFrom]
  | succ count ih =>
    rcases h : (readSectionHeader wide).run c with e | ⟨s, c'⟩
    · simp [sectionHeadersFrom, h]
    · simp only [sectionHeadersFrom, h]
      exact List.forall_mem_cons.mpr ⟨yields_sectionHeader wide c c' s h, ih c'⟩

lemma toNat_rawOffset {s : SectionHeader} (hs : s.offset < 2 ^ 32) (segment : Segment) :
    (sectionOf 0 segment s).rawOffset.toNat = s.offset := by
  have hword : (UInt64.ofNat s.offset).toNat = s.offset := Word.toNat_ofNat_of_lt (by omega)
  have hzero : (UInt64.ofNat 0).toNat = 0 := rfl
  change (Word.addSaturating (UInt64.ofNat 0) (UInt64.ofNat s.offset)).toNat = s.offset
  rw [Word.toNat_addSaturating, hword, hzero]
  omega

/-- A section of an image that starts at `base` is the moved section of the image on its own. -/
lemma sectionOf_eq_moved {base : ℕ} (hbase : base < 2 ^ 32) {s : SectionHeader}
    (hs : s.offset < 2 ^ 32) (segment : Segment) :
    sectionOf base segment s = (sectionOf 0 segment s).moved base := by
  -- both numbers have four bytes, so neither the saturating nor the plain sum leaves the word
  have hplace : (sectionOf base segment s).rawOffset =
      (sectionOf 0 segment s).rawOffset + UInt64.ofNat base := by
    have h0 := toNat_rawOffset hs segment
    have hb : (UInt64.ofNat base).toNat = base := Word.toNat_ofNat_of_lt (by omega)
    have hoff : (UInt64.ofNat s.offset).toNat = s.offset := Word.toNat_ofNat_of_lt (by omega)
    rw [← UInt64.toNat_inj, Word.toNat_add_ofNat (by omega), h0]
    change (Word.addSaturating (UInt64.ofNat base) (UInt64.ofNat s.offset)).toNat = _
    rw [Word.toNat_addSaturating, hb, hoff]
    omega
  rw [Section.moved, ← hplace]
  rfl

/-! ### Load commands -/

/-- What the load commands say in a file with more bytes in front. -/
def Commands.moved (distance : ℕ) (found : Commands) : Commands :=
  { found with sections := found.sections.map (Section.moved distance) }

section

variable {front : Bytes} {c : Cursor} {found : Commands}

lemma sectionHeadersFrom_behind (front : Bytes) (wide : Bool) (count : ℕ) (c : Cursor) :
    sectionHeadersFrom wide count (c.behind front) =
      Prod.map id (Option.map (Cursor.behind front)) (sectionHeadersFrom wide count c) := by
  induction count generalizing c with
  | zero => rfl
  | succ count ih =>
    have hfront := relative_sectionHeader wide front c
    rcases h : (readSectionHeader wide).run c with e | ⟨s, c'⟩ <;> rw [h] at hfront
    · simp [sectionHeadersFrom, hfront, h, Except.map]
    · simp [sectionHeadersFrom, hfront, h, Except.map, ih c']

lemma segmentCommand_behind (hfront : front.length < 2 ^ 32) (wide : Bool) (c : Cursor)
    (found : Commands) :
    segmentCommand front.length wide (c.behind front) (found.moved front.length) =
      Prod.map (Commands.moved front.length) id (segmentCommand 0 wide c found) := by
  have hsegment := relative_segment wide front c
  rcases h : (readSegment wide).run c with e | ⟨segment, c'⟩ <;> rw [h] at hsegment
  · simp [segmentCommand, hsegment, h, Except.map]
  · have hsections : (sectionHeadersFrom wide segment.sectionCount c').1.map
        (sectionOf front.length segment) =
        ((sectionHeadersFrom wide segment.sectionCount c').1.map (sectionOf 0 segment)).map
          (Section.moved front.length) := by
      rw [List.map_map]
      refine List.map_congr_left fun s hs => ?_
      exact sectionOf_eq_moved hfront (offset_lt_of_mem wide _ c' s hs) segment
    simp [segmentCommand, hsegment, h, Except.map, sectionHeadersFrom_behind, Commands.moved,
      hsections]

lemma entryCommand_behind (front : Bytes) (distance : ℕ) (c : Cursor) (found : Commands) :
    entryCommand (c.behind front) (found.moved distance) =
      Prod.map (Commands.moved distance) id (entryCommand c found) := by
  have hu64 := relative_u64 front c
  rcases h : u64.run c with e | ⟨offset, c'⟩ <;> rw [h] at hu64
  · simp [entryCommand, hu64, h, Except.map]
  · simp [entryCommand, hu64, h, Except.map, Commands.moved]

lemma command_behind (hfront : front.length < 2 ^ 32) (number : ℕ) (c : Cursor)
    (found : Commands) :
    command front.length number (c.behind front) (found.moved front.length) =
      Prod.map (Commands.moved front.length) id (command 0 number c found) := by
  unfold command
  split_ifs
  · exact segmentCommand_behind hfront false c found
  · exact segmentCommand_behind hfront true c found
  · exact entryCommand_behind front _ c found
  · rfl

/-- The walk goes to places that commands name as distances, so it goes the same way. -/
lemma commandsFrom_behind (hfront : front.length < 2 ^ 32) (count : ℕ) (c : Cursor)
    (found : Commands) :
    commandsFrom front.length count (c.behind front) (found.moved front.length) =
      (commandsFrom 0 count c found).moved front.length := by
  induction count generalizing c found with
  | zero => rfl
  | succ count ih =>
    have hread := relative_command front c
    rcases h : readCommand.run c with e | ⟨⟨number, size⟩, c'⟩ <;> rw [h] at hread
    · simp [commandsFrom, hread, h, Except.map]
    · have hcommand := command_behind hfront number c' found
      have hnext : ({ c.behind front with offset := (c.behind front).offset + size } : Cursor) =
          Cursor.behind front { c with offset := c.offset + size } := by
        simp [Cursor.behind, Nat.add_assoc]
      simp only [commandsFrom, hread, h, Except.map, Prod.map, id_eq]
      split
      · rfl
      · rw [hcommand, hnext]
        -- a command that is cut off ends both walks
        rcases command 0 number c' found with ⟨found', _ | _⟩
        · rfl
        · exact ih _ found'

lemma near_segmentCommand (wide : Bool) (c : Cursor) (hfound : ∀ s ∈ found.sections, s.Near) :
    ∀ s ∈ (segmentCommand 0 wide c found).1.sections, s.Near := by
  unfold segmentCommand
  split
  · next segment c' _ =>
    refine List.forall_mem_append.mpr ⟨hfound, List.forall_mem_map.mpr fun s hs => ?_⟩
    have hoffset := offset_lt_of_mem wide _ c' s hs
    unfold Section.Near
    rwa [toNat_rawOffset hoffset segment]
  · exact hfound

lemma near_command (number : ℕ) (c : Cursor) (hfound : ∀ s ∈ found.sections, s.Near) :
    ∀ s ∈ (command 0 number c found).1.sections, s.Near := by
  unfold command
  split_ifs
  · exact near_segmentCommand false c hfound
  · exact near_segmentCommand true c hfound
  · unfold entryCommand
    split <;> exact hfound
  · exact hfound

/-- All sections stay near in every command, so they do in the whole walk. -/
lemma near_commandsFrom (count : ℕ) (c : Cursor) (hfound : ∀ s ∈ found.sections, s.Near) :
    ∀ s ∈ (commandsFrom 0 count c found).sections, s.Near := by
  induction count generalizing c found with
  | zero => exact hfound
  | succ count ih =>
    rcases h : readCommand.run c with e | ⟨⟨number, size⟩, c'⟩
    · simpa [commandsFrom, h] using hfound
    · have hcommand := near_command number c' hfound
      simp only [commandsFrom, h]
      split
      · exact hfound
      · rcases hp : command 0 number c' found with ⟨found', _ | _⟩ <;> rw [hp] at hcommand
        · exact hcommand
        · exact ih _ hcommand

end

/-! ### Images -/

lemma imageAt_eq (data : Bytes) (base : ℕ) (layout : Layout) :
    imageAt data base layout = ((readHeader layout.wide).run ⟨data, base, layout.order⟩).map
      fun (header, c) =>
        assemble layout.order header (commandsFrom base header.commandCount c {}) := by
  unfold imageAt
  rcases (readHeader layout.wide).run ⟨data, base, layout.order⟩ with e | ⟨header, c⟩ <;> rfl

/-- The image that starts at a position, once its magic number is read. -/
lemma thinAt_eq {data : Bytes} {base magic : ℕ} (h : magicAt data base = .ok magic) :
    thinAt data base = layout? magic >>= imageAt data base := by
  unfold thinAt
  rw [h]
  rfl

/-- The image in a file with more bytes in front. -/
def movedImage (distance : ℕ) (i : Image) : Image :=
  { i with sections := i.sections.map (Section.moved distance) }

lemma imageAt_behind {front : Bytes} (hfront : front.length < 2 ^ 32) (data : Bytes)
    (layout : Layout) :
    imageAt (front ++ data) front.length layout =
      (imageAt data 0 layout).map (movedImage front.length) := by
  have hheader : (readHeader layout.wide).run ⟨front ++ data, front.length, layout.order⟩ = _ :=
    relative_header layout.wide front ⟨data, 0, layout.order⟩
  rw [imageAt_eq, imageAt_eq, hheader]
  rcases (readHeader layout.wide).run ⟨data, 0, layout.order⟩ with e | ⟨header, c⟩
  · rfl
  · have hcommands : commandsFrom front.length header.commandCount (c.behind front) {} = _ :=
      commandsFrom_behind hfront header.commandCount c {}
    simp only [Except.map, Prod.map, id_eq, hcommands]
    rfl

/-- An image is read behind other bytes as it is on its own, and its sections are moved. -/
lemma thinAt_behind (front : Bytes) (hfront : front.length < 2 ^ 32) (data : Bytes) :
    thinAt (front ++ data) front.length = (thinAt data 0).map (movedImage front.length) := by
  have hmagic : magicAt (front ++ data) front.length = magicAt data 0 :=
    relative_u32.runAt front data .big
  rcases h : magicAt data 0 with e | magic
  · simp [thinAt, hmagic, h, bind, Except.bind, Except.map]
  · rw [thinAt_eq (hmagic.trans h), thinAt_eq h]
    rcases layout? magic with e | layout
    · rfl
    · exact imageAt_behind hfront data layout

/-- An image that can be read is assembled from a header and the walk behind it. -/
lemma thinAt_eq_ok {data : Bytes} {base : ℕ} {i : Image} (h : thinAt data base = .ok i) :
    ∃ magic layout header c, magicAt data base = .ok magic ∧ layout? magic = .ok layout ∧
      (readHeader layout.wide).run ⟨data, base, layout.order⟩ = .ok (header, c) ∧
      i = assemble layout.order header (commandsFrom base header.commandCount c {}) := by
  rcases hm : magicAt data base with e | magic
  · simp [thinAt, hm, bind, Except.bind] at h
  rw [thinAt_eq hm] at h
  rcases hl : layout? magic with e | layout <;> rw [hl] at h
  · cases h
  have himage : imageAt data base layout = .ok i := h
  rw [imageAt_eq] at himage
  rcases hr : (readHeader layout.wide).run ⟨data, base, layout.order⟩ with e | ⟨header, c⟩ <;>
    rw [hr] at himage
  · cases himage
  · cases himage
    exact ⟨magic, layout, header, c, rfl, hl, hr, rfl⟩

lemma exists_assemble {data : Bytes} {i : Image} (h : thinAt data 0 = .ok i) :
    ∃ order header c, i = assemble order header (commandsFrom 0 header.commandCount c {}) := by
  obtain ⟨-, layout, header, c, -, -, -, hi⟩ := thinAt_eq_ok h
  exact ⟨layout.order, header, c, hi⟩

lemma near_of_thinAt {data : Bytes} {i : Image} (h : thinAt data 0 = .ok i) :
    ∀ s ∈ i.sections, s.Near := by
  obtain ⟨order, header, c, rfl⟩ := exists_assemble h
  exact near_commandsFrom header.commandCount c (by simp)

end MachO

end Dissect
