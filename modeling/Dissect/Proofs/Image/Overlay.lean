import Mathlib
import Dissect.Image.Parse
import Dissect.Proofs.Image.Acceptance
import Dissect.Proofs.Image.Reading
import Dissect.Proofs.Image.Records

/-!
Files that go on.

The same file is read twice, once with more bytes behind its end. Both readings go the same way up
to the first read that the shorter file cuts off. What the shorter file gave up to there, the longer
one gives too; after it only the longer one goes on. So bytes behind the end add sections at most,
and a cut takes away sections at most.
-/

namespace Dissect

open Reader

/-- What the header of a section says without its name: all but the name, and the kind that is told
from it. -/
def Section.outline (s : Section) : Section := { s with name := "", kind := .unknown }

namespace Image

/-- The second image is that of a file which goes on where that of the first one ends. Names of
sections stand apart from the sections in one of the formats, and may come into reach only then. -/
structure Continues (i j : Image) : Prop where
  format : j.format = i.format
  architecture : j.architecture = i.architecture
  entry : i.format = .pe ∨ i.format = .elf →
    j.entryPoint = i.entryPoint ∧ j.imageBase = i.imageBase
  sections : i.format = .pe ∨ i.format = .machO → i.sections <+: j.sections
  outlines : i.sections.map Section.outline <+: j.sections.map Section.outline

end Image

/-! ### Readings in a longer file -/

namespace Reader

variable {α β : Type} {r t : Reader α} {g : α → Reader β} {c c' : Cursor} {a : α} {n : ℕ}
  {R : α → α → Prop} {S : β → β → Prop} {e : Bytes}

lemma Fixed.run_extend (hr : Fixed r n) (h : r.run c = .ok (a, c')) (e : Bytes) :
    r.run (c.extend e) = .ok (a, c'.extend e) := by
  obtain ⟨f, hf⟩ := hr
  by_cases hc : c.Has n
  · have hsame := (hf.ok c hc).symm.trans h
    rw [hf.ok _ (hc.extend e), hc.next_extend]
    cases hsame
    rfl
  · obtain ⟨err, he, -⟩ := hf.error c hc
    rw [h] at he
    cases he

lemma Fixed.runAt_append (hr : Fixed r n) {d : Bytes} {offset : ℕ} {order : ByteOrder}
    (h : r.runAt d offset order = .ok a) (e : Bytes) : r.runAt (d ++ e) offset order = .ok a := by
  unfold runAt at h ⊢
  rcases hrun : r.run ⟨d, offset, order⟩ with err | ⟨b, c'⟩
  · rw [hrun] at h
    cases h
  · rw [hrun] at h
    have hlonger : r.run ⟨d ++ e, offset, order⟩ = .ok (b, c'.extend e) := hr.run_extend hrun e
    rw [hlonger]
    exact h

/-- A reading that succeeds does so in every longer file too, with a value that stands in a given
relation to the first one. -/
def Survives (R : α → α → Prop) (r : Reader α) : Prop :=
  ∀ (c c' : Cursor) (a : α) (e : Bytes), r.run c = .ok (a, c') →
    ∃ b, r.run (c.extend e) = .ok (b, c'.extend e) ∧ R a b

lemma Fixed.survives (hr : Fixed r n) : Survives Eq r :=
  fun _ _ a e h => ⟨a, hr.run_extend h e, rfl⟩

lemma survives_pure (h : R a a) : Survives R (pure a) := by
  intro c c' b e hrun
  cases hrun
  exact ⟨a, rfl, h⟩

lemma Survives.bind (hr : Survives Eq r) (hg : ∀ a, Survives S (g a)) :
    Survives S (r >>= g) := by
  intro c c' b e h
  obtain ⟨a, c₁, h₁, h₂⟩ := run_bind_eq_ok.mp h
  obtain ⟨_, h₁', rfl⟩ := hr c c₁ a e h₁
  rw [run_bind_of_ok h₁']
  exact hg a c₁ c' b e h₂

lemma Survives.map {k : α → β} (hr : Survives R r) (hk : ∀ a b, R a b → S (k a) (k b)) :
    Survives S (r >>= fun a => pure (k a)) := by
  intro c c' b e h
  obtain ⟨a, c₁, h₁, h₂⟩ := run_bind_eq_ok.mp h
  cases h₂
  obtain ⟨a', h₁', hR⟩ := hr c c' a e h₁
  exact ⟨k a', run_bind_of_ok h₁' _, hk a a' hR⟩

lemma Survives.seek {g : Unit → Reader β} {offset : ℕ} (hg : Survives S (g ())) :
    Survives S (Reader.seek offset >>= g) :=
  fun c c' b e h => hg { c with offset := offset } c' b e h

/-- A check that throws. -/
lemma Survives.guard {Q : Prop} [Decidable Q] (ht : ∀ c, ∃ err, t.run c = .error err)
    (hr : Survives R r) : Survives R (if Q then t else r) := by
  split
  · intro c c' a e h
    obtain ⟨err, he⟩ := ht c
    rw [h] at he
    cases he
  · exact hr

end Reader

/-! ### Portable executables -/

namespace Pe

/-- The headers are equal but for data directories, which may be cut off. -/
def OptionalHeader.Same (h h' : OptionalHeader) : Prop :=
  ∃ directories, h' = { h with directories := directories }

def Header.Same (h h' : Header) : Prop :=
  h'.file = h.file ∧ h'.tableOffset = h.tableOffset ∧ h.optional.Same h'.optional

lemma survives_optionalFields : Survives Eq readOptionalFields := by
  obtain ⟨tail, htail, heq⟩ := optionalFields_eq
  rw [heq]
  exact .bind fixed_u16.survives fun magic => .guard (fun _ => ⟨_, rfl⟩) (htail magic).survives

/-- Directories that cannot be read do not matter for the rest of the optional header. -/
lemma run_optionalHeader {c c' : Cursor} {fields : OptionalHeader}
    (h : readOptionalFields.run c = .ok (fields, c')) (size : ℕ) :
    ∃ directories,
      (readOptionalHeader size).run c = .ok ({ fields with directories := directories }, c') := by
  unfold readOptionalHeader
  rw [run_get_bind, run_bind_of_ok h, run_get_bind]
  split
  · exact ⟨_, rfl⟩
  · exact ⟨fields.directories, rfl⟩

lemma survives_optionalHeader (size : ℕ) :
    Survives OptionalHeader.Same (readOptionalHeader size) := by
  intro c c' h e hrun
  obtain ⟨fields, c₁, hfields, -⟩ := run_bind_eq_ok.mp (run_get_bind (c := c) _ ▸ hrun)
  obtain ⟨directories, hd⟩ := run_optionalHeader hfields size
  cases hd.symm.trans hrun
  obtain ⟨_, hlonger, rfl⟩ := survives_optionalFields c c' fields e hfields
  obtain ⟨directories', hd'⟩ := run_optionalHeader hlonger size
  exact ⟨_, hd', directories', rfl⟩

lemma survives_header : Survives Header.Same readHeader := by
  obtain ⟨f, hf, -⟩ := reads_fileHeader
  have hfile : Fixed readFileHeader 20 := ⟨f, hf⟩
  refine .bind fixed_u16.survives fun magic => .guard (fun _ => ⟨_, rfl⟩) <| .seek <|
    .bind fixed_u32.survives fun start => .seek <| .bind fixed_u32.survives fun found =>
    .guard (fun _ => ⟨_, rfl⟩) <| .bind hfile.survives fun file => ?_
  split
  · exact survives_pure ⟨rfl, rfl, [], rfl⟩
  · exact (survives_optionalHeader _).map fun _ _ h => ⟨rfl, rfl, h⟩

lemma header_append {d : Bytes} {h : Header} (hd : header d = .ok h) (e : Bytes) :
    ∃ h', header (d ++ e) = .ok h' ∧ h.Same h' := by
  unfold header runAt at hd ⊢
  rcases hrun : readHeader.run ⟨d, 0, .little⟩ with err | ⟨g, c'⟩
  · rw [hrun] at hd
    cases hd
  · rw [hrun] at hd
    cases hd
    obtain ⟨h', hlonger, hsame⟩ := survives_header _ c' g e hrun
    refine ⟨h', ?_, hsame⟩
    rw [Cursor.extend] at hlonger
    rw [hlonger]
    rfl

lemma sectionsFrom_append (d e : Bytes) (count offset : ℕ) :
    sectionsFrom d count offset <+: sectionsFrom (d ++ e) count offset := by
  induction count generalizing offset with
  | zero => exact List.prefix_refl _
  | succ count ih =>
    rcases h : readSection.runAt d offset .little with err | s
    · simp [sectionsFrom, h]
    · have hlonger := fixed_section.runAt_append h e
      simp only [sectionsFrom, h, hlonger]
      exact List.cons_prefix_cons.mpr ⟨rfl, ih (offset + 40)⟩

lemma architecture_of_same {h h' : Header} (hsame : h.Same h') :
    architecture h' = architecture h := by
  obtain ⟨hfile, -, directories, hoptional⟩ := hsame
  rw [architecture, architecture, hfile, hoptional]
  rfl

lemma imageOf_append (d e : Bytes) {h h' : Header} (hsame : h.Same h') :
    Image.Continues (imageOf d h) (imageOf (d ++ e) h') := by
  have hsections : (imageOf d h).sections <+: (imageOf (d ++ e) h').sections := by
    change sectionsFrom d _ _ <+: sectionsFrom (d ++ e) _ _
    rw [hsame.1, hsame.2.1]
    exact sectionsFrom_append d e _ _
  refine ⟨rfl, architecture_of_same hsame, fun _ => ?_, fun _ => hsections, hsections.map _⟩
  obtain ⟨-, -, directories, hoptional⟩ := hsame
  simp only [imageOf, hoptional, and_self]

lemma parse_append {d : Bytes} {i : Image} (h : parse d = .ok i) (e : Bytes) :
    ∃ j, parse (d ++ e) = .ok j ∧ i.Continues j := by
  unfold parse at h ⊢
  rcases hd : header d with err | g
  · rw [hd] at h
    cases h
  · rw [hd] at h
    cases h
    obtain ⟨g', hg', hsame⟩ := header_append hd e
    rw [hg']
    exact ⟨_, rfl, imageOf_append d e hsame⟩

end Pe

/-! ### Executable and linkable format -/

namespace Elf

lemma header_append {d : Bytes} (hf : Format.detect d = .elf) {h : Header}
    (hd : header d = .ok h) (e : Bytes) : header (d ++ e) = .ok h := by
  have hlen : 16 ≤ d.length := by
    by_contra hshort
    obtain ⟨err, herr, -⟩ := (succeeds_header hf).error fun hw => by
      rcases hw.1 with hw | hw <;> omega
    rw [hd] at herr
    cases herr
  obtain ⟨x, y, -, -, heq⟩ := header_eq hf hlen
  have hself := heq []
  rw [List.append_nil, hd] at hself
  rw [heq e]
  rcases hwide : wideOf? x.toNat with err | wide <;> rw [hwide] at hself
  · cases hself
  rcases horder : orderOf? y.toNat with err | order <;> rw [horder] at hself
  · cases hself
  exact (fixed_fields wide order).runAt_append hself.symm e

lemma sectionHeadersFrom_append (d e : Bytes) (h : Header) (count offset : ℕ) :
    sectionHeadersFrom d h count offset <+: sectionHeadersFrom (d ++ e) h count offset := by
  induction count generalizing offset with
  | zero => exact List.prefix_refl _
  | succ count ih =>
    rcases hs : (readSectionHeader h.wide).runAt d offset h.order with err | s
    · simp [sectionHeadersFrom, hs]
    · have hlonger := (fixed_sectionHeader h.wide).runAt_append hs e
      simp only [sectionHeadersFrom, hs, hlonger]
      exact List.cons_prefix_cons.mpr ⟨rfl, ih (offset + h.entrySize)⟩

lemma sectionHeaders_append (d e : Bytes) (h : Header) :
    sectionHeaders d h <+: sectionHeaders (d ++ e) h := by
  unfold sectionHeaders
  split
  · exact List.prefix_refl _
  · exact sectionHeadersFrom_append d e h _ _

/-- Outlines do not depend on where the names stand. -/
lemma outlines_sections (d : Bytes) (h : Header) :
    (sections d h).map Section.outline =
      (sectionHeaders d h).map fun s => (sectionOf "" s).outline := by
  rw [sections, List.map_map]
  rfl

lemma parse_append {d : Bytes} (hf : Format.detect d = .elf) {i : Image} (h : parse d = .ok i)
    (e : Bytes) : ∃ j, parse (d ++ e) = .ok j ∧ i.Continues j := by
  unfold parse at h ⊢
  rcases hd : header d with err | g
  · rw [hd] at h
    cases h
  · rw [hd] at h
    cases h
    rw [header_append hf hd e]
    refine ⟨_, rfl, rfl, rfl, fun _ => ⟨rfl, rfl⟩, fun hformat => ?_, ?_⟩
    · rcases hformat with hformat | hformat <;> cases hformat
    · change (sections d g).map _ <+: (sections (d ++ e) g).map _
      rw [outlines_sections, outlines_sections]
      exact (sectionHeaders_append d e g).map _

end Elf

/-! ### Mach-O -/

namespace MachO

variable {base count : ℕ} {wide : Bool} {c : Cursor} {found : Commands}

/-- Of the headers of a segment, the shorter file gives the first ones, and all of them when it is
not cut among them. -/
lemma sectionHeadersFrom_extend (wide : Bool) (count : ℕ) (c : Cursor) (e : Bytes) :
    (sectionHeadersFrom wide count c).1 <+: (sectionHeadersFrom wide count (c.extend e)).1 ∧
    ∀ c', (sectionHeadersFrom wide count c).2 = some c' →
      sectionHeadersFrom wide count (c.extend e) =
        ((sectionHeadersFrom wide count c).1, some (c'.extend e)) := by
  induction count generalizing c with
  | zero => simp [sectionHeadersFrom]
  | succ count ih =>
    rcases h : (readSectionHeader wide).run c with err | ⟨s, c₁⟩
    · simp [sectionHeadersFrom, h]
    · have hlonger := (fixed_sectionHeader wide).run_extend h e
      simp only [sectionHeadersFrom, h, hlonger]
      obtain ⟨hfirst, hwhole⟩ := ih c₁
      refine ⟨List.cons_prefix_cons.mpr ⟨rfl, hfirst⟩, fun c' hc' => ?_⟩
      rw [hwhole c' hc']

/-- The second outcome of a load command follows from the first one when the file goes on. -/
def Follows (p q : Commands × Bool) : Prop :=
  p.1.sections <+: q.1.sections ∧ (p.2 = true → q = p)

lemma sections_segmentCommand (base : ℕ) (wide : Bool) (c : Cursor) (found : Commands) :
    found.sections <+: (segmentCommand base wide c found).1.sections := by
  unfold segmentCommand
  split
  · exact List.prefix_append _ _
  · exact List.prefix_refl _

lemma sections_entryCommand (c : Cursor) (found : Commands) :
    (entryCommand c found).1.sections = found.sections := by
  unfold entryCommand
  split <;> rfl

/-- A load command takes no section away. -/
lemma sections_command (base number : ℕ) (c : Cursor) (found : Commands) :
    found.sections <+: (command base number c found).1.sections := by
  unfold command
  split_ifs
  · exact sections_segmentCommand base false c found
  · exact sections_segmentCommand base true c found
  · rw [sections_entryCommand]
  · exact List.prefix_refl _

lemma sections_commandsFrom (base count : ℕ) (c : Cursor) (found : Commands) :
    found.sections <+: (commandsFrom base count c found).sections := by
  induction count generalizing c found with
  | zero => exact List.prefix_refl _
  | succ count ih =>
    unfold commandsFrom
    split
    · next number size c' _ =>
      have hcommand := sections_command base number c' found
      split
      · exact List.prefix_refl _
      · split
        · next found' h =>
          rw [h] at hcommand
          exact hcommand.trans (ih _ found')
        · next found' h =>
          rw [h] at hcommand
          exact hcommand
    · exact List.prefix_refl _

lemma segmentCommand_extend (base : ℕ) (wide : Bool) (c : Cursor) (found : Commands) (e : Bytes) :
    Follows (segmentCommand base wide c found) (segmentCommand base wide (c.extend e) found) := by
  rcases h : (readSegment wide).run c with err | ⟨segment, c₁⟩
  · refine ⟨?_, ?_⟩
    · simpa [segmentCommand, h] using sections_segmentCommand base wide (c.extend e) found
    · simp [segmentCommand, h]
  · have hlonger := (fixed_segment wide).run_extend h e
    obtain ⟨hfirst, hwhole⟩ := sectionHeadersFrom_extend wide segment.sectionCount c₁ e
    simp only [Follows, segmentCommand, h, hlonger]
    refine ⟨?_, fun hsome => ?_⟩
    · exact (List.prefix_append_right_inj _).mpr (hfirst.map _)
    · obtain ⟨c', hc'⟩ := Option.isSome_iff_exists.mp hsome
      rw [hwhole c' hc', hc']
      rfl

lemma entryCommand_extend (c : Cursor) (found : Commands) (e : Bytes) :
    Follows (entryCommand c found) (entryCommand (c.extend e) found) := by
  refine ⟨by simp [sections_entryCommand], ?_⟩
  rcases h : Reader.u64.run c with err | ⟨offset, c₁⟩
  · simp [entryCommand, h]
  · simp [entryCommand, h, fixed_u64.run_extend h e]

lemma command_extend (base number : ℕ) (c : Cursor) (found : Commands) (e : Bytes) :
    Follows (command base number c found) (command base number (c.extend e) found) := by
  unfold command
  split_ifs
  · exact segmentCommand_extend base false c found e
  · exact segmentCommand_extend base true c found e
  · exact entryCommand_extend c found e
  · exact ⟨List.prefix_refl _, fun _ => rfl⟩

/-- Both walks stay together until the shorter file cuts a command off, and the sections of that
command which are there whole are the last that both have. -/
lemma commandsFrom_extend (base count : ℕ) (c : Cursor) (found : Commands) (e : Bytes) :
    (commandsFrom base count c found).sections <+:
      (commandsFrom base count (c.extend e) found).sections := by
  induction count generalizing c found with
  | zero => exact List.prefix_refl _
  | succ count ih =>
    rcases h : readCommand.run c with err | ⟨⟨number, size⟩, c₁⟩
    · have hcut : commandsFrom base (count + 1) c found = found := by simp [commandsFrom, h]
      rw [hcut]
      exact sections_commandsFrom base (count + 1) (c.extend e) found
    · have hlonger := fixed_command.run_extend h e
      obtain ⟨hsections, hsame⟩ := command_extend base number c₁ found e
      simp only [commandsFrom, h, hlonger]
      split
      · exact List.prefix_refl _
      · rcases hp : command base number c₁ found with ⟨found', _ | _⟩
        · rw [hp] at hsections
          refine hsections.trans ?_
          split
          · next h' =>
            rw [h']
            exact sections_commandsFrom base count _ _
          · next h' =>
            rw [h']
        · rw [hsame (by rw [hp]), hp]
          exact ih _ found'

lemma imageAt_append {d : Bytes} {layout : Layout} {i : Image}
    (h : imageAt d base layout = .ok i) (e : Bytes) :
    ∃ j, imageAt (d ++ e) base layout = .ok j ∧ i.Continues j := by
  unfold imageAt at h ⊢
  rcases hr : (readHeader layout.wide).run ⟨d, base, layout.order⟩ with err | ⟨header, c⟩
  · rw [hr] at h
    cases h
  · rw [hr] at h
    cases h
    have hlonger : (readHeader layout.wide).run ⟨d ++ e, base, layout.order⟩ =
        .ok (header, c.extend e) := (fixed_header layout.wide).run_extend hr e
    have hsections := commandsFrom_extend base header.commandCount c {} e
    rw [hlonger]
    refine ⟨_, rfl, rfl, rfl, fun hformat => ?_, fun _ => hsections, hsections.map _⟩
    rcases hformat with hformat | hformat <;> cases hformat

lemma parse_append {d : Bytes} (hf : Format.detect d = .machO) {i : Image} (h : parse d = .ok i)
    (e : Bytes) : ∃ j, parse (d ++ e) = .ok j ∧ i.Continues j := by
  obtain ⟨layout, heq, -⟩ := parse_of_detect hf
  have hself := heq []
  rw [List.append_nil, h] at hself
  rw [heq e]
  exact imageAt_append hself.symm e

end MachO

/-! ### All formats -/

namespace Image

lemma detect_append {d : Bytes} (h : Format.detect d ≠ .unknown) (e : Bytes) :
    Format.detect (d ++ e) = Format.detect d := by
  have hlen : 4 ≤ d.length := by
    unfold Format.detect at h
    split at h <;> simp_all
  rw [← detect_take (d ++ e), List.take_append_of_le_length hlen, detect_take]

/-- **Bytes behind the end of a file take nothing away.** A file that can be read can be read with
anything behind it, as an image of the same kind whose sections go on from those of the first
one. -/
theorem parse_continues (d e : Bytes) (i : Image) (h : parse d = .ok i) :
    ∃ j, parse (d ++ e) = .ok j ∧ i.Continues j := by
  have hknown : Format.detect d ≠ .unknown := fun hu => by
    rw [parse_of_detect_unknown hu] at h
    cases h
  unfold parse at h ⊢
  rw [detect_append hknown e]
  rcases hf : Format.detect d <;> rw [hf] at h
  · exact Pe.parse_append h e
  · exact Elf.parse_append hf h e
  · exact MachO.parse_append hf h e
  · cases h
  · cases h

/-- A file of one segment with two sections, the second of which is cut off. -/
def cutFile : Bytes :=
  [0xCE, 0xFA, 0xED, 0xFE, 7, 0, 0, 0, 3, 0, 0, 0, 2, 0, 0, 0, 1, 0, 0, 0, 192, 0, 0, 0] ++
    List.replicate 4 0 ++ [1, 0, 0, 0, 192, 0, 0, 0] ++
    Bytes.ofAscii "__TEXT" ++ List.replicate 30 0 ++
    [5, 0, 0, 0, 2, 0, 0, 0] ++ List.replicate 4 0 ++
    Bytes.ofAscii "__text" ++ List.replicate 62 0 ++ Bytes.ofAscii "__const" ++ List.replicate 60 0

theorem parse_continues_cutFile :
    ∃ i, parse cutFile = .ok i ∧ i.sections.length = 1 ∧
      ∃ j, parse (cutFile ++ [0]) = .ok j ∧ j.sections.length = 2 ∧ i.Continues j := by
  have hone : (parse cutFile).toOption.map (·.sections.length) = some 1 := by decide +kernel
  have htwo : (parse (cutFile ++ [0])).toOption.map (·.sections.length) = some 2 := by
    decide +kernel
  rcases hi : parse cutFile with err | i
  · rw [hi] at hone
    cases hone
  · obtain ⟨j, hj, hcontinues⟩ := parse_continues cutFile [0] i hi
    rw [hi] at hone
    rw [hj] at htwo
    exact ⟨i, rfl, Option.some.inj hone, j, hj, Option.some.inj htwo, hcontinues⟩

end Image

end Dissect
