import Dissect.Proofs.Code.Span
import Dissect.Proofs.Image.Reading

/-!
Where the bytes of an instruction come from.

There are two ways from an address to the file. The sweep decodes the data of a section, and counts
addresses from the one that the section is loaded to; the section itself says where the byte at an
address stands. Both lead to the same bytes, however the section lies in the file and in memory.
-/

namespace Dissect

/-! ### Sections in the file -/

namespace Section

variable {s : Section} {file : Bytes} {rva off : UInt64}

lemma length_data_le (s : Section) (file : Bytes) : (s.data file).length ≤ s.rawSize.toNat := by
  rw [data, Bytes.slice, List.length_take]
  omega

/-- A part of the data of a section is a part of the file, in the range of the section. -/
lemma slice_data {k n : ℕ} (hn : 0 < n) (h : k + n ≤ (s.data file).length) :
    Bytes.slice (s.data file) k n = file.slice (s.rawOffset.toNat + k) n ∧
      s.rawOffset.toNat + k + n ≤ file.length := by
  have hsize := length_data_le s file
  refine ⟨Bytes.slice_slice (by omega), ?_⟩
  rw [data, Bytes.slice, List.length_take, List.length_drop] at h
  omega

lemma toNat_fileOffset? (h : s.fileOffset? rva = some off) :
    off.toNat = s.rawOffset.toNat + (rva.toNat - s.virtualAddress.toNat) := by
  unfold fileOffset? at h
  split at h
  · next hin =>
    have hle : s.virtualAddress ≤ rva := by
      simp only [containsRva, Bool.and_eq_true, decide_eq_true_eq] at hin
      exact hin.1
    have hsub := UInt64.toNat_sub_of_le rva s.virtualAddress hle
    unfold Word.addChecked at h
    split at h
    · next hfit =>
      have hfit' : s.rawOffset.toNat + (rva - s.virtualAddress).toNat < 2 ^ 64 := hfit
      obtain rfl := Option.some.inj h
      rw [Word.toNat_add_of_lt hfit', hsub]
    · cases h
  · cases h

/-- The bytes at an address of a section are those of the file: they stand where the section says,
if it says so, and in the range of the file that belongs to it in any case. -/
structure Holds (s : Section) (file : Bytes) (rva : UInt64) (bytes : Bytes) : Prop where
  mapped : ∀ off, s.fileOffset? rva = some off →
    off.toNat + bytes.length ≤ file.length ∧ file.slice off.toNat bytes.length = bytes
  inRange : ∃ k, k + bytes.length ≤ s.rawSize.toNat ∧
    s.rawOffset.toNat + k + bytes.length ≤ file.length ∧
    file.slice (s.rawOffset.toNat + k) bytes.length = bytes ∧
    rva.toNat = s.virtualAddress.toNat + k

/-- Bytes that stand in the data of a section as far from its start as their address. -/
lemma holds_of_data {k : ℕ} {bytes : Bytes} (hne : bytes ≠ [])
    (hrva : rva.toNat = s.virtualAddress.toNat + k) (hlen : k + bytes.length ≤ (s.data file).length)
    (hbytes : bytes = Bytes.slice (s.data file) k bytes.length) : s.Holds file rva bytes := by
  obtain ⟨hslice, hend⟩ := slice_data (List.length_pos_of_ne_nil hne) hlen
  have hfile : file.slice (s.rawOffset.toNat + k) bytes.length = bytes := by
    rw [← hslice, ← hbytes]
  have hsize := length_data_le s file
  refine ⟨fun off hoff => ?_, k, by omega, hend, hfile, hrva⟩
  have hplace : off.toNat = s.rawOffset.toNat + k := by
    rw [toNat_fileOffset? hoff, hrva]
    omega
  rw [hplace]
  exact ⟨hend, hfile⟩

end Section

namespace Sweep

variable {settings : SweepSettings} {mode : Mode} {code file : Bytes} {base span : UInt64}
  {image : Image} {s : Section}

/-- An instruction keeps the bytes that stand in the code at its address. -/
lemma bytes_of_mem (hfit : base.toNat + code.length < 2 ^ 64) :
    ∀ f ∈ functions settings mode code base span, ∀ i ∈ f.instructions,
      i.bytes ≠ [] ∧ i.address.toNat - base.toNat + i.bytes.length ≤ code.length ∧
        i.bytes = code.slice (i.address.toNat - base.toNat) i.bytes.length := by
  rw [forall_instructions]
  intro p hp i hi
  have hsweep : IsSweep mode code base settings.maxInstructions p.1 p.2 _ :=
    isSweep_instructionsAt hfit (isStart_of_mem_bounds hfit hp)
  have htakes := takes_of_decode (hsweep.decoded i hi)
  have hpos := htakes.pos
  have hlen := htakes.le_length
  rw [List.length_drop] at hlen
  exact ⟨hsweep.nonempty i hi, by omega, hsweep.bytes_eq i hi⟩

/-- The section holds the bytes of the instructions that are found in it. -/
lemma holds_of_mem
    (hfit : image.imageBase.toNat + s.virtualAddress.toNat + s.rawSize.toNat < 2 ^ 64) :
    ∀ f ∈ ofSection settings mode file image s, ∀ i ∈ f.instructions,
      s.Holds file (i.address - image.imageBase) i.bytes := by
  intro f hf i hi
  have hsize := s.length_data_le file
  have hbase : (image.imageBase + s.virtualAddress).toNat =
      image.imageBase.toNat + s.virtualAddress.toNat := Word.toNat_add_of_lt (by omega)
  have hcode : (image.imageBase + s.virtualAddress).toNat + (s.data file).length < 2 ^ 64 := by
    omega
  -- no address lies in front of the section, so no distance below is cut off at zero
  have hle := UInt64.le_iff_toNat_le.mp (base_le_address hcode f hf i hi)
  obtain ⟨hne, hlen, hbytes⟩ := bytes_of_mem hcode f hf i hi
  have hrva : (i.address - image.imageBase).toNat = i.address.toNat - image.imageBase.toNat :=
    UInt64.toNat_sub_of_le _ _ (UInt64.le_iff_toNat_le.mpr (by omega))
  refine Section.holds_of_data hne ?_ hlen hbytes
  rw [hrva]
  omega

lemma ofImage_eq (hmode : Decoder.mode? image.architecture = some mode) :
    ofImage settings file image =
      (image.sections.filter (·.kind == .code)).flatMap (ofSection settings mode file image) := by
  unfold ofImage
  rw [hmode]
  rfl

/-- **Instructions are made of the bytes at their addresses.** The functions of an image are those
of its code sections, in header order. An instruction in a section that ends in the address space is
made of the bytes which the file holds for that section, and of those that the section maps its
address to. -/
theorem ofImage_holds (settings : SweepSettings) (file : Bytes) (image : Image)
    (harch : image.architecture = .x86 ∨ image.architecture = .x64) :
    ∃ mode, Decoder.mode? image.architecture = some mode ∧
      ofImage settings file image =
        (image.sections.filter (·.kind == .code)).flatMap (ofSection settings mode file image) ∧
      ∀ s ∈ image.sections, s.kind = .code →
        image.imageBase.toNat + s.virtualAddress.toNat + s.rawSize.toNat < 2 ^ 64 →
        ∀ f ∈ ofSection settings mode file image s, ∀ i ∈ f.instructions,
          s.Holds file (i.address - image.imageBase) i.bytes := by
  obtain ⟨mode, hmode⟩ : ∃ mode, Decoder.mode? image.architecture = some mode := by
    rcases harch with h | h <;> rw [h] <;> exact ⟨_, rfl⟩
  exact ⟨mode, hmode, ofImage_eq hmode, fun s _ _ hfit => holds_of_mem hfit⟩

/-- A section whose data go on behind the end of the file, and in memory behind its own end. -/
def cutSection : Section where
  virtualAddress := 0x1000
  virtualSize := 1
  rawOffset := 4
  rawSize := 0x10
  kind := .code

def cutImage : Image where
  architecture := .x86
  imageBase := 0x400000
  sections := [{ kind := .data }, cutSection]

theorem ofImage_holds_cutImage :
    let file : Bytes := [0x4D, 0x5A, 0, 0, 0x50, 0xC3]
    ∃ f ∈ ofImage {} file cutImage, ∃ i ∈ f.instructions, i.bytes = [0x50] ∧
      cutSection.fileOffset? (i.address - cutImage.imageBase) = some 4 ∧
      cutSection.Holds file (i.address - cutImage.imageBase) i.bytes := by
  intro file
  obtain ⟨mode, hmode, himage, hholds⟩ := ofImage_holds {} file cutImage (.inl rfl)
  have hfound : ∃ f ∈ ofImage {} file cutImage, ∃ i ∈ f.instructions, i.bytes = [0x50] ∧
      cutSection.fileOffset? (i.address - cutImage.imageBase) = some 4 := by decide +kernel
  obtain ⟨f, hf, i, hi, hbytes, hoff⟩ := hfound
  refine ⟨f, hf, i, hi, hbytes, hoff, ?_⟩
  rw [himage] at hf
  exact hholds cutSection (by simp [cutImage]) rfl (by decide) f
    (by simpa [cutImage, cutSection] using hf) i hi

end Sweep

end Dissect
