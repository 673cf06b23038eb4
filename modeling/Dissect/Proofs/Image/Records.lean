import Mathlib
import Dissect.Image.Parse
import Dissect.Proofs.Image.Reading

/-!
Sizes of the records of each format.

Every record that stands in a file is a fixed reading, so what its fields hold can neither change
its size nor make it fail.
-/

namespace Dissect

open Reader

namespace Pe

/-- The file header has twenty bytes; the size of the optional header stands in the last but one of
its fields. -/
lemma reads_fileHeader : ∃ f, Reads readFileHeader 20 f ∧
    ∀ (order : ByteOrder) (bs : Bytes),
      (f order bs).optionalSize = order.value (bs.slice 16 2) := by
  unfold readFileHeader
  refine ⟨_, Reads.record (reads_u16.bind fun machine => reads_u16.bind fun sectionCount =>
    reads_u32.bind fun timeStamp => reads_u32.bind fun _ => reads_u32.bind fun _ =>
    reads_u16.bind fun optionalSize => reads_u16.bind fun characteristics => reads_pure _)
    (by decide), ?_⟩
  intro order bs
  simp [Bytes.slice, List.drop_drop]

/-- Behind the magic number, an optional header has seventy bytes in both widths: a wide one has no
base of data, and an image base that is longer by as much. -/
lemma reads_optionalFields : ∃ tail : ℕ → Reader OptionalHeader,
    (∀ magic, ∃ f, Reads (tail magic) 70 f ∧ ∀ (order : ByteOrder) (bs : Bytes),
      (f order bs).magic = magic ∧ (f order bs).entryRva = order.value (bs.slice 14 4) ∧
      (f order bs).imageBase = (if magic = magic64 then order.value (bs.slice 22 8)
        else order.value (bs.slice 26 4)) ∧
      (f order bs).directories = []) ∧
    readOptionalFields = (Reader.u16 >>= fun magic =>
      if magic ≠ magic32 ∧ magic ≠ magic64 then throw (.invalidHeader (.optionalMagic magic))
      else tail magic) := by
  refine ⟨_, fun magic => ?_, rfl⟩
  have hsmall {n : ℕ} (hn : 0 < n) := reads_skip hn
  have hword (wide : Bool) : Reads (word wide) (wordSize wide) fun order bs => order.value bs :=
    reads_number (by cases wide <;> decide)
  by_cases hmagic : magic = magic64
  · simp only [hmagic, beq_self_eq_true]
    refine ⟨_, (hsmall (by decide)).bind fun _ => (hsmall (by decide)).bind fun _ =>
      reads_u32.bind fun _ => (hsmall (by decide)).bind fun _ =>
      (hword true).bind fun _ => (hsmall (by decide)).bind fun _ =>
      (hsmall (by decide)).bind fun _ => (hsmall (by decide)).bind fun _ =>
      reads_u32.bind fun _ => (hsmall (by decide)).bind fun _ => reads_u16.bind fun _ =>
      reads_u16.bind fun _ => reads_pure _, fun order bs => ?_⟩
    simp [Bytes.slice, List.drop_drop, wordSize]
  · simp only [beq_eq_false_iff_ne.mpr hmagic]
    refine ⟨_, (hsmall (by decide)).bind fun _ => (hsmall (by decide)).bind fun _ =>
      reads_u32.bind fun _ => (hsmall (by decide)).bind fun _ => (hsmall (by decide)).bind fun _ =>
      (hword false).bind fun _ => (hsmall (by decide)).bind fun _ =>
      (hsmall (by decide)).bind fun _ => (hsmall (by decide)).bind fun _ =>
      reads_u32.bind fun _ => (hsmall (by decide)).bind fun _ => reads_u16.bind fun _ =>
      reads_u16.bind fun _ => reads_pure _, fun order bs => ?_⟩
    simp [Bytes.slice, List.drop_drop, wordSize, hmagic]

lemma optionalFields_eq : ∃ tail : ℕ → Reader OptionalHeader,
    (∀ magic, Fixed (tail magic) 70) ∧
    readOptionalFields = (Reader.u16 >>= fun magic =>
      if magic ≠ magic32 ∧ magic ≠ magic64 then throw (.invalidHeader (.optionalMagic magic))
      else tail magic) := by
  obtain ⟨tail, htail, heq⟩ := reads_optionalFields
  exact ⟨tail, fun magic => ⟨_, (htail magic).choose_spec.1⟩, heq⟩

lemma fixed_section : Fixed readSection 40 :=
  (fixed_bytes (by decide)).bind fun _ => fixed_u32.bind fun _ => fixed_u32.bind fun _ =>
    fixed_u32.bind fun _ => fixed_u32.bind fun _ => (fixed_skip (by decide)).bind fun _ =>
    fixed_u32.bind fun _ => fixed_pure _

end Pe

namespace Elf

lemma fixed_fields (wide : Bool) (order : ByteOrder) :
    Fixed (readFields wide order) (if wide then 48 else 36) := by
  have hword := fixed_word wide
  have hsize : (if wide then 48 else 36) = 2 + (2 + (4 + (wordSize wide + (wordSize wide +
      (wordSize wide + (4 + (2 + (2 + (2 + (2 + (2 + (2 + 0)))))))))))) := by cases wide <;> rfl
  rw [hsize]
  exact fixed_u16.bind fun _ => fixed_u16.bind fun _ => fixed_u32.bind fun _ =>
    hword.bind fun _ => hword.bind fun _ => hword.bind fun _ => fixed_u32.bind fun _ =>
    fixed_u16.bind fun _ => fixed_u16.bind fun _ => fixed_u16.bind fun _ =>
    fixed_u16.bind fun _ => fixed_u16.bind fun _ => fixed_u16.bind fun _ => fixed_pure _

lemma fixed_sectionHeader (wide : Bool) :
    Fixed (readSectionHeader wide) (if wide then 40 else 24) := by
  have hword := fixed_word wide
  have hsize : (if wide then 40 else 24) = 4 + (4 + (wordSize wide + (wordSize wide +
      (wordSize wide + (wordSize wide + 0))))) := by cases wide <;> rfl
  rw [hsize]
  exact fixed_u32.bind fun _ => fixed_u32.bind fun _ => hword.bind fun _ => hword.bind fun _ =>
    hword.bind fun _ => hword.bind fun _ => fixed_pure _

end Elf

namespace MachO

lemma fixed_header (wide : Bool) : Fixed (readHeader wide) (if wide then 32 else 28) := by
  have hsize : (if wide then 32 else 28) = 4 + (4 + (4 + (4 + (4 + (4 + (4 +
      (if wide then 4 else 0))))))) := by cases wide <;> rfl
  rw [hsize]
  exact fixed_u32.bind fun _ => fixed_u32.bind fun _ => fixed_u32.bind fun _ =>
    fixed_u32.bind fun _ => fixed_u32.bind fun _ => fixed_u32.bind fun _ =>
    fixed_u32.bind fun _ => fixed_wideEnd wide _

lemma fixed_segment (wide : Bool) : Fixed (readSegment wide) (if wide then 64 else 48) := by
  have hword := fixed_word wide
  have hsize : (if wide then 64 else 48) = 16 + (wordSize wide + (wordSize wide + (wordSize wide +
      (wordSize wide + (4 + (4 + (4 + (4 + 0)))))))) := by cases wide <;> rfl
  rw [hsize]
  exact (fixed_bytes (by decide)).bind fun _ => hword.bind fun _ => hword.bind fun _ =>
    hword.bind fun _ => hword.bind fun _ => fixed_u32.bind fun _ => fixed_u32.bind fun _ =>
    fixed_u32.bind fun _ => fixed_u32.bind fun _ => fixed_pure _

lemma fixed_sectionHeader (wide : Bool) :
    Fixed (readSectionHeader wide) (if wide then 80 else 68) := by
  have hword := fixed_word wide
  have hsize : (if wide then 80 else 68) = 16 + (16 + (wordSize wide + (wordSize wide + (4 + (4 +
      (4 + (4 + (4 + (4 + (4 + (if wide then 4 else 0))))))))))) := by cases wide <;> rfl
  rw [hsize]
  exact (fixed_bytes (by decide)).bind fun _ => (fixed_bytes (by decide)).bind fun _ =>
    hword.bind fun _ => hword.bind fun _ => fixed_u32.bind fun _ => fixed_u32.bind fun _ =>
    fixed_u32.bind fun _ => fixed_u32.bind fun _ => fixed_u32.bind fun _ =>
    fixed_u32.bind fun _ => fixed_u32.bind fun _ => fixed_wideEnd wide _

lemma fixed_command : Fixed readCommand 8 :=
  fixed_u32.bind fun _ => fixed_u32.bind fun _ => fixed_pure _

end MachO

end Dissect
