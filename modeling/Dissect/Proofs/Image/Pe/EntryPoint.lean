import Mathlib
import Dissect.Obfuscation.Probe
import Dissect.Proofs.Image.Pe.Header
import Dissect.Proofs.Image.Pe.RoundTrip

/-!
The entry point of a portable executable.

A file gives its entry point as a distance from the image base. The image has the address, which is
their sum and starts again at zero behind the largest address; the distance is then taken from it as
a difference that does not go below zero. So the distance comes back exactly if the address does not
wrap around, as it never does in an image with addresses of 32 bits. Otherwise it is lost, and zero
stands for it.
-/

namespace Dissect.Pe

open Reader

variable {d : Bytes} {i : Image}

/-- The distance of the entry point that an image gives. -/
lemma toNat_entryRva (hi : parse d = .ok i) (hoptional : 2 ≤ optionalSize d) :
    i.entryRva.toNat =
      if baseField d + entryField d < 2 ^ 64 then entryField d else 0 := by
  obtain ⟨h, hd, rfl⟩ := exists_header_of_parse hi
  rcases optional_of_header hd with ⟨hsize, -⟩ | ⟨-, c, hrun⟩
  · omega
  obtain ⟨hentry, hbase, -⟩ := optionalHeader_fields hrun
  have hentryWord : (UInt64.ofNat (entryField d)).toNat = entryField d :=
    Word.toNat_ofNat_of_lt ((entryField_lt d).trans (by decide))
  have hbaseWord : (UInt64.ofNat (baseField d)).toNat = baseField d :=
    Word.toNat_ofNat_of_lt (baseField_lt d)
  change (Word.subSaturating (UInt64.ofNat h.optional.imageBase +
    UInt64.ofNat h.optional.entryRva) (UInt64.ofNat h.optional.imageBase)).toNat = _
  rw [hentry, hbase, Word.toNat_subSaturating_add, hentryWord, hbaseWord]

/-- Execution starts in a section that is not the main code. -/
lemma hiddenEntry_iff (i : Image) : Probe.hiddenEntry i ↔
    ∃ s ∈ i.sections, s.Covers i.entryRva.toNat ∧ ¬Probe.isMainCode s.name := by
  simp [Probe.hiddenEntry, List.any_filter, Section.containsRva_iff]

/-- **The entry point comes back unless its address wraps around.** If the image base and the
distance of the entry point have a sum that is an address, the image gives this distance, and with
it the section that the entry point lies in, and whether that is another than the main code. If not,
the image gives zero, which is not the distance. In an image with addresses of 32 bits the sum is
always an address. -/
theorem entryRva_eq_iff (d : Bytes) (i : Image) (hi : parse d = .ok i)
    (hoptional : 2 ≤ optionalSize d) :
    i.entryRva.toNat = (if baseField d + entryField d < 2 ^ 64 then entryField d else 0) ∧
    (i.entryRva.toNat = entryField d ↔ baseField d + entryField d < 2 ^ 64) ∧
    (¬Wide d → i.entryRva.toNat = entryField d) ∧
    (baseField d + entryField d < 2 ^ 64 →
      i.sectionContaining i.entryRva = i.sections.find? (fun s => s.Covers (entryField d)) ∧
      (Probe.hiddenEntry i ↔
        ∃ s ∈ i.sections, s.Covers (entryField d) ∧ ¬Probe.isMainCode s.name)) := by
  have hrva := toNat_entryRva hi hoptional
  have hentry := entryField_lt d
  have hbase := baseField_lt d
  refine ⟨hrva, ?_, fun hwide => ?_, fun hlt => ?_⟩
  · rw [hrva]
    split <;> omega
  · have hnarrow := baseField_lt_of_not_wide hwide
    rw [hrva, if_pos (by omega)]
  · rw [if_pos hlt] at hrva
    rw [i.sectionContaining_eq, hiddenEntry_iff, hrva]
    exact ⟨rfl, Iff.rfl⟩

/-- The file `highLoaded`, loaded a little lower. -/
def topLoaded : File :=
  { highLoaded with
    optional := { highLoaded.optional with imageBase := (0xFFFFFFFFFFFFD000 : Field 8) }
    size_lt := by decide }

/-- The entry point lies in the section `.rsrc`, and is noticed there. -/
theorem entryRva_eq_iff_topLoaded :
    2 ≤ optionalSize topLoaded.write ∧ baseField topLoaded.write = 0xFFFFFFFFFFFFD000 ∧
    entryField topLoaded.write = 0x2000 ∧
    ∃ i, parse topLoaded.write = .ok i ∧ i.entryRva.toNat = 0x2000 ∧
      (i.sectionContaining i.entryRva).map (·.name) = some ".rsrc" ∧ Probe.hiddenEntry i := by
  have hsize : 2 ≤ optionalSize topLoaded.write := by decide +kernel
  have hbase : baseField topLoaded.write = 0xFFFFFFFFFFFFD000 := by decide +kernel
  have hentry : entryField topLoaded.write = 0x2000 := by decide +kernel
  have hfound : (parse topLoaded.write).toOption.map (fun i =>
      (i.sections.find? fun s => s.Covers 0x2000).map (·.name)) = some (some ".rsrc") := by
    decide +kernel
  rcases hi : parse topLoaded.write with e | i <;> rw [hi] at hfound
  · cases hfound
  have hname := Option.some.inj hfound
  obtain ⟨hrva, -, -, hlt⟩ := entryRva_eq_iff topLoaded.write i hi hsize
  rw [hbase, hentry] at hrva hlt
  obtain ⟨hsection, hhidden⟩ := hlt (by decide)
  obtain ⟨s, hs, hsname⟩ := Option.map_eq_some_iff.mp hname
  refine ⟨hsize, hbase, hentry, i, rfl, hrva, by rwa [hsection], hhidden.mpr ⟨s, ?_, ?_, ?_⟩⟩
  · exact List.mem_of_find?_eq_some hs
  · simpa using List.find?_some hs
  · rw [hsname]
    decide +kernel

/-- The address of the entry point has wrapped around. It lies in the section `.rsrc`, which is not
the main code, but no section is found for it. -/
theorem entryRva_lost :
    ∃ i, parse highLoaded.write = .ok i ∧ 2 ≤ optionalSize highLoaded.write ∧
      entryField highLoaded.write = 0x2000 ∧ i.entryRva.toNat ≠ 0x2000 ∧
      (∃ s ∈ i.sections, s.Covers 0x2000 ∧ ¬Probe.isMainCode s.name) ∧
      i.sectionContaining i.entryRva = none ∧ ¬Probe.hiddenEntry i := by
  have hsize : 2 ≤ optionalSize highLoaded.write := by decide +kernel
  have hbase : baseField highLoaded.write = 0xFFFFFFFFFFFFF000 := by decide +kernel
  have hentry : entryField highLoaded.write = 0x2000 := by decide +kernel
  have hfound : (parse highLoaded.write).toOption.map (fun i =>
      decide ((∃ s ∈ i.sections, s.Covers 0x2000 ∧ ¬Probe.isMainCode s.name) ∧
        ∀ s ∈ i.sections, ¬s.Covers 0)) = some true := by
    decide +kernel
  rcases hi : parse highLoaded.write with e | i <;> rw [hi] at hfound
  · cases hfound
  obtain ⟨hthere, hnone⟩ := of_decide_eq_true (Option.some.inj hfound)
  have hrva := toNat_entryRva hi hsize
  rw [hbase, hentry, if_neg (by decide)] at hrva
  refine ⟨i, rfl, hsize, hentry, by simp [hrva], hthere, ?_, ?_⟩
  · rw [i.sectionContaining_eq, hrva]
    simpa using hnone
  · rw [hiddenEntry_iff, hrva]
    rintro ⟨s, hs, hcovers, -⟩
    exact hnone s hs hcovers

end Dissect.Pe
