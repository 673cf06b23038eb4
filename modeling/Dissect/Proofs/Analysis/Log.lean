import Mathlib
import Dissect.Proofs.Analysis.Libraries

/-!
What is told during an analysis.

The program comes first, then what was found of its libraries, then the libraries themselves, side
by side. Libraries were found under their own names, so their paths differ, and what is told of one
of them can be read off the whole again. A program that checks its sums tells the same, or ends.
-/

namespace Dissect.Report

open FileAnalysis (run runIn course_run Course)

variable {schedule : Schedule} {settings : Settings} {disk : Disk} {input main path : String}
  {r : Report} {log : List Event} {ds : List Dependency} {q : Option String → Bool}

/-! ### One library among the others -/

/-- A library that was found is known by the name at the end of its path. -/
lemma Separate.eq_of_fileName (h : Separate ds) {l l' : String × String} (hl : l ∈ located ds)
    (hl' : l' ∈ located ds) (heq : Path.fileName? l.2 = Path.fileName? l'.2) : l = l' := by
  have hname := h.fileName _ (mem_located.mp hl) l.2 rfl
  have hname' := h.fileName _ (mem_located.mp hl') l'.2 rfl
  have hfst : l.1 = l'.1 := Option.some.inj (hname.symm.trans (heq.trans hname'))
  exact List.inj_on_of_nodup_map h.nodup_fst hl hl' hfst

/-- What is told of one library among the others is what its own analysis tells. -/
lemma Separate.filter_merge (h : Separate ds) (schedule : Schedule) {l : String × String}
    (hl : l ∈ located ds) (hown : q (some l.2))
    (hothers : ∀ path, q (some path) → Path.fileName? path = Path.fileName? l.2) :
    (schedule.merge ((runLibraries settings disk ds).map (·.2.2))).filter (fun e => q e.path?) =
      (run settings disk l.2).2 := by
  obtain ⟨k, hk⟩ := List.mem_iff_getElem?.mp hl
  have hrun : ((runLibraries settings disk ds).map (·.2.2))[k]? =
      some (run settings disk l.2).2 := by
    rw [runLibraries, List.map_map, List.getElem?_map, hk]
    rfl
  refine (interleaves_merge schedule _).filter_eq hrun ?_ ?_
  · intro e he
    rwa [(course_run settings disk l.2).path?_of_mem he]
  · intro j other hne hother e he habout
    rw [runLibraries, List.map_map, List.getElem?_map, Option.map_eq_some_iff] at hother
    obtain ⟨l', hl', rfl⟩ := hother
    rw [(course_run settings disk l'.2).path?_of_mem he] at habout
    obtain rfl := h.eq_of_fileName (List.mem_of_getElem? hl') hl (hothers _ habout)
    have hlength := (List.getElem?_eq_some_iff.mp hl').1
    exact hne ((List.getElem?_inj hlength h.nodup_fst.of_map).mp (hl'.trans hk.symm))

/-- What is told of a library that is not the program. -/
lemma IsOn.filter_events (h : IsOn settings disk main r) (schedule : Schedule) {d : Dependency}
    (hd : d ∈ r.dependencies) (hpath : d.path = some path) (hnone : ¬q none)
    (hmain : ¬q (some main)) (hown : q (some path))
    (hothers : ∀ other, q (some other) → Path.fileName? other = Path.fileName? path) :
    (events schedule settings (run settings disk main) r.dependencies
      (runLibraries settings disk r.dependencies)).filter (fun e => q e.path?) =
        (run settings disk path).2 := by
  have hl : (d.name, path) ∈ located r.dependencies := by
    rw [mem_located, ← hpath]
    exact hd
  have hcond : settings.dependencies.follow &&
      (FileAnalysis.ofFile settings disk main).isSuccess := by
    by_contra hnot
    rw [h.dependencies_eq, if_neg hnot] at hd
    cases hd
  rw [Report.filter_events, if_neg hmain, if_pos hcond, if_neg hnone, if_neg hmain,
    h.separate.filter_merge schedule hl hown hothers, List.nil_append, List.nil_append,
    List.append_nil]

/-! ### The log of an analysis -/

/-- A program that is loaded at the end of the address space, with a function behind that end. -/
def highProgram : Bytes := List.flatten [
  [0x4D, 0x5A], .replicate 58 0, [0x40, 0, 0, 0],
  -- one section, and an optional header of 72 bytes
  [0x50, 0x45, 0, 0, 0x64, 0x86, 1, 0], .replicate 12 0, [72, 0, 0, 0],
  -- the image base
  [0x0B, 0x02], .replicate 22 0, [0xFE, 0xEF, 0xFF, 0xFF, 0xFF, 0xFF, 0xFF, 0xFF], .replicate 40 0,
  -- code at 0x1000
  [0x2E, 0x74, 0x65, 0x78, 0x74, 0, 0, 0, 6, 0, 0, 0, 0, 0x10, 0, 0, 6, 0, 0, 0, 0xC8, 0, 0, 0],
  .replicate 12 0, [0x20, 0, 0, 0x60], [0x90, 0x90, 0x48, 0x8B, 0xEC, 0xC3]]

example : runIn .aborts {} { root := .dir [("a.exe", .file highProgram)] } "a.exe" =
    (none, [.started "a.exe", .stageDone "a.exe" .detect, .stageDone "a.exe" .parse,
      .stageDone "a.exe" .strings]) := by
  decide +kernel

end Dissect.Report
