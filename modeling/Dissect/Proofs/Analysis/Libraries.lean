import Mathlib
import Dissect.Analysis.Summary
import Dissect.Proofs.Analysis.Interleaving
import Dissect.Proofs.Dependency.Cache
import Dissect.Proofs.Dependency.Confinement

/-!
The libraries of a report.

Analyses of libraries are kept by name, and one that comes under the name of another takes its
place. It never comes to that: the names that a walk meets differ in more than the case of letters.
So there is one analysis for each library that was found, whatever the order in which they end.
-/

namespace Dissect

/-! ### Entries by name -/

namespace Named

variable {α : Type} {entries : Named α} {pairs : List (String × α)} {name : String}

lemma set_of_notMem (h : name ∉ entries.map Prod.fst) (value : α) :
    entries.set name value = entries ++ [(name, value)] := by
  unfold set
  rw [if_neg]
  rintro hany
  obtain ⟨e, he, heq⟩ := List.any_eq_true.mp hany
  exact h (List.mem_map.mpr ⟨e, he, by simpa using heq⟩)

/-- Entries with different names all stay, in their order. -/
lemma ofPairs_of_nodup (h : (pairs.map Prod.fst).Nodup) : ofPairs pairs = pairs := by
  induction pairs using List.reverseRecOn with
  | nil => rfl
  | append_singleton pairs p ih =>
    rw [List.map_append, List.map_singleton, List.nodup_append] at h
    obtain ⟨hpairs, -, hnew⟩ := h
    have hset : ofPairs (pairs ++ [p]) = (ofPairs pairs).set p.1 p.2 := by
      simp [ofPairs, List.foldl_append]
    rw [hset, ih hpairs, set_of_notMem]
    intro hmem
    exact hnew p.1 hmem p.1 (List.mem_singleton_self _) rfl

end Named

namespace Report

open Walker (caseless ofSettings)

variable {schedule : Schedule} {settings : Settings} {disk : Disk} {input main : String}
  {r : Report} {log : List Event} {ds : List Dependency}

/-! ### The libraries of a program -/

/-- Libraries that cannot be taken for each other: their names differ in more than case, and each
was found under its own name. -/
structure Separate (ds : List Dependency) : Prop where
  distinct : (ds.map caseless).Nodup
  fileName : ∀ d ∈ ds, ∀ path, d.path = some path → Path.fileName? path = some d.name

lemma separate_nil : Separate [] := ⟨List.nodup_nil, by simp⟩

lemma separate_walk (w : Walker) (disk : Disk) (main : String) : Separate (w.walk disk main).1 := by
  have h := Walker.accounted_walk w disk main
  refine ⟨h.distinct, fun d hd path hpath => ?_⟩
  rw [h.located d hd] at hpath
  obtain ⟨hplain, -, dir, rfl⟩ := Walker.find?_eq_some hpath
  obtain ⟨hne, hdot, hup, hslash, -⟩ := Walker.isPlainName_iff.mp hplain
  exact Path.fileName?_join hslash (by simp [Path.isEmptySegment, hne, hdot]) hup dir

lemma separate_dependenciesOf (settings : Settings) (disk : Disk) (main : String) :
    Separate (dependenciesOf settings disk (.ofFile settings disk main)) := by
  rw [Walker.dependenciesOf_ofFile]
  split
  · exact separate_walk _ disk main
  · exact separate_nil

/-- The names of the libraries that were found are among those of all libraries. -/
lemma map_fst_located (ds : List Dependency) :
    ((located ds).map Prod.fst).Sublist (ds.map (·.name)) := by
  induction ds with
  | nil => exact .slnil
  | cons d ds ih =>
    rcases hpath : d.path with _ | path
    · simpa [located, hpath] using ih.cons _
    · simpa [located, hpath] using ih

lemma mem_located {name path : String} :
    (name, path) ∈ located ds ↔ ⟨name, some path⟩ ∈ ds := by
  simp only [located, List.mem_filterMap, Option.map_eq_some_iff, Prod.mk.injEq]
  constructor
  · rintro ⟨⟨name', path'⟩, hd, path'', hpath, rfl, rfl⟩
    rwa [← hpath]
  · intro hd
    exact ⟨_, hd, path, rfl, rfl, rfl⟩

lemma length_located (ds : List Dependency) :
    (located ds).length = ds.countP (·.path.isSome) := by
  induction ds with
  | nil => rfl
  | cons d ds ih =>
    rcases hpath : d.path with _ | path
    · simpa [located, hpath] using ih
    · simpa [located, hpath] using ih

/-- Names of libraries that were found differ in more than case. -/
lemma Separate.nodup_lowerAscii (h : Separate ds) :
    ((located ds).map fun l => Text.lowerAscii l.1).Nodup := by
  have hsub := (map_fst_located ds).map Text.lowerAscii
  rw [List.map_map, List.map_map] at hsub
  exact h.distinct.sublist hsub

lemma Separate.nodup_fst (h : Separate ds) : ((located ds).map Prod.fst).Nodup := by
  have hlower : (((located ds).map Prod.fst).map Text.lowerAscii).Nodup := by
    rw [List.map_map]
    exact h.nodup_lowerAscii
  exact hlower.of_map

/-! ### The report on a program -/

/-- The report is on a program and its libraries, whatever else is in it. -/
structure IsOn (settings : Settings) (disk : Disk) (main : String) (r : Report) : Prop where
  program : r.main = some (.ofFile settings disk main)
  dependencies : r.dependencies = dependenciesOf settings disk (.ofFile settings disk main)
  libraries : r.libraries = .ofPairs ((located r.dependencies).map fun l =>
    (l.1, .ofFile settings disk l.2))

lemma isOn_ofMain (schedule : Schedule) (settings : Settings) (disk : Disk) (input main : String) :
    IsOn settings disk main (ofMain schedule settings disk input main).1 where
  program := rfl
  dependencies := rfl
  libraries := by
    simp only [ofMain, runLibraries, List.map_map]
    rfl

/-- What stands at a path, and the program that is to be analysed there. -/
inductive HasProgram (disk : Disk) (input : String) : Option String → Prop
  | file {content : Bytes} (node : disk.node input = .ok (.file content)) :
      HasProgram disk input (some input)
  | directory {entries : List (String × Node)} {l : Listing}
      (node : disk.node input = .ok (.dir entries)) (scanned : Listing.scan disk input = .ok l) :
      HasProgram disk input (l.main? disk)

/-- A program is analysed. The report does not depend on the order in which its libraries are. -/
lemma HasProgram.exists_isOn (h : HasProgram disk input (some main)) (settings : Settings) :
    ∃ r, IsOn settings disk main r ∧ ∀ schedule, analyse schedule settings disk input =
      .ok (r, events schedule settings (FileAnalysis.run settings disk main) r.dependencies
        (runLibraries settings disk r.dependencies)) := by
  generalize hprogram : some main = program at h
  cases h with
  | file node =>
    cases hprogram
    refine ⟨_, isOn_ofMain [] settings disk input input, fun schedule => ?_⟩
    rw [analyse, node]
    rfl
  | @directory entries l node scanned =>
    have hon := isOn_ofMain [] settings disk input main
    refine ⟨(ofListing [] settings disk input l).1, ?_, fun schedule => ?_⟩
    · rw [ofListing, ← hprogram]
      exact ⟨hon.program, hon.dependencies, hon.libraries⟩
    · rw [analyse, node]
      simp only [scanned, Except.map, ofListing, ← hprogram]
      rfl

/-- Where there is no program, nothing is told. -/
lemma HasProgram.exists_of_none (h : HasProgram disk input none) (settings : Settings) :
    ∃ r, r.main = none ∧ r.dependencies = [] ∧ r.libraries = [] ∧
      ∀ schedule, analyse schedule settings disk input = .ok (r, []) := by
  generalize hprogram : none = program at h
  cases h with
  | file => cases hprogram
  | @directory entries l node scanned =>
    refine ⟨(ofListing [] settings disk input l).1, ?_, ?_, ?_, fun schedule => ?_⟩
    all_goals simp [ofListing, analyse, node, scanned, ← hprogram, Except.map]

lemma hasProgram_of_analyse (h : analyse schedule settings disk input = .ok (r, log)) :
    ∃ main, HasProgram disk input main := by
  unfold analyse at h
  rcases hnode : disk.node input with fault | node
  · rw [hnode] at h
    cases h
  rw [hnode] at h
  cases node with
  | file content => exact ⟨some input, .file hnode⟩
  | dir entries =>
    rcases hscan : Listing.scan disk input with e | l
    · rw [hscan] at h
      cases h
    · exact ⟨l.main? disk, .directory hnode hscan⟩

/-- A report is on a program, or there is none and nothing is told. -/
lemma analyse_cases (h : analyse schedule settings disk input = .ok (r, log)) :
    (∃ main, HasProgram disk input (some main) ∧ IsOn settings disk main r ∧
      log = events schedule settings (FileAnalysis.run settings disk main) r.dependencies
        (runLibraries settings disk r.dependencies) ∧
      ∀ schedule', analyse schedule' settings disk input =
        .ok (r, events schedule' settings (FileAnalysis.run settings disk main) r.dependencies
          (runLibraries settings disk r.dependencies))) ∨
    (HasProgram disk input none ∧ r.main = none ∧ r.dependencies = [] ∧ r.libraries = [] ∧
      log = [] ∧ ∀ schedule', analyse schedule' settings disk input = .ok (r, [])) := by
  obtain ⟨main | main, hprogram⟩ := hasProgram_of_analyse h
  · obtain ⟨r', hmain, hdependencies, hlibraries, hall⟩ := hprogram.exists_of_none settings
    obtain ⟨rfl, rfl⟩ := Prod.mk.inj (Except.ok.inj (h.symm.trans (hall schedule)))
    exact .inr ⟨hprogram, hmain, hdependencies, hlibraries, rfl, hall⟩
  · obtain ⟨r', hon, hall⟩ := hprogram.exists_isOn settings
    obtain ⟨rfl, rfl⟩ := Prod.mk.inj (Except.ok.inj (h.symm.trans (hall schedule)))
    exact .inl ⟨main, hprogram, hon, rfl, hall⟩

/-- What stands at a path is analysed, and nothing else is. -/
lemma hasProgram_iff {program : Option String} (schedule : Schedule) (settings : Settings) :
    HasProgram disk input program ↔ ∃ r log, analyse schedule settings disk input = .ok (r, log) ∧
      r.main = program.map (.ofFile settings disk) := by
  constructor
  · intro h
    rcases program with _ | main
    · obtain ⟨r, hmain, -, -, hall⟩ := h.exists_of_none settings
      exact ⟨r, _, hall schedule, hmain⟩
    · obtain ⟨r, hon, hall⟩ := h.exists_isOn settings
      exact ⟨r, _, hall schedule, hon.program⟩
  · rintro ⟨r, log, h, hmain⟩
    obtain ⟨main, hprogram, hon, -⟩ | ⟨hprogram, hnone, -⟩ := analyse_cases h
    · rw [hon.program, eq_comm, Option.map_eq_some_iff] at hmain
      obtain ⟨main', rfl, hsame⟩ := hmain
      have hpath := congrArg FileAnalysis.path hsame
      rw [FileAnalysis.path_ofFile, FileAnalysis.path_ofFile] at hpath
      rwa [hpath]
    · rw [hnone, eq_comm, Option.map_eq_none_iff] at hmain
      rwa [hmain]

/-! ### Parts of what is told -/

section

variable (q : Option String → Bool)

lemma filter_of_path? {es : List Event} {file : Option String} (h : ∀ e ∈ es, e.path? = file) :
    es.filter (fun e => q e.path?) = if q file then es else [] := by
  split
  · next hq => exact List.filter_eq_self.mpr fun e he => by rwa [h e he]
  · next hq => exact List.filter_eq_nil_iff.mpr fun e he => by rwa [h e he]

lemma path?_of_mem_map {e : Event} (h : e ∈ ds.map dependencyEvent) : e.path? = none := by
  obtain ⟨d, -, rfl⟩ := List.mem_map.mp h
  unfold dependencyEvent
  split <;> rfl

/-- What is told of a program and its libraries, where the program is analysed from a file. -/
lemma events_run (schedule : Schedule) (settings : Settings) (disk : Disk) (main : String)
    (ds : List Dependency) (runs : List (String × FileAnalysis × List Event)) :
    events schedule settings (FileAnalysis.run settings disk main) ds runs =
      (FileAnalysis.run settings disk main).2 ++
        if settings.dependencies.follow && (FileAnalysis.ofFile settings disk main).isSuccess then
          ds.map dependencyEvent ++ schedule.merge (runs.map (·.2.2)) ++
            [.stageDone main .dependencies]
        else [] := by
  have hpath := FileAnalysis.path_ofFile settings disk main
  rw [FileAnalysis.ofFile] at hpath
  rw [events, hpath, FileAnalysis.isSuccess_ofFile]
  rfl

/-- What is told of files is told of the program, of its libraries or of the program again. -/
lemma filter_events (schedule : Schedule) (settings : Settings) (disk : Disk) (main : String)
    (ds : List Dependency) :
    (events schedule settings (FileAnalysis.run settings disk main) ds
        (runLibraries settings disk ds)).filter (fun e => q e.path?) =
      (if q (some main) then (FileAnalysis.run settings disk main).2 else []) ++
        if settings.dependencies.follow && (FileAnalysis.ofFile settings disk main).isSuccess then
          (if q none then ds.map dependencyEvent else []) ++
            (schedule.merge ((runLibraries settings disk ds).map (·.2.2))).filter
              (fun e => q e.path?) ++
            if q (some main) then [.stageDone main .dependencies] else []
        else [] := by
  have hrun : ∀ e ∈ (FileAnalysis.run settings disk main).2, e.path? = some main :=
    fun e he => (FileAnalysis.course_run settings disk main).path?_of_mem he
  have hlast : ∀ e ∈ [Event.stageDone main .dependencies], e.path? = some main := by
    simp [Event.path?]
  rw [events_run, List.filter_append, filter_of_path? q hrun]
  congr 1
  split
  · rw [List.filter_append, List.filter_append, filter_of_path? q fun e => path?_of_mem_map,
      filter_of_path? q hlast]
  · rfl

variable {q}

/-- Of a file that is none of the libraries nothing is told among them. -/
lemma filter_merge_of_not (schedule : Schedule) (h : ∀ l ∈ located ds, ¬q (some l.2)) :
    (schedule.merge ((runLibraries settings disk ds).map (·.2.2))).filter (fun e => q e.path?) =
      [] := by
  refine List.filter_eq_nil_iff.mpr fun e he => ?_
  obtain ⟨told, htold, hin⟩ := (interleaves_merge schedule _).exists_of_mem he
  rw [runLibraries, List.map_map] at htold
  obtain ⟨l, hl, rfl⟩ := List.mem_map.mp htold
  rw [(FileAnalysis.course_run settings disk l.2).path?_of_mem hin]
  exact h l hl

end

/-! ### No analysis is lost -/

lemma IsOn.dependencies_eq (h : IsOn settings disk main r) : r.dependencies =
    if settings.dependencies.follow && (FileAnalysis.ofFile settings disk main).isSuccess then
      ((ofSettings settings).walk disk main).1
    else [] :=
  h.dependencies.trans (Walker.dependenciesOf_ofFile settings disk main)

lemma IsOn.separate (h : IsOn settings disk main r) : Separate r.dependencies := by
  rw [h.dependencies]
  exact separate_dependenciesOf settings disk main

lemma IsOn.libraries_eq (h : IsOn settings disk main r) : r.libraries =
    (located r.dependencies).map fun l => (l.1, .ofFile settings disk l.2) := by
  rw [h.libraries, Named.ofPairs_of_nodup]
  rw [List.map_map]
  exact h.separate.nodup_fst

/-- Nothing is lost of the libraries of a program. -/
structure Attached (settings : Settings) (disk : Disk) (r : Report) (main : FileAnalysis)
    (log : List Event) : Prop where
  dependencies : r.dependencies = ((ofSettings settings).walk disk main.path).1
  libraries : r.libraries = (located r.dependencies).map fun l => (l.1, .ofFile settings disk l.2)
  distinct : (r.libraries.map fun l => Text.lowerAscii l.1).Nodup
  told : log.filter (fun e => e.path?.isNone) = r.dependencies.map dependencyEvent
  counted : r.libraries.length = r.dependencies.countP (·.path.isSome)
  summary : r.dependencies ≠ [] → "Dependencies: " ++ count r.dependencies.length ++ " (" ++
    count r.libraries.length ++ " found on disk, " ++ count r.libraries.length ++ " analysed)" ∈
      r.summary

lemma IsOn.attached (h : IsOn settings disk main r) (hfollow : settings.dependencies.follow)
    (hsuccess : (FileAnalysis.ofFile settings disk main).isSuccess) (schedule : Schedule) :
    Attached settings disk r (.ofFile settings disk main)
      (events schedule settings (FileAnalysis.run settings disk main) r.dependencies
        (runLibraries settings disk r.dependencies)) := by
  have hlibraries := h.libraries_eq
  have hcounted : r.libraries.length = r.dependencies.countP (·.path.isSome) := by
    rw [hlibraries, List.length_map, length_located]
  refine ⟨?_, hlibraries, ?_, ?_, hcounted, fun hne => ?_⟩
  · rw [h.dependencies_eq, hfollow, hsuccess, FileAnalysis.path_ofFile]
    rfl
  · rw [hlibraries, List.map_map]
    exact h.separate.nodup_lowerAscii
  · rw [filter_events Option.isNone, hfollow, hsuccess, filter_merge_of_not schedule (by simp)]
    simp
  · have hlines : r.dependencyLines = ["Dependencies: " ++ count r.dependencies.length ++ " (" ++
        count r.libraries.length ++ " found on disk, " ++ count r.libraries.length ++
        " analysed)"] := by
      rw [dependencyLines, if_neg (by simpa using hne), hcounted]
    simp only [summary, h.program, hlines]
    simp

/-- **No analysis of a library is lost.** The program at a path is analysed. There is one analysis
for each library of it that was found, under its name and in the order of the libraries, in whatever
order the analyses were made. Where that of the program itself failed there are no libraries. -/
theorem analyse_attaches_libraries (schedule : Schedule) (settings : Settings) (disk : Disk)
    (input : String) :
    (∀ program, HasProgram disk input program ↔
      ∃ r log, analyse schedule settings disk input = .ok (r, log) ∧
        r.main = program.map (.ofFile settings disk)) ∧
    ∀ r log, analyse schedule settings disk input = .ok (r, log) →
      (∀ schedule', ∃ log', analyse schedule' settings disk input = .ok (r, log')) ∧
      (∀ main, r.main = some main → main.isSuccess → settings.dependencies.follow →
        Attached settings disk r main log) ∧
      (¬(settings.dependencies.follow ∧ r.isSuccess) → r.dependencies = [] ∧ r.libraries = [] ∧
        ∀ e ∈ log, e.path?.isSome ∧ ∀ path, e ≠ .stageDone path .dependencies) := by
  refine ⟨fun program => hasProgram_iff schedule settings, fun r log h => ?_⟩
  obtain ⟨main, -, hon, rfl, hall⟩ | ⟨-, hmain, hdependencies, hlibraries, rfl, hall⟩ :=
    analyse_cases h
  · refine ⟨fun schedule' => ⟨_, hall schedule'⟩, ?_, ?_⟩
    · intro a ha hsuccess hfollow
      rw [hon.program] at ha
      cases ha
      exact hon.attached hfollow hsuccess schedule
    · intro hnot
      have hcond : (settings.dependencies.follow &&
          (FileAnalysis.ofFile settings disk main).isSuccess) = false := by
        rw [isSuccess, hon.program] at hnot
        simpa using hnot
      have hdependencies : r.dependencies = [] := by
        rw [hon.dependencies_eq, hcond]
        rfl
      refine ⟨hdependencies, by rw [hon.libraries, hdependencies]; rfl, ?_⟩
      rw [events_run, hcond]
      intro e he
      rw [if_neg Bool.false_ne_true, List.append_nil] at he
      have hcourse := FileAnalysis.course_run settings disk main
      exact ⟨by rw [hcourse.path?_of_mem he]; rfl, hcourse.ne_dependencies he⟩
  · refine ⟨fun schedule' => ⟨_, hall schedule'⟩, fun a ha => ?_, fun _ => ?_⟩
    · rw [hmain] at ha
      cases ha
    · exact ⟨hdependencies, hlibraries, by simp⟩

/-- The program of a disk with a cycle goes through. -/
lemma isSuccess_cycle : (FileAnalysis.ofFile {} Walker.cycle "a.exe").isSuccess := by
  have hopen : Walker.cycle.open "a.exe" ({} : Settings).limits.maxFileSize =
      .ok (Walker.importing ["b.dll"]) := by decide +kernel
  have hparse : (Image.parse (Walker.importing ["b.dll"])).isOk := by decide +kernel
  rcases himage : Image.parse (Walker.importing ["b.dll"]) with e | image
  · rw [himage] at hparse
    cases hparse
  · have hwraps (overflows : Prop) : ¬(Overflow.wraps = .aborts ∧ overflows) := by simp
    have hrun := FileAnalysis.runIn_of_image hopen himage (hwraps _)
    rw [FileAnalysis.ofFile, FileAnalysis.run, hrun]
    rfl

/-- The program is one of the libraries of its library. -/
lemma analyse_cycle : ∃ r log, analyse [1, 1, 0] {} Walker.cycle "a.exe" = .ok (r, log) ∧
    IsOn {} Walker.cycle "a.exe" r ∧
    r.dependencies = [⟨"b.dll", some "b.dll"⟩, ⟨"a.exe", some "a.exe"⟩, ⟨"c.dll", none⟩] := by
  have hcount : Walker.cycle.fileCount = 2 := by
    simp [Disk.fileCount, Walker.cycle, Node.files, Node.all, Node.allIn, List.mergeSort]
  have hwalk : ((ofSettings {}).walk Walker.cycle "a.exe").1 =
      [⟨"b.dll", some "b.dll"⟩, ⟨"a.exe", some "a.exe"⟩, ⟨"c.dll", none⟩] := by
    rw [Walker.walk, hcount]
    decide +kernel
  have hprogram : HasProgram Walker.cycle "a.exe" (some "a.exe") :=
    .file rfl
  obtain ⟨r, hon, hall⟩ := hprogram.exists_isOn {}
  refine ⟨r, _, hall [1, 1, 0], hon, ?_⟩
  rw [hon.dependencies_eq, isSuccess_cycle, ← hwalk]
  rfl

theorem analyse_attaches_libraries_cycle :
    ∃ r log, analyse [1, 1, 0] {} Walker.cycle "a.exe" = .ok (r, log) ∧
      r.libraries = [("b.dll", .ofFile {} Walker.cycle "b.dll"),
        ("a.exe", .ofFile {} Walker.cycle "a.exe")] ∧
      log.filter (fun e => e.path?.isNone) =
        [.resolved "b.dll" "b.dll", .resolved "a.exe" "a.exe", .unresolved "c.dll"] := by
  obtain ⟨r, log, hanalyse, hon, hdependencies⟩ := analyse_cycle
  obtain ⟨-, hattached, -⟩ := (analyse_attaches_libraries _ _ _ _).2 r log hanalyse
  have h := hattached _ hon.program isSuccess_cycle rfl
  refine ⟨r, log, hanalyse, ?_, ?_⟩
  · rw [h.libraries, hdependencies]
    rfl
  · rw [h.told, hdependencies]
    rfl

end Report

end Dissect
