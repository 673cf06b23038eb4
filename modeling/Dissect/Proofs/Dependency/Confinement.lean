import Mathlib
import Dissect.Proofs.Dependency.Walk

/-!
Names in files cannot lead a walk out of the directories it searches.

The names of libraries come from files that nobody vouches for. A name that is not a single part of
a path is never looked for, and any other one only leads to an entry of a directory that is
searched. So the files that a walk opens are the program and such entries, and nothing that stands
in any other file makes a difference to the walk.
-/

namespace Dissect

/-! ### Disks that differ in the contents of files -/

namespace Node

def isDir : Node → Bool
  | file _ => false
  | dir _ => true

lemma get?_append (node : Node) (place : List String) (name : String) :
    node.get? (place ++ [name]) = (node.get? place).bind fun n => n.entries.get? name := by
  induction place generalizing node with
  | nil => simp [get?]
  | cons first place ih =>
    rw [List.cons_append, get?, get?, Option.bind_assoc]
    exact Option.bind_congr fun below _ => ih below

end Node

namespace Disk

/-- The disks have the same directories and files, with any contents. -/
structure SameTree (disk disk' : Disk) : Prop where
  current : disk.current = disk'.current
  isDir : ∀ place, (disk.root.get? place).map Node.isDir = (disk'.root.get? place).map Node.isDir

namespace SameTree

variable {disk disk' : Disk}

lemma enter_eq (h : SameTree disk disk') (place : List String) (segment : String) :
    disk.enter place segment = disk'.enter place segment := by
  -- whether a directory has an entry is told by the place below it
  have hentry := h.isDir (place ++ [segment])
  rw [Node.get?_append, Node.get?_append] at hentry
  have hplace := h.isDir place
  unfold enter
  revert hplace hentry
  rcases disk.root.get? place with _ | (content | es) <;>
    rcases disk'.root.get? place with _ | (content' | es') <;>
    intro hentry hplace <;> simp only [Option.map_none, Option.map_some, Node.isDir] at hplace <;>
    try simp at hplace
  · rfl
  · rfl
  · have hsome := congrArg Option.isSome hentry
    simp only [Option.bind_some, Option.isSome_map, Node.entries] at hsome
    simp only [hsome]

lemma follow_eq (h : SameTree disk disk') (path : String) :
    disk.follow path = disk'.follow path := by
  have henter : disk.enter = disk'.enter := funext₂ h.enter_eq
  simp only [follow, origin, henter, h.current]

lemma locate_eq (h : SameTree disk disk') (path : String) :
    disk.locate path = disk'.locate path := by
  simp only [locate, h.follow_eq]

lemma key_eq (h : SameTree disk disk') (path : String) : disk.key path = disk'.key path := by
  simp only [key, h.follow_eq]

lemma isFile_eq (h : SameTree disk disk') (path : String) :
    disk.isFile path = disk'.isFile path := by
  unfold isFile node
  rw [h.locate_eq]
  rcases disk'.locate path with fault | place
  · rfl
  · have hplace := h.isDir place
    revert hplace
    simp only [bind, Except.bind]
    rcases disk.root.get? place with _ | (content | es) <;>
      rcases disk'.root.get? place with _ | (content' | es') <;>
      simp [Node.isDir, throw, throwThe, MonadExceptOf.throw, pure, Except.pure]

end SameTree

end Disk

namespace Walker

/-! ### What is opened -/

/-- The file, if the walk opens it: its imports are not known, and were not looked at before. -/
def opens (disk : Disk) (s : St) (file : String) : List String :=
  if s.visited.contains (disk.key file) || (List.lookup (disk.key file) s.walker.known).isSome then
    []
  else [file]

/-- The files that are opened until the queue is empty, or the count runs out. -/
def openedFrom (disk : Disk) (base : String) : ℕ → St → List String
  | 0, _ => []
  | count + 1, s =>
    match s.queue with
    | [] => []
    | file :: queue =>
      opens disk { s with queue } file ++
        openedFrom disk base count (visit disk base { s with queue } file)

/-- The files that a walk opens, in order. -/
def opened (w : Walker) (disk : Disk) (main : String) : List String :=
  openedFrom disk (baseOf main) (disk.fileCount + 1) { walker := w, queue := [main] }

/-! ### Confinement -/

/-- A name that is a single part of a path, and not the way to a directory. -/
structure IsPart (name : String) : Prop where
  ne_empty : name ≠ ""
  ne_dot : name ≠ "."
  ne_up : name ≠ ".."
  slash : '/' ∉ name.toList
  backslash : '\\' ∉ name.toList

/-- The path is that of the name in the first of the directories that has a file of this name, and
the file that it leads to is an entry of that directory. -/
def InFirst (disk : Disk) (dirs : List String) (name path : String) : Prop :=
  ∃ before dir after above content, dirs = before ++ dir :: after ∧ path = Path.join dir name ∧
    (∀ other ∈ before, ¬disk.isFile (Path.join other name)) ∧
    disk.directory dir = .ok above ∧ disk.Leads path (above ++ [name]) content

/-- The name is imported by one of the files, or is in a list that the walker knew. -/
def Imported (w : Walker) (disk : Disk) (files : List String) (name : String) : Prop :=
  ∃ names, name ∈ names ∧
    ((∃ key, (key, names) ∈ w.known) ∨ ∃ path ∈ files, names = w.readImports disk path)

/-- What a walk finds, and the files that it opens, stay in the given directories. -/
structure IsConfined (w : Walker) (disk : Disk) (main : String) (dirs : List String)
    (found : List Dependency) (files : List String) : Prop where
  imported : ∀ d ∈ found, Imported w disk files d.name
  located : ∀ d ∈ found, ∀ path, d.path = some path →
    IsPart d.name ∧ InFirst disk dirs d.name path
  missing : ∀ d ∈ found, d.path = none ↔
    ¬IsPart d.name ∨ ∀ dir ∈ dirs, ¬disk.isFile (Path.join dir d.name)
  opened : ∀ path ∈ files, path = main ∨
    ∃ name, Imported w disk files name ∧ IsPart name ∧ InFirst disk dirs name path
  /-- What stands in other files makes no difference, so these are all that are opened. -/
  determined : ∀ disk', disk.SameTree disk' →
    (∀ path ∈ files, disk.read path = disk'.read path) → w.walk disk' main = w.walk disk main

variable {w : Walker} {disk disk' : Disk} {base main : String} {paths : List String}

/-! ### Where a name is looked for -/

lemma isPlainName_iff_isPart {name : String} : isPlainName name ↔ IsPart name := by
  rw [isPlainName_iff]
  exact ⟨fun ⟨h1, h2, h3, h4, h5⟩ => ⟨h1, h2, h3, h4, h5⟩, fun ⟨h1, h2, h3, h4, h5⟩ =>
    ⟨h1, h2, h3, h4, h5⟩⟩

lemma candidates_of_isPart {name : String} (h : IsPart name) :
    w.candidates base name = (w.directories base).map fun dir => Path.join dir name :=
  if_pos (isPlainName_iff_isPart.mpr h)

lemma candidates_of_not_isPart {name : String} (h : ¬IsPart name) : w.candidates base name = [] :=
  if_neg fun hplain => h (isPlainName_iff_isPart.mp hplain)

lemma find?_inFirst {name path : String} (h : w.find? disk base name = some path) :
    IsPart name ∧ InFirst disk (w.directories base) name path := by
  have hpart := isPlainName_iff_isPart.mp (find?_eq_some h).1
  rw [find?, candidates_of_isPart hpart, List.find?_map, Option.map_eq_some_iff] at h
  obtain ⟨dir, hdir, rfl⟩ := h
  obtain ⟨hfile, before, after, hdirs, hbefore⟩ := List.find?_eq_some_iff_append.mp hdir
  obtain ⟨place, content, hleads⟩ := Disk.isFile_iff.mp hfile
  obtain ⟨above, habove, rfl⟩ := hleads.inside hpart.slash
    (by simp [Path.isEmptySegment, hpart.ne_empty, hpart.ne_dot]) hpart.ne_up
  exact ⟨hpart, before, dir, after, above, content, hdirs, rfl,
    fun other hother => by simpa using hbefore other hother, habove, hleads⟩

lemma find?_eq_none_iff {name : String} : w.find? disk base name = none ↔
    ¬IsPart name ∨ ∀ dir ∈ w.directories base, ¬disk.isFile (Path.join dir name) := by
  by_cases hpart : IsPart name
  · simp [find?, candidates_of_isPart hpart, hpart]
  · simp [find?, candidates_of_not_isPart hpart, hpart]

/-! ### One file -/

/-- What holds of a walk that has opened some files. -/
structure Accounted (w : Walker) (disk : Disk) (main : String) (paths : List String) (s : St) : Prop
    extends Listed w disk (baseOf main) s where
  known : ∀ e ∈ s.walker.known, e ∈ w.known ∨ ∃ path ∈ paths, e.2 = w.readImports disk path
  imported : ∀ d ∈ s.found, Imported w disk paths d.name
  queued : ∀ path ∈ s.queue, IsSource main s.found path
  opened : ∀ path ∈ paths, IsSource main s.found path

lemma Imported.mono {paths' : List String} {name : String} (h : Imported w disk paths name)
    (hsub : paths ⊆ paths') : Imported w disk paths' name := by
  obtain ⟨names, hname, hnames⟩ := h
  exact ⟨names, hname, hnames.imp_right fun ⟨path, hpath, heq⟩ => ⟨path, hsub hpath, heq⟩⟩

/-- The imports of a file are known, or the file is opened for them. -/
lemma imports_cases (disk : Disk) (s : St) (file : String)
    (hvisited : disk.key file ∉ s.visited) :
    ((∃ names, (disk.key file, names) ∈ s.walker.known ∧
        s.walker.imports disk file = (names, s.walker)) ∧ opens disk s file = []) ∨
      (s.walker.imports disk file = (s.walker.readImports disk file,
          s.walker.remember disk file (s.walker.readImports disk file)) ∧
        opens disk s file = [file]) := by
  unfold imports opens
  rcases hlookup : List.lookup (disk.key file) s.walker.known with _ | names
  · exact .inr ⟨rfl, by simp [hvisited]⟩
  · obtain ⟨front, back, hknown, -⟩ := List.lookup_eq_some_iff.mp hlookup
    exact .inl ⟨⟨names, by simp [hknown], rfl⟩, by simp⟩

lemma opens_of_visited {s : St} {file : String} (h : disk.key file ∈ s.visited) :
    opens disk s file = [] := by
  simp [opens, h]

/-- Where the imports of the next file come from, and what the walker knows after it. -/
lemma Accounted.imports {s : St} (h : Accounted w disk main paths s)
    {file : String} (hvisited : disk.key file ∉ s.visited) :
    (∀ name ∈ (s.walker.imports disk file).1, Imported w disk (paths ++ opens disk s file) name) ∧
      ∀ e ∈ (s.walker.imports disk file).2.known,
        e ∈ w.known ∨ ∃ path ∈ paths ++ opens disk s file, e.2 = w.readImports disk path := by
  obtain ⟨⟨names, hmem, himports⟩, hopens⟩ | ⟨himports, hopens⟩ :=
    imports_cases disk s file hvisited
  · rw [himports, hopens, List.append_nil]
    refine ⟨fun name hname => ⟨names, hname, ?_⟩, h.known⟩
    exact (h.known _ hmem).imp_left fun hw => ⟨_, hw⟩
  · have hread : s.walker.readImports disk file = w.readImports disk file := by
      rw [h.settings]
      rfl
    rw [himports, hopens, hread]
    refine ⟨fun name hname => ⟨_, hname, .inr ⟨file, by simp, rfl⟩⟩, ?_⟩
    rintro e (_ | ⟨_, he⟩)
    · exact .inr ⟨file, by simp, rfl⟩
    · exact (h.known e he).imp_right fun ⟨path, hpath, heq⟩ => ⟨path, by simp [hpath], heq⟩

/-- Looking at the first file in the queue keeps the account. -/
lemma Accounted.visit {s : St} {file : String} {queue : List String}
    (h : Accounted w disk main paths s) (hs : s.queue = file :: queue) :
    Accounted w disk main (paths ++ opens disk { s with queue } file)
      (visit disk (baseOf main) { s with queue } file) := by
  have htail : ∀ path ∈ queue, IsSource main s.found path := fun path hpath =>
    h.queued path (hs ▸ List.mem_cons_of_mem _ hpath)
  have hfile : IsSource main s.found file := h.queued file (hs ▸ List.mem_cons_self)
  have hpopped : Accounted w disk main paths { s with queue } :=
    ⟨⟨h.settings, h.distinct, h.located⟩, h.known, h.imported, htail, h.opened⟩
  have hlisted := hpopped.toListed.visit file
  obtain ⟨hvisited, hsame⟩ | ⟨hvisited, new, hadds⟩ :=
    visit_cases disk (baseOf main) { s with queue } file
  · rw [hsame, opens_of_visited hvisited, List.append_nil]
    exact hpopped
  · obtain ⟨hnames, hknown⟩ := hpopped.imports hvisited
    have hsub : s.found ⊆ (Walker.visit disk (baseOf main) { s with queue } file).found :=
      hadds.subset
    refine ⟨hlisted, by rwa [hadds.walker], ?_, ?_, ?_⟩
    · intro d hd
      rw [hadds.found, List.mem_append] at hd
      rcases hd with hold | hnew
      · exact (h.imported d hold).mono (List.subset_append_left _ _)
      · exact hnames d.name (hadds.ordered.subset (List.mem_map_of_mem hnew))
    · intro path hpath
      rw [hadds.queue, List.mem_append] at hpath
      rcases hpath with hold | hnew
      · exact (htail path hold).mono hsub
      · obtain ⟨d, hd, hp⟩ := List.mem_filterMap.mp hnew
        exact .inr ⟨d, by rw [hadds.found]; exact List.mem_append_right _ hd, hp⟩
    · intro path hpath
      rw [List.mem_append] at hpath
      rcases hpath with hold | hnew
      · exact (h.opened path hold).mono hsub
      · obtain rfl : path = file := by
          unfold opens at hnew
          split at hnew
          · cases hnew
          · exact List.mem_singleton.mp hnew
        exact hfile.mono hsub

/-- A whole walk keeps the account. -/
lemma Accounted.visitAll {s : St} (h : Accounted w disk main paths s)
    (count : ℕ) :
    Accounted w disk main (paths ++ openedFrom disk (baseOf main) count s)
      (visitAll disk (baseOf main) count s) := by
  induction count generalizing paths s with
  | zero => simpa [openedFrom, Walker.visitAll] using h
  | succ count ih =>
    rcases hs : s.queue with _ | ⟨file, queue⟩
    · simpa [openedFrom, Walker.visitAll, hs] using h
    · have hrest := ih (h.visit hs)
      rw [List.append_assoc] at hrest
      simpa only [openedFrom, Walker.visitAll, hs] using hrest

lemma accounted_start (w : Walker) (disk : Disk) (main : String) :
    Accounted w disk main [] { walker := w, queue := [main] } where
  settings := rfl
  distinct := List.nodup_nil
  located := by simp
  known e he := .inl he
  imported := by simp
  queued path hpath := .inl (List.mem_singleton.mp hpath)
  opened := by simp

lemma accounted_walk (w : Walker) (disk : Disk) (main : String) :
    Accounted w disk main (opened w disk main)
      (visitAll disk (baseOf main) (disk.fileCount + 1) { walker := w, queue := [main] }) :=
  (accounted_start w disk main).visitAll (disk.fileCount + 1)

/-! ### Two disks -/

section TwoDisks

variable (h : disk.SameTree disk')
include h

lemma addImport_eq (base : String) : addImport disk base = addImport disk' base := by
  have hfile : disk.isFile = disk'.isFile := funext h.isFile_eq
  funext s name
  simp only [addImport, find?, hfile]

/-- A visit looks into no other file than the one it opens. -/
lemma visit_eq {s : St} {file : String}
    (hread : ∀ path ∈ opens disk s file, disk.read path = disk'.read path) :
    visit disk' base s file = visit disk base s file := by
  by_cases hvisited : disk.key file ∈ s.visited
  · simp [visit, ← h.key_eq, hvisited]
  · have himports : s.walker.imports disk' file = s.walker.imports disk file := by
      unfold imports remember
      rw [← h.key_eq]
      rcases hlookup : List.lookup (disk.key file) s.walker.known with _ | names
      · have hsame : disk.read file = disk'.read file :=
          hread file (by simp [opens, hvisited, hlookup])
        simp only [readImports, Disk.open, hsame]
      · rfl
    simp only [visit, ← h.key_eq, himports, addImport_eq h]

lemma visitAll_eq {count : ℕ} {s : St}
    (hread : ∀ path ∈ openedFrom disk base count s, disk.read path = disk'.read path) :
    visitAll disk' base count s = visitAll disk base count s := by
  induction count generalizing s with
  | zero => rfl
  | succ count ih =>
    rcases hs : s.queue with _ | ⟨file, queue⟩
    · simp only [visitAll, hs]
    · simp only [openedFrom, hs, List.mem_append] at hread
      simp only [visitAll, hs]
      rw [visit_eq h fun path hpath => hread path (.inl hpath)]
      exact ih fun path hpath => hread path (.inr hpath)

end TwoDisks

lemma drains_of_queue_eq_nil {count : ℕ} {s : St} (h : (visitAll disk base count s).queue = []) :
    Drains disk base s (visitAll disk base count s) := by
  induction count generalizing s with
  | zero => exact .done h
  | succ count ih =>
    rcases hs : s.queue with _ | ⟨file, queue⟩
    · simp only [visitAll, hs]
      exact .done hs
    · simp only [visitAll, hs] at h ⊢
      exact .next hs (ih h)

lemma Drains.unique {s t t' : St} (h : Drains disk base s t) (h' : Drains disk base s t') :
    t = t' := by
  induction h with
  | done hs =>
    cases h' with
    | done _ => rfl
    | next hs' _ => simp [hs] at hs'
  | next hs _ ih =>
    cases h' with
    | done hs' => simp [hs] at hs'
    | next hs' ht' =>
      obtain ⟨rfl, rfl⟩ := List.cons.inj (hs.symm.trans hs')
      exact ih ht'

lemma drains_walk (w : Walker) (disk : Disk) (main : String) :
    Drains disk (baseOf main) { walker := w, queue := [main] }
      (visitAll disk (baseOf main) (disk.fileCount + 1) { walker := w, queue := [main] }) :=
  drains_visitAll (accounted_start w disk main).toListed (by simp [Nat.add_comm])

/-- What stands in files that are not opened makes no difference. The number of files on the other
disk may be another one, but the walk is over in both cases. -/
lemma walk_eq_of_sameTree (h : disk.SameTree disk')
    (hread : ∀ path ∈ opened w disk main, disk.read path = disk'.read path) :
    w.walk disk' main = w.walk disk main := by
  have hsame := visitAll_eq h hread
  have hend := (drains_walk w disk main).queue_eq_nil
  rw [← hsame] at hend
  have hunique := (drains_walk w disk' main).unique (drains_of_queue_eq_nil hend)
  rw [hsame] at hunique
  simp only [walk, hunique]

/-- **Names in files lead nowhere but to the directories that are searched.** A library is located
in the first of them that has a file of its name, or nowhere, and the walk opens no file but the
program and files that it located so. -/
theorem walk_isConfined (w : Walker) (disk : Disk) (main : String) :
    IsConfined w disk main
      ([baseOf main, Path.join (baseOf main) "lib", Path.join (baseOf main) "bin"] ++ w.searchPaths)
      (w.walk disk main).1 (opened w disk main) := by
  have h := accounted_walk w disk main
  refine ⟨h.imported, fun d hd path hp => ?_, fun d hd => ?_, fun path hpath => ?_,
    fun disk' => walk_eq_of_sameTree⟩
  · exact find?_inFirst ((h.located d hd).symm.trans hp)
  · rw [h.located d hd]
    exact find?_eq_none_iff
  · refine (h.opened path hpath).imp_right fun ⟨d, hd, hp⟩ => ⟨d.name, h.imported d hd, ?_⟩
    exact find?_inFirst ((h.located d hd).symm.trans hp)

/-- A program and its library that import a file outside, in both spellings. -/
def bait : Disk where
  root := .dir [("ab", .file (importing [])), ("app", .dir [
    ("a.exe", .file (importing ["../ab", "b.dll"])),
    ("lib", .dir [("b.dll", .file (importing ["..\\ab"]))])])]

theorem walk_isConfined_bait :
    let w : Walker := { searchPaths := [""], maxFileSize := 1000 }
    (w.walk bait "app/a.exe").1 =
        [⟨"../ab", none⟩, ⟨"b.dll", some "app/lib/b.dll"⟩, ⟨"..\\ab", none⟩] ∧
      opened w bait "app/a.exe" = ["app/a.exe", "app/lib/b.dll"] ∧
      IsConfined w bait "app/a.exe" ["app", "app/lib", "app/bin", ""] (w.walk bait "app/a.exe").1
        (opened w bait "app/a.exe") := by
  intro w
  have hcount : bait.fileCount = 3 := by
    simp [Disk.fileCount, bait, Node.files, Node.all, Node.allIn, List.mergeSort]
  refine ⟨?_, ?_, walk_isConfined w bait "app/a.exe"⟩
  · rw [walk, hcount]
    decide +kernel
  · rw [opened, hcount]
    decide +kernel

end Walker

end Dissect
