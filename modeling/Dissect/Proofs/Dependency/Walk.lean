import Mathlib
import Dissect.Dependency.Walk
import Dissect.Proofs.Disk.Place

/-!
What a walk over imports finds.

Files are told apart by their places and libraries by their names, so one library may be met many
times and one file may be in the queue under many paths. The invariant ties the three lists of a
walk together: a file that has been looked at has all its imports among the libraries found, and a
file that a library leads to has been looked at or is still in the queue. Every library that is
found brings at most one file into the queue, and a file of another name than those before it, which
bounds the walk by the number of files.
-/

namespace Dissect.Walker

/-! ### The closure of an import relation -/

/-- The walk goes on until no file is left, however many there are. -/
inductive Drains (disk : Disk) (base : String) : St → St → Prop where
  | done {s : St} (hs : s.queue = []) : Drains disk base s s
  | next {s t : St} {file : String} {queue : List String} (hs : s.queue = file :: queue)
      (ht : Drains disk base (visit disk base { s with queue } file) t) : Drains disk base s t

/-- The name of a library without the case of its ASCII letters. -/
def caseless (d : Dependency) : String := Text.lowerAscii d.name

/-- A library of the name is among those found, up to the case of ASCII letters. -/
def Met (found : List Dependency) (name : String) : Prop := ∃ d ∈ found, d.sameName name

/-- A chain of imports leads from the program to the library, through libraries that were found and
located. -/
inductive Reached (w : Walker) (disk : Disk) (main : String) (found : List Dependency) :
    Dependency → Prop where
  | direct {d : Dependency} (hd : d ∈ found) (hn : d.name ∈ w.readImports disk main) :
      Reached w disk main found d
  | through {d e : Dependency} {path : String} (hd : d ∈ found)
      (he : Reached w disk main found e) (hp : e.path = some path)
      (hn : d.name ∈ w.readImports disk path) : Reached w disk main found d

/-- The libraries are the closure of the imports of a program. -/
structure IsClosure (w : Walker) (disk : Disk) (main : String) (found : List Dependency) :
    Prop where
  distinct : (found.map caseless).Nodup
  direct : ∀ name ∈ w.readImports disk main, Met found name
  through : ∀ d ∈ found, ∀ path, d.path = some path → ∀ name ∈ w.readImports disk path,
    Met found name
  reached : ∀ d ∈ found, Reached w disk main found d
  located : ∀ d ∈ found, d.path = w.find? disk (baseOf main) d.name

/-- What the walker knows about the program, and about any file, is what stands there. -/
def Agrees (w : Walker) (disk : Disk) (main : String) : Prop :=
  ∀ path names, path = main ∨ disk.isFile path →
    List.lookup (disk.key path) w.known = some names → names = w.readImports disk path

variable {w : Walker} {disk : Disk} {base main : String}

lemma sameName_iff {d : Dependency} {name : String} :
    d.sameName name ↔ caseless d = Text.lowerAscii name := by
  simp [Dependency.sameName, caseless]

lemma Met.mono {found found' : List Dependency} {name : String} (h : Met found name)
    (hsub : found ⊆ found') : Met found' name := by
  obtain ⟨d, hd, hn⟩ := h
  exact ⟨d, hsub hd, hn⟩

lemma Reached.mono {found found' : List Dependency} {d : Dependency}
    (h : Reached w disk main found d) (hsub : found ⊆ found') : Reached w disk main found' d := by
  induction h with
  | direct hd hn => exact .direct (hsub hd) hn
  | through hd _ hp hn ih => exact .through (hsub hd) ih hp hn

/-! ### Imports of a file -/

lemma readImports_of_not_isFile {path : String} (h : ¬disk.isFile path) :
    w.readImports disk path = [] := by
  obtain ⟨fault, hread⟩ := Disk.read_of_not_isFile h
  simp [readImports, Disk.open, hread]

lemma readImports_eq_of_read {path path' : String}
    (h : (disk.read path).toOption = (disk.read path').toOption) :
    w.readImports disk path = w.readImports disk path' := by
  unfold readImports Disk.open
  revert h
  rcases disk.read path with fault | content <;>
    rcases disk.read path' with fault' | content' <;> intro h
  · rfl
  · cases h
  · cases h
  · cases h
    dsimp only
    split_ifs <;> rfl

lemma readImports_eq_of_key {path path' : String} (h : disk.isFile path) (h' : disk.isFile path')
    (hkey : disk.key path = disk.key path') :
    w.readImports disk path = w.readImports disk path' :=
  readImports_eq_of_read (by rw [Disk.read_eq_of_key h h' hkey])

/-- What is known about files is what stands there. -/
def Sound (w : Walker) (disk : Disk) (known : List (Path.Key × List String)) : Prop :=
  ∀ path names, disk.isFile path → List.lookup (disk.key path) known = some names →
    names = w.readImports disk path

lemma Sound.cons {known : List (Path.Key × List String)} {file : String}
    (h : Sound w disk known) (hfile : disk.isFile file) :
    Sound w disk ((disk.key file, w.readImports disk file) :: known) := by
  intro path names hpath hlookup
  rw [List.lookup_cons] at hlookup
  split at hlookup
  · next hkey =>
    rw [beq_iff_eq] at hkey
    cases hlookup
    exact readImports_eq_of_key hfile hpath hkey.symm
  · exact h path names hpath hlookup

lemma imports_settings {v : Walker} (hv : v = { w with known := v.known }) (disk : Disk)
    (file : String) :
    (v.imports disk file).2 = { w with known := (v.imports disk file).2.known } := by
  unfold imports
  split
  · exact hv
  · rw [hv]
    rfl

/-- Looking at a file gives its imports, and nothing wrong to remember. -/
lemma imports_of_sound {v : Walker} {file : String} (hv : v = { w with known := v.known })
    (h : Sound w disk v.known) (hfile : disk.isFile file) :
    (v.imports disk file).1 = w.readImports disk file ∧
      Sound w disk (v.imports disk file).2.known := by
  unfold imports
  rcases hlookup : List.lookup (disk.key file) v.known with _ | names
  · have hread : v.readImports disk file = w.readImports disk file := by rw [hv]; rfl
    refine ⟨hread, ?_⟩
    rw [hread]
    exact h.cons hfile
  · exact ⟨h file names hfile hlookup, h⟩

/-! ### Where libraries are found -/

/-- A library is found as a file of its own name in some directory. -/
lemma find?_eq_some {name path : String} (h : w.find? disk base name = some path) :
    isPlainName name ∧ disk.isFile path ∧ ∃ dir, path = Path.join dir name := by
  have hmem := List.mem_of_find?_eq_some h
  unfold candidates at hmem
  split at hmem
  · next hplain =>
    obtain ⟨dir, -, rfl⟩ := List.mem_map.mp hmem
    exact ⟨hplain, List.find?_some h, dir, rfl⟩
  · simp at hmem

lemma isPlainName_iff {name : String} :
    isPlainName name ↔ name ≠ "" ∧ name ≠ "." ∧ name ≠ ".." ∧ '/' ∉ name.toList ∧
      '\\' ∉ name.toList := by
  simp [isPlainName, and_assoc]

/-- The place of a library ends with its name. -/
lemma exists_place {name path : String} (h : w.find? disk base name = some path) :
    ∃ above content, disk.Leads path (above ++ [name]) content := by
  obtain ⟨hplain, hfile, dir, rfl⟩ := find?_eq_some h
  obtain ⟨hempty, hdot, hup, hslash, -⟩ := isPlainName_iff.mp hplain
  obtain ⟨place, content, hleads⟩ := Disk.isFile_iff.mp hfile
  obtain ⟨above, -, rfl⟩ :=
    hleads.inside hslash (by simp [Path.isEmptySegment, hempty, hdot]) hup
  exact ⟨above, content, hleads⟩

/-- Libraries of different names that are found are different files. -/
lemma length_located_le {found : List Dependency} (hdistinct : (found.map caseless).Nodup)
    (hlocated : ∀ d ∈ found, d.path = w.find? disk base d.name) :
    (found.filterMap (·.path)).length ≤ disk.fileCount := by
  -- places of different libraries differ in their last name, whatever the directories
  have hkeys : ((found.filterMap (·.path)).map fun path => (disk.key path).parts).Nodup := by
    rw [List.Nodup, List.pairwise_map, List.pairwise_filterMap]
    rw [List.Nodup, List.pairwise_map] at hdistinct
    refine hdistinct.imp_of_mem fun {d e} hd he hne path hp path' hp' heq => hne ?_
    obtain ⟨above, _, hleads⟩ := exists_place ((hlocated d hd).symm.trans hp)
    obtain ⟨above', _, hleads'⟩ := exists_place ((hlocated e he).symm.trans hp')
    rw [hleads.key, hleads'.key] at heq
    have hname : d.name = e.name := by
      have hlast := congrArg List.getLast? heq
      simpa using hlast
    rw [caseless, caseless, hname]
  have hfiles : ∀ place ∈ (found.filterMap (·.path)).map fun path => (disk.key path).parts,
      ∃ content, disk.root.get? place = some (.file content) := by
    intro place hplace
    obtain ⟨path, hpath, rfl⟩ := List.mem_map.mp hplace
    obtain ⟨d, hd, hp⟩ := List.mem_filterMap.mp hpath
    obtain ⟨above, content, hleads⟩ := exists_place ((hlocated d hd).symm.trans hp)
    rw [hleads.key]
    exact ⟨content, hleads.file⟩
  have hle := Disk.length_le_fileCount hkeys hfiles
  rwa [List.length_map] at hle

/-! ### One file -/

/-- The state after the imports of one file: what they add to the libraries found. -/
structure Adds (disk : Disk) (base : String) (names : List String) (s t : St)
    (new : List Dependency) : Prop where
  walker : t.walker = s.walker
  visited : t.visited = s.visited
  found : t.found = s.found ++ new
  queue : t.queue = s.queue ++ new.filterMap (·.path)
  ordered : (new.map (·.name)).Sublist names
  located : ∀ d ∈ new, d.path = s.walker.find? disk base d.name
  met : ∀ name ∈ names, Met t.found name
  distinct : (s.found.map caseless).Nodup → (t.found.map caseless).Nodup

lemma Adds.subset {names : List String} {s t : St} {new : List Dependency}
    (h : Adds disk base names s t new) : s.found ⊆ t.found := by
  rw [h.found]
  exact List.subset_append_left _ _

lemma any_sameName_iff {found : List Dependency} {name : String} :
    found.any (·.sameName name) ↔ Met found name := by
  simp [Met]

lemma exists_adds (disk : Disk) (base : String) (names : List String) (s : St) :
    ∃ new, Adds disk base names s (names.foldl (addImport disk base) s) new := by
  induction names generalizing s with
  | nil => exact ⟨[], rfl, rfl, by simp, by simp, by simp, by simp, by simp, id⟩
  | cons name names ih =>
    obtain ⟨new, h⟩ := ih (addImport disk base s name)
    rw [List.foldl_cons]
    by_cases hmet : Met s.found name
    · have hsame : addImport disk base s name = s := if_pos (any_sameName_iff.mpr hmet)
      rw [hsame] at h ⊢
      refine ⟨new, { h with ordered := h.ordered.cons _, met := ?_ }⟩
      rintro name' (_ | ⟨_, hname'⟩)
      · exact hmet.mono h.subset
      · exact h.met name' hname'
    · set d : Dependency := ⟨name, s.walker.find? disk base name⟩ with hd
      have hadd : addImport disk base s name =
          { s with found := s.found ++ [d], queue := s.queue ++ d.path.toList } :=
        if_neg fun h => hmet (any_sameName_iff.mp h)
      rw [hadd] at h ⊢
      refine ⟨d :: new, h.walker, h.visited, by simp [h.found], ?_, h.ordered.cons_cons _,
        ?_, ?_, ?_⟩
      · rw [h.queue, List.filterMap_cons]
        rcases d.path <;> simp
      · rintro e (_ | ⟨_, he⟩)
        · rfl
        · exact h.located e he
      · rintro name' (_ | ⟨_, hname'⟩)
        · exact ⟨d, by simp [h.found], sameName_iff.mpr rfl⟩
        · exact h.met name' hname'
      · intro hdistinct
        refine h.distinct ?_
        rw [List.map_append, List.map_singleton, List.nodup_append]
        refine ⟨hdistinct, List.nodup_singleton _, ?_⟩
        rintro _ hold _ hnew rfl
        obtain ⟨e, he, heq⟩ := List.mem_map.mp hold
        exact hmet ⟨e, he, sameName_iff.mpr (heq.trans (List.mem_singleton.mp hnew))⟩

/-- A file is passed over if it has been looked at, and otherwise adds what it imports. -/
lemma visit_cases (disk : Disk) (base : String) (s : St) (file : String) :
    (disk.key file ∈ s.visited ∧ visit disk base s file = s) ∨
      (disk.key file ∉ s.visited ∧ ∃ new, Adds disk base (s.walker.imports disk file).1
        { s with walker := (s.walker.imports disk file).2, visited := disk.key file :: s.visited }
        (visit disk base s file) new) := by
  by_cases hvisited : disk.key file ∈ s.visited
  · exact .inl ⟨hvisited, by simp [visit, hvisited]⟩
  · refine .inr ⟨hvisited, ?_⟩
    have hvisit : visit disk base s file = (s.walker.imports disk file).1.foldl
        (addImport disk base) { s with
          walker := (s.walker.imports disk file).2
          visited := disk.key file :: s.visited } := by
      simp [visit, hvisited]
    rw [hvisit]
    exact exists_adds disk base _ _

/-! ### The end of a walk -/

/-- What holds of the libraries found, whatever the walker knows. -/
structure Listed (w : Walker) (disk : Disk) (base : String) (s : St) : Prop where
  settings : s.walker = { w with known := s.walker.known }
  distinct : (s.found.map caseless).Nodup
  located : ∀ d ∈ s.found, d.path = w.find? disk base d.name

lemma Listed.visit {s : St} (h : Listed w disk base s) (file : String) :
    Listed w disk base (visit disk base s file) := by
  obtain ⟨-, hsame⟩ | ⟨-, new, hadds⟩ := visit_cases disk base s file
  · rwa [hsame]
  · have hsettings := imports_settings h.settings disk file
    refine ⟨by rw [hadds.walker]; exact hsettings, hadds.distinct h.distinct, ?_⟩
    intro d hd
    rw [hadds.found, List.mem_append] at hd
    rcases hd with hold | hnew
    · exact h.located d hold
    · rw [hadds.located d hnew, hsettings]
      rfl

/-- Files come into the queue with the libraries that lead to them. -/
lemma length_queue_visit (disk : Disk) (base : String) (s : St) (file : String) :
    (visit disk base s file).queue.length + (s.found.filterMap (·.path)).length =
      s.queue.length + ((visit disk base s file).found.filterMap (·.path)).length := by
  obtain ⟨-, hsame⟩ | ⟨-, new, hadds⟩ := visit_cases disk base s file
  · rw [hsame]
  · rw [hadds.queue, hadds.found, List.filterMap_append, List.length_append, List.length_append]
    dsimp only
    omega

/-- The walk is over when it has looked at as many files as can still come. -/
lemma drains_visitAll {count : Nat} {s : St} (h : Listed w disk base s)
    (hcount : s.queue.length + disk.fileCount ≤ count + (s.found.filterMap (·.path)).length) :
    Drains disk base s (visitAll disk base count s) := by
  -- a file leaves the queue at each step, and one comes in only with a library that is located;
  -- there are no more of those than files, so the count cannot run out before the queue
  induction count generalizing s with
  | zero =>
    have hle := length_located_le h.distinct h.located
    exact .done (List.eq_nil_of_length_eq_zero (by omega))
  | succ count ih =>
    rcases hs : s.queue with _ | ⟨file, queue⟩
    · rw [visitAll, hs]
      exact .done hs
    · rw [visitAll, hs]
      have hpopped : Listed w disk base { s with queue } := ⟨h.settings, h.distinct, h.located⟩
      refine .next hs (ih (hpopped.visit file) ?_)
      have hlength := length_queue_visit disk base { s with queue } file
      rw [hs, List.length_cons] at hcount
      dsimp only at hlength
      omega

lemma Drains.queue_eq_nil {s t : St} (h : Drains disk base s t) : t.queue = [] := by
  induction h with
  | done hs => exact hs
  | next _ _ ih => exact ih

/-! ### What is found -/

/-- The walk has to look at the file. -/
def IsSource (main : String) (found : List Dependency) (path : String) : Prop :=
  path = main ∨ ∃ d ∈ found, d.path = some path

lemma IsSource.mono {found found' : List Dependency} {path : String}
    (h : IsSource main found path) (hsub : found ⊆ found') : IsSource main found' path :=
  h.imp id fun ⟨d, hd, hp⟩ => ⟨d, hsub hd, hp⟩

/-- The invariant of a walk from a program that can be read. -/
structure Inv (w : Walker) (disk : Disk) (main : String) (s : St) : Prop
    extends Listed w disk (baseOf main) s where
  sound : Sound w disk s.walker.known
  reached : ∀ d ∈ s.found, Reached w disk main s.found d
  queued : ∀ path ∈ s.queue, IsSource main s.found path
  pending : ∀ path, IsSource main s.found path → path ∈ s.queue ∨ disk.key path ∈ s.visited
  closed : ∀ path, disk.isFile path → disk.key path ∈ s.visited →
    ∀ name ∈ w.readImports disk path, Met s.found name

lemma Listed.isFile {s : St} {path : String} (h : Listed w disk base s) (hmain : disk.isFile main)
    (hpath : IsSource main s.found path) : disk.isFile path := by
  obtain rfl | ⟨d, hd, hp⟩ := hpath
  · exact hmain
  · exact (find?_eq_some ((h.located d hd).symm.trans hp)).2.1

/-- What a source imports is reached. -/
lemma IsSource.reached {found : List Dependency} {path : String} {d : Dependency}
    (h : IsSource main found path) (hreached : ∀ e ∈ found, Reached w disk main found e)
    {found' : List Dependency} (hsub : found ⊆ found') (hd : d ∈ found')
    (hn : d.name ∈ w.readImports disk path) : Reached w disk main found' d := by
  obtain rfl | ⟨e, he, hp⟩ := h
  · exact .direct hd hn
  · exact .through hd ((hreached e he).mono hsub) hp hn

/-- A new source comes with a new library. -/
lemma Adds.isSource_cases {names : List String} {s t : St} {new : List Dependency} {path : String}
    (h : Adds disk base names s t new) (hpath : IsSource main t.found path) :
    IsSource main s.found path ∨ path ∈ new.filterMap (·.path) := by
  obtain rfl | ⟨d, hd, hp⟩ := hpath
  · exact .inl (.inl rfl)
  · rw [h.found, List.mem_append] at hd
    exact hd.imp (fun hold => .inr ⟨d, hold, hp⟩)
      fun hnew => List.mem_filterMap.mpr ⟨d, hnew, hp⟩

/-- No source is lost when the first file leaves the queue and counts as looked at. -/
lemma Inv.pending_tail {s : St} {file path : String} {queue : List String} (h : Inv w disk main s)
    (hs : s.queue = file :: queue) (hpath : IsSource main s.found path) :
    path ∈ queue ∨ disk.key path ∈ disk.key file :: s.visited := by
  have hpending := h.pending path hpath
  rw [hs, List.mem_cons] at hpending
  obtain (rfl | hqueue) | hkey := hpending
  · exact .inr List.mem_cons_self
  · exact .inl hqueue
  · exact .inr (List.mem_cons_of_mem _ hkey)

/-- A file that has been looked at can leave the queue. -/
lemma Inv.pop {s : St} {file : String} {queue : List String} (h : Inv w disk main s)
    (hs : s.queue = file :: queue) (hvisited : disk.key file ∈ s.visited) :
    Inv w disk main { s with queue } where
  toListed := ⟨h.settings, h.distinct, h.located⟩
  sound := h.sound
  reached := h.reached
  queued path hpath := h.queued path (by rw [hs]; exact List.mem_cons_of_mem _ hpath)
  pending path hpath := by
    obtain hqueue | hkey := h.pending_tail hs hpath
    · exact .inl hqueue
    · obtain heq | hkey := List.mem_cons.mp hkey
      · exact .inr (heq ▸ hvisited)
      · exact .inr hkey
  closed := h.closed

/-- The imports of the first file in the queue come in its place. -/
lemma Inv.add {s t : St} {file : String} {queue : List String} {new : List Dependency}
    (h : Inv w disk main s) (hmain : disk.isFile main) (hs : s.queue = file :: queue)
    (ht : Listed w disk (baseOf main) t)
    (hadds : Adds disk (baseOf main) (s.walker.imports disk file).1
      { s with queue, walker := (s.walker.imports disk file).2,
               visited := disk.key file :: s.visited } t new) :
    Inv w disk main t := by
  have hsource : IsSource main s.found file := h.queued file (by simp [hs])
  have hfile : disk.isFile file := h.toListed.isFile hmain hsource
  obtain ⟨hnames, hsound⟩ := imports_of_sound h.settings h.sound hfile
  have hsub : s.found ⊆ t.found := hadds.subset
  refine { toListed := ht, sound := by rwa [hadds.walker], reached := ?_, queued := ?_,
           pending := ?_, closed := ?_ }
  · intro d hd
    have hd' := hd
    rw [hadds.found, List.mem_append] at hd'
    rcases hd' with hold | hnew
    · exact (h.reached d hold).mono hsub
    · refine hsource.reached h.reached hsub hd ?_
      rw [← hnames]
      exact hadds.ordered.subset (List.mem_map_of_mem hnew)
  · intro path hpath
    rw [hadds.queue, List.mem_append] at hpath
    rcases hpath with hold | hnew
    · exact (h.queued path (by rw [hs]; exact List.mem_cons_of_mem _ hold)).mono hsub
    · obtain ⟨d, hd, hp⟩ := List.mem_filterMap.mp hnew
      exact .inr ⟨d, by rw [hadds.found]; exact List.mem_append_right _ hd, hp⟩
  · intro path hpath
    rw [hadds.queue, hadds.visited, List.mem_append]
    rcases hadds.isSource_cases hpath with hold | hnew
    · exact (h.pending_tail hs hold).imp_left .inl
    · exact .inl (.inr hnew)
  · intro path hpath hkey name hname
    rw [hadds.visited, List.mem_cons] at hkey
    rcases hkey with hkey | hkey
    -- the path may be another one to the file just looked at
    · rw [readImports_eq_of_key hpath hfile hkey, ← hnames] at hname
      exact hadds.met name hname
    · exact (h.closed path hpath hkey name hname).mono hsub

/-- Looking at the first file in the queue keeps the invariant. -/
lemma Inv.visit {s : St} {file : String} {queue : List String} (h : Inv w disk main s)
    (hmain : disk.isFile main) (hs : s.queue = file :: queue) :
    Inv w disk main (visit disk (baseOf main) { s with queue } file) := by
  have hpopped : Listed w disk (baseOf main) { s with queue } :=
    ⟨h.settings, h.distinct, h.located⟩
  obtain ⟨hvisited, hsame⟩ | ⟨-, new, hadds⟩ :=
    visit_cases disk (baseOf main) { s with queue } file
  · rw [hsame]
    exact h.pop hs hvisited
  · exact h.add hmain hs (hpopped.visit file) hadds

lemma Drains.inv {s t : St} (h : Drains disk (baseOf main) s t) (hmain : disk.isFile main)
    (hs : Inv w disk main s) : Inv w disk main t := by
  induction h with
  | done _ => exact hs
  | next hqueue _ ih => exact ih (hs.visit hmain hqueue)

/-- With no file left, every source has been looked at. -/
lemma Inv.isClosure {s : St} (h : Inv w disk main s) (hmain : disk.isFile main)
    (hs : s.queue = []) : IsClosure w disk main s.found := by
  have hclosed : ∀ path, IsSource main s.found path → ∀ name ∈ w.readImports disk path,
      Met s.found name := by
    intro path hpath
    have hpending := h.pending path hpath
    rw [hs] at hpending
    have hkey := hpending.resolve_left List.not_mem_nil
    exact h.closed path (h.toListed.isFile hmain hpath) hkey
  exact
    { distinct := h.distinct
      direct := hclosed main (.inl rfl)
      through := fun d hd path hp => hclosed path (.inr ⟨d, hd, hp⟩)
      reached := h.reached
      located := h.located }

lemma inv_start (h : Agrees w disk main) : Inv w disk main { walker := w, queue := [main] } where
  settings := rfl
  distinct := List.nodup_nil
  located := by simp
  sound path names hpath := h path names (.inr hpath)
  reached := by simp
  queued path hpath := .inl (List.mem_singleton.mp hpath)
  pending path hpath := by
    obtain rfl | ⟨d, hd, -⟩ := hpath
    · exact .inl (List.mem_singleton_self _)
    · simp at hd
  closed := by simp

/-- Nothing is found from a program that cannot be read. -/
lemma Drains.found_of_not_isFile {t : St} (h : Agrees w disk main) (hmain : ¬disk.isFile main)
    (ht : Drains disk base { walker := w, queue := [main] } t) : t.found = [] := by
  have hnames : (w.imports disk main).1 = [] := by
    rw [← readImports_of_not_isFile (w := w) hmain]
    unfold imports
    split
    · next names hlookup => exact h main names (.inl rfl) hlookup
    · rfl
  rcases ht with hs | ⟨hs, ht⟩
  · cases hs
  · cases hs
    obtain ⟨hvisited, -⟩ | ⟨-, new, hadds⟩ :=
      visit_cases disk base { walker := w, queue := [] } main
    · cases hvisited
    · obtain rfl : new = [] := by
        have hsub := hadds.ordered
        rw [hnames] at hsub
        simpa using hsub
      rcases ht with hs | ⟨hs, -⟩
      · exact hadds.found
      · rw [hadds.queue] at hs
        cases hs

/-- **The walk is the closure of the imports.** It ends with no file left to look at, however the
files import each other. -/
theorem walk_isClosure (w : Walker) (disk : Disk) (main : String) (h : Agrees w disk main) :
    ∃ t, Drains disk (baseOf main) { walker := w, queue := [main] } t ∧
      w.walk disk main = (t.found, t.walker) ∧ IsClosure w disk main t.found := by
  have hcount : [main].length + disk.fileCount ≤
      disk.fileCount + 1 + (([] : List Dependency).filterMap (·.path)).length := by
    simp [Nat.add_comm]
  have hdrains := drains_visitAll (inv_start h).toListed hcount
  refine ⟨_, hdrains, rfl, ?_⟩
  by_cases hmain : disk.isFile main
  · exact (hdrains.inv hmain (inv_start h)).isClosure hmain hdrains.queue_eq_nil
  · rw [hdrains.found_of_not_isFile h hmain]
    have hnone := readImports_of_not_isFile (w := w) hmain
    exact ⟨List.nodup_nil, by simp [hnone], by simp, by simp, by simp⟩

/-- A file that imports the given libraries, whose names have five letters each. -/
def importing (names : List String) : Bytes :=
  Bytes.ofAscii "MZ" ++ List.replicate 58 0 ++ [0x40, 0, 0, 0] ++
    Bytes.ofAscii "PE" ++ [0, 0, 0x4C, 1, 1, 0] ++ List.replicate 16 0 ++
    Bytes.ofAscii ".idata" ++ List.replicate 14 0 ++ [0x80, 0, 0, 0] ++ List.replicate 16 0 ++
    (names.zipIdx.flatMap fun (_, i) => List.replicate 12 0 ++
      [UInt8.ofNat (0x80 + 20 * (names.length + 1) + 6 * i), 0, 0, 0] ++ List.replicate 4 0) ++
    List.replicate 20 0 ++ names.flatMap fun name => Bytes.ofAscii name ++ [0]

/-- A program and a library that import each other. -/
def cycle : Disk where
  root := .dir [("a.exe", .file (importing ["b.dll"])),
    ("b.dll", .file (importing ["B.DLL", "a.exe", "c.dll"]))]

/-- Knows the imports of the program. -/
def cycleWalker : Walker :=
  ({ searchPaths := [], maxFileSize := 1000 } : Walker).remember cycle "a.exe" ["b.dll"]

theorem walk_isClosure_cycle :
    Agrees cycleWalker cycle "a.exe" ∧
      ∃ t, Drains cycle (baseOf "a.exe") { walker := cycleWalker, queue := ["a.exe"] } t ∧
        cycleWalker.walk cycle "a.exe" = (t.found, t.walker) ∧
        t.found.map (·.name) = ["b.dll", "a.exe", "c.dll"] ∧
        IsClosure cycleWalker cycle "a.exe" t.found := by
  have hmain : cycle.isFile "a.exe" := by decide +kernel
  have himports : cycleWalker.readImports cycle "a.exe" = ["b.dll"] := by decide +kernel
  have hsound : Sound cycleWalker cycle cycleWalker.known := by
    have hnone : Sound cycleWalker cycle [] := fun _ _ _ h => nomatch h
    have hcons := hnone.cons hmain
    rwa [himports] at hcons
  have hagrees : Agrees cycleWalker cycle "a.exe" := by
    rintro path names (rfl | hpath)
    · exact hsound _ names hmain
    · exact hsound path names hpath
  obtain ⟨t, hdrains, hwalk, hclosure⟩ := walk_isClosure cycleWalker cycle "a.exe" hagrees
  have hcount : cycle.fileCount = 2 := by
    simp [Disk.fileCount, cycle, Node.files, Node.all, Node.allIn, List.mergeSort]
  have hfound : (cycleWalker.walk cycle "a.exe").1.map (·.name) = ["b.dll", "a.exe", "c.dll"] := by
    rw [walk, hcount]
    decide +kernel
  rw [hwalk] at hfound
  exact ⟨hagrees, t, hdrains, hwalk, hfound, hclosure⟩

end Dissect.Walker
