import Mathlib
import Dissect.Analysis.Report
import Dissect.Proofs.Analysis.Stages
import Dissect.Proofs.Dependency.Walk

/-!
When what a walker knows makes a difference.

A walker keeps import lists under what tells one file from another: the place of a file, or the path
as it is if it leads nowhere. A list that was read, or that comes from the analysis of the file, is
right for every path to the place of the file. So a walker that has been used answers like one that
has not: two walks that differ in what they know go through the same states.

There is one gap. A path that leads nowhere can be taken for the place of a file, as a path with a
slash behind the name of a file is. What is then kept for the path is wrong for the file.
-/

namespace Dissect.Walker

/-! ### Requests -/

inductive Request
  /-- The libraries of a program. -/
  | walk (main : String)
  /-- The names of the libraries of a program. -/
  | names (main : String)
  /-- The imports of one file. -/
  | imports (path : String)
  /-- Where a library is. -/
  | find (name base : String)
  /-- Keeps the imports of a file that were read elsewhere. -/
  | remember (path : String) (libraries : List String)

inductive Answer
  | libraries (found : List Dependency)
  | names (names : List String)
  | place (path : Option String)
  | nothing
  deriving DecidableEq

namespace Request

/-- The file whose imports are asked for, or kept. -/
def path? : Request → Option String
  | walk path | names path | imports path | remember path _ => some path
  | find _ _ => none

/-- The answer of a walker, and the walker after it. -/
def run (disk : Disk) (w : Walker) : Request → Answer × Walker
  | walk main => (.libraries (w.walk disk main).1, (w.walk disk main).2)
  | names main => (.names ((w.walk disk main).1.map (·.name)), (w.walk disk main).2)
  | imports path => (.names (w.imports disk path).1, (w.imports disk path).2)
  | find name base => (.place (w.find? disk base name), w)
  | remember path libraries => (.nothing, w.remember disk path libraries)

/-- What is kept was read from the file, and the file is not too large for the walker. -/
def IsHonest (w : Walker) (disk : Disk) : Request → Prop
  | remember path libraries => ∃ data image, disk.open path w.maxFileSize = .ok data ∧
      Image.parseAs (Format.detect data) data = .ok image ∧ libraries = image.libraries
  | _ => True

end Request

/-- The answers of one walker to requests one after another. -/
def answers (disk : Disk) : Walker → List Request → List Answer
  | _, [] => []
  | w, r :: rs => (r.run disk w).1 :: answers disk (r.run disk w).2 rs

/-- The walker as it was when it knew nothing. -/
def forget (w : Walker) : Walker := { w with known := [] }

/-- A path that a walker may come to: one of those given, or that of a file. -/
def InPlay (disk : Disk) (paths : List String) (path : String) : Prop :=
  path ∈ paths ∨ disk.isFile path

/-- Paths to one place have the same contents. -/
def SameContents (disk : Disk) (paths : List String) : Prop :=
  ∀ p q place, InPlay disk paths p → InPlay disk paths q → disk.follow p = .ok place →
    disk.follow q = .ok place → (disk.read p).toOption = (disk.read q).toOption

/-- The path leads nowhere, but cannot be told apart from one to a file with imports. -/
def Shadows (w : Walker) (disk : Disk) (path : String) : Prop :=
  (∃ fault, disk.follow path = .error fault) ∧
    ∃ q, disk.isFile q ∧ disk.key q = disk.key path ∧ w.readImports disk q ≠ []

/-- Paths that cannot be told apart have the same imports. -/
def Consistent (w : Walker) (disk : Disk) (paths : List String) : Prop :=
  ∀ p q, InPlay disk paths p → InPlay disk paths q → disk.key p = disk.key q →
    w.readImports disk p = w.readImports disk q

/-- Requests about paths are answered one after another as if each were the first. -/
def Transparent (w : Walker) (disk : Disk) (paths : List String) : Prop :=
  ∀ rs : List Request, (∀ r ∈ rs, ∀ path, r.path? = some path → InPlay disk paths path) →
    (∀ r ∈ rs, r.IsHonest w disk) →
      answers disk w.forget rs = rs.map fun r => (r.run disk w.forget).1

variable {w v v' : Walker} {disk : Disk} {base : String} {paths : List String}

/-! ### Paths that cannot be told apart -/

/-- A path that is not too long has the contents of its place. -/
lemma sameContents_of_short (h : ∀ path ∈ paths, path.utf8ByteSize ≤ Disk.maxPath) :
    SameContents disk paths := by
  have hlocate {p : String} {place : List String} (hp : InPlay disk paths p)
      (hfollow : disk.follow p = .ok place) : disk.locate p = .ok place := by
    rcases hp with hp | hp
    · exact Disk.locate_of_follow hfollow (h p hp)
    · obtain ⟨place', content, hleads⟩ := Disk.isFile_iff.mp hp
      rw [hleads.locate, ← hleads.follow, hfollow]
  intro p q place hp hq hp' hq'
  rw [Disk.read_eq_of_locate (hlocate hp hp') (hlocate hq hq')]

/-- Paths are taken for each other rightly, unless one of them shadows a file. -/
lemma consistent_iff (hsame : SameContents disk paths) :
    Consistent w disk paths ↔ ∀ path ∈ paths, ¬Shadows w disk path := by
  have hnothing {p : String} {fault : Fault} (hfollow : disk.follow p = .error fault) :
      w.readImports disk p = [] :=
    readImports_of_not_isFile (Disk.not_isFile_of_follow hfollow)
  constructor
  · rintro h path hpath ⟨⟨fault, hfollow⟩, q, hq, hkey, hne⟩
    rw [h q path (.inr hq) (.inl hpath) hkey, hnothing hfollow] at hne
    exact hne rfl
  · intro h
    -- a path in play that leads nowhere is one of those given, and none of these shadows a file
    have hnone {p q : String} {fault : Fault} (hp : InPlay disk paths p)
        (hfollow : disk.follow p = .error fault) (hkey : disk.key q = disk.key p) :
        w.readImports disk q = [] := by
      have hgiven : p ∈ paths := hp.resolve_right (Disk.not_isFile_of_follow hfollow)
      by_contra hne
      have hfile : disk.isFile q := by
        by_contra hnot
        exact hne (readImports_of_not_isFile hnot)
      exact h p hgiven ⟨⟨fault, hfollow⟩, q, hfile, hkey, hne⟩
    intro p q hp hq hkey
    rcases hp' : disk.follow p with fault | place
    · rw [hnothing hp', hnone hp hp' hkey.symm]
    · rcases hq' : disk.follow q with fault | place'
      · rw [hnothing hq', hnone hq hq' hkey]
      · obtain rfl : place = place' := by
          rw [Disk.key, Disk.key, hp', hq'] at hkey
          exact congrArg Path.Key.parts hkey
        exact readImports_eq_of_read (hsame p q place hp hq hp' hq')

/-- Paths of files need no assumption. -/
lemma consistent_nil (w : Walker) (disk : Disk) : Consistent w disk [] :=
  (consistent_iff (sameContents_of_short (by simp))).mpr (by simp)

/-! ### What is known -/

/-- The walker has the given settings, and what it knows of a path is what stands there. -/
structure Trusts (w : Walker) (disk : Disk) (paths : List String) (v : Walker) : Prop where
  settings : v = { w with known := v.known }
  sound : ∀ path names, InPlay disk paths path →
    List.lookup (disk.key path) v.known = some names → names = w.readImports disk path

lemma trusts_forget (w : Walker) (disk : Disk) (paths : List String) :
    Trusts w disk paths w.forget := ⟨rfl, fun _ _ _ h => nomatch h⟩

lemma Trusts.find?_eq (h : Trusts w disk paths v) (base name : String) :
    v.find? disk base name = w.find? disk base name := by
  rw [h.settings]
  rfl

lemma Trusts.readImports_eq (h : Trusts w disk paths v) (path : String) :
    v.readImports disk path = w.readImports disk path := by
  rw [h.settings]
  rfl

/-- Keeping what stands in a file keeps all that is known right. -/
lemma Trusts.remember (h : Trusts w disk paths v) (hsame : Consistent w disk paths) {file : String}
    (hfile : InPlay disk paths file) :
    Trusts w disk paths (v.remember disk file (w.readImports disk file)) where
  settings := by
    rw [h.settings]
    rfl
  sound path names hpath hlookup := by
    rw [Walker.remember, List.lookup_cons] at hlookup
    split at hlookup
    -- the path may be another one to the file, or one to no file that looks the same
    · next hkey =>
      rw [beq_iff_eq] at hkey
      cases hlookup
      exact hsame _ _ hfile hpath hkey.symm
    · exact h.sound path names hpath hlookup

lemma Trusts.imports (h : Trusts w disk paths v) (hsame : Consistent w disk paths) {file : String}
    (hfile : InPlay disk paths file) :
    (v.imports disk file).1 = w.readImports disk file ∧
      Trusts w disk paths (v.imports disk file).2 := by
  unfold Walker.imports
  rcases hlookup : List.lookup (disk.key file) v.known with _ | names
  · dsimp only
    rw [h.readImports_eq]
    exact ⟨rfl, h.remember hsame hfile⟩
  · exact ⟨h.sound file names hfile hlookup, h⟩

/-! ### Walks that know different things -/

/-- States that differ at most in what is known, which is right in both. -/
structure Alike (w : Walker) (disk : Disk) (paths : List String) (s t : St) : Prop where
  visited : s.visited = t.visited
  found : s.found = t.found
  queue : s.queue = t.queue
  left : Trusts w disk paths s.walker
  right : Trusts w disk paths t.walker
  inPlay : ∀ path ∈ s.queue, InPlay disk paths path

lemma Alike.addImport {s t : St} (h : Alike w disk paths s t) (name : String) :
    Alike w disk paths (addImport disk base s name) (addImport disk base t name) := by
  unfold Walker.addImport
  rw [h.found]
  split
  · exact h
  · rw [h.left.find?_eq, h.right.find?_eq]
    refine ⟨h.visited, rfl, by rw [h.queue], h.left, h.right, fun path hpath => ?_⟩
    rcases List.mem_append.mp hpath with hold | hnew
    · exact h.inPlay path hold
    · exact .inr (find?_eq_some (Option.mem_toList.mp hnew)).2.1

lemma Alike.addImports {s t : St} (h : Alike w disk paths s t) (names : List String) :
    Alike w disk paths (names.foldl (Walker.addImport disk base) s)
      (names.foldl (Walker.addImport disk base) t) := by
  induction names generalizing s t with
  | nil => exact h
  | cons name names ih => exact ih (h.addImport name)

lemma Alike.visit {s t : St} (h : Alike w disk paths s t) (hsame : Consistent w disk paths)
    {file : String} (hfile : InPlay disk paths file) :
    Alike w disk paths (visit disk base s file) (visit disk base t file) := by
  obtain ⟨hleft, hleft'⟩ := h.left.imports hsame hfile
  obtain ⟨hright, hright'⟩ := h.right.imports hsame hfile
  unfold Walker.visit
  dsimp only
  rw [h.visited, hleft, hright]
  split
  · exact h
  · refine Alike.addImports ?_ _
    exact ⟨rfl, h.found, h.queue, hleft', hright', h.inPlay⟩

lemma Alike.visitAll {s t : St} (h : Alike w disk paths s t) (hsame : Consistent w disk paths)
    (base : String) (count : ℕ) :
    Alike w disk paths (visitAll disk base count s) (visitAll disk base count t) := by
  induction count generalizing s t with
  | zero => exact h
  | succ count ih =>
    have ht := h.queue
    rcases hs : s.queue with _ | ⟨file, queue⟩
    · rw [hs] at ht
      rw [Walker.visitAll, Walker.visitAll, hs, ← ht]
      exact h
    · rw [hs] at ht
      rw [Walker.visitAll, Walker.visitAll, hs, ← ht]
      have hall := h.inPlay
      rw [hs] at hall
      have hpopped : Alike w disk paths { s with queue } { t with queue } :=
        ⟨h.visited, h.found, rfl, h.left, h.right, fun path hpath =>
          hall path (List.mem_cons_of_mem _ hpath)⟩
      exact ih (hpopped.visit hsame (hall file List.mem_cons_self))

/-- A walk finds the same whatever it knows, and learns nothing wrong. -/
lemma Trusts.walk (h : Trusts w disk paths v) (h' : Trusts w disk paths v')
    (hsame : Consistent w disk paths) {main : String} (hmain : InPlay disk paths main) :
    (v.walk disk main).1 = (v'.walk disk main).1 ∧ Trusts w disk paths (v.walk disk main).2 := by
  have hstart : Alike w disk paths { walker := v, queue := [main] }
      { walker := v', queue := [main] } :=
    ⟨rfl, rfl, rfl, h, h', fun path hpath => List.mem_singleton.mp hpath ▸ hmain⟩
  have hend := hstart.visitAll hsame (baseOf main) (disk.fileCount + 1)
  exact ⟨hend.found, hend.left⟩

/-! ### Answers -/

lemma isFile_of_open {path : String} {limit : ℕ} {data : Bytes}
    (h : disk.open path limit = .ok data) : disk.isFile path := by
  by_contra hfile
  obtain ⟨fault, hread⟩ := Disk.read_of_not_isFile hfile
  rw [Disk.open, hread] at h
  cases h

lemma readImports_of_parseAs {path : String} {data : Bytes} {image : Image}
    (hopen : disk.open path w.maxFileSize = .ok data)
    (hparse : Image.parseAs (Format.detect data) data = .ok image) :
    w.readImports disk path = image.libraries := by
  rw [readImports, hopen]
  simp only [Image.parse, hparse]

/-- A walker that knows nothing wrong answers like one that knows nothing, and goes on so. -/
lemma Trusts.run (h : Trusts w disk paths v) (hsame : Consistent w disk paths) {r : Request}
    (hr : ∀ path, r.path? = some path → InPlay disk paths path) (hhonest : r.IsHonest w disk) :
    (r.run disk v).1 = (r.run disk w.forget).1 ∧ Trusts w disk paths (r.run disk v).2 := by
  have hnone := trusts_forget w disk paths
  cases r with
  | walk main =>
    obtain ⟨hfound, hafter⟩ := h.walk hnone hsame (hr main rfl)
    exact ⟨by simp only [Request.run, hfound], hafter⟩
  | names main =>
    obtain ⟨hfound, hafter⟩ := h.walk hnone hsame (hr main rfl)
    exact ⟨by simp only [Request.run, hfound], hafter⟩
  | imports path =>
    obtain ⟨hnames, hafter⟩ := h.imports hsame (hr path rfl)
    obtain ⟨hnames', -⟩ := hnone.imports hsame (hr path rfl)
    exact ⟨by simp only [Request.run, hnames, hnames'], hafter⟩
  | find name base =>
    exact ⟨by simp only [Request.run, h.find?_eq, hnone.find?_eq], h⟩
  | remember path libraries =>
    obtain ⟨data, image, hopen, hparse, rfl⟩ := hhonest
    refine ⟨rfl, ?_⟩
    change Trusts w disk paths (v.remember disk path image.libraries)
    rw [← readImports_of_parseAs hopen hparse]
    exact h.remember hsame (hr path rfl)

lemma Trusts.answers (h : Trusts w disk paths v) (hsame : Consistent w disk paths)
    {rs : List Request} (hrs : ∀ r ∈ rs, ∀ path, r.path? = some path → InPlay disk paths path)
    (hhonest : ∀ r ∈ rs, r.IsHonest w disk) :
    answers disk v rs = rs.map fun r => (r.run disk w.forget).1 := by
  induction rs generalizing v with
  | nil => rfl
  | cons r rs ih =>
    obtain ⟨hanswer, hafter⟩ :=
      h.run hsame (hrs r List.mem_cons_self) (hhonest r List.mem_cons_self)
    rw [Walker.answers, List.map_cons, hanswer, ih hafter
      (fun r' hr' => hrs r' (List.mem_cons_of_mem _ hr'))
      fun r' hr' => hhonest r' (List.mem_cons_of_mem _ hr')]

/-- The second of two paths that cannot be told apart gets the imports of the first. -/
lemma answers_imports_of_key_eq (w : Walker) {p q : String} (hkey : disk.key p = disk.key q) :
    answers disk w.forget [.imports p, .imports q] =
      [.names (w.readImports disk p), .names (w.readImports disk p)] := by
  have hfirst : w.forget.imports disk p =
      (w.readImports disk p, w.forget.remember disk p (w.readImports disk p)) := rfl
  have hsecond : List.lookup (disk.key q)
      (w.forget.remember disk p (w.readImports disk p)).known = some (w.readImports disk p) := by
    simp [remember, hkey]
  simp only [answers, Request.run, hfirst]
  rw [imports, hsecond]

/-- **Requests are answered as if each were the first exactly if paths are taken for each other
rightly.** -/
lemma transparent_iff_consistent : Transparent w disk paths ↔ Consistent w disk paths := by
  constructor
  · intro h p q hp hq hkey
    have hboth := h [.imports p, .imports q] (by simp [Request.path?, hp, hq])
      (by simp [Request.IsHonest])
    rw [answers_imports_of_key_eq w hkey, List.map_cons, List.map_singleton] at hboth
    exact Answer.names.inj (List.cons.inj (List.cons.inj hboth).2).1
  · intro h rs hrs hhonest
    exact (trusts_forget w disk paths).answers h hrs hhonest

/-- The libraries of an analysed program are found without what is known from the analysis. -/
lemma dependenciesOf_ofFile (settings : Settings) (disk : Disk) (main : String) :
    Report.dependenciesOf settings disk (.ofFile settings disk main) =
      if settings.dependencies.follow && (FileAnalysis.ofFile settings disk main).isSuccess then
        ((ofSettings settings).walk disk main).1
      else [] := by
  rw [FileAnalysis.isSuccess_ofFile]
  unfold Report.dependenciesOf
  rw [FileAnalysis.path_ofFile]
  rcases himage : (FileAnalysis.ofFile settings disk main).image with _ | image
  · simp
  -- the program was read, so it is a file, and about files nothing is assumed
  · obtain ⟨data, hopen, hparse⟩ :=
      (FileAnalysis.course_run settings disk main).exists_parseAs himage
    have hread : (ofSettings settings).readImports disk main = image.libraries :=
      readImports_of_parseAs hopen hparse
    have hmain : InPlay disk [] main := .inr (isFile_of_open hopen)
    have hfresh := trusts_forget (ofSettings settings) disk []
    have hsame := consistent_nil (ofSettings settings) disk
    have hwalk := ((hfresh.remember hsame hmain).walk hfresh hsame hmain).1
    rw [hread] at hwalk
    simp only [Option.isSome_some, Bool.and_true]
    exact congrArg (fun found => if settings.dependencies.follow then found else []) hwalk

/-- **What is known makes no difference, unless a path shadows a file.** Requests to one walker, one
after another, are answered as if each were the first, exactly if none of the paths leads nowhere
and is taken for a file with imports. The walk of an analysis, which knows what the analysis has
read, is answered so in any case. -/
theorem transparent_iff_not_shadows (w : Walker) (disk : Disk) (paths : List String)
    (hsame : SameContents disk paths) :
    (Transparent w disk paths ↔ ∀ path ∈ paths, ¬Shadows w disk path) ∧
    ∀ settings main, Report.dependenciesOf settings disk (.ofFile settings disk main) =
      if settings.dependencies.follow && (FileAnalysis.ofFile settings disk main).isSuccess then
        ((ofSettings settings).walk disk main).1
      else [] :=
  ⟨transparent_iff_consistent.trans (consistent_iff hsame), fun settings main =>
    dependenciesOf_ofFile settings disk main⟩

/-- What a path shadows stands at the root of the disk. -/
lemma Shadows.exists_file {path : String} (h : Shadows w disk path) :
    Path.isAbsolute path ∧ ∃ content, disk.root.get? (Path.parts path) = some (.file content) := by
  obtain ⟨⟨fault, hfollow⟩, q, hfile, hkey, -⟩ := h
  obtain ⟨place, content, hleads⟩ := Disk.isFile_iff.mp hfile
  rw [hleads.key, Disk.key, hfollow] at hkey
  obtain rfl : place = Path.parts path := congrArg Path.Key.parts hkey
  exact ⟨(congrArg Path.Key.absolute hkey).symm, content, hleads.file⟩

/-- Requests about the same files under different paths, and about files that are not there. -/
def cycleRequests : List Request := [
  .imports "./a.exe", .imports "/c.dll/", .remember "/b.dll" ["B.DLL", "a.exe", "c.dll"],
  .walk "/a.exe", .names "b.dll", .imports "/../a.exe", .imports "c.dll", .imports "/c.dll",
  .find "b.dll" ".", .walk "./a.exe"]

theorem transparent_iff_not_shadows_cycle :
    let paths := cycleRequests.filterMap (·.path?)
    SameContents cycle paths ∧ (∀ path ∈ paths, ¬Shadows cycleWalker cycle path) ∧
      (∀ r ∈ cycleRequests, r.IsHonest cycleWalker cycle) ∧
      answers cycle cycleWalker.forget cycleRequests =
        cycleRequests.map fun r => (r.run cycle cycleWalker.forget).1 := by
  intro paths
  have hsame : SameContents cycle paths := sameContents_of_short (by decide)
  have hshadows : ∀ path ∈ paths, ¬Shadows cycleWalker cycle path := by
    have hpaths : ∀ path ∈ paths, (cycle.follow path).isOk ∨ ¬Path.isAbsolute path ∨
        (cycle.root.get? (Path.parts path)).isNone := by decide +kernel
    intro path hpath hshadows
    obtain ⟨habsolute, content, hfile⟩ := hshadows.exists_file
    obtain ⟨fault, hfollow⟩ := hshadows.1
    rcases hpaths path hpath with hok | hrelative | hnone
    · rw [hfollow] at hok
      cases hok
    · exact hrelative habsolute
    · rw [hfile] at hnone
      cases hnone
  have hremember : Request.IsHonest cycleWalker cycle
      (.remember "/b.dll" ["B.DLL", "a.exe", "c.dll"]) := by
    have hopen : cycle.open "/b.dll" cycleWalker.maxFileSize =
        .ok (importing ["B.DLL", "a.exe", "c.dll"]) := by decide +kernel
    have hlibraries : (Image.parse (importing ["B.DLL", "a.exe", "c.dll"])).map (·.libraries) =
        .ok ["B.DLL", "a.exe", "c.dll"] := by decide +kernel
    rcases hparse : Image.parse (importing ["B.DLL", "a.exe", "c.dll"]) with e | image
    · rw [hparse] at hlibraries
      cases hlibraries
    · rw [hparse] at hlibraries
      exact ⟨_, image, hopen, hparse, (Except.ok.inj hlibraries).symm⟩
  have hhonest : ∀ r ∈ cycleRequests, r.IsHonest cycleWalker cycle := by
    intro r hr
    fin_cases hr <;> first | exact hremember | trivial
  refine ⟨hsame, hshadows, hhonest, ?_⟩
  refine (transparent_iff_not_shadows cycleWalker cycle paths hsame).1.mpr hshadows
    cycleRequests (fun r hr path hpath => .inl ?_) hhonest
  exact List.mem_filterMap.mpr ⟨r, hr, hpath⟩

/-- A slash behind the name of a file hides what the file imports from all later requests. -/
theorem shadow_hides_imports :
    SameContents cycle ["/a.exe/", "/a.exe"] ∧
      answers cycle cycleWalker.forget [.imports "/a.exe/", .imports "/a.exe"] =
        [.names [], .names []] ∧
      [Request.imports "/a.exe/", .imports "/a.exe"].map
        (fun r => (r.run cycle cycleWalker.forget).1) = [.names [], .names ["b.dll"]] :=
  ⟨sameContents_of_short (by decide), by decide +kernel, by decide +kernel⟩

end Dissect.Walker
