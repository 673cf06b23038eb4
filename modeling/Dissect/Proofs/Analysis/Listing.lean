import Mathlib
import Dissect.Proofs.Analysis.Libraries
import Dissect.Proofs.Disk.Tree

/-!
The files of a directory, by what they are for.

A listing holds every file of a tree that passes the test of a use, once, and in the order of paths.
The order comes from the walk, which only sorts the entries of each directory, and it makes the file
to start from the least path of the best kind there is. The texts of configuration files are kept
under their paths below the directory, which tell them apart.

Not all of a tree need be open to the program. A path can be too long to be used, and the program
may not be allowed to open what stands there. A directory that cannot be opened makes the listing
fail, and so does a resource whose path is too long. Any other file that cannot be opened is only
passed over: it is no executable, and no text.
-/

namespace Dissect

namespace Listing

/-! ### Files and what they are for -/

/-- A file stands at a path below a directory. -/
def HasFile (dir : String) (node : Node) (path : String) (content : Bytes) : Prop :=
  ∃ names, node.get? names = some (.file content) ∧ path = pathBelow dir names

/-- The program can open what stands at a path. -/
def Opens (disk : Disk) (path : String) : Prop :=
  path.utf8ByteSize ≤ Disk.maxPath ∧ ¬disk.denies path

/-- The file can be opened, and starts as an executable does. -/
def Executable (disk : Disk) (path : String) (content : Bytes) : Prop :=
  Opens disk path ∧ isExecutable content

/-- The file is binary by its extension, for want of one, or by its start. -/
def Binary (disk : Disk) (path : String) (content : Bytes) : Prop :=
  extension? path = none ∨ (∃ e ∈ binaryExtensions, extension? path = some e) ∨
    Executable disk path content

/-- The file holds a configuration by its extension. -/
def Configuration (path : String) : Prop := ∃ e ∈ configurationExtensions, extension? path = some e

/-- The listing stops at what stands at the end of names: a directory that cannot be opened, or a
resource whose path is too long. -/
inductive Stops (disk : Disk) (dir : String) (names : List String) : Node → Prop
  | directory {es : Entries} (h : ¬Opens disk (pathBelow dir names)) :
      Stops disk dir names (.dir es)
  | resource {content : Bytes} (h : Disk.maxPath < (pathBelow dir names).utf8ByteSize)
      (hkind : (resourceKind? (pathBelow dir names)).isSome) : Stops disk dir names (.file content)

/-- The listing holds the files of a tree that are of each use, in the order of their paths. -/
structure IsListing (disk : Disk) (dir : String) (node : Node) (l : Listing) : Prop where
  binaries : ∀ path, path ∈ l.binaries ↔ ∃ content, HasFile dir node path content ∧
    Binary disk path content
  configurations : ∀ path names, (path, names) ∈ l.configurations ↔
    (∃ content, node.get? names = some (.file content)) ∧ path = pathBelow dir names ∧
      Configuration path
  resources : ∀ r, r ∈ l.resources ↔ ∃ content, HasFile dir node r.path content ∧
    r.size = content.length ∧ resourceKind? r.path = some r.kind
  binaries_order : l.binaries.Pairwise Path.Precedes
  configurations_order : (l.configurations.map Prod.fst).Pairwise Path.Precedes
  resources_order : (l.resources.map Resource.path).Pairwise Path.Precedes

/-- The path is the first of those with a property. -/
def IsFirst (p : String → Prop) (path : String) : Prop :=
  p path ∧ ∀ q, p q → q = path ∨ Path.Precedes path q

/-- The file to start from. -/
inductive IsMain (disk : Disk) (dir : String) (node : Node) : Option String → Prop
  | program {path : String}
      (h : IsFirst (fun p => (∃ c, HasFile dir node p c) ∧ extension? p = some "exe") path) :
      IsMain disk dir node (some path)
  | bare {path : String}
      (hprogram : ∀ p c, HasFile dir node p c → extension? p ≠ some "exe")
      (h : IsFirst (fun p => ∃ c, HasFile dir node p c ∧ Path.extension? p = none ∧
        Executable disk p c) path) :
      IsMain disk dir node (some path)
  | binary {path : String}
      (hprogram : ∀ p c, HasFile dir node p c → extension? p ≠ some "exe")
      (hbare : ∀ p c, HasFile dir node p c → Path.extension? p = none → ¬Executable disk p c)
      (h : IsFirst (fun p => ∃ c, HasFile dir node p c ∧ Binary disk p c) path) :
      IsMain disk dir node (some path)
  | none (h : ∀ p c, HasFile dir node p c → ¬Binary disk p c) : IsMain disk dir node none

/-- The texts of the configuration files of a tree, by their paths below the directory. -/
structure HasTexts (disk : Disk) (dir : String) (node : Node) (texts : Named String) : Prop where
  mem : ∀ key text, (key, text) ∈ texts ↔ ∃ names,
    node.get? names = some (.file (Utf8.encode text)) ∧ Configuration (pathBelow dir names) ∧
      Opens disk (pathBelow dir names) ∧ key = "/".intercalate names
  distinct : (texts.map Prod.fst).Nodup
  own : ∀ names names' below below', node.get? names = some below → node.get? names' = some below' →
    "/".intercalate names = "/".intercalate names' → names = names'

/-! ### The tests of files -/

variable {disk : Disk} {dir path : String} {node below : Node} {names : List String}
  {content : Bytes}

lemma stops_iff : failure? disk dir (names, below) ≠ none ↔ Stops disk dir names below := by
  constructor
  · intro h
    cases below with
    | dir es =>
      refine .directory fun ⟨hshort, hopen⟩ => h ?_
      simp only [failure?]
      rw [if_neg (Nat.not_lt.mpr hshort), if_neg hopen]
    | file content =>
      simp only [failure?] at h
      split_ifs at h with hlong
      · exact .resource hlong (by simpa [Option.isSome_iff_ne_none] using h)
      · exact absurd rfl h
  · rintro (h | ⟨hlong, hkind⟩)
    · simp only [failure?]
      split_ifs with hlong hdenied
      · simp
      · simp
      · exact absurd ⟨Nat.not_lt.mp hlong, hdenied⟩ h
    · simp only [failure?, if_pos hlong]
      simpa [Option.isSome_iff_ne_none] using hkind

lemma not_stops_of_opens (h : Opens disk (pathBelow dir names)) : ¬Stops disk dir names below := by
  rintro (hclosed | ⟨hlong, -⟩)
  · exact hclosed h
  · exact Nat.not_le.mpr hlong h.1

lemma isConfiguration_iff : isConfiguration path ↔ Configuration path := by
  unfold isConfiguration Configuration
  cases extension? path <;> simp

section
variable (hnode : node.WellFormed) (hdir : disk.node dir = .ok node)
  (hfile : node.get? names = some (.file content))
include hnode hdir hfile

/-- What is read of a file is its content, if it can be opened. -/
lemma read_iff {found : Bytes} :
    disk.read (pathBelow dir names) = .ok found ↔
      Opens disk (pathBelow dir names) ∧ content = found := by
  have hnames := (hnode.get? hfile).2
  unfold Opens
  rcases Nat.lt_or_ge Disk.maxPath (pathBelow dir names).utf8ByteSize with hlong | hshort
  · rw [Disk.read_of_long hnames hdir hlong]
    simp [Nat.not_le.mpr hlong]
  · rw [Disk.read_eq_ok_iff, Disk.node_pathBelow hnames hdir hfile hshort, Except.ok.injEq,
      Node.file.injEq, and_comm, and_iff_right hshort]

lemma hasExecutableHeader_iff :
    hasExecutableHeader disk (pathBelow dir names) ↔
      Executable disk (pathBelow dir names) content := by
  have hread {found : Bytes} : disk.read (pathBelow dir names) = .ok found ↔
      Opens disk (pathBelow dir names) ∧ content = found := read_iff hnode hdir hfile
  unfold hasExecutableHeader Executable
  rcases hr : disk.read (pathBelow dir names) with fault | found
  · have hnot : ¬Opens disk (pathBelow dir names) := fun hopens => by
      have hcontent := hread.mpr ⟨hopens, rfl⟩
      rw [hr] at hcontent
      cases hcontent
    simp [hnot]
  · obtain ⟨hopens, rfl⟩ := hread.mp hr
    simp [hopens]

lemma isBinary_iff :
    isBinary disk (pathBelow dir names) ↔ Binary disk (pathBelow dir names) content := by
  have hheader := hasExecutableHeader_iff hnode hdir hfile
  unfold isBinary Binary
  cases extension? (pathBelow dir names) <;> simp [hheader]

/-- A configuration file is read as text if it is one. -/
lemma readText_iff {text : String} :
    disk.readText (pathBelow dir names) = .ok text ↔
      Opens disk (pathBelow dir names) ∧ content = Utf8.encode text := by
  rw [Disk.readText_eq_ok_iff, read_iff hnode hdir hfile]

end

/-! ### The lists of files -/

section
variable (hnode : node.WellFormed) (hdir : disk.node dir = .ok node)
include hnode

lemma mem_found_iff {found : Found} :
    found ∈ node.files ↔ node.get? found.1 = some (.file found.2) := hnode.mem_files_iff

/-- Files are found in the order of their paths. -/
lemma pairwise_found (dir : String) :
    node.files.Pairwise fun a b => Path.Precedes (pathBelow dir a.1) (pathBelow dir b.1) := by
  refine hnode.pairwise_files.imp_of_mem fun ha hb hlt => ?_
  exact precedes_pathBelow (hnode.get? ((mem_found_iff hnode).mp ha)).2
    (hnode.get? ((mem_found_iff hnode).mp hb)).2 hlt

include hdir

/-- **The files that were found are sorted by what they are for.** -/
lemma isListing_ofFound : IsListing disk dir node (ofFound disk dir node.files) where
  binaries path := by
    rw [ofFound, List.mem_filter, List.mem_map]
    constructor
    · rintro ⟨⟨⟨names, content⟩, hfound, rfl⟩, hbinary⟩
      have hfile := (mem_found_iff hnode).mp hfound
      exact ⟨content, ⟨names, hfile, rfl⟩, (isBinary_iff hnode hdir hfile).mp hbinary⟩
    · rintro ⟨content, ⟨names, hfile, rfl⟩, hbinary⟩
      exact ⟨⟨(names, content), (mem_found_iff hnode).mpr hfile, rfl⟩,
        (isBinary_iff hnode hdir hfile).mpr hbinary⟩
  configurations path names := by
    rw [ofFound, List.mem_filter, List.mem_map, isConfiguration_iff]
    constructor
    · rintro ⟨⟨⟨names, content⟩, hfound, heq⟩, hconfiguration⟩
      cases heq
      exact ⟨⟨content, (mem_found_iff hnode).mp hfound⟩, rfl, hconfiguration⟩
    · rintro ⟨⟨content, hfile⟩, rfl, hconfiguration⟩
      exact ⟨⟨(names, content), (mem_found_iff hnode).mpr hfile, rfl⟩, hconfiguration⟩
  resources r := by
    rw [ofFound, List.mem_filterMap]
    constructor
    · rintro ⟨⟨names, content⟩, hfound, heq⟩
      obtain ⟨kind, hkind, rfl⟩ := Option.map_eq_some_iff.mp heq
      exact ⟨content, ⟨names, (mem_found_iff hnode).mp hfound, rfl⟩, rfl, hkind⟩
    · rintro ⟨content, ⟨names, hfile, hpath⟩, hsize, hkind⟩
      refine ⟨(names, content), (mem_found_iff hnode).mpr hfile, ?_⟩
      rw [hpath] at hkind
      rw [Option.map_eq_some_iff]
      refine ⟨r.kind, hkind, ?_⟩
      rw [← hpath, ← hsize]
  binaries_order := (List.pairwise_map.mpr (pairwise_found hnode dir)).filter _
  configurations_order := by
    rw [ofFound, List.pairwise_map]
    exact List.Pairwise.filter _ (List.pairwise_map.mpr (pairwise_found hnode dir))
  resources_order := by
    rw [ofFound, List.pairwise_map]
    refine List.Pairwise.filterMap _ (fun a b hlt r hr r' hr' => ?_) (pairwise_found hnode dir)
    obtain ⟨_, -, rfl⟩ := Option.map_eq_some_iff.mp hr
    obtain ⟨_, -, rfl⟩ := Option.map_eq_some_iff.mp hr'
    exact hlt

end

/-! ### The file to start from -/

/-- The first path of a list in order that passes a test is the first of all that do. -/
lemma isFirst_of_find? {paths : List String} (horder : paths.Pairwise Path.Precedes)
    {test : String → Bool} {p : String → Prop} (hp : ∀ q, p q ↔ q ∈ paths ∧ test q)
    (h : paths.find? test = some path) : IsFirst p path := by
  obtain ⟨htest, front, back, rfl, hfront⟩ := List.find?_eq_some_iff_append.mp h
  refine ⟨(hp path).mpr ⟨by simp, htest⟩, fun q hq => ?_⟩
  obtain ⟨hmem, hq⟩ := (hp q).mp hq
  rcases List.mem_append.mp hmem with hmem | hmem
  · have hnot := hfront q hmem
    simp [hq] at hnot
  · rcases List.mem_cons.mp hmem with rfl | hmem
    · exact .inl rfl
    · have hback := (List.pairwise_append.mp horder).2.1
      exact .inr (List.rel_of_pairwise_cons hback hmem)

lemma forall_of_find?_eq_none {paths : List String} {test : String → Bool} {p : String → Prop}
    (hp : ∀ q, p q ↔ q ∈ paths ∧ test q) (h : paths.find? test = none) (q : String) : ¬p q := by
  intro hq
  obtain ⟨hmem, htest⟩ := (hp q).mp hq
  exact List.find?_eq_none.mp h q hmem htest

section
variable (hnode : node.WellFormed) (hdir : disk.node dir = .ok node) {l : Listing}
  (hl : IsListing disk dir node l)
include hl

lemma program_iff (q : String) :
    ((∃ c, HasFile dir node q c) ∧ extension? q = some "exe") ↔
      q ∈ l.binaries ∧ (extension? q == some "exe") := by
  rw [hl.binaries, beq_iff_eq]
  constructor
  · rintro ⟨⟨c, hfile⟩, hextension⟩
    exact ⟨⟨c, hfile, .inr (.inl ⟨"exe", by decide, hextension⟩)⟩, hextension⟩
  · rintro ⟨⟨c, hfile, -⟩, hextension⟩
    exact ⟨⟨c, hfile⟩, hextension⟩

include hnode hdir

lemma bare_iff (q : String) :
    (∃ c, HasFile dir node q c ∧ Path.extension? q = none ∧ Executable disk q c) ↔
      q ∈ l.binaries ∧ ((Path.extension? q).isNone && hasExecutableHeader disk q) := by
  rw [hl.binaries, Bool.and_eq_true, Option.isNone_iff_eq_none]
  constructor
  · rintro ⟨c, ⟨names, hfile, rfl⟩, hextension, hopens⟩
    exact ⟨⟨c, ⟨names, hfile, rfl⟩, .inr (.inr hopens)⟩, hextension,
      (hasExecutableHeader_iff hnode hdir hfile).mpr hopens⟩
  · rintro ⟨⟨c, ⟨names, hfile, rfl⟩, -⟩, hextension, hheader⟩
    exact ⟨c, ⟨names, hfile, rfl⟩, hextension,
      (hasExecutableHeader_iff hnode hdir hfile).mp hheader⟩

/-- **The file to start from is the first one of the best kind there is.** -/
lemma isMain_main? : IsMain disk dir node (l.main? disk) := by
  have hbinary (q : String) : (∃ c, HasFile dir node q c ∧ Binary disk q c) ↔
      q ∈ l.binaries ∧ (fun _ => true) q := by
    rw [hl.binaries, and_iff_left rfl]
  have hhead : l.binaries.head? = l.binaries.find? fun _ => true := by
    cases l.binaries <;> rfl
  unfold main?
  rw [hhead]
  rcases hprogram : l.binaries.find? fun p => extension? p == some "exe" with _ | path
  · have hnoProgram (p : String) (c : Bytes) (hfile : HasFile dir node p c) :
        extension? p ≠ some "exe" := fun hextension =>
      forall_of_find?_eq_none (program_iff hl) hprogram p ⟨⟨c, hfile⟩, hextension⟩
    rcases hbare : l.binaries.find? fun p =>
        (Path.extension? p).isNone && hasExecutableHeader disk p with _ | path
    · have hnoBare (p : String) (c : Bytes) (hfile : HasFile dir node p c)
          (hextension : Path.extension? p = none) : ¬Executable disk p c := fun hopens =>
        forall_of_find?_eq_none (bare_iff hnode hdir hl) hbare p ⟨c, hfile, hextension, hopens⟩
      rcases hfirst : l.binaries.find? fun _ => true with _ | path
      · refine .none fun p c hfile hp => ?_
        exact forall_of_find?_eq_none hbinary hfirst p ⟨c, hfile, hp⟩
      · exact .binary hnoProgram hnoBare (isFirst_of_find? hl.binaries_order hbinary hfirst)
    · exact .bare hnoProgram (isFirst_of_find? hl.binaries_order (bare_iff hnode hdir hl) hbare)
  · exact .program (isFirst_of_find? hl.binaries_order (program_iff hl) hprogram)

end

/-! ### The texts of configuration files -/

lemma not_precedes_self (path : String) : ¬Path.Precedes path path := List.lt_irrefl _

lemma configuration?_eq_some_iff {c : String × List String} {e : String × String} :
    Report.configuration? disk c = some e ↔
      ∃ text, disk.readText c.1 = .ok text ∧ ("/".intercalate c.2, text) = e := by
  unfold Report.configuration?
  cases disk.readText c.1 <;> simp

/-- Names are told apart by their path below the directory. -/
lemma intercalate_inj {names' : List String} (h : ∀ name ∈ names, IsName name)
    (h' : ∀ name ∈ names', IsName name) (heq : "/".intercalate names = "/".intercalate names') :
    names = names' := by
  have hsplit {l : List String} (hl : ∀ name ∈ l, IsName name) :
      ((("/".intercalate l).split '/').toList.map fun s => s.copy) = if l = [] then [""] else l :=
    String.toList_split_intercalate fun name hname => (hl name hname).noSlash
  have hempty {l : List String} (hl : ∀ name ∈ l, IsName name) : [""] ≠ l := by
    rintro rfl
    exact (hl "" (by simp)).notEmpty rfl
  have hlists : (if names = [] then [""] else names) = if names' = [] then [""] else names' := by
    rw [← hsplit h, ← hsplit h', heq]
  split_ifs at hlists with hnil hnil' hnil'
  · rw [hnil, hnil']
  · exact absurd hlists (hempty h')
  · exact absurd hlists.symm (hempty h)
  · exact hlists

section
variable (hnode : node.WellFormed) (hdir : disk.node dir = .ok node) {l : Listing}
  (hl : IsListing disk dir node l)
include hnode hl

lemma pairwise_keys_ne :
    l.configurations.Pairwise fun a b => "/".intercalate a.2 ≠ "/".intercalate b.2 := by
  refine (List.pairwise_map.mp hl.configurations_order).imp_of_mem ?_
  rintro ⟨path, names⟩ ⟨path', names'⟩ hmem hmem' hlt heq
  obtain ⟨⟨_, hfile⟩, rfl, -⟩ := (hl.configurations path names).mp hmem
  obtain ⟨⟨_, hfile'⟩, rfl, -⟩ := (hl.configurations path' names').mp hmem'
  obtain rfl := intercalate_inj (hnode.get? hfile).2 (hnode.get? hfile').2 heq
  exact not_precedes_self _ hlt

include hdir

/-- **The texts of a report are those of the configuration files**, each under its own path. -/
lemma hasTexts_readConfigurations : HasTexts disk dir node (Report.readConfigurations disk l) := by
  have hdistinct :
      ((l.configurations.filterMap (Report.configuration? disk)).map Prod.fst).Nodup := by
    rw [List.Nodup, List.pairwise_map]
    refine List.Pairwise.filterMap _ (fun a b hne p hp q hq => ?_) (pairwise_keys_ne hnode hl)
    obtain ⟨_, -, rfl⟩ := configuration?_eq_some_iff.mp hp
    obtain ⟨_, -, rfl⟩ := configuration?_eq_some_iff.mp hq
    exact hne
  rw [Report.readConfigurations, Named.ofPairs_of_nodup hdistinct]
  refine ⟨fun key text => ?_, hdistinct, fun names names' below below' h h' => ?_⟩
  · rw [List.mem_filterMap]
    constructor
    · rintro ⟨⟨path, names⟩, hmem, hentry⟩
      obtain ⟨⟨content, hfile⟩, rfl, hconfiguration⟩ := (hl.configurations path names).mp hmem
      obtain ⟨text, hread, heq⟩ := configuration?_eq_some_iff.mp hentry
      cases heq
      obtain ⟨hopens, rfl⟩ := (readText_iff hnode hdir hfile).mp hread
      exact ⟨names, hfile, hconfiguration, hopens, rfl⟩
    · rintro ⟨names, hfile, hconfiguration, hopens, rfl⟩
      have hmem := (hl.configurations (pathBelow dir names) names).mpr
        ⟨⟨_, hfile⟩, rfl, hconfiguration⟩
      have hread := (readText_iff hnode hdir hfile).mpr ⟨hopens, rfl⟩
      exact ⟨_, hmem, configuration?_eq_some_iff.mpr ⟨text, hread, rfl⟩⟩
  · exact intercalate_inj (hnode.get? h).2 (hnode.get? h').2

end

end Listing

/-! ### Whole trees -/

namespace Listing

variable {disk : Disk} {dir : String} {node : Node}

lemma exists_failure_of_stops (hnode : node.WellFormed) (hdir : disk.node dir = .ok node)
    {names : List String} {below : Node} (hbelow : node.get? names = some below)
    (hstops : Stops disk dir names below) : ∃ failure, scan disk dir = .error failure := by
  have hsome : (node.all.findSome? (failure? disk dir)).isSome := by
    rw [List.findSome?_isSome_iff]
    refine ⟨(names, below), hnode.mem_all_iff.mpr hbelow, ?_⟩
    exact Option.isSome_iff_ne_none.mpr (stops_iff.mpr hstops)
  obtain ⟨failure, hfailure⟩ := Option.isSome_iff_exists.mp hsome
  refine ⟨failure, ?_⟩
  rw [scan, hdir]
  simp only [hfailure]

lemma scan_of_not_stops (hnode : node.WellFormed) (hdir : disk.node dir = .ok node)
    (hshort : ∀ names below, node.get? names = some below → ¬Stops disk dir names below) :
    scan disk dir = .ok (ofFound disk dir node.files) := by
  have hnone : node.all.findSome? (failure? disk dir) = none := by
    rw [List.findSome?_eq_none_iff]
    rintro ⟨names, below⟩ hmem
    by_contra hne
    exact hshort names below (hnode.mem_all_iff.mp hmem) (stops_iff.mp hne)
  rw [scan, hdir]
  simp only [hnone]

end Listing

namespace Report

open Listing

/-- What is known of the listing and of the report of a directory. -/
structure Covers (disk : Disk) (dir : String) (node : Node) : Prop where
  stops : (∃ names below, node.get? names = some below ∧ Stops disk dir names below) →
    (∃ failure, scan disk dir = .error failure) ∧
      ∀ schedule settings, ∃ failure, analyse schedule settings disk dir = .error failure
  lists : (∀ names below, node.get? names = some below → ¬Stops disk dir names below) →
    ∃ l, scan disk dir = .ok l ∧ IsListing disk dir node l ∧ IsMain disk dir node (l.main? disk) ∧
      ∀ schedule settings, ∃ report log,
        analyse schedule settings disk dir = .ok (report, log) ∧
          report.resources = l.resources ∧ HasTexts disk dir node report.configurations

/-- **A directory is listed whole, each file once and in the order of paths.** The listing fails if
a directory cannot be opened or the path of a resource is too long, and only then. -/
theorem analyse_covers {disk : Disk} {dir : String} {es : Entries} (hroot : disk.root.WellFormed)
    (hdir : disk.node dir = .ok (.dir es)) : Covers disk dir (.dir es) := by
  obtain ⟨place, -, hplace⟩ := Disk.node_eq_ok_iff.mp hdir
  have hnode := (hroot.get? hplace).1
  have hanalyse (schedule : Schedule) (settings : Settings) : analyse schedule settings disk dir =
      (scan disk dir).map (ofListing schedule settings disk dir) := by
    rw [analyse, hdir]
  constructor
  · rintro ⟨names, below, hbelow, hstops⟩
    obtain ⟨failure, hscan⟩ := exists_failure_of_stops hnode hdir hbelow hstops
    refine ⟨⟨failure, hscan⟩, fun schedule settings => ⟨failure, ?_⟩⟩
    rw [hanalyse, hscan]
    rfl
  · intro hshort
    have hscan := scan_of_not_stops hnode hdir hshort
    have hl := isListing_ofFound hnode hdir
    generalize ofFound disk dir (Node.dir es).files = l at hscan hl
    refine ⟨l, hscan, hl, isMain_main? hnode hdir hl, fun schedule settings => ?_⟩
    refine ⟨(ofListing schedule settings disk dir l).1, (ofListing schedule settings disk dir l).2,
      ?_, rfl, hasTexts_readConfigurations hnode hdir hl⟩
    rw [hanalyse, hscan]
    rfl

/-- A directory whose name starts the names of its neighbours, with files of all uses. -/
def neighbours : Entries := [
  ("app-1.dll", .file []),
  ("app", .dir [("z.EXE", .file []), ("z", .dir [("a.json", .file [0xC3, 0xA9])])]),
  ("app.ini", .file [0xC3]),
  ("app.png", .file [0x7F, 0x45, 0x4C, 0x46])]

def neighboursDisk : Disk := { root := .dir [("in", .dir neighbours)] }

lemma wellFormed_neighbours : neighboursDisk.root.WellFormed := by
  have hfile := Node.WellFormed.file
  have hz : (Node.dir [("a.json", .file [0xC3, 0xA9])]).WellFormed :=
    .dir (by decide) (by decide) (by simp [hfile])
  have happ : (Node.dir [("z.EXE", .file []),
      ("z", .dir [("a.json", .file [0xC3, 0xA9])])]).WellFormed :=
    .dir (by decide) (by decide) (by simp [hfile, hz])
  have hin : (Node.dir neighbours).WellFormed :=
    .dir (by decide) (by decide) (by simp [neighbours, hfile, happ])
  exact .dir (by decide) (by decide) (by simp [hin])

/-- All that stands in the directory, in the order of the walk. -/
lemma all_neighbours : (Node.dir neighbours).all.map Prod.fst =
    [[], ["app"], ["app", "z"], ["app", "z", "a.json"], ["app", "z.EXE"], ["app-1.dll"],
      ["app.ini"], ["app.png"]] := by
  simp [Node.all, Node.allIn, neighbours, List.mergeSort, List.MergeSort.Internal.splitInTwo]

lemma not_stops_neighbours (names : List String) (below : Node)
    (h : (Node.dir neighbours).get? names = some below) :
    ¬Stops neighboursDisk "in" names below := by
  have hnode : (Node.dir neighbours).WellFormed :=
    (wellFormed_neighbours.get? (show neighboursDisk.root.get? ["in"] = some _ from rfl)).1
  have hopens : ∀ names ∈ (Node.dir neighbours).all.map Prod.fst,
      Opens neighboursDisk (pathBelow "in" names) := by
    rw [all_neighbours]
    unfold Opens
    decide +kernel
  exact not_stops_of_opens (hopens names (List.mem_map_of_mem (hnode.mem_all_iff.mpr h)))

/-- The same directory, and the program may not open one that is in it. -/
def lockedDisk : Disk := { neighboursDisk with denied := [["in", "app", "z"]] }

lemma stops_locked :
    Stops lockedDisk "in" ["app", "z"] (.dir [("a.json", .file [0xC3, 0xA9])]) := by
  refine .directory ?_
  unfold Opens
  decide +kernel

theorem analyse_covers_neighbours :
    neighboursDisk.root.WellFormed ∧ neighboursDisk.node "in" = .ok (.dir neighbours) ∧
    (∃ l, scan neighboursDisk "in" = .ok l ∧ IsListing neighboursDisk "in" (.dir neighbours) l ∧
      IsMain neighboursDisk "in" (.dir neighbours) (l.main? neighboursDisk)) ∧
    ∃ failure, scan lockedDisk "in" = .error failure := by
  have hcovers : Covers neighboursDisk "in" (.dir neighbours) :=
    analyse_covers wellFormed_neighbours rfl
  have hlocked : Covers lockedDisk "in" (.dir neighbours) :=
    analyse_covers wellFormed_neighbours rfl
  obtain ⟨l, hscan, hlisting, hmain, -⟩ := hcovers.lists not_stops_neighbours
  exact ⟨wellFormed_neighbours, rfl, ⟨l, hscan, hlisting, hmain⟩,
    (hlocked.stops ⟨["app", "z"], _, rfl, stops_locked⟩).1⟩

/-! ### Paths that are too long -/

/-- A path that stays where it is, in many steps. -/
def dots : ℕ → String
  | 0 => ""
  | n + 1 => "./" ++ dots n

lemma utf8ByteSize_dots (n : ℕ) : (dots n).utf8ByteSize = 2 * n := by
  induction n with
  | zero => rfl
  | succ n ih =>
    rw [dots, String.utf8ByteSize_append, ih, show "./".utf8ByteSize = 2 from rfl]
    omega

lemma isAbsolute_dots (n : ℕ) : Path.isAbsolute (dots n) = false := by
  cases n <;> simp [dots, Path.isAbsolute]

lemma segments_dots (n : ℕ) : Path.segments (dots n) = List.replicate n "." ++ [""] := by
  have hsplit : Path.splitSlashes (dots n).toList = List.replicate n ['.'] ++ [[]] := by
    induction n with
    | zero => rfl
    | succ n ih => simp [dots, Path.splitSlashes, ih, List.replicate_succ]
  rw [Path.segments, hsplit, isAbsolute_dots]
  simp

/-- Segments that say nothing lead from the root to the root. -/
lemma foldlM_enter_empty {es : Entries} {segments : List String}
    (h : ∀ s ∈ segments, Path.isEmptySegment s) :
    segments.foldlM (Disk.enter { root := .dir es }) [] = .ok [] := by
  induction segments with
  | nil => rfl
  | cons s segments ih =>
    rw [List.forall_mem_cons] at h
    have hstep : Disk.enter { root := .dir es } [] s = .ok [] := by
      simp [Disk.enter, Node.get?, h.1]
    rw [List.foldlM_cons, hstep]
    exact ih h.2

lemma textFault?_dots {n : ℕ} (hpos : 0 < n) : Disk.textFault? (dots n) = none := by
  have hzero : Char.ofNat 0 ∉ (dots n).toList := by
    clear hpos
    induction n with
    | zero => simp [dots]
    | succ n ih => simp [dots, ih]
  have hempty : (dots n).isEmpty = false := by
    rw [String.isEmpty_eq_utf8ByteSize_beq_zero, utf8ByteSize_dots]
    simp
    omega
  simp [Disk.textFault?, hzero, hempty]

lemma node_dots {n : ℕ} (hpos : 0 < n) (hshort : 2 * n ≤ Disk.maxPath) (es : Entries) :
    Disk.node { root := .dir es } (dots n) = .ok (.dir es) := by
  refine Disk.node_eq_ok_iff.mpr ⟨[], ?_, rfl⟩
  have hlong : ¬Disk.maxPath < (dots n).utf8ByteSize := by
    rw [utf8ByteSize_dots]
    omega
  have hpath : Disk.pathFault? (dots n) = none := by
    rw [Disk.pathFault?, textFault?_dots hpos, if_neg hlong]
    rfl
  rw [Disk.locate, hpath, Disk.follow, textFault?_dots hpos, Disk.origin, isAbsolute_dots,
    segments_dots]
  refine foldlM_enter_empty fun s hs => ?_
  rcases List.mem_append.mp hs with hs | hs
  · rw [List.eq_of_mem_replicate hs]
    rfl
  · rw [List.mem_singleton.mp hs]
    rfl

lemma utf8ByteSize_le_join {name : String} (h : '/' ∉ name.toList) (dir : String) :
    dir.utf8ByteSize + name.utf8ByteSize ≤ (Path.join dir name).utf8ByteSize := by
  unfold Path.join
  rw [Path.isAbsolute_of_not_mem h]
  simp only [Bool.false_eq_true, if_false]
  split_ifs <;> simp only [String.utf8ByteSize_append] <;> omega

/-- A directory with one picture. -/
def picture : Entries := [("picture.png", .file [0])]

lemma wellFormed_picture : (Node.dir picture).WellFormed :=
  .dir (by decide) (by decide) (by simp [picture, Node.WellFormed.file])

lemma resourceKind?_picture (dir : String) :
    resourceKind? (pathBelow dir ["picture.png"]) = some .picture := by
  have hname : IsName "picture.png" := by decide
  have hfileName : Path.fileName? (pathBelow dir ["picture.png"]) = some "picture.png" :=
    Path.fileName?_join hname.noSlash hname.notEmpty hname.notUp dir
  rw [resourceKind?, extension?, Path.extension?, hfileName]
  decide

lemma stops_picture (disk : Disk) {dir : String} (h : Disk.maxPath < dir.utf8ByteSize + 11) :
    Stops disk dir ["picture.png"] (.file [0]) := by
  have hle : dir.utf8ByteSize + "picture.png".utf8ByteSize ≤
      (pathBelow dir ["picture.png"]).utf8ByteSize := utf8ByteSize_le_join (by decide) dir
  refine .resource (lt_of_lt_of_le h hle) ?_
  rw [resourceKind?_picture]
  rfl

/-- The listing of a directory by a path that is almost too long fails at a resource, whose path is
too long. -/
theorem long_path_stops :
    (Node.dir picture).WellFormed ∧
      Disk.node { root := .dir picture } (dots 2045) = .ok (.dir picture) ∧
      (Node.dir picture).get? ["picture.png"] = some (.file [0]) ∧
      resourceKind? (pathBelow (dots 2045) ["picture.png"]) = some .picture ∧
      ∀ l, scan { root := .dir picture } (dots 2045) ≠ .ok l := by
  have hdir := node_dots (n := 2045) (by decide) (by decide) picture
  have hstops : Stops { root := .dir picture } (dots 2045) ["picture.png"] (.file [0]) := by
    refine stops_picture _ ?_
    rw [utf8ByteSize_dots]
    decide
  refine ⟨wellFormed_picture, hdir, rfl, resourceKind?_picture _, fun l hscan => ?_⟩
  obtain ⟨failure, hfailure⟩ := exists_failure_of_stops wellFormed_picture hdir rfl hstops
  rw [hfailure] at hscan
  cases hscan

end Report

end Dissect
