import Mathlib
import Dissect.Proofs.Dependency.Walk

/-!
The order of a walk over imports.

A walk looks at the import table of the program, and then at those of the libraries in the order in
which they were met. So the libraries are the names in all these tables, one table after another,
each where it stands first. A file that is passed over because it was looked at under another path
has nothing new in its table, so it makes no difference. The first file that imports a library
stands in front of it, and not behind the first file that imports the next one, so the libraries
come in the order of their levels.
-/

namespace Dissect.Walker

/-! ### Breadth first -/

/-- The import tables of a program and of the libraries, in order. That of a library that was not
located is empty. -/
def tables (w : Walker) (disk : Disk) (main : String) (found : List Dependency) :
    List (List String) :=
  w.readImports disk main :: found.map fun d => (d.path.map (w.readImports disk)).getD []

/-- The name at a position: the number of a table, and a row in it. -/
def importAt (ts : List (List String)) (p : ℕ ×ₗ ℕ) : Option String :=
  ts[(ofLex p).1]?.bind (·[(ofLex p).2]?)

/-- The library is imported at the position first. -/
def FirstAt (ts : List (List String)) (d : Dependency) (p : ℕ ×ₗ ℕ) : Prop :=
  IsLeast {q | ∃ name, importAt ts q = some name ∧ d.sameName name} p

/-- The library is in the table of the given number. -/
def Imports (ts : List (List String)) (j : ℕ) (d : Dependency) : Prop :=
  ∃ names, ts[j]? = some names ∧ ∃ name ∈ names, d.sameName name

/-- Levels by numbers of tables: the program has level zero, and a library one more than the least
level of a file that imports it. -/
structure IsLevel (ts : List (List String)) (found : List Dependency) (level : ℕ → ℕ) : Prop where
  program : level 0 = 0
  library : ∀ i d, found[i]? = some d →
    IsLeast {n | ∃ j, Imports ts j d ∧ level j + 1 = n} (level (i + 1))

/-- The libraries come level by level, in the order in which they are imported first, and are
written as they are there. -/
structure IsBreadthFirst (ts : List (List String)) (found : List Dependency) : Prop where
  leveled : ∃ level, IsLevel ts found level ∧
    ∀ level', IsLevel ts found level' → Set.EqOn level' level (Set.Iic found.length)
  monotone : ∀ level, IsLevel ts found level → MonotoneOn level (Set.Iic found.length)
  ordered : found.Pairwise fun d e => ∀ p q, FirstAt ts d p → FirstAt ts e q → p < q
  spelled : ∀ d ∈ found, ∃ p, FirstAt ts d p ∧ importAt ts p = some d.name

/-! ### Names met one after another -/

section

variable {find : String → Option String} {ts : List (List String)} {found : List Dependency}
  {d e : Dependency} {names : List String} {p q : ℕ ×ₗ ℕ}

/-- Adds a library, unless one of the name is there. -/
def meet (find : String → Option String) (found : List Dependency) (name : String) :
    List Dependency :=
  if found.any (·.sameName name) then found else found ++ [⟨name, find name⟩]

lemma meet_of_met {name : String} (h : Met found name) : meet find found name = found :=
  if_pos (any_sameName_iff.mpr h)

lemma meet_of_not_met {name : String} (h : ¬Met found name) :
    meet find found name = found ++ [⟨name, find name⟩] :=
  if_neg fun hany => h (any_sameName_iff.mp hany)

lemma foldl_meet_of_met (h : ∀ name ∈ names, Met found name) :
    names.foldl (meet find) found = found := by
  induction names with
  | nil => rfl
  | cons name names ih =>
    rw [List.foldl_cons, meet_of_met (h name List.mem_cons_self)]
    exact ih fun name' hname' => h name' (List.mem_cons_of_mem _ hname')

/-- All positions with the names there, in order. -/
def rows (ts : List (List String)) : List ((ℕ ×ₗ ℕ) × String) :=
  ts.zipIdx.flatMap fun (names, i) => names.zipIdx.map fun (name, j) => (toLex (i, j), name)

lemma mem_rows {name : String} : (p, name) ∈ rows ts ↔ importAt ts p = some name := by
  simp only [rows, List.mem_flatMap, List.mem_map, Prod.exists, List.mem_zipIdx_iff_getElem?,
    Prod.mk.injEq, importAt, Option.bind_eq_some_iff]
  constructor
  · rintro ⟨names, i, hnames, _, j, hname, rfl, rfl⟩
    exact ⟨names, hnames, hname⟩
  · rintro ⟨names, hnames, hname⟩
    exact ⟨names, _, hnames, name, _, hname, rfl, rfl⟩

lemma map_snd_rows (ts : List (List String)) : (rows ts).map Prod.snd = ts.flatten := by
  have hrow (names : List String) (i : ℕ) : (names.zipIdx.map fun (name, j) =>
      ((toLex (i, j) : ℕ ×ₗ ℕ), name)).map Prod.snd = names := by
    rw [List.map_map]
    exact List.zipIdx_map_fst 0 names
  rw [rows, List.map_flatMap]
  simp only [hrow]
  rw [List.flatMap_def, List.zipIdx_map_fst]

lemma pairwise_zipIdx {α : Type*} (l : List α) : l.zipIdx.Pairwise (·.2 < ·.2) := by
  rw [← List.pairwise_map (f := Prod.snd) (R := (· < ·)), List.zipIdx_map_snd]
  exact List.pairwise_lt_range'

lemma pairwise_rows (ts : List (List String)) : (rows ts).Pairwise (·.1 < ·.1) := by
  refine List.pairwise_flatMap.mpr ⟨fun ⟨names, i⟩ _ => ?_, (pairwise_zipIdx ts).imp ?_⟩
  · refine List.pairwise_map.mpr ((pairwise_zipIdx names).imp fun hlt => ?_)
    exact Prod.Lex.lt_iff.mpr (.inr ⟨rfl, hlt⟩)
  · rintro ⟨names, i⟩ ⟨names', i'⟩ hlt x hx y hy
    obtain ⟨_, -, rfl⟩ := List.mem_map.mp hx
    obtain ⟨_, -, rfl⟩ := List.mem_map.mp hy
    exact Prod.Lex.lt_iff.mpr (.inl hlt)

/-- Some of the rows are those at which names are met, and no name stands in front of them again. -/
structure Firsts (find : String → Option String) (all firsts : List ((ℕ ×ₗ ℕ) × String)) :
    Prop where
  sublist : firsts.Sublist all
  found : (all.map Prod.snd).foldl (meet find) [] = firsts.map fun x => ⟨x.2, find x.2⟩
  first : ∀ x ∈ firsts, ∀ y ∈ all, Text.lowerAscii x.2 = Text.lowerAscii y.2 → x.1 ≤ y.1
  met : ∀ y ∈ all, ∃ x ∈ firsts, Text.lowerAscii x.2 = Text.lowerAscii y.2

lemma Firsts.met_iff {all firsts : List ((ℕ ×ₗ ℕ) × String)} (h : Firsts find all firsts)
    {name : String} : Met ((all.map Prod.snd).foldl (meet find) []) name ↔
      ∃ x ∈ firsts, Text.lowerAscii x.2 = Text.lowerAscii name := by
  rw [h.found]
  simp [Met, Dependency.sameName]

lemma foldl_meet_snoc (all : List ((ℕ ×ₗ ℕ) × String)) (y : (ℕ ×ₗ ℕ) × String) :
    ((all ++ [y]).map Prod.snd).foldl (meet find) [] =
      meet find ((all.map Prod.snd).foldl (meet find) []) y.2 := by
  rw [List.map_append, List.foldl_append]
  rfl

/-- A name that was met before changes nothing. -/
lemma Firsts.skip {all firsts : List ((ℕ ×ₗ ℕ) × String)} {y : (ℕ ×ₗ ℕ) × String}
    (h : Firsts find all firsts) (hlt : ∀ x ∈ all, x.1 < y.1)
    (hmet : Met ((all.map Prod.snd).foldl (meet find) []) y.2) :
    Firsts find (all ++ [y]) firsts where
  sublist := h.sublist.trans (List.sublist_append_left _ _)
  found := by rw [foldl_meet_snoc, meet_of_met hmet, h.found]
  first x hx z hz hname := by
    rcases List.mem_append.mp hz with hz | hz
    · exact h.first x hx z hz hname
    · rw [List.mem_singleton.mp hz]
      exact (hlt x (h.sublist.subset hx)).le
  met z hz := by
    rcases List.mem_append.mp hz with hz | hz
    · exact h.met z hz
    · rw [List.mem_singleton.mp hz]
      exact h.met_iff.mp hmet

/-- A new name is met where it stands. -/
lemma Firsts.add {all firsts : List ((ℕ ×ₗ ℕ) × String)} {y : (ℕ ×ₗ ℕ) × String}
    (h : Firsts find all firsts) (hlt : ∀ x ∈ all, x.1 < y.1)
    (hmet : ¬Met ((all.map Prod.snd).foldl (meet find) []) y.2) :
    Firsts find (all ++ [y]) (firsts ++ [y]) where
  sublist := h.sublist.append (List.Sublist.refl _)
  found := by rw [foldl_meet_snoc, meet_of_not_met hmet, h.found, List.map_append,
    List.map_singleton]
  first x hx z hz hname := by
    rcases List.mem_append.mp hx with hx | hx <;> rcases List.mem_append.mp hz with hz | hz
    · exact h.first x hx z hz hname
    · rw [List.mem_singleton.mp hz]
      exact (hlt x (h.sublist.subset hx)).le
    -- had the name stood in front, it would have been met
    · obtain ⟨x', hx', hname'⟩ := h.met z hz
      rw [List.mem_singleton.mp hx] at hname
      exact absurd (h.met_iff.mpr ⟨x', hx', hname'.trans hname.symm⟩) hmet
    · rw [List.mem_singleton.mp hx, List.mem_singleton.mp hz]
  met z hz := by
    rcases List.mem_append.mp hz with hz | hz
    · obtain ⟨x, hx, hname⟩ := h.met z hz
      exact ⟨x, List.mem_append_left _ hx, hname⟩
    · exact ⟨z, List.mem_append_right _ hz, rfl⟩

lemma exists_firsts (find : String → Option String) (all : List ((ℕ ×ₗ ℕ) × String))
    (hall : all.Pairwise (·.1 < ·.1)) : ∃ firsts, Firsts find all firsts := by
  induction all using List.reverseRecOn with
  | nil => exact ⟨[], List.Sublist.refl _, rfl, by simp, by simp⟩
  | append_singleton all y ih =>
    obtain ⟨hbefore, -, hlast⟩ := List.pairwise_append.mp hall
    have hlt : ∀ x ∈ all, x.1 < y.1 := fun x hx => hlast x hx y (List.mem_singleton_self y)
    obtain ⟨firsts, h⟩ := ih hbefore
    by_cases hmet : Met ((all.map Prod.snd).foldl (meet find) []) y.2
    · exact ⟨firsts, h.skip hlt hmet⟩
    · exact ⟨firsts ++ [y], h.add hlt hmet⟩

/-- A name that is met is imported there first. -/
lemma Firsts.firstAt {firsts : List ((ℕ ×ₗ ℕ) × String)} (h : Firsts find (rows ts) firsts)
    {x : (ℕ ×ₗ ℕ) × String} (hx : x ∈ firsts) : FirstAt ts ⟨x.2, find x.2⟩ x.1 := by
  refine ⟨⟨x.2, mem_rows.mp (h.sublist.subset hx), sameName_iff.mpr rfl⟩, ?_⟩
  rintro q ⟨name, hname, hsame⟩
  have hcaseless : caseless ⟨x.2, find x.2⟩ = Text.lowerAscii name := sameName_iff.mp hsame
  exact h.first x hx (q, name) (mem_rows.mpr hname) hcaseless

lemma FirstAt.unique (hp : FirstAt ts d p) (hq : FirstAt ts d q) : p = q := IsLeast.unique hp hq

/-! ### Levels -/

/-- What a walk leaves: the libraries are met in the order of the tables, and each is imported by a
file in front of it. -/
structure Listing (find : String → Option String) (ts : List (List String))
    (found : List Dependency) : Prop where
  length : ts.length = found.length + 1
  met : found = ts.flatten.foldl (meet find) []
  early : ∀ i d, found[i]? = some d → ∃ j ≤ i, Imports ts j d

lemma Listing.exists_firsts (h : Listing find ts found) :
    ∃ firsts, Firsts find (rows ts) firsts ∧ found = firsts.map fun x => ⟨x.2, find x.2⟩ := by
  obtain ⟨firsts, hfirsts⟩ := Walker.exists_firsts find (rows ts) (pairwise_rows ts)
  have hfound := hfirsts.found
  rw [map_snd_rows, ← h.met] at hfound
  exact ⟨firsts, hfirsts, hfound⟩

lemma Listing.spelled (h : Listing find ts found) (hd : d ∈ found) :
    ∃ p, FirstAt ts d p ∧ importAt ts p = some d.name := by
  obtain ⟨firsts, hfirsts, rfl⟩ := h.exists_firsts
  obtain ⟨x, hx, rfl⟩ := List.mem_map.mp hd
  exact ⟨x.1, hfirsts.firstAt hx, mem_rows.mp (hfirsts.sublist.subset hx)⟩

lemma Listing.ordered (h : Listing find ts found) :
    found.Pairwise fun d e => ∀ p q, FirstAt ts d p → FirstAt ts e q → p < q := by
  obtain ⟨firsts, hfirsts, rfl⟩ := h.exists_firsts
  have hsorted := (pairwise_rows ts).sublist hfirsts.sublist
  refine List.pairwise_map.mpr (hsorted.imp_of_mem fun {x y} hx hy hlt p q hp hq => ?_)
  rwa [hp.unique (hfirsts.firstAt hx), hq.unique (hfirsts.firstAt hy)]

/-- The first table with the library. -/
def importer (ts : List (List String)) (d : Dependency) : ℕ :=
  ts.findIdx fun names => names.any d.sameName

lemma imports_iff {j : ℕ} :
    Imports ts j d ↔ ∃ names, ts[j]? = some names ∧ names.any d.sameName := by
  simp [Imports]

lemma Imports.lt {j : ℕ} (h : Imports ts j d) : j < ts.length := by
  obtain ⟨names, hnames, -⟩ := h
  exact (List.getElem?_eq_some_iff.mp hnames).1

lemma Imports.importer_le {j : ℕ} (h : Imports ts j d) : importer ts d ≤ j := by
  obtain ⟨names, hnames, hany⟩ := imports_iff.mp h
  obtain ⟨hj, rfl⟩ := List.getElem?_eq_some_iff.mp hnames
  by_contra hlt
  have hnot := List.not_of_lt_findIdx (Nat.lt_of_not_le hlt)
  simp [hany] at hnot

lemma Imports.importer {j : ℕ} (h : Imports ts j d) : Imports ts (importer ts d) d := by
  obtain ⟨names, hnames, hany⟩ := imports_iff.mp h
  have hlt : ts.findIdx (fun names => names.any d.sameName) < ts.length :=
    List.findIdx_lt_length_of_exists ⟨names, List.mem_of_getElem? hnames, hany⟩
  exact imports_iff.mpr ⟨_, List.getElem?_eq_getElem hlt, List.findIdx_getElem (w := hlt)⟩

lemma FirstAt.imports (h : FirstAt ts d p) : Imports ts (ofLex p).1 d := by
  obtain ⟨name, hname, hsame⟩ := h.1
  obtain ⟨names, hnames, hrow⟩ := Option.bind_eq_some_iff.mp hname
  exact ⟨names, hnames, name, List.mem_of_getElem? hrow, hsame⟩

lemma FirstAt.le_of_imports {j : ℕ} (h : FirstAt ts d p) (hj : Imports ts j d) :
    (ofLex p).1 ≤ j := by
  obtain ⟨names, hnames, name, hname, hsame⟩ := hj
  obtain ⟨r, hr⟩ := List.getElem?_of_mem hname
  have hle : p ≤ toLex (j, r) :=
    h.2 ⟨name, Option.bind_eq_some_iff.mpr ⟨names, hnames, hr⟩, hsame⟩
  rcases Prod.Lex.le_iff.mp hle with hlt | ⟨heq, -⟩
  · exact hlt.le
  · exact heq.le

/-- Later libraries are imported later. -/
lemma Listing.importer_mono (h : Listing find ts found) {i j : ℕ} (hij : i ≤ j)
    (hd : found[i]? = some d) (he : found[j]? = some e) : importer ts d ≤ importer ts e := by
  obtain rfl | hlt := hij.eq_or_lt
  · rw [Option.some.inj (hd.symm.trans he)]
  · obtain ⟨p, hp, -⟩ := h.spelled (List.mem_of_getElem? hd)
    obtain ⟨q, hq, -⟩ := h.spelled (List.mem_of_getElem? he)
    obtain ⟨hi, rfl⟩ := List.getElem?_eq_some_iff.mp hd
    obtain ⟨hj, rfl⟩ := List.getElem?_eq_some_iff.mp he
    have hpq : p < q := List.pairwise_iff_getElem.mp h.ordered i j hi hj hlt p q hp hq
    calc importer ts found[i]
        _ ≤ (ofLex p).1 := hp.imports.importer_le
        _ ≤ (ofLex q).1 := by
          rcases Prod.Lex.lt_iff.mp hpq with hlt | ⟨heq, -⟩
          · exact hlt.le
          · exact heq.le
        _ ≤ importer ts found[j] := hq.le_of_imports hq.imports.importer

lemma Listing.importer_le (h : Listing find ts found) {i : ℕ} (hd : found[i]? = some d) :
    importer ts d ≤ i := by
  obtain ⟨j, hj, himports⟩ := h.early i d hd
  exact himports.importer_le.trans hj

/-- The number of imports from the program to a file, each library being reached from the first file
that imports it. -/
def depth (ts : List (List String)) (found : List Dependency) : ℕ → ℕ
  | 0 => 0
  | i + 1 =>
    match found[i]? with
    | none => 0
    | some d => if h : importer ts d ≤ i then depth ts found (importer ts d) + 1 else 0

lemma Listing.depth_succ (h : Listing find ts found) {i : ℕ} (hd : found[i]? = some d) :
    depth ts found (i + 1) = depth ts found (importer ts d) + 1 := by
  rw [depth, hd]
  exact dif_pos (h.importer_le hd)

lemma Listing.depth_mono (h : Listing find ts found) {i j : ℕ} (hij : i ≤ j)
    (hj : j ≤ found.length) : depth ts found i ≤ depth ts found j := by
  induction j using Nat.strongRecOn generalizing i with
  | ind j ih =>
    rcases i with _ | i
    · rw [depth]
      exact Nat.zero_le _
    · obtain ⟨j, rfl⟩ : ∃ k, j = k + 1 := ⟨j - 1, by omega⟩
      have hd := List.getElem?_eq_getElem (l := found) (i := i) (by omega)
      have he := List.getElem?_eq_getElem (l := found) (i := j) (by omega)
      have hle := h.importer_le he
      rw [h.depth_succ hd, h.depth_succ he]
      exact Nat.succ_le_succ
        (ih _ (by omega) (h.importer_mono (by omega) hd he) (by omega))

lemma Listing.isLevel_depth (h : Listing find ts found) : IsLevel ts found (depth ts found) where
  program := by rw [depth]
  library i d hd := by
    obtain ⟨j, -, himports⟩ := h.early i d hd
    rw [h.depth_succ hd]
    refine ⟨⟨importer ts d, himports.importer, rfl⟩, ?_⟩
    rintro _ ⟨k, hk, rfl⟩
    have hlt := hk.lt
    rw [h.length] at hlt
    exact Nat.succ_le_succ (h.depth_mono hk.importer_le (by omega))

/-- Levels are not greater than others. -/
lemma IsLevel.le {level level' : ℕ → ℕ} (h : IsLevel ts found level) (h' : IsLevel ts found level')
    (hlen : ts.length = found.length + 1) {i : ℕ} (hi : i ≤ found.length) :
    level i ≤ level' i := by
  -- by induction on the other level, which is one more than that of some file
  induction hn : level' i using Nat.strongRecOn generalizing i with
  | ind n ih =>
    subst hn
    rcases i with _ | i
    · rw [h.program]
      exact Nat.zero_le _
    · have hd := List.getElem?_eq_getElem (l := found) (i := i) (by omega)
      obtain ⟨j, hj, hlevel⟩ := (h'.library i _ hd).1
      have hlt := hj.lt
      have hle := (h.library i _ hd).2 ⟨j, hj, rfl⟩
      have hbelow := ih (level' j) (by omega) (by omega) rfl
      omega

theorem Listing.isBreadthFirst (h : Listing find ts found) : IsBreadthFirst ts found := by
  have hunique : ∀ level, IsLevel ts found level →
      Set.EqOn level (depth ts found) (Set.Iic found.length) := fun level hlevel i hi =>
    le_antisymm (hlevel.le h.isLevel_depth h.length hi) (h.isLevel_depth.le hlevel h.length hi)
  refine ⟨⟨_, h.isLevel_depth, hunique⟩, fun level hlevel i hi j hj hij => ?_, h.ordered,
    fun d => h.spelled⟩
  rw [hunique level hlevel hi, hunique level hlevel hj]
  exact h.depth_mono hij hj

end

/-! ### The walk -/

variable {w : Walker} {disk : Disk} {base main : String}

lemma foldl_addImport_found (disk : Disk) (base : String) (names : List String) (s : St) :
    (names.foldl (addImport disk base) s).found =
      names.foldl (meet (s.walker.find? disk base)) s.found := by
  induction names generalizing s with
  | nil => rfl
  | cons name names ih =>
    rw [List.foldl_cons, List.foldl_cons, ih]
    unfold addImport meet
    split <;> rfl

/-- The tables one after another are those of the files. -/
lemma flatten_tables (found : List Dependency) : (tables w disk main found).flatten =
    (main :: found.filterMap (·.path)).flatMap (w.readImports disk) := by
  rw [tables, List.flatten_cons, List.flatMap_cons]
  congr 1
  induction found with
  | nil => rfl
  | cons d found ih =>
    rw [List.map_cons, List.flatten_cons, ih, List.filterMap_cons]
    rcases d.path <;> rfl

/-- The table of a file that the walk has to look at. -/
lemma IsSource.exists_table {found : List Dependency} {path : String}
    (h : IsSource main found path) (w : Walker) (disk : Disk) :
    ∃ j ≤ found.length, (tables w disk main found)[j]? = some (w.readImports disk path) := by
  obtain rfl | ⟨d, hd, hp⟩ := h
  · exact ⟨0, Nat.zero_le _, rfl⟩
  · obtain ⟨i, hi⟩ := List.getElem?_of_mem hd
    have hlt := (List.getElem?_eq_some_iff.mp hi).1
    exact ⟨i + 1, hlt, by simp [tables, hi, hp]⟩

/-- Libraries that come behind do not change the tables in front. -/
lemma Imports.append {found : List Dependency} {j : ℕ} {d : Dependency}
    (h : Imports (tables w disk main found) j d) (new : List Dependency) :
    Imports (tables w disk main (found ++ new)) j d := by
  have hlt := h.lt
  obtain ⟨names, hnames, hname⟩ := h
  refine ⟨names, ?_, hname⟩
  rw [tables, List.map_append, ← List.cons_append]
  exact (List.getElem?_append_left hlt).trans hnames

/-- The files that were taken from the queue so far, and what their tables have added. -/
structure Ordered (w : Walker) (disk : Disk) (main : String) (done : List String) (s : St) :
    Prop where
  files : main :: s.found.filterMap (·.path) = done ++ s.queue
  met : s.found = (done.flatMap (w.readImports disk)).foldl (meet (w.find? disk (baseOf main))) []
  early : ∀ i d, s.found[i]? = some d → ∃ j ≤ i, Imports (tables w disk main s.found) j d

/-- A file that is passed over has nothing new in its table. -/
lemma Ordered.pop {s : St} {file : String} {queue done : List String}
    (h : Ordered w disk main done s) (hs : s.queue = file :: queue)
    (hmet : ∀ name ∈ w.readImports disk file, Met s.found name) :
    Ordered w disk main (done ++ [file]) { s with queue } where
  files := by simp [h.files, hs]
  met := by
    rw [List.flatMap_append, List.foldl_append, ← h.met, List.flatMap_singleton,
      foldl_meet_of_met hmet]
  early := h.early

/-- A file that is looked at adds its table. -/
lemma Ordered.add {s t : St} {file : String} {queue done : List String} {new : List Dependency}
    {walker : Walker} {visited : List Path.Key} (h : Ordered w disk main done s)
    (hs : s.queue = file :: queue) (hsource : IsSource main s.found file)
    (hadds : Adds disk (baseOf main) (w.readImports disk file)
      { s with queue, walker, visited } t new)
    (hfound : t.found =
      (w.readImports disk file).foldl (meet (w.find? disk (baseOf main))) s.found) :
    Ordered w disk main (done ++ [file]) t where
  files := by
    have hfiles := h.files
    rw [hs] at hfiles
    rw [hadds.found, hadds.queue, List.filterMap_append, ← List.cons_append, hfiles]
    simp
  met := by
    rw [List.flatMap_append, List.foldl_append, ← h.met, List.flatMap_singleton, hfound]
  early i d hd := by
    have hsplit := hadds.found
    dsimp only at hsplit
    rw [hsplit] at hd ⊢
    by_cases hi : i < s.found.length
    · rw [List.getElem?_append_left hi] at hd
      obtain ⟨j, hj, himports⟩ := h.early i d hd
      exact ⟨j, hj, himports.append new⟩
    · rw [List.getElem?_append_right (by omega)] at hd
      obtain ⟨j, hj, htable⟩ := hsource.exists_table w disk
      have hname : d.name ∈ w.readImports disk file :=
        hadds.ordered.subset (List.mem_map_of_mem (List.mem_of_getElem? hd))
      have himports : Imports (tables w disk main s.found) j d :=
        ⟨_, htable, d.name, hname, sameName_iff.mpr rfl⟩
      exact ⟨j, by omega, himports.append new⟩

lemma Ordered.visit {s : St} {file : String} {queue done : List String}
    (h : Ordered w disk main done s) (hinv : Inv w disk main s) (hmain : disk.isFile main)
    (hs : s.queue = file :: queue) :
    Ordered w disk main (done ++ [file]) (visit disk (baseOf main) { s with queue } file) := by
  have hsource : IsSource main s.found file := hinv.queued file (by simp [hs])
  have hfile : disk.isFile file := hinv.toListed.isFile hmain hsource
  obtain ⟨hnames, -⟩ := imports_of_sound hinv.settings hinv.sound hfile
  obtain ⟨hvisited, hsame⟩ | ⟨hnew, new, hadds⟩ :=
    visit_cases disk (baseOf main) { s with queue } file
  · rw [hsame]
    exact h.pop hs (hinv.closed file hfile hvisited)
  · rw [hnames] at hadds
    refine h.add hs hsource hadds ?_
    have hsettings := imports_settings hinv.settings disk file
    have hfind : (s.walker.imports disk file).2.find? disk (baseOf main) =
        w.find? disk (baseOf main) := by
      rw [hsettings]
      rfl
    have hvisit : (Walker.visit disk (baseOf main) { s with queue } file).found =
        (s.walker.imports disk file).1.foldl
          (meet ((s.walker.imports disk file).2.find? disk (baseOf main))) s.found := by
      simp only [Walker.visit]
      rw [if_neg (by simpa using hnew), foldl_addImport_found]
    rw [hvisit, hnames, hfind]

lemma Drains.ordered {s t : St} {done : List String} (h : Drains disk (baseOf main) s t)
    (hmain : disk.isFile main) (hinv : Inv w disk main s) (hs : Ordered w disk main done s) :
    ∃ done', Ordered w disk main done' t := by
  induction h generalizing done with
  | done _ => exact ⟨done, hs⟩
  | next hqueue _ ih => exact ih (hinv.visit hmain hqueue) (hs.visit hinv hmain hqueue)

/-- With no file left, the tables of all libraries have been read in order. -/
lemma Ordered.listing {s : St} {done : List String} (h : Ordered w disk main done s)
    (hs : s.queue = []) :
    Listing (w.find? disk (baseOf main)) (tables w disk main s.found) s.found where
  length := by simp [tables]
  met := by
    have hfiles := h.files
    rw [hs, List.append_nil] at hfiles
    rw [flatten_tables, hfiles]
    exact h.met
  early := h.early

/-- **The walk is breadth first.** The libraries come in the order of their levels. Within a level,
and over all levels as well, they come in the order of the first file that imports them and then of
its table, and each is written as it is there. -/
theorem walk_isBreadthFirst (w : Walker) (disk : Disk) (main : String) (h : Agrees w disk main) :
    IsBreadthFirst (w.tables disk main (w.walk disk main).1) (w.walk disk main).1 := by
  have hdrains : Drains disk (baseOf main) { walker := w, queue := [main] }
      (visitAll disk (baseOf main) (disk.fileCount + 1) { walker := w, queue := [main] }) :=
    drains_visitAll (inv_start h).toListed (by simp [Nat.add_comm])
  by_cases hmain : disk.isFile main
  · have hstart : Ordered w disk main [] { walker := w, queue := [main] } :=
      ⟨rfl, rfl, by simp⟩
    obtain ⟨done, hordered⟩ := hdrains.ordered hmain (inv_start h) hstart
    exact (hordered.listing hdrains.queue_eq_nil).isBreadthFirst
  · have hfound : (w.walk disk main).1 = [] := hdrains.found_of_not_isFile h hmain
    have hnone : w.tables disk main [] = [[]] := by
      rw [tables, readImports_of_not_isFile hmain, List.map_nil]
    have hlisting : Listing (w.find? disk (baseOf main)) [[]] [] := ⟨rfl, rfl, by simp⟩
    rw [hfound, hnone]
    exact hlisting.isBreadthFirst

/-- Two libraries of a program that import a third one, the program and each other. -/
def diamond : Disk where
  root := .dir [("a.exe", .file (importing ["b.dll", "c.dll"])),
    ("b.dll", .file (importing ["C.dll", "d.DLL"])),
    ("c.dll", .file (importing ["D.dll", "a.exe", "B.dll"])),
    ("d.dll", .file (importing ["e.dll"]))]

/-- Knows nothing. -/
def freshWalker : Walker := { searchPaths := [], maxFileSize := 1000 }

theorem walk_isBreadthFirst_diamond :
    Agrees freshWalker diamond "a.exe" ∧
      ∃ found, (freshWalker.walk diamond "a.exe").1 = found ∧
        found.map (·.name) = ["b.dll", "c.dll", "d.DLL", "a.exe"] ∧
        IsBreadthFirst (freshWalker.tables diamond "a.exe" found) found := by
  have hagrees : Agrees freshWalker diamond "a.exe" := fun _ _ _ h => nomatch h
  have hcount : diamond.fileCount = 4 := by
    simp [Disk.fileCount, diamond, Node.files, Node.all, Node.allIn, List.mergeSort]
  refine ⟨hagrees, _, rfl, ?_, walk_isBreadthFirst _ _ _ hagrees⟩
  rw [walk, hcount]
  decide +kernel

end Dissect.Walker
