import Mathlib
import Dissect.Listing
import Dissect.Proofs.Dependency.Confinement
import Dissect.Proofs.Text.Utf8

/-!
Trees from the top to the bottom.

In a tree as a disk holds it, the entries of each directory have different names, and each name is
one part of a path. A walk that takes the entries of each directory in the order of their names
meets every node once, and the paths of the nodes in the order of their parts: a directory is in
front of all that is below it, and all of that is in front of the next entry. What stands at the end
of names below a directory is what their path leads to.
-/

namespace Dissect

/-! ### Names -/

/-- A name that an entry of a directory can have. -/
structure IsName (name : String) : Prop where
  noSlash : '/' ∉ name.toList
  noZero : Char.ofNat 0 ∉ name.toList
  notEmpty : ¬Path.isEmptySegment name
  notUp : name ≠ ".."
  short : name.utf8ByteSize ≤ Disk.maxName

instance (name : String) : Decidable (IsName name) :=
  decidable_of_iff ('/' ∉ name.toList ∧ Char.ofNat 0 ∉ name.toList ∧ ¬Path.isEmptySegment name ∧
      name ≠ ".." ∧ name.utf8ByteSize ≤ Disk.maxName)
    ⟨fun ⟨h₁, h₂, h₃, h₄, h₅⟩ => ⟨h₁, h₂, h₃, h₄, h₅⟩,
      fun ⟨h₁, h₂, h₃, h₄, h₅⟩ => ⟨h₁, h₂, h₃, h₄, h₅⟩⟩

/-- A tree as a disk holds it. -/
inductive Node.WellFormed : Node → Prop
  | file (content : Bytes) : WellFormed (.file content)
  | dir {es : Entries} (distinct : (es.map Prod.fst).Nodup) (names : ∀ e ∈ es, IsName e.1)
      (below : ∀ e ∈ es, WellFormed e.2) : WellFormed (.dir es)

/-! ### The nodes of a tree -/

namespace Node

variable {node found : Node} {es : Entries} {names : List String} {name : String}

lemma allIn_eq_map (es : Entries) : allIn es = es.map fun e => (e.1, e.2.all) := by
  induction es with
  | nil => rfl
  | cons e es ih => rw [allIn, ih, List.map_cons]

/-- The entry of a name, if each name has one. -/
lemma get?_of_mem (hdistinct : (es.map Prod.fst).Nodup) (h : (name, node) ∈ es) :
    es.get? name = some node := by
  rw [Entries.get?, List.lookup_eq_some_iff]
  obtain ⟨front, back, rfl⟩ := List.append_of_mem h
  rw [List.map_append, List.nodup_append] at hdistinct
  refine ⟨front, back, rfl, fun e he => ?_⟩
  have hne := hdistinct.2.2 e.1 (List.mem_map_of_mem he) name (by simp)
  simpa using Ne.symm hne

lemma mem_of_get? (h : es.get? name = some node) : (name, node) ∈ es := by
  obtain ⟨front, back, rfl, -⟩ := List.lookup_eq_some_iff.mp h
  simp

/-- The nodes below a directory, by the entry that leads to them. -/
lemma cons_mem_all_dir {rest : List String} :
    (name :: rest, found) ∈ (dir es).all ↔
      ∃ node, (name, node) ∈ es ∧ (rest, found) ∈ node.all := by
  rw [all, List.mem_cons, List.mem_flatMap, allIn_eq_map]
  constructor
  · rintro (h | ⟨⟨name', below⟩, hin, h⟩)
    · cases h
    · rw [List.mem_mergeSort, List.mem_map] at hin
      obtain ⟨⟨first, node⟩, hentry, heq⟩ := hin
      obtain ⟨⟨rest', found'⟩, hfound, hcons⟩ := List.mem_map.mp h
      cases heq
      cases hcons
      exact ⟨node, hentry, hfound⟩
  · rintro ⟨node, hentry, hfound⟩
    refine .inr ⟨(name, node.all), ?_, List.mem_map.mpr ⟨(rest, found), hfound, rfl⟩⟩
    exact List.mem_mergeSort.mpr (List.mem_map.mpr ⟨(name, node), hentry, rfl⟩)

/-- The walk meets what stands at the end of names, and nothing else. -/
lemma WellFormed.mem_all_iff (h : node.WellFormed) :
    (names, found) ∈ node.all ↔ node.get? names = some found := by
  refine ⟨fun hmem => ?_, mem_all⟩
  induction h generalizing names with
  | file content =>
    rw [all, List.mem_singleton, Prod.mk.injEq] at hmem
    obtain ⟨rfl, rfl⟩ := hmem
    rfl
  | @dir es hdistinct hnames _ ih =>
    rcases names with _ | ⟨name, rest⟩
    · rw [all, List.mem_cons] at hmem
      rcases hmem with heq | hmem
      · obtain rfl : found = .dir es := congrArg Prod.snd heq
        rfl
      · obtain ⟨_, -, h⟩ := List.mem_flatMap.mp hmem
        obtain ⟨_, -, heq⟩ := List.mem_map.mp h
        cases heq
    · obtain ⟨node, hentry, hfound⟩ := cons_mem_all_dir.mp hmem
      rw [get?, entries, get?_of_mem hdistinct hentry]
      exact ih _ hentry hfound

lemma WellFormed.get? (h : node.WellFormed) (hget : node.get? names = some found) :
    found.WellFormed ∧ ∀ name ∈ names, IsName name := by
  induction names generalizing node with
  | nil =>
    obtain rfl : node = found := by simpa [Node.get?] using hget
    exact ⟨h, by simp⟩
  | cons name rest ih =>
    cases h with
    | file content => simp [Node.get?, entries, Entries.get?] at hget
    | dir _ hnames hbelow =>
      obtain ⟨below, hentry, hrest⟩ := Option.bind_eq_some_iff.mp hget
      have hmem := mem_of_get? hentry
      obtain ⟨hfound, hall⟩ := ih (hbelow _ hmem) hrest
      exact ⟨hfound, List.forall_mem_cons.mpr ⟨hnames _ hmem, hall⟩⟩

/-- Entries are met in the order of their names. -/
lemma pairwise_sorted_entries {α : Type} {below : List (String × α)}
    (h : (below.map Prod.fst).Nodup) :
    (below.mergeSort fun a b => decide (a.1 ≤ b.1)).Pairwise fun a b => a.1 < b.1 := by
  have hsorted : (below.mergeSort fun a b => decide (a.1 ≤ b.1)).Pairwise
      fun a b => decide (a.1 ≤ b.1) = true :=
    List.pairwise_mergeSort
      (fun a b c hab hbc => by
        simp only [decide_eq_true_eq] at hab hbc ⊢
        exact le_trans hab hbc)
      (fun a b => by simpa using le_total a.1 b.1) below
  have hperm := List.mergeSort_perm below fun a b => decide (a.1 ≤ b.1)
  have hnodup := List.pairwise_map.mp ((hperm.map Prod.fst).nodup_iff.mpr h)
  refine hsorted.imp₂ (fun a b hle hne => ?_) hnodup
  exact lt_of_le_of_ne (by simpa using hle) hne

/-- **The walk meets names in their order**, compared name by name from the top. -/
lemma WellFormed.pairwise_all (h : node.WellFormed) :
    node.all.Pairwise fun a b => a.1 < b.1 := by
  induction h with
  | file content =>
    rw [all]
    exact List.pairwise_singleton _ _
  | @dir es hdistinct hnames _ ih =>
    rw [all, List.pairwise_cons, List.pairwise_flatMap]
    refine ⟨fun found hfound => ?_, fun below hbelow => ?_, ?_⟩
    · -- the directory itself is at the end of no names
      obtain ⟨_, -, h⟩ := List.mem_flatMap.mp hfound
      obtain ⟨_, -, rfl⟩ := List.mem_map.mp h
      exact List.nil_lt_cons _ _
    · rw [List.mem_mergeSort, allIn_eq_map] at hbelow
      obtain ⟨e, he, rfl⟩ := List.mem_map.mp hbelow
      refine List.pairwise_map.mpr ((ih e he).imp fun hlt => ?_)
      exact List.cons_lt_cons_iff.mpr (.inr ⟨rfl, hlt⟩)
    · have hentries : ((allIn es).map Prod.fst).Nodup := by
        rw [allIn_eq_map, List.map_map]
        exact hdistinct
      refine (pairwise_sorted_entries hentries).imp fun hlt a ha b hb => ?_
      obtain ⟨_, -, rfl⟩ := List.mem_map.mp ha
      obtain ⟨_, -, rfl⟩ := List.mem_map.mp hb
      exact List.cons_lt_cons_iff.mpr (.inl hlt)

/-- The files of a tree, by the names that lead to them. -/
lemma WellFormed.mem_files_iff (h : node.WellFormed) {content : Bytes} :
    (names, content) ∈ node.files ↔ node.get? names = some (.file content) := by
  rw [files, List.mem_filterMap, ← h.mem_all_iff]
  constructor
  · rintro ⟨⟨names', _ | _⟩, hmem, heq⟩ <;> cases heq
    exact hmem
  · intro hmem
    exact ⟨_, hmem, rfl⟩

lemma WellFormed.pairwise_files (h : node.WellFormed) :
    node.files.Pairwise fun a b => a.1 < b.1 := by
  refine List.Pairwise.filterMap _ (fun a a' hlt b hb b' hb' => ?_) h.pairwise_all
  obtain ⟨names, _ | _⟩ := a <;> obtain ⟨names', _ | _⟩ := a' <;> cases hb <;> cases hb'
  exact hlt

lemma get?_append_names (node : Node) (place names : List String) :
    node.get? (place ++ names) = (node.get? place).bind fun n => n.get? names := by
  induction place generalizing node with
  | nil => rfl
  | cons first place ih =>
    rw [List.cons_append, Node.get?, Node.get?, Option.bind_assoc]
    exact Option.bind_congr fun below _ => ih below

end Node

/-! ### Paths below a directory -/

namespace Path

lemma parts_eq (path : String) :
    parts path = (if ¬isAbsolute path ∧ (segments path).head? = some "." then ["."] else []) ++
      partsAfter (segments path) := by
  unfold parts
  split
  · next rest hsegments =>
    rw [hsegments]
    by_cases habsolute : isAbsolute path <;> simp [habsolute, partsAfter, isEmptySegment]
  · next hsegments =>
    have hhead : (segments path).head? ≠ some "." := by
      rcases h : segments path with _ | ⟨first, rest⟩
      · simp
      · rintro ⟨⟩
        exact hsegments rest h
    simp [hhead]

lemma head?_append_of_ne {front : List String} {s : String} (hs : s ≠ ".") :
    (front ++ [s]).head? = some "." ↔ front.head? = some "." := by
  rcases front with _ | ⟨first, rest⟩ <;> simp [hs]

/-- The parts of a path below a directory are those of the directory and the name. -/
lemma parts_join {name : String} (h : IsName name) (dir : String) :
    parts (join dir name) = parts dir ++ [name] := by
  have hafter (front : List String) :
      partsAfter (front ++ [name]) = partsAfter front ++ [name] := by
    simp [partsAfter, h.notEmpty]
  have hdot : name ≠ "." := fun heq => h.notEmpty (by simp [isEmptySegment, heq])
  rw [parts_eq, parts_eq, isAbsolute_join h.noSlash]
  rcases segments_join h.noSlash dir with hsegments | ⟨front, hdir, hsegments⟩
  · simp only [hsegments, hafter, head?_append_of_ne hdot, List.append_assoc]
  · have hempty : partsAfter (front ++ [""]) = partsAfter front := by
      simp [partsAfter, isEmptySegment]
    have hnot : "" ≠ "." := by decide
    simp only [hsegments, hdir, hafter, hempty, head?_append_of_ne hdot, head?_append_of_ne hnot,
      List.append_assoc]

/-- Paths in the order of their parts, each compared by its bytes. -/
def Precedes (p q : String) : Prop := (parts p).map Utf8.encode < (parts q).map Utf8.encode

end Path

namespace Listing

variable {names names' : List String} {dir : String}

lemma parts_pathBelow (h : ∀ name ∈ names, IsName name) (dir : String) :
    Path.parts (pathBelow dir names) = Path.parts dir ++ names := by
  induction names generalizing dir with
  | nil => simp [pathBelow]
  | cons name rest ih =>
    rw [List.forall_mem_cons] at h
    rw [pathBelow, List.foldl_cons, ← pathBelow, ih h.2, Path.parts_join h.1, List.append_assoc]
    rfl

/-- Paths below a directory are in the order of the names that lead to them. -/
lemma precedes_pathBelow (h : ∀ name ∈ names, IsName name) (h' : ∀ name ∈ names', IsName name)
    (hlt : names < names') : Path.Precedes (pathBelow dir names) (pathBelow dir names') := by
  rw [Path.Precedes, parts_pathBelow h, parts_pathBelow h', List.map_append, List.map_append]
  exact List.append_left_lt (Utf8.map_encode_lt hlt)

end Listing

/-! ### What paths below a directory lead to -/

namespace Disk

open Listing (pathBelow)

variable {disk : Disk} {dir name : String} {place names : List String} {node found : Node}

lemma node_eq_ok_iff :
    disk.node dir = .ok node ↔
      ∃ place, disk.locate dir = .ok place ∧ disk.root.get? place = some node := by
  unfold Disk.node
  rcases disk.locate dir with fault | place
  · simp [bind, Except.bind]
  · rcases hget : disk.root.get? place with _ | n
    · simp [bind, Except.bind, hget, throw, throwThe, MonadExceptOf.throw]
    · simp [bind, Except.bind, hget, pure, Except.pure]

lemma directory_pathBelow (h : ∀ name ∈ names, IsName name) (disk : Disk) (dir : String) :
    disk.directory (pathBelow dir names) =
      disk.directory dir >>= fun above => names.foldlM disk.enter above := by
  induction names generalizing dir with
  | nil => simp [pathBelow]
  | cons name rest ih =>
    rw [List.forall_mem_cons] at h
    have hstep : disk.directory (Path.join dir name) =
        disk.directory dir >>= fun above => disk.enter above name :=
      foldlM_join h.1.noSlash disk dir
    rw [pathBelow, List.foldl_cons, ← pathBelow, ih h.2, hstep, bind_assoc]
    simp only [List.foldlM_cons]

/-- Names are followed through the directories that have them as entries. -/
lemma foldlM_enter (h : ∀ name ∈ names, IsName name) (hplace : disk.root.get? place = some node)
    (hfound : node.get? names = some found) :
    names.foldlM disk.enter place = .ok (place ++ names) := by
  induction names generalizing place node with
  | nil => simp [pure, Except.pure]
  | cons name rest ih =>
    rw [List.forall_mem_cons] at h
    obtain ⟨hname, hrest⟩ := h
    obtain ⟨below, hentry, hbelow⟩ := Option.bind_eq_some_iff.mp hfound
    have hstep : disk.enter place name = .ok (place ++ [name]) := by
      rcases node with content | es
      · simp [Node.entries, Entries.get?] at hentry
      · have hsome : (Entries.get? es name).isSome := by
          rw [show Entries.get? es name = some below from hentry]
          rfl
        simp [enter, hplace, hname.notEmpty, hname.notUp, Nat.not_lt.mpr hname.short, hsome]
    have hnext : disk.root.get? (place ++ [name]) = some below := by
      rw [Node.get?_append, hplace]
      exact hentry
    rw [List.append_cons, List.foldlM_cons, hstep]
    exact ih hrest hnext hbelow

lemma textFault?_join (hname : IsName name) (h : textFault? dir = none) :
    textFault? (Path.join dir name) = none := by
  have habsolute := Path.isAbsolute_of_not_mem hname.noSlash
  have hnoZero := hname.noZero
  unfold textFault? at h ⊢
  split_ifs at h with hzero hempty
  unfold Path.join
  simp only [habsolute, Bool.false_eq_true, if_false]
  split_ifs <;> simp_all

lemma textFault?_pathBelow (h : ∀ name ∈ names, IsName name) (hdir : textFault? dir = none) :
    textFault? (pathBelow dir names) = none := by
  induction names generalizing dir with
  | nil => exact hdir
  | cons name rest ih =>
    rw [List.forall_mem_cons] at h
    exact ih h.2 (textFault?_join h.1 hdir)

lemma textFault?_of_node (h : disk.node dir = .ok node) : textFault? dir = none := by
  obtain ⟨place, hlocate, -⟩ := node_eq_ok_iff.mp h
  unfold locate pathFault? at hlocate
  rcases htext : textFault? dir with _ | fault
  · rfl
  · simp [htext] at hlocate

lemma directory_of_locate (h : disk.locate dir = .ok place) : disk.directory dir = .ok place := by
  unfold locate follow at h
  split at h
  · cases h
  · split at h
    · cases h
    · exact h

/-- **A path below a directory leads to what stands at the end of its names.** -/
lemma node_pathBelow (hnames : ∀ name ∈ names, IsName name) (hdir : disk.node dir = .ok node)
    (hfound : node.get? names = some found)
    (hshort : (pathBelow dir names).utf8ByteSize ≤ maxPath) :
    disk.node (pathBelow dir names) = .ok found := by
  have htext := textFault?_pathBelow hnames (textFault?_of_node hdir)
  obtain ⟨place, hlocate, hplace⟩ := node_eq_ok_iff.mp hdir
  refine node_eq_ok_iff.mpr ⟨place ++ names, ?_, ?_⟩
  · have hdirectory : disk.directory (pathBelow dir names) = .ok (place ++ names) := by
      rw [directory_pathBelow hnames, directory_of_locate hlocate]
      exact foldlM_enter hnames hplace hfound
    simp only [locate, pathFault?, follow, htext, Nat.not_lt.mpr hshort, if_false, Option.or_none]
    exact hdirectory
  · rw [Node.get?_append_names, hplace]
    exact hfound

/-- A path that is too long leads nowhere. -/
lemma read_of_long (hnames : ∀ name ∈ names, IsName name) (hdir : disk.node dir = .ok node)
    (hlong : maxPath < (pathBelow dir names).utf8ByteSize) :
    disk.read (pathBelow dir names) = .error .nameTooLong := by
  have htext := textFault?_pathBelow hnames (textFault?_of_node hdir)
  simp [read, Disk.node, locate, pathFault?, htext, hlong, bind, Except.bind]

/-- A file is read as a text if it has the bytes of the text. -/
lemma readText_eq_ok_iff {text : String} :
    disk.readText dir = .ok text ↔ disk.read dir = .ok (Utf8.encode text) := by
  unfold readText
  rcases disk.read dir with fault | content
  · simp [bind, Except.bind]
  · have hdecode : Utf8.decode? content = some text ↔ content = Utf8.encode text :=
      Utf8.decode?_eq_some_iff.trans eq_comm
    simp only [bind, Except.bind, Except.ok.injEq, ← hdecode]
    rcases Utf8.decode? content with _ | text'
    · simp [throw, throwThe, MonadExceptOf.throw]
    · simp [pure, Except.pure]

end Disk

end Dissect
