import Mathlib
import Dissect.Disk.Basic

/-!
Files by their places.

A path that leads to a file leads to one place in the tree, and two paths to the same place see the
same file. The place of a file that was looked up in a directory is that of the directory with the
name it was looked up by, so files of different names are different files, and there are no more of
them than the tree holds.
-/

namespace Dissect

/-! ### Paths that end with a name -/

namespace Path

lemma splitSlashes_ne_nil (cs : List Char) : splitSlashes cs ≠ [] := by
  induction cs with
  | nil => simp [splitSlashes]
  | cons c cs ih =>
    unfold splitSlashes
    split
    · simp
    · split <;> simp_all

lemma splitSlashes_of_not_mem {cs : List Char} (h : '/' ∉ cs) : splitSlashes cs = [cs] := by
  induction cs with
  | nil => rfl
  | cons c cs ih =>
    rw [List.mem_cons, not_or] at h
    rw [splitSlashes, if_neg (Ne.symm h.1), ih h.2]

/-- A name behind a slash is cut off as it is. -/
lemma splitSlashes_append {name : List Char} (h : '/' ∉ name) (cs : List Char) :
    splitSlashes (cs ++ '/' :: name) = splitSlashes cs ++ [name] := by
  induction cs with
  | nil => simp [splitSlashes, splitSlashes_of_not_mem h]
  | cons c cs ih =>
    rw [List.cons_append, splitSlashes, splitSlashes, ih]
    by_cases hc : c = '/'
    · simp [hc]
    · rcases hs : splitSlashes cs with _ | ⟨s, rest⟩
      · exact absurd hs (splitSlashes_ne_nil cs)
      · simp [hc]

lemma isAbsolute_of_not_mem {path : String} (h : '/' ∉ path.toList) :
    isAbsolute path = false := by
  unfold isAbsolute
  rcases hp : path.toList with _ | ⟨c, cs⟩
  · rfl
  · rw [hp, List.mem_cons, not_or] at h
    simpa using Ne.symm h.1

/-- The segments of a path that ends with a name behind a slash. -/
lemma segments_of_append {path name : String} {cs : List Char} (h : '/' ∉ name.toList)
    (hpath : path.toList = cs ++ '/' :: name.toList) :
    segments path =
      ((splitSlashes cs).map String.ofList).drop (if isAbsolute path then 1 else 0) ++ [name] := by
  have hpos : 1 ≤ ((splitSlashes cs).map String.ofList).length := by
    rw [List.length_map]
    exact List.length_pos_of_ne_nil (splitSlashes_ne_nil cs)
  unfold segments
  rw [hpath, splitSlashes_append h]
  split
  · rw [List.map_append, List.drop_append_of_le_length hpos]
    simp
  · simp

lemma isAbsolute_join {name : String} (h : '/' ∉ name.toList) (dir : String) :
    isAbsolute (join dir name) = isAbsolute dir := by
  have hname := isAbsolute_of_not_mem h
  unfold join
  rw [if_neg (by simp [hname])]
  rcases hdir : dir.toList with _ | ⟨c, cs⟩
  · obtain rfl : dir = "" := by simpa using hdir
    simpa [isAbsolute] using hname
  · split <;> simp [isAbsolute, hdir]

/-- A path below a directory has the segments of the directory in front of the name, but for an
empty one at their end. -/
lemma segments_join {name : String} (h : '/' ∉ name.toList) (dir : String) :
    segments (join dir name) = segments dir ++ [name] ∨
      ∃ front, segments dir = front ++ [""] ∧ segments (join dir name) = front ++ [name] := by
  have habsolute := isAbsolute_join h dir
  have hname := isAbsolute_of_not_mem h
  by_cases hslash : dir = "" ∨ dir.toList.getLast? = some '/'
  · right
    have hjoin : join dir name = dir ++ name := by
      unfold join
      rw [if_neg (by simp [hname]), if_pos (by simpa using hslash)]
    rcases hslash with rfl | hlast
    · refine ⟨[], by decide, ?_⟩
      have hself : join "" name = name := by simpa using hjoin
      simp [hself, segments, hname, splitSlashes_of_not_mem h]
    · obtain ⟨cs, hcs⟩ := List.getLast?_eq_some_iff.mp hlast
      have hdir : dir.toList = cs ++ '/' :: "".toList := by simpa using hcs
      have hpath : (join dir name).toList = cs ++ '/' :: name.toList := by
        simp [hjoin, hcs]
      refine ⟨_, segments_of_append (by simp) hdir, ?_⟩
      rw [segments_of_append h hpath, habsolute]
  · left
    rw [not_or] at hslash
    have hpath : (join dir name).toList = dir.toList ++ '/' :: name.toList := by
      unfold join
      rw [if_neg (by simp [hname]), if_neg (by simpa using hslash)]
      simp
    rw [segments_of_append h hpath, habsolute, segments]
    split <;> simp

/-- The last segment is the last part, if it says anything. -/
lemma getLast?_parts {path name : String} {front : List String}
    (h : segments path = front ++ [name]) (hname : ¬isEmptySegment name) :
    (parts path).getLast? = some name := by
  have hafter : ∀ front, partsAfter (front ++ [name]) = partsAfter front ++ [name] := by
    simp [partsAfter, hname]
  unfold parts
  split
  · next rest hsegments =>
    rcases front with _ | ⟨first, front⟩
    · obtain ⟨rfl, -⟩ : name = "." ∧ rest = [] := by simpa [hsegments] using h.symm
      exact absurd (by decide) hname
    · obtain rfl : rest = front ++ [name] := by
        rw [hsegments, List.cons_append, List.cons.injEq] at h
        exact h.2
      rw [hafter]
      split
      · simp
      · rw [← List.cons_append, List.getLast?_concat]
  · rw [h, hafter, List.getLast?_concat]

lemma fileName?_join {name : String} (hslash : '/' ∉ name.toList) (hempty : ¬isEmptySegment name)
    (hup : name ≠ "..") (dir : String) : fileName? (join dir name) = some name := by
  have hlast : (parts (join dir name)).getLast? = some name := by
    rcases segments_join hslash dir with h | ⟨front, -, h⟩ <;> exact getLast?_parts h hempty
  have hdot : name ≠ "." := fun h => hempty (by simp [isEmptySegment, h])
  simp [fileName?, hlast, hdot, hup]

end Path

/-! ### Files of a tree -/

namespace Node

lemma mem_allIn {es : Entries} {name : String} {node : Node} (h : (name, node) ∈ es) :
    (name, node.all) ∈ allIn es := by
  induction es with
  | nil => simp at h
  | cons e es ih =>
    rw [allIn]
    rcases List.mem_cons.mp h with rfl | h
    · exact List.mem_cons_self
    · exact List.mem_cons_of_mem _ (ih h)

/-- What stands at a place is listed with it. -/
lemma mem_all {node found : Node} {place : List String} (h : node.get? place = some found) :
    (place, found) ∈ node.all := by
  induction place generalizing node with
  | nil =>
    obtain rfl : node = found := by simpa [get?] using h
    cases node <;> simp [all]
  | cons name rest ih =>
    cases node with
    | file content => simp [get?, entries, Entries.get?] at h
    | dir es =>
      simp only [get?, entries, Option.bind_eq_some_iff] at h
      obtain ⟨below, hbelow, hrest⟩ := h
      have hentry : (name, below) ∈ es := by
        obtain ⟨front, back, rfl, -⟩ := List.lookup_eq_some_iff.mp hbelow
        simp
      rw [all]
      refine List.mem_cons_of_mem _ (List.mem_flatMap.mpr ⟨(name, below.all), ?_, ?_⟩)
      · exact List.mem_mergeSort.mpr (mem_allIn hentry)
      · exact List.mem_map.mpr ⟨(rest, found), ih hrest, rfl⟩

lemma mem_files {node : Node} {place : List String} {content : Bytes}
    (h : node.get? place = some (.file content)) : (place, content) ∈ node.files :=
  List.mem_filterMap.mpr ⟨(place, .file content), mem_all h, rfl⟩

end Node

/-! ### Where paths lead -/

namespace Disk

variable {disk : Disk} {path : String} {place : List String} {content : Bytes}

/-- The path leads to a file at the given place. -/
structure Leads (disk : Disk) (path : String) (place : List String) (content : Bytes) : Prop where
  locate : disk.locate path = .ok place
  file : disk.root.get? place = some (.file content)

lemma isFile_iff : disk.isFile path ↔ ∃ place content, disk.Leads path place content := by
  unfold isFile node
  constructor
  · intro h
    rcases hl : disk.locate path with fault | place
    · simp [hl, bind, Except.bind] at h
    · rcases hg : disk.root.get? place with _ | (content | es)
      · simp [hl, hg, bind, Except.bind, throw, throwThe, MonadExceptOf.throw] at h
      · exact ⟨place, content, hl, hg⟩
      · simp [hl, hg, bind, Except.bind, pure, Except.pure] at h
  · rintro ⟨place, content, hl, hg⟩
    rw [hl]
    simp [hg, bind, Except.bind, pure, Except.pure]

lemma Leads.follow (h : disk.Leads path place content) : disk.follow path = .ok place := by
  have hlocate := h.locate
  unfold Disk.locate at hlocate
  split at hlocate
  · cases hlocate
  · exact hlocate

lemma not_isFile_of_follow {fault : Fault} (h : disk.follow path = .error fault) :
    ¬disk.isFile path := by
  rw [isFile_iff]
  rintro ⟨place, content, hleads⟩
  rw [hleads.follow] at h
  cases h

lemma Leads.key (h : disk.Leads path place content) : disk.key path = ⟨true, place⟩ := by
  rw [Disk.key, h.follow]

lemma Leads.node (h : disk.Leads path place content) : disk.node path = .ok (.file content) := by
  rw [Disk.node, h.locate]
  simp [h.file, bind, Except.bind, pure, Except.pure]

lemma Leads.denies (h : disk.Leads path place content) :
    disk.denies path = disk.denied.contains place := by
  rw [Disk.denies, h.locate]

/-- A file is read if the program may open it. -/
lemma read_eq_ok_iff :
    disk.read path = .ok content ↔ disk.node path = .ok (.file content) ∧ ¬disk.denies path := by
  unfold Disk.read
  rcases disk.node path with fault | node
  · simp [bind, Except.bind]
  · by_cases hdenied : disk.denies path
    · simp [hdenied, bind, Except.bind, throw, throwThe, MonadExceptOf.throw]
    · cases node <;>
        simp [hdenied, bind, Except.bind, pure, Except.pure, throw, throwThe, MonadExceptOf.throw]

lemma isFile_of_node (h : disk.node path = .ok (.file content)) : disk.isFile path := by
  rw [isFile, h]

lemma read_of_not_isFile (h : ¬disk.isFile path) : ∃ fault, disk.read path = .error fault := by
  rcases hread : disk.read path with fault | content
  · exact ⟨fault, rfl⟩
  · exact absurd (isFile_of_node (read_eq_ok_iff.mp hread).1) h

/-- A path that leads somewhere can be used as a whole, unless it is too long. -/
lemma locate_of_follow (h : disk.follow path = .ok place) (hshort : path.utf8ByteSize ≤ maxPath) :
    disk.locate path = .ok place := by
  have htext : textFault? path = none := by
    unfold Disk.follow at h
    split at h
    · cases h
    · assumption
  have hpath : pathFault? path = none := by
    rw [pathFault?, htext, if_neg (Nat.not_lt.mpr hshort)]
    rfl
  rw [Disk.locate, hpath]
  exact h

/-- Two paths to one place see the same file. -/
lemma read_eq_of_locate {path' : String} (h : disk.locate path = .ok place)
    (h' : disk.locate path' = .ok place) : disk.read path = disk.read path' := by
  simp only [Disk.read, Disk.node, Disk.denies, h, h']

/-- Two paths that cannot be told apart see the same file. -/
lemma read_eq_of_key {path' : String} (h : disk.isFile path) (h' : disk.isFile path')
    (hkey : disk.key path = disk.key path') : disk.read path = disk.read path' := by
  obtain ⟨place, content, hl⟩ := isFile_iff.mp h
  obtain ⟨place', content', hl'⟩ := isFile_iff.mp h'
  rw [hl.key, hl'.key] at hkey
  obtain rfl : place = place' := congrArg Path.Key.parts hkey
  exact read_eq_of_locate hl.locate hl'.locate

/-- A step to a name ends with it. -/
lemma enter_name {name : String} {above : List String} (hempty : ¬Path.isEmptySegment name)
    (hup : name ≠ "..") (h : disk.enter above name = .ok place) : place = above ++ [name] := by
  unfold enter at h
  split at h
  · rw [if_neg hempty, if_neg hup] at h
    split_ifs at h
    cases h
    rfl
  · cases h
  · cases h

/-- The place that a path to a directory leads to. The empty path leads to where relative paths
start. -/
def directory (disk : Disk) (dir : String) : Except Fault (List String) :=
  (Path.segments dir).foldlM disk.enter (disk.origin dir)

/-- An empty segment only asks for a directory, as the name behind it does. -/
lemma enter_empty_bind (disk : Disk) (place : List String) (name : String) :
    (disk.enter place "" >>= fun above => disk.enter above name) = disk.enter place name := by
  unfold enter
  rcases hnode : disk.root.get? place with _ | (content | es)
  · rfl
  · rfl
  · simp [Path.isEmptySegment, bind, Except.bind, hnode]

/-- A path below a directory is followed through the directory. -/
lemma foldlM_join {name : String} (h : '/' ∉ name.toList) (disk : Disk) (dir : String) :
    (Path.segments (Path.join dir name)).foldlM disk.enter (disk.origin (Path.join dir name)) =
      disk.directory dir >>= fun above => disk.enter above name := by
  have horigin : disk.origin (Path.join dir name) = disk.origin dir := by
    simp only [origin, Path.isAbsolute_join h]
  rw [horigin, directory]
  rcases Path.segments_join h dir with hsegments | ⟨front, hdir, hsegments⟩
  · rw [hsegments, List.foldlM_append]
    simp
  · rw [hsegments, hdir, List.foldlM_append, List.foldlM_append, bind_assoc]
    refine bind_congr fun above => ?_
    simp [enter_empty_bind]

/-- A file that was looked up by name is an entry of the directory where it was looked for. -/
lemma Leads.inside {dir name : String} (h : disk.Leads (Path.join dir name) place content)
    (hslash : '/' ∉ name.toList) (hempty : ¬Path.isEmptySegment name) (hup : name ≠ "..") :
    ∃ above, disk.directory dir = .ok above ∧ place = above ++ [name] := by
  have hlocate := h.locate
  unfold Disk.locate Disk.follow at hlocate
  split at hlocate
  · cases hlocate
  · split at hlocate
    · cases hlocate
    · rw [foldlM_join hslash] at hlocate
      rcases habove : disk.directory dir with fault | above
      · rw [habove] at hlocate
        cases hlocate
      · rw [habove] at hlocate
        exact ⟨above, rfl, enter_name hempty hup hlocate⟩

/-- There are no more places with files than files. -/
lemma length_le_fileCount {places : List (List String)} (hnodup : places.Nodup)
    (h : ∀ place ∈ places, ∃ content, disk.root.get? place = some (.file content)) :
    places.length ≤ disk.fileCount := by
  have hsub : places ⊆ disk.root.files.map Prod.fst := fun place hplace => by
    obtain ⟨content, hget⟩ := h place hplace
    exact List.mem_map.mpr ⟨_, Node.mem_files hget, rfl⟩
  have hle := (hnodup.subperm hsub).length_le
  rwa [List.length_map] at hle

end Disk

end Dissect
