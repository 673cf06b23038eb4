import Mathlib
import Dissect.Proofs.Disk.Tree

/-!
Files that are written.

A file is written at a place: below a directory that its path leads to, under a name that is not
that of a directory. Then every place that was a directory still is one and has the entries it had,
so the path leads to the new content, and writing the same content once more changes nothing. A file
that can be read can be written.
-/

namespace Dissect

/-! ### Trees -/

namespace Entries

variable {es : Entries} {name other : String} {node : Node}

lemma get?_set_self : (es.set name node).get? name = some node := by
  have hnone : List.lookup name (es.filter fun e => e.1 != name) = none := by
    rw [List.lookup_eq_none_iff]
    intro e he
    have hne := (List.mem_filter.mp he).2
    rwa [bne_iff_ne, ne_comm, ← bne_iff_ne] at hne
  rw [get?, set, List.lookup_append, hnone]
  simp

lemma get?_set_of_ne (h : other ≠ name) : (es.set name node).get? other = es.get? other := by
  rw [get?, get?, set, List.lookup_append]
  have hlast : List.lookup other [(name, node)] = none := by
    rw [List.lookup, beq_false_of_ne h, List.lookup]
  rw [hlast, Option.or_none]
  induction es with
  | nil => rfl
  | cons e es ih =>
    obtain ⟨first, node'⟩ := e
    by_cases hfirst : first = name
    · have hne : (other == first) = false := by simpa [hfirst] using h
      simp [hfirst, List.lookup, hfirst ▸ hne, ih]
    · rw [List.filter_cons_of_pos (by simpa using hfirst), List.lookup, List.lookup, ih]

lemma set_set (node' : Node) : (es.set name node').set name node = es.set name node := by
  simp [set, List.filter_filter]

lemma isSome_get?_set (h : (es.get? other).isSome) : ((es.set name node).get? other).isSome := by
  by_cases heq : other = name
  · rw [heq, get?_set_self]
    rfl
  · rwa [get?_set_of_ne heq]

end Entries

namespace Node

variable {node : Node} {es : Entries} {place names : List String}

lemma get?_put_self (new : Node) (names : List String) (node : Node) :
    (put new names node).get? names = some new := by
  induction names generalizing node with
  | nil => rfl
  | cons name rest ih =>
    rw [put, get?, entries, Entries.get?_set_self]
    exact ih _

/-- The second of two nodes that are put at one place stays there. -/
lemma put_put (new new' : Node) (names : List String) (node : Node) :
    put new names (put new' names node) = put new names node := by
  induction names generalizing node with
  | nil => rfl
  | cons name rest ih =>
    simp only [put, entries, Entries.get?_set_self, Option.getD_some, Entries.set_set, ih]

/-- A directory stays one, with the entries it has, when something is put where no directory is. -/
lemma get?_put_of_dir (new : Node) (hfree : ∀ es', node.get? names ≠ some (.dir es'))
    (hplace : node.get? place = some (.dir es)) :
    ∃ es' : Entries, (put new names node).get? place = some (.dir es') ∧
      ∀ name, (es.get? name).isSome → (es'.get? name).isSome := by
  induction names generalizing node place with
  | nil =>
    -- nothing is below what is not a directory
    rcases node with content | es₀
    · rcases place with _ | ⟨first, place⟩
      · cases hplace
      · simp [get?, entries, Entries.get?] at hplace
    · exact absurd rfl (hfree es₀)
  | cons name rest ih =>
    rw [put]
    rcases place with _ | ⟨first, place⟩
    · obtain rfl : node = .dir es := by simpa [get?] using hplace
      exact ⟨_, rfl, fun other h => Entries.isSome_get?_set h⟩
    · obtain ⟨below, hentry, hbelow⟩ := Option.bind_eq_some_iff.mp hplace
      by_cases heq : first = name
      · subst heq
        have hfree' : ∀ es', below.get? rest ≠ some (.dir es') := fun es' h =>
          hfree es' (by rw [get?, hentry]; exact h)
        rw [get?, entries, Entries.get?_set_self, hentry]
        exact ih hfree' hbelow
      · rw [get?, entries, Entries.get?_set_of_ne heq, hentry]
        exact ⟨es, hbelow, fun _ h => h⟩

end Node

/-! ### Places that are written -/

namespace Disk

variable {disk disk' : Disk} {path name segment : String} {content content' : Bytes}
  {place above place' : List String}

/-- The path leads to a place where a file can be written. -/
structure Writable (disk : Disk) (path : String) (above : List String) (name : String) : Prop where
  noFault : pathFault? path = none
  leads : ∃ front, Path.segments path = front ++ [name] ∧
    front.foldlM disk.enter (disk.origin path) = .ok above
  notEmpty : ¬Path.isEmptySegment name
  notUp : name ≠ ".."
  short : name.utf8ByteSize ≤ maxName
  directory : ∃ es, disk.root.get? above = some (.dir es)
  free : ∀ es, disk.root.get? (above ++ [name]) ≠ some (.dir es)
  allowed : disk.denied.contains (above ++ [name]) = false
  allowedNew : disk.root.get? (above ++ [name]) = none → disk.denied.contains above = false

/-- The disk with a file at a place. -/
def withFile (disk : Disk) (place : List String) (content : Bytes) : Disk :=
  { disk with root := Node.put (.file content) place disk.root }

lemma enter_withFile (hfree : ∀ es, disk.root.get? place' ≠ some (.dir es))
    (h : disk.enter above segment = .ok place) :
    (disk.withFile place' content).enter above segment = .ok place := by
  unfold enter at h
  split at h
  · next es hdir =>
    obtain ⟨es', hdir', hentries⟩ := Node.get?_put_of_dir (.file content) hfree hdir
    rw [enter, withFile, hdir']
    dsimp only
    split_ifs at h with hempty hup hlong hsome
    · rw [if_pos hempty, h]
    · rw [if_neg hempty, if_pos hup, h]
    · rw [if_neg hempty, if_neg hup, if_neg hlong, if_pos (hentries _ hsome), h]
  · cases h
  · cases h

lemma foldlM_withFile {segments : List String}
    (hfree : ∀ es, disk.root.get? place' ≠ some (.dir es))
    (h : segments.foldlM disk.enter above = .ok place) :
    segments.foldlM (disk.withFile place' content).enter above = .ok place := by
  induction segments generalizing above with
  | nil => exact h
  | cons segment segments ih =>
    rw [List.foldlM_cons] at h ⊢
    rcases hstep : disk.enter above segment with fault | next
    · rw [hstep] at h
      cases h
    · rw [hstep] at h
      rw [enter_withFile hfree hstep]
      exact ih h

/-- The place can be written again. -/
lemma Writable.withFile (h : disk.Writable path above name) (content : Bytes) :
    (disk.withFile (above ++ [name]) content).Writable path above name where
  noFault := h.noFault
  leads := by
    obtain ⟨front, hsegments, hfront⟩ := h.leads
    exact ⟨front, hsegments, foldlM_withFile h.free hfront⟩
  notEmpty := h.notEmpty
  notUp := h.notUp
  short := h.short
  directory := by
    obtain ⟨es, hdir⟩ := h.directory
    obtain ⟨es', hdir', -⟩ := Node.get?_put_of_dir (.file content) h.free hdir
    exact ⟨es', hdir'⟩
  free es hdir := by
    rw [Disk.withFile, Node.get?_put_self] at hdir
    cases hdir
  allowed := h.allowed
  allowedNew hnone := by
    rw [Disk.withFile, Node.get?_put_self] at hnone
    cases hnone

/-- A file at such a place is read by its path. -/
lemma Writable.leads_of_file (h : disk.Writable path above name)
    (hfile : disk.root.get? (above ++ [name]) = some (.file content)) :
    disk.Leads path (above ++ [name]) content where
  locate := by
    obtain ⟨front, hsegments, hfront⟩ := h.leads
    obtain ⟨es, hdir⟩ := h.directory
    have hentry : (Entries.get? es name).isSome := by
      rw [Node.get?_append, hdir] at hfile
      rw [show Entries.get? es name = some (.file content) from hfile]
      rfl
    have hstep : disk.enter above name = .ok (above ++ [name]) := by
      simp [enter, hdir, h.notEmpty, h.notUp, Nat.not_lt.mpr h.short, hentry]
    have htext : textFault? path = none := by
      have hnone := h.noFault
      rw [pathFault?, Option.or_eq_none_iff] at hnone
      exact hnone.1
    simp only [Disk.locate, h.noFault, follow, htext, hsegments, List.foldlM_append, hfront,
      bind, Except.bind, List.foldlM_cons, List.foldlM_nil, hstep]
    rfl
  file := hfile

/-! ### Writing -/

lemma lastSegment_of_name {front : List String} (hsegments : Path.segments path = front ++ [name])
    (h : name ≠ "") : lastSegment path = (front ++ [name], false) := by
  have hkept : ((front ++ [name]).reverse.dropWhile (· == "")).reverse = front ++ [name] := by
    rw [List.reverse_append, List.reverse_singleton, List.singleton_append,
      List.dropWhile_cons_of_neg (by simpa using h), List.reverse_cons, List.reverse_reverse]
  simp only [lastSegment, hsegments, hkept, lt_irrefl, decide_false]

/-- A path without a slash at the end has its last segment there. -/
lemma segments_of_lastSegment {kept : List String} (h : lastSegment path = (kept, false))
    (hlast : kept.getLast? = some name) :
    Path.segments path = kept.dropLast ++ [name] ∧ name ≠ "" := by
  unfold lastSegment at h
  dsimp only at h
  obtain ⟨hkept, hlength⟩ := Prod.mk.inj h
  rw [decide_eq_false_iff_not, not_lt, List.length_reverse, ← List.length_reverse] at hlength
  have hall := (List.dropWhile_suffix (· == "")).eq_of_length_le hlength
  have hfirst := List.head?_dropWhile_not (· == "") (Path.segments path).reverse
  rw [hall, List.reverse_reverse] at hkept
  subst hkept
  rw [hall, List.head?_reverse, hlast] at hfirst
  exact ⟨(List.dropLast_append_getLast? _ hlast).symm, by simpa using hfirst⟩

/-- A file is written exactly at the places where it can be. -/
lemma write_eq_ok_iff : disk.write path content = .ok disk' ↔
    ∃ above name, disk.Writable path above name ∧
      disk' = disk.withFile (above ++ [name]) content := by
  constructor
  · intro h
    unfold write at h
    split at h
    · cases h
    · next hfault =>
      rcases hlast : lastSegment path with ⟨kept, slash⟩
      rw [hlast] at h
      dsimp only at h
      split at h
      · cases h
      · next name hname =>
        rcases habove : kept.dropLast.foldlM disk.enter (disk.origin path) with fault | above
        · rw [habove] at h
          cases h
        · rw [habove] at h
          simp only [bind, Except.bind] at h
          split at h
          · next es hdir =>
            split_ifs at h with hspecial hlong
            split at h
            · cases h
            · next hfree =>
              split_ifs at h with hdenied
              rw [Bool.or_eq_true, not_or, Bool.not_eq_true, Bool.and_eq_true, not_and,
                Option.isNone_iff_eq_none, Bool.not_eq_true] at hdenied
              have hentry : disk.root.get? (above ++ [name]) = Entries.get? es name := by
                rw [Node.get?_append, hdir]
                rfl
              rw [not_or, not_or, Bool.not_eq_true] at hspecial
              obtain ⟨hdot, hup, rfl⟩ := hspecial
              obtain ⟨hsegments, hempty⟩ := segments_of_lastSegment hlast hname
              refine ⟨above, name, ⟨hfault, ⟨_, hsegments, habove⟩, ?_, hup, not_lt.mp hlong,
                ⟨es, hdir⟩, fun es' hget => ?_, hdenied.1, fun hnone => ?_⟩,
                (Except.ok.inj h).symm⟩
              · simp [Path.isEmptySegment, hempty, hdot]
              · exact hfree es' (hentry.symm.trans hget)
              · exact hdenied.2 (hentry.symm.trans hnone)
          · cases h
  · rintro ⟨above, name, hwritable, rfl⟩
    obtain ⟨front, hsegments, hfront⟩ := hwritable.leads
    obtain ⟨es, hdir⟩ := hwritable.directory
    have hname := hwritable.notEmpty
    rw [Path.isEmptySegment, Bool.or_eq_true, beq_iff_eq, beq_iff_eq, not_or] at hname
    unfold write
    rw [hwritable.noFault, lastSegment_of_name hsegments hname.1]
    simp only [List.getLast?_concat, List.dropLast_concat, hfront, bind, Except.bind, hdir,
      hname.2, hwritable.notUp, Nat.not_lt.mpr hwritable.short, or_self, if_false,
      Bool.false_eq_true]
    have hentry : disk.root.get? (above ++ [name]) = Entries.get? es name := by
      rw [Node.get?_append, hdir]
      rfl
    split
    · next es' hget => exact absurd (hentry.trans hget) (hwritable.free es')
    · have hallowed : (disk.denied.contains (above ++ [name]) ||
          (Entries.get? es name).isNone && disk.denied.contains above) = false := by
        rw [hwritable.allowed, Bool.false_or, Bool.and_eq_false_imp, Option.isNone_iff_eq_none]
        exact fun hnone => hwritable.allowedNew (hentry.trans hnone)
      rw [hallowed]
      rfl

/-- **What is written is read back, and writing it again changes nothing.** -/
theorem read_write (h : disk.write path content = .ok disk') :
    disk'.read path = .ok content ∧ disk'.write path content = .ok disk' := by
  obtain ⟨above, name, hwritable, rfl⟩ := write_eq_ok_iff.mp h
  have hagain := hwritable.withFile content
  have hleads := hagain.leads_of_file (Node.get?_put_self _ _ _)
  refine ⟨read_eq_ok_iff.mpr ⟨hleads.node, ?_⟩, ?_⟩
  · rw [hleads.denies, hagain.allowed]
    exact Bool.false_ne_true
  refine write_eq_ok_iff.mpr ⟨above, name, hagain, ?_⟩
  simp only [withFile, Node.put_put]

lemma segments_ne_nil (path : String) : Path.segments path ≠ [] := by
  unfold Path.segments
  dsimp only
  split_ifs with habsolute
  · rw [Path.isAbsolute, beq_iff_eq, List.head?_eq_some_iff] at habsolute
    obtain ⟨cs, hcs⟩ := habsolute
    simp [hcs, Path.splitSlashes, Path.splitSlashes_ne_nil]
  · simp [Path.splitSlashes_ne_nil]

lemma get?_dropLast {es : Entries} (h : disk.root.get? above = some (.dir es)) :
    ∃ es', disk.root.get? above.dropLast = some (.dir es') := by
  rcases List.eq_nil_or_concat' above with rfl | ⟨front, last, rfl⟩
  · exact ⟨es, h⟩
  · rw [List.dropLast_concat]
    rw [Node.get?_append] at h
    obtain ⟨node, hnode, hentry⟩ := Option.bind_eq_some_iff.mp h
    rcases node with content | es'
    · simp [Node.entries, Entries.get?] at hentry
    · exact ⟨es', hnode⟩

/-- A segment that leads to a file is the name of the file in a directory. -/
lemma enter_file (h : disk.enter above segment = .ok place)
    (hfile : disk.root.get? place = some (.file content)) :
    (∃ es, disk.root.get? above = some (.dir es)) ∧ ¬Path.isEmptySegment segment ∧
      segment ≠ ".." ∧ segment.utf8ByteSize ≤ maxName ∧ place = above ++ [segment] := by
  unfold enter at h
  split at h
  · next es hdir =>
    refine ⟨⟨es, hdir⟩, ?_⟩
    split_ifs at h with hempty hup hlong hsome
    · obtain rfl := Except.ok.inj h
      rw [hdir] at hfile
      cases hfile
    · obtain rfl := Except.ok.inj h
      obtain ⟨es', hdir'⟩ := get?_dropLast hdir
      rw [hdir'] at hfile
      cases hfile
    · exact ⟨hempty, hup, not_lt.mp hlong, (Except.ok.inj h).symm⟩
  · cases h
  · cases h

/-- A path to a file that can be opened leads to a place that can be written. -/
lemma Leads.writable (h : disk.Leads path place content)
    (hallowed : disk.denied.contains place = false) :
    ∃ above name, disk.Writable path above name := by
  obtain ⟨hlocate, hfile⟩ := h
  unfold Disk.locate Disk.follow at hlocate
  split at hlocate
  · cases hlocate
  · next hfault =>
    split at hlocate
    · cases hlocate
    · obtain ⟨front, name, hsegments⟩ :=
        (List.eq_nil_or_concat' (Path.segments path)).resolve_left (segments_ne_nil path)
      rw [hsegments, List.foldlM_append] at hlocate
      rcases habove : front.foldlM disk.enter (disk.origin path) with fault | above
      · rw [habove] at hlocate
        cases hlocate
      · rw [habove] at hlocate
        have hstep : disk.enter above name = .ok place := by
          change [name].foldlM disk.enter above = .ok place at hlocate
          simpa only [List.foldlM_cons, List.foldlM_nil, bind_pure] using hlocate
        obtain ⟨hdir, hempty, hup, hshort, rfl⟩ := enter_file hstep hfile
        refine ⟨above, name, hfault, ⟨front, hsegments, habove⟩, hempty, hup, hshort, hdir,
          fun es hget => ?_, hallowed, fun hnone => ?_⟩
        · rw [hfile] at hget
          cases hget
        · rw [hfile] at hnone
          cases hnone

/-- **A file that can be read can be written.** -/
theorem exists_write_of_read (h : disk.read path = .ok content) (content' : Bytes) :
    ∃ disk', disk.write path content' = .ok disk' := by
  obtain ⟨hnode, hopen⟩ := read_eq_ok_iff.mp h
  obtain ⟨place, content, hleads⟩ := isFile_iff.mp (isFile_of_node hnode)
  rw [hleads.denies, Bool.not_eq_true] at hopen
  obtain ⟨above, name, hwritable⟩ := hleads.writable hopen
  exact ⟨_, write_eq_ok_iff.mpr ⟨above, name, hwritable, rfl⟩⟩

end Disk

end Dissect
