import Mathlib
import Dissect.Proofs.Text.Utf8
import Dissect.Strings.Run

/-!
The pieces of a scan are the longest runs.

After any number of units, the finished pieces are the longest runs that end before the last unit,
and the piece in progress is the one that reaches it. Pieces without units are left out of account:
their indices mean nothing.

The scan of bytes collects nothing. The bytes between its mark and the present one are the piece
that a scan of units would have in progress there, and so both find the same runs.
-/

namespace Dissect.Strings

/-- A longest run of printable units, with the index of its first one. -/
structure IsRun (units : List ℕ) (start : ℕ) (run : List ℕ) : Prop where
  ne_nil : run ≠ []
  inside : ∀ i < run.length, units[start + i]? = run[i]?
  printable : ∀ u ∈ run, isPrintable u
  left : ∀ u, 0 < start → units[start - 1]? = some u → ¬isPrintable u
  right : ∀ u, units[start + run.length]? = some u → ¬isPrintable u

variable {units run : List ℕ} {start : ℕ}

lemma IsRun.stop_le (h : IsRun units start run) : start + run.length ≤ units.length := by
  have hpos := List.length_pos_of_ne_nil h.ne_nil
  have hlast : run[run.length - 1]? = some (run[run.length - 1]) :=
    List.getElem?_eq_getElem (by omega)
  rw [← h.inside _ (by omega)] at hlast
  have := (List.getElem?_eq_some_iff.mp hlast).1
  omega

lemma IsRun.take_drop (h : IsRun units start run) :
    (units.drop start).take run.length = run := by
  refine List.ext_getElem? fun i => ?_
  rw [List.getElem?_take, List.getElem?_drop]
  split
  · next hi => exact h.inside i hi
  · next hi => rw [List.getElem?_eq_none (by omega)]

/-- What stands behind a run and the unit after it makes no difference. -/
lemma isRun_append {more : List ℕ} (h : start + run.length < units.length) :
    IsRun (units ++ more) start run ↔ IsRun units start run := by
  have hget : ∀ i ≤ start + run.length, (units ++ more)[i]? = units[i]? := fun i hi =>
    List.getElem?_append_left (by omega)
  constructor <;> rintro ⟨h1, h2, h3, h4, h5⟩
  · refine ⟨h1, fun i hi => ?_, h3, fun u hpos hu => ?_, fun u hu => ?_⟩
    · rw [← hget _ (by omega), h2 i hi]
    · exact h4 u hpos (by rwa [hget _ (by omega)])
    · exact h5 u (by rwa [hget _ le_rfl])
  · refine ⟨h1, fun i hi => ?_, h3, fun u hpos hu => ?_, fun u hu => ?_⟩
    · rw [hget _ (by omega), h2 i hi]
    · exact h4 u hpos (by rwa [← hget _ (by omega)])
    · exact h5 u (by rwa [← hget _ le_rfl])

/-- The printable units at the end of a list, from an index on. -/
structure IsTail (units : List ℕ) (start : ℕ) (run : List ℕ) : Prop where
  start_le : start ≤ units.length
  eq_drop : run = units.drop start
  printable : ∀ u ∈ run, isPrintable u
  left : ∀ u, 0 < start → units[start - 1]? = some u → ¬isPrintable u

lemma IsTail.start_add (h : IsTail units start run) : start + run.length = units.length := by
  have hle := h.start_le
  rw [h.eq_drop, List.length_drop]
  omega

lemma IsTail.le {start' : ℕ} {run' : List ℕ} (h : IsTail units start run)
    (h' : IsTail units start' run') : start' ≤ start := by
  -- otherwise the unit in front of the second one is in the first one
  by_contra hlt
  have hle := h'.start_le
  have hunit : units[start' - 1]? = some (units[start' - 1]) := List.getElem?_eq_getElem (by omega)
  refine h'.left _ (by omega) hunit (h.printable _ ?_)
  rw [h.eq_drop]
  refine List.mem_of_getElem? (i := start' - 1 - start) ?_
  rw [List.getElem?_drop, ← hunit]
  congr 1
  omega

lemma IsTail.unique {start' : ℕ} {run' : List ℕ} (h : IsTail units start run)
    (h' : IsTail units start' run') : start' = start ∧ run' = run := by
  obtain rfl : start' = start := le_antisymm (h.le h') (h'.le h)
  exact ⟨rfl, h'.eq_drop.trans h.eq_drop.symm⟩

/-- A run that reaches the end, whatever is not printable comes behind it. -/
lemma isRun_append_iff_isTail {more : List ℕ} (hmore : ∀ u ∈ more.head?, ¬isPrintable u)
    (hne : run ≠ []) :
    IsRun (units ++ more) start run ∧ start + run.length = units.length ↔
      IsTail units start run := by
  constructor
  · rintro ⟨h, hstop⟩
    refine ⟨by omega, ?_, h.printable, fun u hpos hu => h.left u hpos ?_⟩
    · refine List.ext_getElem? fun i => ?_
      rw [List.getElem?_drop]
      rcases Nat.lt_or_ge i run.length with hi | hi
      · rw [← h.inside i hi, List.getElem?_append_left (by omega)]
      · rw [List.getElem?_eq_none hi, List.getElem?_eq_none (by omega)]
    · have hlt := (List.getElem?_eq_some_iff.mp hu).1
      rwa [List.getElem?_append_left hlt]
  · intro h
    have hstop := h.start_add
    refine ⟨⟨hne, fun i hi => ?_, h.printable, fun u hpos hu => ?_, fun u hu => ?_⟩, hstop⟩
    · rw [List.getElem?_append_left (by omega), h.eq_drop, List.getElem?_drop]
    · have hlen := List.length_pos_of_ne_nil hne
      rw [List.getElem?_append_left (by omega)] at hu
      exact h.left u hpos hu
    · rw [hstop, List.getElem?_append_right le_rfl, Nat.sub_self, ← List.head?_eq_getElem?] at hu
      exact hmore u hu

/-- A unit that is not printable leaves no tail. -/
lemma isTail_snoc_of_not {u : ℕ} (hu : ¬isPrintable u) :
    IsTail (units ++ [u]) (units.length + 1) [] where
  start_le := by simp
  eq_drop := by simp
  printable := by simp
  left v _ hv := by
    rw [Nat.add_sub_cancel, List.getElem?_append_right le_rfl] at hv
    simp at hv
    rwa [← hv]

/-- A printable unit makes the tail longer. -/
lemma IsTail.snoc {u : ℕ} (h : IsTail units start run) (hu : isPrintable u) :
    IsTail (units ++ [u]) start (run ++ [u]) where
  start_le := by
    have := h.start_le
    simp
    omega
  eq_drop := by rw [List.drop_append_of_le_length h.start_le, h.eq_drop]
  printable v hv := by
    rcases List.mem_append.mp hv with hold | hnew
    · exact h.printable v hold
    · rwa [List.mem_singleton.mp hnew]
  left v hpos hv := by
    have hle := h.start_le
    rw [List.getElem?_append_left (by omega)] at hv
    exact h.left v hpos hv

/-! ### The scan -/

lemma step_of_printable {s : St} {u : ℕ} (hu : isPrintable u) :
    step s u = { s with
      index := s.index + 1
      start := if s.current.isEmpty then s.index else s.start
      current := u :: s.current } :=
  if_pos hu

lemma step_of_not {s : St} {u : ℕ} (hu : ¬isPrintable u) :
    step s u = { s with
      index := s.index + 1
      current := []
      done := (s.start, s.current.reverse) :: s.done } :=
  if_neg hu

/-- What the state of a scan says about the units it has read. -/
structure Scanned (units : List ℕ) (s : St) : Prop where
  index_eq : s.index = units.length
  tail : ∃ k, IsTail units k s.current.reverse ∧ (s.current ≠ [] → s.start = k)
  done : ∀ p : ℕ × List ℕ, p.2 ≠ [] →
    (p ∈ s.done ↔ IsRun units p.1 p.2 ∧ p.1 + p.2.length < units.length)

lemma scanned_init : Scanned [] init where
  index_eq := rfl
  tail := ⟨0, ⟨le_rfl, rfl, by simp [init], by simp⟩, by simp [init]⟩
  done p hp := by simp [init]

/-- The piece in progress is the run that reaches the end. -/
lemma Scanned.current_iff {s : St} (h : Scanned units s) (more : List ℕ)
    (hmore : ∀ u ∈ more.head?, ¬isPrintable u) {p : ℕ × List ℕ} (hp : p.2 ≠ []) :
    p = (s.start, s.current.reverse) ↔
      IsRun (units ++ more) p.1 p.2 ∧ p.1 + p.2.length = units.length := by
  rw [isRun_append_iff_isTail hmore hp]
  obtain ⟨k, htail, hstart⟩ := h.tail
  constructor
  · rintro rfl
    have hk : s.start = k := hstart (by simpa using hp)
    rwa [hk]
  · intro hp'
    obtain ⟨hk, hrun⟩ := htail.unique hp'
    have hne : s.current ≠ [] := by
      rw [hrun] at hp
      simpa using hp
    exact Prod.ext (hk.trans (hstart hne).symm) hrun

lemma Scanned.step {s : St} (h : Scanned units s) (u : ℕ) : Scanned (units ++ [u]) (step s u) := by
  obtain ⟨k, htail, hstart⟩ := h.tail
  have hlength : (units ++ [u]).length = units.length + 1 := by simp
  -- a run that ends before the new unit ended before it as well when there was none
  have hold : ∀ p : ℕ × List ℕ, IsRun units p.1 p.2 ∧ p.1 + p.2.length < units.length ↔
      IsRun (units ++ [u]) p.1 p.2 ∧ p.1 + p.2.length < units.length := fun p =>
    and_congr_left fun hlt => (isRun_append hlt).symm
  by_cases hu : isPrintable u
  · rw [step_of_printable hu]
    refine ⟨by simp [h.index_eq], ⟨k, ?_, fun _ => ?_⟩, fun p hp => ?_⟩
    · rw [List.reverse_cons]
      exact htail.snoc hu
    · rcases hcurrent : s.current with _ | ⟨v, current⟩
      · have hk := htail.start_add
        simp only [hcurrent, List.reverse_nil, List.length_nil, Nat.add_zero] at hk
        simp [h.index_eq, hk]
      · have hk := hstart (by simp [hcurrent])
        simp [hk]
    · rw [h.done p hp, hold p, hlength]
      refine and_congr_right fun hrun => ⟨fun hlt => by omega, fun hlt => ?_⟩
      by_contra hge
      have hstop : p.1 + p.2.length = units.length := by omega
      exact hrun.right u (by simp [hstop]) hu
  · rw [step_of_not hu]
    refine ⟨by simp [h.index_eq], ⟨_, isTail_snoc_of_not hu, by simp⟩, fun p hp => ?_⟩
    rw [List.mem_cons, h.done p hp, hold p, h.current_iff [u] (by simpa using hu) hp,
      hlength, ← and_or_left]
    exact and_congr_right fun _ => by omega

lemma scanned_foldl (units : List ℕ) : Scanned units (units.foldl step init) := by
  induction units using List.reverseRecOn with
  | nil => exact scanned_init
  | append_singleton units u ih =>
    rw [List.foldl_append]
    exact ih.step u

/-- The pieces with units are the longest runs. -/
lemma mem_pieces (hne : run ≠ []) : (start, run) ∈ pieces units ↔ IsRun units start run := by
  have h := scanned_foldl units
  have hcurrent := h.current_iff [] (by simp) (p := (start, run)) hne
  rw [List.append_nil] at hcurrent
  rw [pieces, List.mem_reverse, List.mem_cons, hcurrent, h.done _ hne, ← and_or_left]
  refine and_iff_left_of_imp fun hrun => ?_
  have := hrun.stop_le
  omega

/-! ### The scan of bytes -/

/-- The pieces that are texts of bytes, with their positions. -/
def kept (least : ℕ) (pieces : List (ℕ × List ℕ)) : List (ℕ × String) :=
  (pieces.filter fun p => !p.2.isEmpty && least ≤ p.2.length).map fun p => (p.1, textOf p.2)

/-- The mark stands at the first unit of the piece in progress, in front of the bytes to come. -/
inductive Marks (rest : Bytes) (s : St) : Option Mark → Prop
  | idle (h : s.current = []) : Marks rest s none
  | running {front : Bytes} (hne : front ≠ []) (hcurrent : s.current.reverse = front.map (·.toNat))
      (hprintable : ∀ b ∈ front, isPrintable b.toNat) (hindex : s.index = s.start + front.length) :
      Marks rest s (some ⟨s.start, front ++ rest⟩)

variable {rest : Bytes} {s : St} {mark : Option Mark} {b : UInt8}

lemma decodeLossy_of_printable {front : Bytes} (h : ∀ b ∈ front, isPrintable b.toNat) :
    Utf8.decodeLossy front = textOf (front.map (·.toNat)) := by
  rw [Utf8.decodeLossy_of_ascii fun b hb => ?_, textOf, List.map_map]
  · rfl
  · have hb' := h b hb
    simp only [isPrintable, Bool.and_eq_true, decide_eq_true_eq] at hb'
    omega

/-- A run is closed as a piece is. -/
lemma Marks.close (h : Marks rest s mark) (least : ℕ) :
    Strings.close least s.index mark (kept least s.done) =
      kept least ((s.start, s.current.reverse) :: s.done) := by
  cases h with
  | idle h => simp [Strings.close, kept, h]
  | @running front hne hcurrent hprintable hindex =>
    have hlength : s.index - s.start = front.length := by omega
    have hempty : (front.map (·.toNat)).isEmpty = false := by simpa using hne
    simp only [Strings.close, kept, hlength, List.take_left, decodeLossy_of_printable hprintable,
      hcurrent, List.filter_cons, hempty, Bool.not_false, Bool.true_and, List.length_map]
    by_cases hlong : least ≤ front.length <;> simp [hlong]

lemma Marks.step (h : Marks (b :: rest) s mark) (hb : isPrintable b.toNat) :
    Marks rest (Strings.step s b.toNat) (mark.or (some ⟨s.index, b :: rest⟩)) := by
  rw [step_of_printable hb]
  cases h with
  | idle h =>
    simp only [h, List.isEmpty_nil, if_true, Option.none_or]
    show Marks rest _ (some ⟨s.index, [b] ++ rest⟩)
    exact .running (by simp) (by simp) (by simpa using hb) rfl
  | @running front hne hcurrent hprintable hindex =>
    have hcurrent' : s.current.isEmpty = false := by
      have hne' : s.current.reverse ≠ [] := by simpa [hcurrent] using hne
      simpa using hne'
    have hrest : front ++ b :: rest = (front ++ [b]) ++ rest := by simp
    simp only [hcurrent', Bool.false_eq_true, if_false, Option.some_or, hrest]
    refine .running (by simp) (by simp [hcurrent]) (fun c hc => ?_) ?_
    · rcases List.mem_append.mp hc with hold | hnew
      · exact hprintable c hold
      · rwa [List.mem_singleton.mp hnew]
    · simp [hindex]
      omega

/-- From a mark on, bytes are scanned as their codes are. -/
lemma scanBytes_eq (h : Marks rest s mark) (least : ℕ) :
    scanBytes least rest s.index mark (kept least s.done) =
      kept least (let s' := (rest.map (·.toNat)).foldl step s
        (s'.start, s'.current.reverse) :: s'.done) := by
  induction rest generalizing s mark with
  | nil => exact h.close least
  | cons b rest ih =>
    rw [scanBytes, List.map_cons, List.foldl_cons]
    have hindex : (step s b.toNat).index = s.index + 1 := by
      unfold step
      split <;> rfl
    rw [← hindex]
    split_ifs with hb
    · have hdone : (step s b.toNat).done = s.done := by rw [step_of_printable hb]
      rw [← hdone]
      exact ih (h.step hb)
    · have hdone : (step s b.toNat).done = (s.start, s.current.reverse) :: s.done := by
        rw [step_of_not hb]
      have hidle : (step s b.toNat).current = [] := by rw [step_of_not hb]
      rw [h.close least, ← hdone]
      exact ih (.idle hidle)

/-- **The runs of bytes are the pieces of their codes.** -/
lemma asciiRuns_eq (data : Bytes) (least : ℕ) :
    asciiRuns data least = kept least (pieces (data.map (·.toNat))) := by
  have hmark : Marks data init none := .idle rfl
  have hscan := scanBytes_eq hmark least
  rw [asciiRuns, pieces, kept, List.filter_reverse, List.map_reverse]
  exact congrArg List.reverse hscan

end Dissect.Strings
