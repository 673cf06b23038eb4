import Mathlib
import Dissect.Proofs.Strings.Extraction

/-!
A scan gives the longest runs, from the first to the last.

Together with the order, membership says what the list is: there is one list of the texts of a byte
string by increasing position. Texts in 16-bit units whose high bytes are zero are those of the low
bytes, at twice their positions.
-/

namespace Dissect.Strings

/-- The list holds the texts of a byte string that are long enough, in the order of the bytes. -/
structure IsScan (data : Bytes) (enc : Encoding) (least : ℕ) (runs : List (ℕ × String)) :
    Prop where
  mem : ∀ start text, (start, text) ∈ runs ↔ IsText data enc start text ∧ least ≤ text.length
  increasing : runs.Pairwise fun p q => p.1 < q.1

/-! ### Order -/

variable {units run tail : List ℕ} {start k : ℕ}

/-- A run that ends before the last unit ends before the printable units at the end. -/
lemma IsTail.run_lt (h : IsTail units k tail) (hrun : IsRun units start run)
    (hstop : start + run.length < units.length) : start + run.length < k := by
  by_contra hge
  -- otherwise the unit behind the run is one of those at the end
  have hunit : units[start + run.length]? = some (units[start + run.length]) :=
    List.getElem?_eq_getElem hstop
  refine hrun.right _ hunit (h.printable _ ?_)
  rw [h.eq_drop]
  refine List.mem_of_getElem? (i := start + run.length - k) ?_
  rw [List.getElem?_drop, ← hunit]
  congr 1
  omega

/-- Pieces with units come in the order of their indices. -/
def Precedes (p q : ℕ × List ℕ) : Prop := p.2 ≠ [] → q.2 ≠ [] → p.1 < q.1

/-- The finished pieces lie before the one in progress. -/
lemma Scanned.precedes {s : St} (h : Scanned units s) :
    ∀ q ∈ s.done, Precedes q (s.start, s.current.reverse) := by
  intro q hq hne hcurrent
  obtain ⟨k, htail, hstart⟩ := h.tail
  obtain ⟨hrun, hstop⟩ := (h.done q hne).mp hq
  have hlt := htail.run_lt hrun hstop
  have hk := hstart (by simpa using hcurrent)
  show q.1 < s.start
  omega

lemma pairwise_done (units : List ℕ) :
    (units.foldl step init).done.Pairwise fun p q => Precedes q p := by
  induction units using List.reverseRecOn with
  | nil => exact .nil
  | append_singleton units u ih =>
    rw [List.foldl_append, List.foldl_cons, List.foldl_nil]
    unfold step
    split
    · exact ih
    · exact List.pairwise_cons.mpr ⟨(scanned_foldl units).precedes, ih⟩

lemma pairwise_pieces (units : List ℕ) : (pieces units).Pairwise Precedes := by
  rw [pieces, List.pairwise_reverse]
  exact List.pairwise_cons.mpr ⟨(scanned_foldl units).precedes, pairwise_done units⟩

/-- Pieces that are chosen for their units come in the order of their indices. -/
lemma pairwise_map_filter_pieces {f : ℕ → ℕ} (hf : StrictMono f) {keep : ℕ × List ℕ → Bool}
    (hkeep : ∀ p, keep p → p.2 ≠ []) (units : List ℕ) :
    (((pieces units).filter keep).map fun p => (f p.1, textOf p.2)).Pairwise
      fun p q => p.1 < q.1 := by
  rw [List.pairwise_map, List.pairwise_filter]
  refine (pairwise_pieces units).imp fun {p q} h hp hq => ?_
  exact hf (h (hkeep p hp) (hkeep q hq))

lemma pairwise_runs {data : Bytes} {enc : Encoding} {least : ℕ} (hleast : 1 ≤ least) :
    (enc.runs data least).Pairwise fun p q => p.1 < q.1 := by
  cases enc with
  | ascii =>
    rw [Encoding.runs, asciiRuns_eq]
    refine pairwise_map_filter_pieces strictMono_id (fun p hp => ?_) _
    rw [Bool.and_eq_true] at hp
    simpa using hp.1
  | utf16 =>
    refine pairwise_map_filter_pieces (f := (2 * ·)) (fun i j hij => ?_) (fun p hp => ?_) _
    · show 2 * i < 2 * j
      omega
    · rw [decide_eq_true_eq] at hp
      exact List.length_pos_iff.mp (by omega)

lemma isScan_runs {enc : Encoding} {least : ℕ} (hleast : 1 ≤ least) (data : Bytes) :
    IsScan data enc least (enc.runs data least) where
  mem _ _ := mem_runs hleast
  increasing := pairwise_runs hleast

/-! ### Zero high bytes -/

/-- The bytes as 16-bit units, least significant byte first. -/
def widen (data : Bytes) : Bytes := data.flatMap fun b => [b, 0]

lemma units16_widen (data : Bytes) : units16 (widen data) = data.map (·.toNat) := by
  induction data with
  | nil => rfl
  | cons b data ih =>
    have hcons : widen (b :: data) = b :: 0 :: widen data := rfl
    rw [hcons, units16, ih, List.map_cons]
    rfl

lemma utf16Runs_widen {least : ℕ} (hleast : 1 ≤ least) (data : Bytes) :
    utf16Runs (widen data) least = (asciiRuns data least).map fun p => (2 * p.1, p.2) := by
  have hkeep : ∀ p : ℕ × List ℕ, (!p.2.isEmpty && decide (least ≤ p.2.length)) =
      decide (least ≤ p.2.length) := by
    intro p
    rcases p.2 with _ | ⟨u, us⟩
    · have hshort : ¬least ≤ 0 := by omega
      simp [hshort]
    · rfl
  rw [utf16Runs, asciiRuns_eq, kept, units16_widen, List.map_map]
  simp only [hkeep]
  rfl

/-- **A scan finds exactly the longest runs.** For any bytes, the texts of bytes and those of 16-bit
units are listed by increasing position, and units with zero high bytes hold the texts of their low
bytes. -/
theorem runs_isScan (data : Bytes) (least : ℕ) (hleast : 1 ≤ least) :
    IsScan data .ascii least (asciiRuns data least) ∧
      IsScan data .utf16 least (utf16Runs data least) ∧
      utf16Runs (widen data) least = (asciiRuns data least).map fun p => (2 * p.1, p.2) :=
  ⟨isScan_runs hleast data, isScan_runs hleast data, utf16Runs_widen hleast data⟩

/-- Runs at both ends, and one between them that is too short. -/
def bounded : Bytes := Bytes.ofAscii "ab" ++ [0] ++ Bytes.ofAscii "c" ++ [0] ++ Bytes.ofAscii "de"

theorem runs_isScan_bounded : 1 ≤ 2 ∧ asciiRuns bounded 2 = [(0, "ab"), (5, "de")] ∧
    IsText bounded .ascii 5 "de" ∧ ¬IsText bounded .ascii 6 "e" ∧
    utf16Runs (widen bounded) 2 = [(0, "ab"), (10, "de")] := by
  obtain ⟨hascii, -, hwide⟩ := runs_isScan bounded 2 (by decide)
  have hruns : asciiRuns bounded 2 = [(0, "ab"), (5, "de")] := by decide
  obtain ⟨hall, -, -⟩ := runs_isScan bounded 1 (by decide)
  refine ⟨by decide, hruns, ((hascii.mem 5 "de").mp (by simp [hruns])).1, fun h => ?_, ?_⟩
  · have hmem := (hall.mem 6 "e").mpr ⟨h, by decide⟩
    revert hmem
    decide
  · rw [hwide, hruns]
    rfl

end Dissect.Strings
