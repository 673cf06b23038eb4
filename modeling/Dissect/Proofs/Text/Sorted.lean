import Mathlib
import Dissect.Text.Sorted

/-!
Lists of texts as sets: the same texts, in strictly increasing order.
-/

namespace Dissect.Text

variable {a x : String} {texts done : List String}

/-- What the removal of repetitions keeps: the texts so far, the last one, and those to come. -/
lemma mem_eraseReps_loop :
    x ∈ List.eraseRepsBy.loop (· == ·) a texts done ↔ x ∈ done ∨ x = a ∨ x ∈ texts := by
  induction texts generalizing a done with
  | nil => simp [List.eraseRepsBy.loop, or_comm]
  | cons b texts ih =>
    rw [List.eraseRepsBy.loop]
    split
    · next heq =>
      obtain rfl : a = b := by simpa using heq
      rw [ih, List.mem_cons, or_self_left]
    · rw [ih, List.mem_cons, List.mem_cons, or_assoc, or_left_comm]

lemma pairwise_eraseReps_loop (htexts : (a :: texts).Pairwise (· ≤ ·))
    (hdone : (a :: done).Pairwise fun s t => t < s) :
    (List.eraseRepsBy.loop (· == ·) a texts done).Pairwise (· < ·) := by
  induction texts generalizing a done with
  | nil =>
    rw [List.eraseRepsBy.loop, List.pairwise_reverse]
    exact hdone
  | cons b texts ih =>
    obtain ⟨hle, hrest⟩ := List.pairwise_cons.mp htexts
    rw [List.eraseRepsBy.loop]
    split
    · next heq =>
      obtain rfl : a = b := by simpa using heq
      exact ih hrest hdone
    · next hne =>
      -- the new text is above the last one, and so above all those before it
      have hlt : a < b := lt_of_le_of_ne (hle b List.mem_cons_self) (by simpa using hne)
      refine ih hrest (List.pairwise_cons.mpr ⟨fun s hs => ?_, hdone⟩)
      rcases List.mem_cons.mp hs with rfl | hs
      · exact hlt
      · exact lt_trans ((List.pairwise_cons.mp hdone).1 s hs) hlt

lemma mem_sortedSet : x ∈ sortedSet texts ↔ x ∈ texts := by
  have hsort : x ∈ (texts.mergeSort fun a b => decide (a ≤ b)) ↔ x ∈ texts := List.mem_mergeSort
  rw [sortedSet, ← hsort]
  rcases texts.mergeSort fun a b => decide (a ≤ b) with _ | ⟨b, rest⟩
  · rfl
  · rw [List.eraseReps, List.eraseRepsBy, mem_eraseReps_loop, List.mem_cons]
    simp

lemma pairwise_sortedSet (texts : List String) : (sortedSet texts).Pairwise (· < ·) := by
  have hsorted : (texts.mergeSort fun a b => decide (a ≤ b)).Pairwise (· ≤ ·) :=
    List.pairwise_mergeSort' _ texts
  rw [sortedSet]
  revert hsorted
  rcases texts.mergeSort fun a b => decide (a ≤ b) with _ | ⟨b, rest⟩ <;> intro hsorted
  · exact .nil
  · exact pairwise_eraseReps_loop hsorted (List.pairwise_singleton _ _)

/-- The order leaves only one list for a set of texts. -/
lemma sortedSet_eq {sorted : List String} (hsorted : sorted.Pairwise (· < ·))
    (hmem : ∀ x, x ∈ sorted ↔ x ∈ texts) : sortedSet texts = sorted :=
  (pairwise_sortedSet texts).eq_of_mem_iff hsorted fun {x} => mem_sortedSet.trans (hmem x).symm

lemma length_sortedSet (texts : List String) :
    (sortedSet texts).length = texts.toFinset.card := by
  have hnodup : (sortedSet texts).Nodup := (pairwise_sortedSet texts).imp ne_of_lt
  rw [← List.toFinset_card_of_nodup hnodup]
  congr 1
  ext x
  rw [List.mem_toFinset, List.mem_toFinset, mem_sortedSet]

end Dissect.Text
