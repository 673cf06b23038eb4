/-!
Lists of texts as sets: in increasing order and without repetitions.
-/

namespace Dissect.Text

/-- The texts of a list in increasing order, each once. -/
def sortedSet (texts : List String) : List String :=
  (texts.mergeSort fun a b => decide (a ≤ b)).eraseReps

end Dissect.Text
