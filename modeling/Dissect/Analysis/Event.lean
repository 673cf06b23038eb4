import Dissect.Stage

/-!
What an analysis tells while it runs.
-/

namespace Dissect

inductive Event
  | started (path : String)
  | stageDone (path : String) (stage : Stage)
  | completed (path : String) (functions strings : Nat)
  | failed (path : String) (stage : Stage) (message : String)
  | resolved (name path : String)
  | unresolved (name : String)
  deriving DecidableEq, Repr

/-- The file that an event is about; none for what is told of a library. -/
def Event.path? : Event → Option String
  | started path | stageDone path _ | completed path _ _ | failed path _ _ => some path
  | resolved _ _ | unresolved _ => none

end Dissect
