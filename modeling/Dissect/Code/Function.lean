import Dissect.Code.Graph
import Dissect.Text.Sorted

/-!
Functions found in code.
-/

namespace Dissect

structure Function where
  name : String
  start : UInt64
  /-- Address after the last instruction. -/
  stop : UInt64
  instructions : List Instruction
  graph : Option Graph := none
  /-- Names of the functions that are called directly, in order. -/
  called : List String := []
  deriving DecidableEq, Repr

namespace Function

/-- The function that starts at an address and has the given instructions. -/
def ofInstructions (start : UInt64) (is : List Instruction) : Function where
  name := functionName start
  start := start
  stop := (is.getLast?.map (·.next)).getD start
  instructions := is

/-- Adds a graph, and the calls in it to the functions called. -/
def attach (f : Function) (g : Graph) : Function :=
  { f with
    graph := some g
    called := Text.sortedSet (f.called ++ g.calls.map (·.name)) }

/-- The function with its own graph. -/
def withGraph (f : Function) : Function := f.attach (.build f.start f.instructions)

/-- The address lies in the function. -/
def contains (f : Function) (address : UInt64) : Bool := f.start ≤ address && address < f.stop

end Function

end Dissect
