/-!
Entries by name, in the order in which their names came first.
-/

namespace Dissect

abbrev Named (α : Type) := List (String × α)

namespace Named

variable {α : Type}

/-- Sets the entry of a name: in the place of an earlier one, or else at the end. -/
def set (entries : Named α) (name : String) (value : α) : Named α :=
  if entries.any fun e => e.1 == name then
    entries.map fun e => if e.1 == name then (e.1, value) else e
  else entries ++ [(name, value)]

/-- Sets entries one after the other. -/
def ofPairs (pairs : List (String × α)) : Named α :=
  pairs.foldl (fun entries p => entries.set p.1 p.2) []

end Named

end Dissect
