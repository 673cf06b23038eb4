/-!
Documents: values built from null, truth values, numbers, texts, lists and members with names.
-/

namespace Dissect

/-- A document. Members keep their order. -/
inductive Json
  | null
  | bool (b : Bool)
  | nat (n : Nat)
  | float (x : Float)
  | str (s : String)
  | arr (items : List Json)
  | obj (members : List (String × Json))

namespace Json

/-- The document of a value that may be absent. -/
def ofOption (f : α → Json) : Option α → Json
  | none => null
  | some a => f a

/-- The document of a list. -/
def ofList (f : α → Json) (as : List α) : Json := arr (as.map f)

/-- The document of a 64-bit word. -/
def ofWord (w : UInt64) : Json := nat w.toNat

end Json

end Dissect
