import Dissect.Json.Number

/-!
Records read from documents.

A record is written as an object, whose members may come in any order, or as an array of the values
of its fields in order. A field that is missing keeps its usual value. Members with other names are
passed over; a field given twice, or a value too many, is refused.
-/

namespace Dissect.Json

/-- The values given for the fields of a record. -/
def Source.fields? (names : List String) : Source → Option (List (String × Source))
  | .object members => do
    let named ← members.mapM fun (units, value) => (textOf? units).map fun name => (name, value)
    let known := named.filter fun m => names.contains m.1
    if (known.map (·.1)).Nodup then some known else none
  | .array items => if items.length ≤ names.length then some (names.zip items) else none
  | _ => none

/-- The value of a field, or its usual value. -/
def field? (given : List (String × Source)) (name : String) (read : Source → Option α) (usual : α) :
    Option α :=
  match given.lookup name with
  | some value => read value
  | none => some usual

def Source.nat? : Source → Option Nat
  | .number n =>
    match n.value? with
    | some (.word n) => some n
    | _ => none
  | _ => none

/-- A number; a word stands for the number next to it. -/
def Source.float? : Source → Option Float
  | .number n =>
    match n.value? with
    | some (.word n) => some (UInt64.ofNat n).toFloat
    | some (.float x) => some x
    | none => none
  | _ => none

def Source.bool? : Source → Option Bool
  | .bool b => some b
  | _ => none

def Source.text? : Source → Option String
  | .text units => textOf? units
  | _ => none

def Source.texts? : Source → Option (List String)
  | .array items => items.mapM Source.text?
  | _ => none

end Dissect.Json
