/-!
Documents as they are written.

A source keeps what the text says before it is known what it is for: a number is its digits, a text
is its characters and escapes. So a part of a document that nobody asks for needs only to be well
formed, and a number too large or half of a surrogate pair does no harm there.
-/

namespace Dissect.Json

/-- A number as it is written. -/
structure NumberSource where
  negative : Bool
  whole : List Char
  fraction : Option (List Char)
  /-- The sign and the digits of the power of ten. -/
  power : Option (Bool × List Char)
  deriving DecidableEq, Repr

/-- One element of a quoted text: a character, or a 16-bit unit given by its number. -/
inductive TextUnit
  | char (c : Char)
  | unit (n : Nat)
  deriving DecidableEq, Repr

inductive Source
  | null
  | bool (b : Bool)
  | number (n : NumberSource)
  | text (units : List TextUnit)
  | array (items : List Source)
  | object (members : List (List TextUnit × Source))

/-- The text of units, with pairs of surrogates joined; a surrogate that stands alone is refused. -/
def decodeUnits : List TextUnit → Option (List Char)
  | [] => some []
  | .char c :: rest => (decodeUnits rest).map (c :: ·)
  | .unit n :: rest =>
    if 0xDC00 ≤ n ∧ n ≤ 0xDFFF then none
    else if 0xD800 ≤ n ∧ n ≤ 0xDBFF then
      match rest with
      | .unit k :: rest' =>
        if 0xDC00 ≤ k ∧ k ≤ 0xDFFF then
          (decodeUnits rest').map (Char.ofNat (0x10000 + (n - 0xD800) * 0x400 + (k - 0xDC00)) :: ·)
        else none
      | _ => none
    else (decodeUnits rest).map (Char.ofNat n :: ·)

/-- The text of units. -/
def textOf? (units : List TextUnit) : Option String := (decodeUnits units).map String.ofList

end Dissect.Json
