import Dissect.Decimal.Shortest
import Dissect.Json.Basic

/-!
The text of a document, one member or item to a line, indented by two blanks for each level.
-/

namespace Dissect.Json

/-- Numbers have a point or a power of ten; the power is written for very small and very large
ones. -/
def numberStyle : Decimal.Style where
  tie := .toEven
  positional point := -5 < point && point ≤ 16
  wholeMark := ".0"
  risingMark := "+"

/-- A character inside a quoted text. -/
def escape (c : Char) : List Char :=
  if c == '"' then ['\\', '"']
  else if c == '\\' then ['\\', '\\']
  else if c == '\n' then ['\\', 'n']
  else if c == '\r' then ['\\', 'r']
  else if c == '\t' then ['\\', 't']
  else if c.toNat = 8 then ['\\', 'b']
  else if c.toNat = 12 then ['\\', 'f']
  else if c.toNat < 0x20 then
    '\\' :: 'u' :: Numeral.padded 4 (Numeral.digits 16 Numeral.digitLower c.toNat)
  else [c]

def quoted (s : String) : List Char := '"' :: (s.toList.flatMap escape ++ ['"'])

/-- A new line at a level of nesting. -/
def newLine (level : Nat) : List Char := '\n' :: List.replicate (2 * level) ' '

mutual

/-- The text of a document at a level of nesting. -/
def print (level : Nat) : Json → List Char
  | null => "null".toList
  | bool b => (if b then "true" else "false").toList
  | nat n => Numeral.digits 10 Numeral.digitLower n
  | float x => (Decimal.write numberStyle x).toList
  | str s => quoted s
  | arr [] => ['[', ']']
  | arr (item :: items) =>
    '[' :: newLine (level + 1) ++ print (level + 1) item ++ printItems (level + 1) items ++
      newLine level ++ [']']
  | obj [] => ['\x7b', '\x7d']
  | obj (m :: members) =>
    '\x7b' :: newLine (level + 1) ++ quoted m.1 ++ ": ".toList ++ print (level + 1) m.2 ++
      printMembers (level + 1) members ++ newLine level ++ ['\x7d']

/-- The items after the first one. -/
def printItems (level : Nat) : List Json → List Char
  | [] => []
  | item :: items => ',' :: newLine level ++ print level item ++ printItems level items

/-- The members after the first one. -/
def printMembers (level : Nat) : List (String × Json) → List Char
  | [] => []
  | m :: members =>
    ',' :: newLine level ++ quoted m.1 ++ ": ".toList ++ print level m.2 ++
      printMembers level members

end

/-- The text of a document. -/
def toText (j : Json) : String := String.ofList (print 0 j)

end Dissect.Json
