import Dissect.Json.Source
import Dissect.Numeral

/-!
Reading the text of a document.

Every function takes the characters from its start on and gives what it read together with the
characters after it.
-/

namespace Dissect.Json

def isBlank (c : Char) : Bool := c == ' ' || c == '\n' || c == '\t' || c == '\r'

def skipBlanks (cs : List Char) : List Char := cs.dropWhile isBlank

def isDigit (c : Char) : Bool := '0' ≤ c && c ≤ '9'

/-- One or more digits. -/
def readDigits (cs : List Char) : Option (List Char × List Char) :=
  let ds := cs.takeWhile isDigit
  if ds.isEmpty then none else some (ds, cs.dropWhile isDigit)

/-- The digits in front of the point; a zero stands alone. -/
def readWhole (cs : List Char) : Option (List Char × List Char) :=
  match readDigits cs with
  | some (ds, rest) => if ds.head? == some '0' && 1 < ds.length then none else some (ds, rest)
  | none => none

/-- The point and the digits after it, if there is a point. -/
def readFraction : List Char → Option (Option (List Char) × List Char)
  | '.' :: cs => (readDigits cs).map fun (ds, rest) => (some ds, rest)
  | cs => some (none, cs)

/-- The power of ten, if there is one. -/
def readPower (cs : List Char) : Option (Option (Bool × List Char) × List Char) :=
  match cs with
  | c :: rest =>
    if c == 'e' || c == 'E' then
      match rest with
      | '-' :: rest' => (readDigits rest').map fun (ds, r) => (some (true, ds), r)
      | '+' :: rest' => (readDigits rest').map fun (ds, r) => (some (false, ds), r)
      | _ => (readDigits rest).map fun (ds, r) => (some (false, ds), r)
    else some (none, cs)
  | [] => some (none, [])

def readNumber (cs : List Char) : Option (NumberSource × List Char) := do
  let (negative, cs) := match cs with
    | '-' :: rest => (true, rest)
    | _ => (false, cs)
  let (whole, cs) ← readWhole cs
  let (fraction, cs) ← readFraction cs
  let (power, cs) ← readPower cs
  return ({ negative, whole, fraction, power }, cs)

/-- The number of four hexadecimal digits. -/
def unitOf? (a b c d : Char) : Option Nat :=
  Numeral.valueBelow? 0x10000 16 Numeral.hexValue? 0 [a, b, c, d]

/-- The character of an escape of one letter. -/
def escaped? (c : Char) : Option Char :=
  match c with
  | '"' => some '"'
  | '\\' => some '\\'
  | '/' => some '/'
  | 'b' => some (Char.ofNat 8)
  | 'f' => some (Char.ofNat 12)
  | 'n' => some '\n'
  | 'r' => some '\r'
  | 't' => some '\t'
  | _ => none

/-- A quoted text after its opening quote. -/
def readText : List Char → Option (List TextUnit × List Char)
  | [] => none
  | '"' :: cs => some ([], cs)
  | '\\' :: 'u' :: a :: b :: c :: d :: cs => do
    let n ← unitOf? a b c d
    let (units, rest) ← readText cs
    return (.unit n :: units, rest)
  | '\\' :: c :: cs => do
    let e ← escaped? c
    let (units, rest) ← readText cs
    return (.char e :: units, rest)
  | c :: cs =>
    if c == '\\' || c.toNat < 0x20 then none
    else do
      let (units, rest) ← readText cs
      return (.char c :: units, rest)

mutual

/-- A document without blanks in front of it. The first argument bounds the depth and the number of
items. -/
def readValue : Nat → List Char → Option (Source × List Char)
  | 0, _ => none
  | fuel + 1, cs =>
    match cs with
    | 'n' :: 'u' :: 'l' :: 'l' :: rest => some (.null, rest)
    | 't' :: 'r' :: 'u' :: 'e' :: rest => some (.bool true, rest)
    | 'f' :: 'a' :: 'l' :: 's' :: 'e' :: rest => some (.bool false, rest)
    | '"' :: rest => (readText rest).map fun (units, r) => (.text units, r)
    | '[' :: rest =>
      match skipBlanks rest with
      | ']' :: r => some (.array [], r)
      | r => (readItems fuel r).map fun (items, r) => (.array items, r)
    | '\x7b' :: rest =>
      match skipBlanks rest with
      | '\x7d' :: r => some (.object [], r)
      | r => (readMembers fuel r).map fun (members, r) => (.object members, r)
    | _ => (readNumber cs).map fun (n, r) => (.number n, r)

/-- One or more items up to the closing bracket. -/
def readItems : Nat → List Char → Option (List Source × List Char)
  | 0, _ => none
  | fuel + 1, cs => do
    let (item, cs) ← readValue fuel cs
    match skipBlanks cs with
    | ',' :: rest => do
      let (items, rest) ← readItems fuel (skipBlanks rest)
      return (item :: items, rest)
    | ']' :: rest => return ([item], rest)
    | _ => none

/-- One or more members up to the closing brace. -/
def readMembers : Nat → List Char → Option (List (List TextUnit × Source) × List Char)
  | 0, _ => none
  | fuel + 1, cs =>
    match cs with
    | '"' :: cs => do
      let (name, cs) ← readText cs
      match skipBlanks cs with
      | ':' :: cs => do
        let (value, cs) ← readValue fuel (skipBlanks cs)
        match skipBlanks cs with
        | ',' :: rest => do
          let (members, rest) ← readMembers fuel (skipBlanks rest)
          return ((name, value) :: members, rest)
        | '\x7d' :: rest => return ([(name, value)], rest)
        | _ => none
      | _ => none
    | _ => none

end

/-- Reads a text that holds one document and blanks around it. -/
def Source.read? (text : String) : Option Source :=
  let cs := text.toList
  match readValue (cs.length + 1) (skipBlanks cs) with
  | some (source, rest) => if (skipBlanks rest).isEmpty then some source else none
  | none => none

end Dissect.Json
