import Dissect.Text.CaseRanges
import Dissect.Text.Ranges

/-!
Lower-case forms of texts.

Every letter has one lower-case form, with two exceptions: the dotted capital I becomes two
characters, and the capital sigma has a form of its own at the end of a word.
-/

namespace Dissect.Text

/-- The lower-case form of a character, where it does not depend on its neighbours. -/
def lowerChar (c : Char) : List Char :=
  if c.toNat = 0x130 then ['i', Char.ofNat 0x307]
  else
    match lowerRows.find? fun r =>
        r.first ≤ c.toNat && c.toNat ≤ r.last && (c.toNat - r.first) % r.stride == 0 with
    | some r => [Char.ofNat ((c.toNat : Int) + r.shift).toNat]
    | none => [c]

/-- The first character that is not passed over is a letter with a case. -/
def letterNext (cs : List Char) : Bool :=
  match cs.dropWhile (inRanges passedRanges) with
  | c :: _ => inRanges casedRanges c
  | [] => false

/-- Lower-case form of the second text after the first one, which is given reversed. -/
def lowerAfter : List Char → List Char → List Char
  | _, [] => []
  | before, c :: cs =>
    let form :=
      if c.toNat = 0x3A3 then
        if letterNext before && !letterNext cs then [Char.ofNat 0x3C2] else [Char.ofNat 0x3C3]
      else lowerChar c
    form ++ lowerAfter (c :: before) cs

/-- Lower-case form of a text. -/
def lower (s : String) : String := String.ofList (lowerAfter [] s.toList)

/-- Lower-case form of an ASCII letter; every other character is kept. -/
def lowerAsciiChar (c : Char) : Char :=
  if 'A' ≤ c ∧ c ≤ 'Z' then Char.ofNat (c.toNat + 32) else c

/-- The text with its ASCII letters in lower case. -/
def lowerAscii (s : String) : String := String.ofList (s.toList.map lowerAsciiChar)

end Dissect.Text
