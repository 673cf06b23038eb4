/-!
Words matched without regard to case.

Beside its capital, the letter s matches the long s and the letter k the Kelvin sign: these are the
only other characters that share a case folding with an ASCII letter.
-/

namespace Dissect.Text

def longS : Char := Char.ofNat 0x17F
def kelvin : Char := Char.ofNat 0x212A

/-- A letter of the alphabet in either case, or one of the two characters that fold to one. -/
def isLetterCaseless (c : Char) : Bool :=
  ('a' ≤ c && c ≤ 'z') || ('A' ≤ c && c ≤ 'Z') || c == longS || c == kelvin

/-- A character matches a lower-case letter, or itself. -/
def matchesCaseless (letter c : Char) : Bool :=
  c == letter ||
    ('a' ≤ letter && letter ≤ 'z' && c.toNat + 32 == letter.toNat) ||
    (letter == 's' && c == longS) || (letter == 'k' && c == kelvin)

/-- The rest of a text after a word in lower case. -/
def afterCaseless? : List Char → List Char → Option (List Char)
  | [], cs => some cs
  | _ :: _, [] => none
  | w :: ws, c :: cs => if matchesCaseless w c then afterCaseless? ws cs else none

/-- The text ends with a word in lower case. -/
def endsCaseless (word cs : List Char) : Bool :=
  (afterCaseless? word.reverse cs.reverse).isSome

end Dissect.Text
