/-!
Texts inside other texts, by their characters.
-/

namespace Dissect.Text

/-- One text starts another. -/
def startsWith (s start : String) : Bool := start.toList.isPrefixOf s.toList

/-- One text ends another. -/
def endsWith (s ending : String) : Bool := ending.toList.isSuffixOf s.toList

/-- One list stands somewhere in another. -/
def standsIn (part : List Char) : List Char → Bool
  | [] => part.isEmpty
  | c :: cs => part.isPrefixOf (c :: cs) || standsIn part cs

/-- One text stands somewhere in another. -/
def contains (s part : String) : Bool := standsIn part.toList s.toList

end Dissect.Text
