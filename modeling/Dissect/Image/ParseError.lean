import Dissect.Image.Format
import Dissect.Numeral

/-!
Why a file cannot be read as an image.
-/

namespace Dissect

/-- A header field with a value that no image has. -/
inductive HeaderFault
  | optionalMagic (found : Nat)
  | elfClass (found : Nat)
  | elfEncoding (found : Nat)
  | noSlice
  deriving DecidableEq, Repr

/-- Why a file cannot be read as an image. -/
inductive ParseError
  | unknownFormat
  | unsupportedFormat (format : Format)
  | invalidMagic (expected found : Nat)
  | invalidHeader (fault : HeaderFault)
  | truncated (needed present : Nat)
  /-- A record starts past the end of the file. -/
  | outOfBounds (offset : Nat)
  deriving DecidableEq, Repr

namespace HeaderFault

def message : HeaderFault → String
  | optionalMagic n => "Invalid optional header magic: " ++ Numeral.hexMarked n
  | elfClass n => "Invalid ELF class: " ++ Numeral.decimal n
  | elfEncoding n => "Invalid ELF data encoding: " ++ Numeral.decimal n
  | noSlice => "No supported architecture in FAT binary"

end HeaderFault

namespace ParseError

def message : ParseError → String
  | unknownFormat => "Unknown binary format"
  | unsupportedFormat f => "No structure parser for " ++ f.label ++ " files"
  | invalidMagic expected found =>
    "Invalid magic number: expected " ++ Numeral.hexMarked expected ++
      ", got " ++ Numeral.hexMarked found
  | invalidHeader fault => "Invalid header: " ++ fault.message
  | truncated needed present =>
    "Truncated data: expected " ++ Numeral.decimal needed ++
      " bytes, got " ++ Numeral.decimal present
  | outOfBounds offset => "Address out of bounds: " ++ Numeral.hexMarked offset

/-- The file announces a format, and its headers do not keep to it. -/
def isStructural : ParseError → Bool
  | unknownFormat | unsupportedFormat _ => false
  | invalidMagic _ _ | invalidHeader _ | truncated _ _ | outOfBounds _ => true

end ParseError

end Dissect
