import Dissect.Text.Lower
import Dissect.Text.Part

/-!
Imported libraries.
-/

namespace Dissect

/-- What a library is for, as far as its name tells. -/
inductive LibraryKind
  | system
  | runtime
  | library
  | graphics
  | network
  deriving DecidableEq, Repr

namespace LibraryKind

def tag : LibraryKind → String
  | system => "System"
  | runtime => "Runtime"
  | library => "Library"
  | graphics => "Graphics"
  | network => "Network"

/-- Guesses the kind from parts of the name. -/
def ofName (name : String) : LibraryKind :=
  let has := Text.contains (Text.lower name)
  if has "msvcr" || has "ucrtbase" then runtime
  else if has "kernel32" || has "ntdll" then system
  else if has "opengl" || has "d3d" then graphics
  else if has "ws2_32" || has "wininet" then network
  else library

end LibraryKind

/-- A library that a program imports, directly or through others. -/
structure Dependency where
  name : String
  /-- Where the library was found. -/
  path : Option String
  deriving DecidableEq, Repr

namespace Dependency

def kind (d : Dependency) : LibraryKind := .ofName d.name

/-- What the library does, if it is well known. -/
def description (d : Dependency) : Option String :=
  let has := Text.contains (Text.lower d.name)
  if has "msvcr" then some "Microsoft Visual C++ Runtime"
  else if has "kernel32" then some "Windows Kernel API"
  else if has "user32" then some "Windows User Interface API"
  else none

/-- Names are the same if they differ only in the case of ASCII letters. -/
def sameName (d : Dependency) (name : String) : Bool :=
  Text.lowerAscii d.name == Text.lowerAscii name

end Dependency

end Dissect
