import Dissect.Image.Format
import Dissect.Image.Section

/-!
Images: executable files in the one form that all formats are brought into.
-/

namespace Dissect

structure Image where
  format : Format := .unknown
  architecture : Architecture := .unknown
  platform : Platform := .unknown
  /-- Absolute address where execution starts. -/
  entryPoint : UInt64 := 0
  imageBase : UInt64 := 0
  /-- The sections in header order. -/
  sections : List Section := []
  /-- Names of the libraries that the image imports, in the order of its import table. -/
  libraries : List String := []
  packed : Bool := false
  packer : Option String := none
  /-- Header values worth reporting, by name. -/
  facts : List (String × String) := []
  deriving DecidableEq, Repr

namespace Image

/-- The first section of a name. -/
def findSection (i : Image) (name : String) : Option Section :=
  i.sections.find? (·.name == name)

/-- The sections that hold code. -/
def codeSections (i : Image) : List Section :=
  i.sections.filter (·.kind == .code)

/-- The first section whose range of memory holds an address. -/
def sectionContaining (i : Image) (rva : UInt64) : Option Section :=
  i.sections.find? (·.containsRva rva)

/-- Where the byte at an address stands in the file. -/
def fileOffset? (i : Image) (rva : UInt64) : Option UInt64 :=
  (i.sectionContaining rva).bind (·.fileOffset? rva)

/-- The entry point relative to the image base. -/
def entryRva (i : Image) : UInt64 := Word.subSaturating i.entryPoint i.imageBase

end Image

end Dissect
