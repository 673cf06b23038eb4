import Dissect.Bytes
import Dissect.Word

/-!
Sections of an image: the parts of a file that are laid out in memory.
-/

namespace Dissect

/-- What a section holds and what may be done with it. -/
structure SectionFlags where
  read : Bool := false
  write : Bool := false
  execute : Bool := false
  code : Bool := false
  initialized : Bool := false
  uninitialized : Bool := false
  deriving DecidableEq, Repr

/-- What a section is for, as far as its header says. -/
inductive SectionKind
  | code
  | data
  | resources
  | imports
  | exports
  | debug
  | unknown
  deriving DecidableEq, Repr

/-- A section; its virtual address counts from the image base. -/
structure Section where
  name : String := ""
  virtualAddress : UInt64 := 0
  virtualSize : UInt64 := 0
  rawOffset : UInt64 := 0
  rawSize : UInt64 := 0
  flags : SectionFlags := {}
  kind : SectionKind := .unknown
  deriving DecidableEq, Repr

/-- Names of the flags that are set, in their fixed order. -/
def SectionFlags.names (f : SectionFlags) : List String :=
  [(f.read, "READ"), (f.write, "WRITE"), (f.execute, "EXECUTE"), (f.code, "CODE"),
    (f.initialized, "INITIALIZED"), (f.uninitialized, "UNINITIALIZED")].filterMap
      fun (set, name) => if set then some name else none

def SectionKind.tag : SectionKind → String
  | code => "Code"
  | data => "Data"
  | resources => "Resources"
  | imports => "Imports"
  | exports => "Exports"
  | debug => "Debug"
  | unknown => "Unknown"

namespace Section

/-- The address lies in the section's range of memory. -/
def containsRva (s : Section) (rva : UInt64) : Bool :=
  s.virtualAddress ≤ rva && rva - s.virtualAddress < s.virtualSize

/-- Where the byte at an address of the section stands in the file. -/
def fileOffset? (s : Section) (rva : UInt64) : Option UInt64 :=
  if s.containsRva rva then Word.addChecked s.rawOffset (rva - s.virtualAddress) else none

/-- The bytes of the section, as far as the file holds them. -/
def data (s : Section) (file : Bytes) : Bytes :=
  file.slice s.rawOffset.toNat s.rawSize.toNat

/-- The size of the section in memory, or in the file when none is recorded for memory. -/
def span (s : Section) : UInt64 :=
  if 0 < s.virtualSize then s.virtualSize else s.rawSize

end Section

end Dissect
