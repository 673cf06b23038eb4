import Dissect.Image.Basic
import Dissect.Settings.Basic
import Dissect.Strings.Kind
import Dissect.Strings.Run
import Dissect.Text.Part
import Dissect.Text.Sorted

/-!
Texts in a file.

`values` lists the texts without their places, in order and each once; `occurrences` lists every
place of a text, in file order. Runs that look like noise are left out of both.
-/

namespace Dissect.Strings

/-- How a text is stored. -/
inductive Encoding
  | ascii
  | utf16
  deriving DecidableEq, Repr

def Encoding.tag : Encoding → String
  | ascii => "Ascii"
  | utf16 => "Utf16Le"

/-- The surroundings of a text in the file. -/
structure Context where
  /-- The byte in front of the text is zero. -/
  afterZero : Bool
  /-- Position of an instruction shortly before the text that may push its address. -/
  reference : Option Nat
  deriving DecidableEq, Repr

/-- A place where a text stands. -/
structure Occurrence where
  value : String
  offset : Nat
  /-- Length in bytes. -/
  length : Nat
  encoding : Encoding
  context : Context
  kind : Kind
  deriving DecidableEq, Repr

def isHexDigit (c : Char) : Bool :=
  ('0' ≤ c && c ≤ '9') || ('a' ≤ c && c ≤ 'f') || ('A' ≤ c && c ≤ 'F')

/-- The text has an allowed length, is not made of control characters or of the character 255 alone,
has enough printable characters, and is not a dump of eight or more hexadecimal digits. -/
def isValid (settings : TextSettings) (text : String) : Bool :=
  let cs := text.toList
  let length := cs.length
  let printable := (cs.filter fun c => isPrintable c.toNat).length
  settings.minLength ≤ length && length ≤ settings.maxLength &&
    !(!cs.isEmpty && cs.all fun c => c.toNat < 0x20) &&
    !(!cs.isEmpty && cs.all fun c => c.toNat == 0xFF) &&
    !(decide (Float.ofNat printable / Float.ofNat length < settings.minPrintableRatio)) &&
    !(8 ≤ length && cs.all isHexDigit)

/-- Both kinds of runs of a byte string. -/
def runs (data : Bytes) (least : Nat) : List (Nat × String) :=
  asciiRuns data least ++ utf16Runs data least

/-- Sections of an image that hold texts. -/
def isTextSection (format : Format) (name : String) : Bool :=
  match format with
  | .pe => Text.startsWith name ".rsrc" || Text.startsWith name ".rdata"
  | .elf => name == ".rodata" || Text.startsWith name ".rodata."
  | .machO => Text.endsWith name ",__cstring" || Text.endsWith name ",__const"
  | .zip | .unknown => false

/-- The parts of a file that are scanned: all of it, and once more each section that holds texts. -/
def scannedParts (data : Bytes) (image : Option Image) : List Bytes :=
  data ::
    match image with
    | some i => (i.sections.filter fun s => isTextSection i.format s.name).map (·.data data)
    | none => []

/-- The texts of a file. -/
def values (settings : TextSettings) (data : Bytes) (image : Option Image) : List String :=
  let found := (scannedParts data image).flatMap fun part =>
    (runs part settings.minLength).map (·.2)
  (Text.sortedSet found).filter (isValid settings)

/-- First byte of an instruction that pushes an address. -/
def pushOpcode : UInt8 := 0x68

/-- The surroundings of a position. -/
def contextAt (data : Array UInt8) (offset : Nat) : Context :=
  let first := offset - 16
  { afterZero := 0 < offset && data[offset - 1]? == some 0
    reference := ((data.extract first offset).findIdx? (· == pushOpcode)).map (first + ·) }

/-- The occurrence of a run. -/
def occurrence (data : Array UInt8) (encoding : Encoding) (run : Nat × String) : Occurrence where
  value := run.2
  offset := run.1
  length := match encoding with
    | .ascii => run.2.length
    | .utf16 => 2 * run.2.length
  encoding := encoding
  context := contextAt data run.1
  kind := classify run.2

/-- Every place of a text in a file, by position. -/
def occurrences (settings : TextSettings) (data : Bytes) : List Occurrence :=
  let bytes := data.toArray
  let found :=
    (asciiRuns data settings.minLength).map (occurrence bytes .ascii) ++
      (utf16Runs data settings.minLength).map (occurrence bytes .utf16)
  (found.filter fun o => isValid settings o.value).mergeSort fun a b => a.offset ≤ b.offset

end Dissect.Strings
