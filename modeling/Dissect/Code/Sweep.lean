import Dissect.Code.Decoder
import Dissect.Code.Function
import Dissect.Image.Basic
import Dissect.Settings.Basic

/-!
Finding functions in code.

A function is taken to start at the start of a section and wherever the usual first instructions of
a function stand. Instructions are decoded from there one after the other, up to a return, the start
of the next function or the end of the section.

Addresses are words, and go on from zero behind the largest one. Code that is loaded there is
decoded all the same, but a program that checks its sums does not get that far.
-/

namespace Dissect.Sweep

/-- First bytes of functions. -/
def prologues : Mode → List Bytes
  | .bits32 => [[0x55, 0x8B, 0xEC], [0x55, 0x89, 0xE5]]
  | .bits64 => [[0x48, 0x8B, 0xEC], [0x48, 0x8B, 0xE5], [0x55, 0x48, 0x89, 0xE5]]

/-- The bytes start as a function does. -/
def startsFunction (mode : Mode) (bs : Bytes) : Bool :=
  (prologues mode).any (·.isPrefixOf bs)

/-- Positions, counted from `offset`, at which the bytes start as a function does. -/
def prologueOffsets (mode : Mode) (offset : Nat) : Bytes → List Nat
  | [] => []
  | b :: bs =>
    if startsFunction mode (b :: bs) then offset :: prologueOffsets mode (offset + 1) bs
    else prologueOffsets mode (offset + 1) bs

/-- Puts an address into a list in rising order, unless it is there. -/
def insertAddress (a : UInt64) : List UInt64 → List UInt64
  | [] => [a]
  | b :: bs =>
    if a < b then a :: b :: bs
    else if a = b then b :: bs
    else b :: insertAddress a bs

/-- Start addresses of the functions in code that is loaded at `base`, in rising order. -/
def seeds (settings : SweepSettings) (mode : Mode) (code : Bytes) (base : UInt64) : List UInt64 :=
  let found := (prologueOffsets mode 0 code).map fun offset => base + UInt64.ofNat offset
  ((base :: found).foldr insertAddress []).take settings.maxFunctions

/-- Decodes at most `budget` instructions that start below `limit`, up to a return. -/
def decodeUpTo (mode : Mode) (limit : UInt64) : Nat → UInt64 → Bytes → List Instruction
  | 0, _, _ => []
  | budget + 1, address, rest =>
    if address < limit then
      match mode.decode rest address with
      | none => []
      | some i =>
        if i.isReturn then [i]
        else i :: decodeUpTo mode limit budget i.next (rest.drop i.bytes.length)
    else []

/-- The instructions from a start address on, in code that is loaded at `base`. -/
def instructionsAt (settings : SweepSettings) (mode : Mode) (code : Bytes)
    (base start limit : UInt64) : List Instruction :=
  decodeUpTo mode limit settings.maxInstructions start (code.drop (start - base).toNat)

/-- Decoding as above comes to an address in front of `base`. -/
def passesZero (mode : Mode) (base limit : UInt64) : Nat → UInt64 → Bytes → Bool
  | 0, _, _ => false
  | budget + 1, address, rest =>
    if address < limit then
      if address < base then true
      else
        match mode.decode rest address with
        | none => false
        | some i =>
          if i.isReturn then false
          else passesZero mode base limit budget i.next (rest.drop i.bytes.length)
    else false

/-- Each start address with the next one; the last one goes up to `stop`. -/
def bounds (stop : UInt64) : List UInt64 → List (UInt64 × UInt64)
  | [] => []
  | [s] => [(s, stop)]
  | s :: t :: rest => (s, t) :: bounds stop (t :: rest)

/-- The functions in code that is loaded at `base` and covers `span` addresses. -/
def functions (settings : SweepSettings) (mode : Mode) (code : Bytes) (base span : UInt64) :
    List Function :=
  (bounds (Word.addSaturating base span) (seeds settings mode code base)).filterMap
    fun (start, limit) =>
      let is := instructionsAt settings mode code base start limit
      if is.isEmpty then none else some (.ofInstructions start is)

/-- Some sum or difference of addresses in the search for functions is none of a word: a function
starts behind the largest address, or its instructions go on there. -/
def overflows (settings : SweepSettings) (mode : Mode) (code : Bytes) (base span : UInt64) : Bool :=
  (prologueOffsets mode 0 code).any (fun offset => UInt64.size ≤ base.toNat + offset) ||
    (bounds (Word.addSaturating base span) (seeds settings mode code base)).any
      fun (start, limit) =>
        passesZero mode base limit settings.maxInstructions start (code.drop (start - base).toNat)

/-- The functions in one section of an image. -/
def ofSection (settings : SweepSettings) (mode : Mode) (data : Bytes) (image : Image)
    (s : Section) : List Function :=
  functions settings mode (s.data data) (image.imageBase + s.virtualAddress) s.span

/-- The functions in all code sections of an image; none for an architecture that is not decoded. -/
def ofImage (settings : SweepSettings) (data : Bytes) (image : Image) : List Function :=
  match Decoder.mode? image.architecture with
  | none => []
  | some mode => image.codeSections.flatMap (ofSection settings mode data image)

/-- The search for functions overflows in some section of an image. -/
def overflowsIn (settings : SweepSettings) (data : Bytes) (image : Image) : Bool :=
  match Decoder.mode? image.architecture with
  | none => false
  | some mode =>
    image.codeSections.any fun s =>
      overflows settings mode (s.data data) (image.imageBase + s.virtualAddress) s.span

end Dissect.Sweep
