import Dissect.Text.Utf8

/-!
Runs of printable characters.

`asciiRuns` scans bytes. It only marks where a run starts, and reads the text of the run off the
bytes when it has come to its end.

`utf16Runs` scans pairs of bytes, from the even positions. It cuts a list of units at every unit
that is not printable, and collects the units of each piece on the way. A piece without units has
the index of the last one that had some, or zero.

Both keep the runs of at least a given length. A run of bytes is never empty and a piece can be,
which shows only when the least length is zero.
-/

namespace Dissect.Strings

/-- The code of a printable ASCII character. -/
def isPrintable (code : Nat) : Bool := 0x20 ≤ code && code ≤ 0x7E

/-! ### Bytes -/

/-- Where a run starts: the index of its first byte, and the bytes from there on. -/
structure Mark where
  index : Nat
  rest : Bytes

/-- Adds the run from a mark up to an index to the runs so far, if it is long enough. -/
def close (least stop : Nat) (start : Option Mark) (done : List (Nat × String)) :
    List (Nat × String) :=
  match start with
  | none => done
  | some mark =>
    if least ≤ stop - mark.index then
      (mark.index, Utf8.decodeLossy (mark.rest.take (stop - mark.index))) :: done
    else done

/-- The runs of bytes from an index on, last one first, after those so far. -/
def scanBytes (least : Nat) : Bytes → Nat → Option Mark → List (Nat × String) → List (Nat × String)
  | [], index, start, done => close least index start done
  | b :: rest, index, start, done =>
    if isPrintable b.toNat then
      scanBytes least rest (index + 1) (start.or (some ⟨index, b :: rest⟩)) done
    else scanBytes least rest (index + 1) none (close least index start done)

/-- Maximal runs of printable bytes, at least `least` bytes long, with their positions. -/
def asciiRuns (data : Bytes) (least : Nat) : List (Nat × String) :=
  (scanBytes least data 0 none []).reverse

/-! ### Units of two bytes -/

structure St where
  index : Nat
  start : Nat
  /-- The piece in progress, last unit first. -/
  current : List Nat
  /-- The finished pieces, last one first. -/
  done : List (Nat × List Nat)

def init : St := ⟨0, 0, [], []⟩

def step (s : St) (unit : Nat) : St :=
  if isPrintable unit then
    { s with
      index := s.index + 1
      start := if s.current.isEmpty then s.index else s.start
      current := unit :: s.current }
  else
    { s with
      index := s.index + 1
      current := []
      done := (s.start, s.current.reverse) :: s.done }

/-- The pieces of a list of units between those that are not printable. -/
def pieces (units : List Nat) : List (Nat × List Nat) :=
  let s := units.foldl step init
  ((s.start, s.current.reverse) :: s.done).reverse

/-- The text of printable units. -/
def textOf (units : List Nat) : String := String.ofList (units.map Char.ofNat)

/-- The 16-bit units of a byte string, least significant byte first; an odd last byte is left
out. -/
def units16 : Bytes → List Nat
  | low :: high :: rest => (low.toNat + 256 * high.toNat) :: units16 rest
  | _ => []

/-- Maximal runs of printable 16-bit units, at least `least` units long, with their positions. -/
def utf16Runs (data : Bytes) (least : Nat) : List (Nat × String) :=
  ((pieces (units16 data)).filter fun p => least ≤ p.2.length).map
    fun p => (2 * p.1, textOf p.2)

end Dissect.Strings
