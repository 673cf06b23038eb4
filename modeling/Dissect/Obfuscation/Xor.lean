import Dissect.Bytes
import Dissect.Text.Utf8

/-!
Texts encrypted with a key of one byte.

All keys are tried, and the result that reads most like text is taken.
-/

namespace Dissect.Xor

/-- Combines every byte with the key. This is its own inverse. -/
def apply (key : UInt8) (data : Bytes) : Bytes := data.map (· ^^^ key)

def isPrintableByte (b : UInt8) : Bool := 0x20 ≤ b && b ≤ 0x7E

/-- The letters that are most frequent in English, as bytes. -/
def frequentLetters : Bytes := Bytes.ofAscii "etaoinshrdlu"

/-- How much a byte adds to the plausibility of a text. -/
def weight (b : UInt8) : Nat :=
  if frequentLetters.contains b then 3
  else if 0x61 ≤ b && b ≤ 0x7A then 2
  else if (0x41 ≤ b && b ≤ 0x5A) || (0x30 ≤ b && b ≤ 0x39) || b == 0x20 then 1
  else 0

/-- How much a byte string reads like text. -/
def plausibility : Bytes → Nat
  | [] => 0
  | b :: bs => weight b + plausibility bs

/-- All keys but zero, in increasing order. -/
def keys : List UInt8 := (List.range' 1 255).map UInt8.ofNat

/-- The key gives printable bytes only. -/
def isCandidate (data : Bytes) (key : UInt8) : Bool :=
  data.all fun b => isPrintableByte (b ^^^ key)

/-- Of the best key so far with its plausibility and another key, the better; the earlier one if
neither is. -/
def better (data : Bytes) (best : Option (UInt8 × Nat)) (key : UInt8) : Option (UInt8 × Nat) :=
  let new := plausibility (apply key data)
  match best with
  | some (_, top) => if top < new then some (key, new) else best
  | none => some (key, new)

/-- The key whose result is the most plausible, and the least such key. -/
def bestKey? (data : Bytes) : Option UInt8 :=
  if data.length < 4 then none
  else ((keys.filter (isCandidate data)).foldl (better data) none).map (·.1)

/-- The text that a key gives. -/
def textWith (key : UInt8) (data : Bytes) : String :=
  String.ofList ((apply key data).map fun b => Char.ofNat b.toNat)

/-- The best key and the text it gives. -/
def decrypt? (data : Bytes) : Option (UInt8 × String) :=
  (bestKey? data).map fun key => (key, textWith key data)

/-- A text that is more plausible than the given one, if a key gives one. -/
def decryptText? (text : String) : Option String := do
  let data := Utf8.encode text
  let key ← bestKey? data
  if plausibility data < plausibility (apply key data) then
    some (textWith key data)
  else none

end Dissect.Xor
