import Dissect.Bytes

/-!
Entropy: how evenly the symbols of a text or byte string are spread, in bits per symbol.

The terms of the sum are added in a fixed order, those of bytes from the least byte on and those of
characters by their first occurrence. The sum is rounded at each step, so that another order can
change its last bit.
-/

namespace Dissect.Entropy

/-- The share of one symbol in the entropy. -/
def term (total count : Nat) : Float :=
  let p := Float.ofNat count / Float.ofNat total
  (-p) * p.log2

/-- Entropy of a distribution that is given by the counts of its symbols. -/
def ofCounts (total : Nat) (counts : List Nat) : Float :=
  counts.foldl (fun sum count => sum + term total count) 0

/-- How often each symbol occurs. -/
def counts [BEq α] (symbols : List α) : List Nat :=
  symbols.eraseDups.map fun s => symbols.count s

/-- All bytes, the least first. -/
def sortedBytes : List UInt8 := (List.range 256).map UInt8.ofNat

/-- Entropy of the bytes of a byte string. -/
def ofBytes (data : Bytes) : Float :=
  ofCounts data.length ((sortedBytes.map fun b => data.count b).filter (0 < ·))

/-- Entropy of the characters of a text. -/
def ofText (text : String) : Float :=
  ofCounts text.toList.length (counts text.toList)

end Dissect.Entropy
