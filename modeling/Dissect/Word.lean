/-!
Arithmetic on 64-bit words that does not wrap around.
-/

namespace Dissect.Word

/-- The sum, or the largest word when the sum does not fit. -/
def addSaturating (a b : UInt64) : UInt64 :=
  if a.toNat + b.toNat < UInt64.size then a + b else 0xFFFFFFFFFFFFFFFF

/-- The sum, when it fits. -/
def addChecked (a b : UInt64) : Option UInt64 :=
  if a.toNat + b.toNat < UInt64.size then some (a + b) else none

/-- The difference, or zero when it would be negative. -/
def subSaturating (a b : UInt64) : UInt64 :=
  if b ≤ a then a - b else 0

/-- The word congruent to an integer. -/
def ofInt (i : Int) : UInt64 := UInt64.ofNat (i % UInt64.size).toNat

/-- A stored field of `bits` bits read as a two's complement number. -/
def signed (bits n : Nat) : Int :=
  if n < 1 <<< (bits - 1) then n else (n : Int) - (1 <<< bits : Nat)

end Dissect.Word
