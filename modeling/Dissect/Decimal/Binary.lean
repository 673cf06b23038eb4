/-!
Floating-point numbers as products of an integer and a power of two.
-/

namespace Dissect.Decimal

/-- The absolute value `m * 2 ^ q` of a finite number. -/
structure Binary where
  m : Nat
  q : Int
  /-- The gap to the number below is half the gap to the number above. -/
  narrowBelow : Bool
  deriving DecidableEq, Repr

/-- A power of two. -/
def pow2 (n : Nat) : Nat := Nat.pow 2 n

/-- A power of ten. -/
def pow10 (n : Nat) : Nat := Nat.pow 10 n

/-- Absolute value of a finite number. -/
def Binary.ofFloat (x : Float) : Binary :=
  let bits := x.toBits.toNat
  let exponent : Nat := bits / 0x10000000000000 % 0x800
  let fraction : Nat := bits % 0x10000000000000
  if exponent = 0 then ⟨fraction, -1074, false⟩
  else ⟨0x10000000000000 + fraction, (exponent : Int) - 1075, fraction == 0 && 1 < exponent⟩

/-- The sign bit is set. -/
def isNegative (x : Float) : Bool := 0x8000000000000000 ≤ x.toBits.toNat

/-- Where a number halfway between two neighbours goes. -/
inductive Tie
  | toEven
  | up
  deriving DecidableEq, Repr

/-- The whole number next to a quotient. -/
def roundDiv (num den : Nat) (tie : Tie) : Nat :=
  let whole := num / den
  let twice := 2 * (num % den)
  if twice < den then whole
  else if den < twice then whole + 1
  else
    match tie with
    | .toEven => if whole % 2 = 0 then whole else whole + 1
    | .up => whole + 1

end Dissect.Decimal
