import Dissect.Json.Source
import Dissect.Numeral

/-!
The value of a number in a document.

The digits are gathered into a 64-bit significand. Digits in front of the point that do not fit are
counted into the power of ten; digits after the point that do not fit are dropped. A number with a
point or a power of ten, or too large for a word, is the significand scaled by the power of ten; a
number that would be infinite is refused.
-/

namespace Dissect.Json

/-- The value of a number: a word when it is written as one, or a floating-point number. -/
inductive Number
  | word (n : Nat)
  | float (x : Float)
  deriving DecidableEq, Repr

def digitValue (c : Char) : Nat := (Numeral.decimalValue? c).getD 0

/-- Gathers the digits in front of the point into a significand and a power of ten. -/
def gatherWhole (significand : Nat) : List Char → Nat × Nat
  | [] => (significand, 0)
  | d :: ds =>
    let next := significand * 10 + digitValue d
    if next < UInt64.size then gatherWhole next ds else (significand, ds.length + 1)

/-- Gathers the digits after the point; the second number counts those gathered. -/
def gatherFraction (significand : Nat) : List Char → Nat × Nat
  | [] => (significand, 0)
  | d :: ds =>
    let next := significand * 10 + digitValue d
    if next < UInt64.size then
      let (s, n) := gatherFraction next ds
      (s, n + 1)
    else (significand, 0)

def powerOfTen (n : Nat) : Float := Float.ofScientific 1 false n

/-- Scales a number by a power of ten, in steps when the power is very small. The first argument
bounds the steps; after three of them nothing but zero is left. -/
def scale : Nat → Float → Int → Option Float
  | 0, x, _ => some x
  | fuel + 1, x, power =>
    if power.natAbs ≤ 308 then
      if 0 ≤ power then
        let y := x * powerOfTen power.natAbs
        if y.isInf then none else some y
      else some (x / powerOfTen power.natAbs)
    else if x == 0 then some x
    else if 0 ≤ power then none
    else scale fuel (x / powerOfTen 308) (power + 308)

/-- The value of the digits of a power of ten, if it is below `2 ^ 31`. -/
def powerValue? (ds : List Char) : Option Nat :=
  Numeral.valueBelow? 0x80000000 10 Numeral.decimalValue? 0 ds

/-- Gives a number its sign. -/
def signed (negative : Bool) (x : Float) : Float := if negative then -x else x

/-- The value of a number. -/
def NumberSource.value? (n : NumberSource) : Option Number :=
  let (whole, dropped) := gatherWhole 0 n.whole
  let (significand, places) := match n.fraction with
    | some ds => gatherFraction whole ds
    | none => (whole, 0)
  let base : Int := (dropped : Int) - places
  let scaled (power : Int) : Option Number :=
    (scale 4 (UInt64.ofNat significand).toFloat power).map fun x => .float (signed n.negative x)
  match n.power with
  | some (down, ds) =>
    match powerValue? ds with
    | some p => scaled (if down then base - p else base + p)
    | none =>
      if significand ≠ 0 ∧ !down then none else some (.float (signed n.negative 0))
  | none =>
    if n.fraction.isNone && dropped == 0 then
      if n.negative then some (.float (-(UInt64.ofNat significand).toFloat))
      else some (.word significand)
    else scaled base

end Dissect.Json
