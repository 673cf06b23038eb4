import Dissect.Decimal.Binary
import Dissect.Numeral

/-!
The decimal with the fewest digits that reads back as a given floating-point number.

The reals that round to `m * 2 ^ q` form an interval, from halfway to the neighbour below to halfway
to the neighbour above, whose ends belong to it when `m` is even. The powers of ten are tried from
above; the first whose grid meets the interval next to the number gives the digits.
-/

namespace Dissect.Decimal

/-- The number `digits * 10 ^ exponent`. -/
structure Scaled where
  digits : Nat
  exponent : Int
  deriving DecidableEq, Repr

/-- Compares `a * 10 ^ i` with `n * 2 ^ j`. -/
def compareScaled (a : Nat) (i : Int) (n : Nat) (j : Int) : Ordering :=
  compare (a * pow10 i.toNat * pow2 (-j).toNat) (n * pow2 j.toNat * pow10 (-i).toNat)

/-- The decimal rounds to the number. -/
def Binary.readsBack (b : Binary) (d : Scaled) : Bool :=
  let low := if b.narrowBelow then 4 * b.m - 1 else 4 * b.m - 2
  let high := 4 * b.m + 2
  let closed := b.m % 2 == 0
  let atLow := compareScaled d.digits d.exponent low (b.q - 2)
  let atHigh := compareScaled d.digits d.exponent high (b.q - 2)
  (atLow == .gt || (closed && atLow == .eq)) && (atHigh == .lt || (closed && atHigh == .eq))

/-- The multiple of `10 ^ i` next below the number. -/
def Binary.floorAt (b : Binary) (i : Int) : Nat :=
  b.m * pow2 b.q.toNat * pow10 (-i).toNat / (pow2 (-b.q).toNat * pow10 i.toNat)

/-- The nearer of the two multiples of `10 ^ i` around the number that read back. -/
def Binary.pick (b : Binary) (tie : Tie) (i : Int) : Option Scaled :=
  let below := b.floorAt i
  let lower : Scaled := ⟨below, i⟩
  let upper : Scaled := ⟨below + 1, i⟩
  match b.readsBack lower, b.readsBack upper with
  | false, false => none
  | true, false => some lower
  | false, true => some upper
  | true, true =>
    -- the number against the middle of the two
    match compareScaled (2 * below + 1) i (2 * b.m) b.q with
    | .gt => some lower
    | .lt => some upper
    | .eq =>
      match tie with
      | .toEven => some (if below % 2 = 0 then lower else upper)
      | .up => some upper

/-- Tries `count` powers of ten from `10 ^ i` down. -/
def Binary.search (b : Binary) (tie : Tie) : Nat → Int → Option Scaled
  | 0, _ => none
  | count + 1, i =>
    match b.pick tie i with
    | some d => some d
    | none => b.search tie count (i - 1)

/-- The shortest decimal of a number other than zero. The highest power tried exceeds the number,
and seventeen digits always suffice. -/
def Binary.shortest (b : Binary) (tie : Tie) : Scaled :=
  let magnitude := ((b.m.log2 : Int) + b.q) * 30103 / 100000
  (b.search tie 24 (magnitude + 2)).getD ⟨b.m, b.q⟩

/-- How a decimal is written. -/
structure Style where
  tie : Tie
  /-- The point stands among or next to the digits when this holds of its place; otherwise the power
  of ten is written out. -/
  positional : Int → Bool
  /-- What follows the digits of a whole number. -/
  wholeMark : String
  /-- What stands in front of a power of ten that is not negative. -/
  risingMark : String

/-- Writes digits with the point after the first `point` of them, which may be past their end or
before their start. -/
def writeDigits (style : Style) (ds : List Char) (point : Int) : List Char :=
  if style.positional point then
    if point ≤ 0 then '0' :: '.' :: List.replicate (-point).toNat '0' ++ ds
    else if ds.length ≤ point.toNat then
      ds ++ List.replicate (point.toNat - ds.length) '0' ++ style.wholeMark.toList
    else ds.take point.toNat ++ '.' :: ds.drop point.toNat
  else
    let power := point - 1
    let mark := 'e' :: (if power < 0 then ['-'] else style.risingMark.toList) ++
      Numeral.digits 10 Numeral.digitLower power.natAbs
    match ds with
    | [d] => d :: mark
    | d :: rest => d :: '.' :: rest ++ mark
    | [] => mark

/-- Digits without the zeros at their end. -/
def dropZeros (ds : List Char) : List Char := (ds.reverse.dropWhile (· == '0')).reverse

/-- The text of a finite number. -/
def write (style : Style) (x : Float) : String :=
  let b := Binary.ofFloat x
  let sign := if isNegative x then ['-'] else []
  if b.m = 0 then String.ofList (sign ++ '0' :: style.wholeMark.toList)
  else
    let d := b.shortest style.tie
    let ds := Numeral.digits 10 Numeral.digitLower d.digits
    String.ofList (sign ++ writeDigits style (dropZeros ds) (ds.length + d.exponent))

end Dissect.Decimal
