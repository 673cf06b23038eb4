import Dissect.Decimal.Binary
import Dissect.Numeral

/-!
Numbers with a set number of decimal places.
-/

namespace Dissect.Decimal

/-- The exact value of a finite number, rounded to a number of places; a half goes to the even
neighbour. The sign is written for zero too. -/
def fixed (places : Nat) (x : Float) : String :=
  let b := Binary.ofFloat x
  let scaled := roundDiv (b.m * pow2 b.q.toNat * pow10 places) (pow2 (-b.q).toNat) .toEven
  let ds := Numeral.padded (places + 1) (Numeral.digits 10 Numeral.digitLower scaled)
  let whole := ds.take (ds.length - places)
  let point := if places = 0 then [] else '.' :: ds.drop (ds.length - places)
  String.ofList ((if isNegative x then ['-'] else []) ++ whole ++ point)

end Dissect.Decimal
