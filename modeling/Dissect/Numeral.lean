/-!
Numbers written in base sixteen and in base ten, and the literals that are read back.

`hex` and its variants write numbers, `read?` reads the literal forms an operand can take.
-/

namespace Dissect.Numeral

/-- The digit of a value below sixteen, in lower case. -/
def digitLower (d : Nat) : Char :=
  if d < 10 then Char.ofNat (48 + d) else Char.ofNat (87 + d)

/-- The digit of a value below sixteen, in upper case. -/
def digitUpper (d : Nat) : Char :=
  if d < 10 then Char.ofNat (48 + d) else Char.ofNat (55 + d)

/-- Digits of a number in a base, most significant first, in front of `acc`; one digit at least. The
first argument bounds the number of digits. -/
def digitsAux (base : Nat) (digit : Nat → Char) : Nat → Nat → List Char → List Char
  | 0, _, acc => acc
  | fuel + 1, n, acc =>
    let acc := digit (n % base) :: acc
    if n / base = 0 then acc else digitsAux base digit fuel (n / base) acc

/-- Digits of a number in a base of at least two. -/
def digits (base : Nat) (digit : Nat → Char) (n : Nat) : List Char :=
  digitsAux base digit (n.log2 + 1) n []

/-- Digits filled up with zeros on the left to at least `width` characters. -/
def padded (width : Nat) (ds : List Char) : List Char :=
  List.replicate (width - ds.length) '0' ++ ds

/-- Lower-case hexadecimal digits without a marker. -/
def hex (n : Nat) : String := String.ofList (digits 16 digitLower n)

/-- Lower-case hexadecimal with the marker `0x`. -/
def hexMarked (n : Nat) : String := "0x" ++ hex n

/-- Lower-case hexadecimal with the marker `0x`, the digits padded to four. -/
def hexMarked4 (n : Nat) : String := "0x" ++ String.ofList (padded 4 (digits 16 digitLower n))

/-- Upper-case hexadecimal with the marker `0x`, the digits padded to `width`. -/
def hexUpper (width n : Nat) : String :=
  "0x" ++ String.ofList (padded width (digits 16 digitUpper n))

/-- Decimal digits. -/
def decimal (n : Nat) : String := String.ofList (digits 10 digitLower n)

/-- Value of a hexadecimal digit of either case. -/
def hexValue? (c : Char) : Option Nat :=
  if '0' ≤ c ∧ c ≤ '9' then some (c.toNat - 48)
  else if 'a' ≤ c ∧ c ≤ 'f' then some (c.toNat - 87)
  else if 'A' ≤ c ∧ c ≤ 'F' then some (c.toNat - 55)
  else none

/-- Value of a decimal digit. -/
def decimalValue? (c : Char) : Option Nat :=
  if '0' ≤ c ∧ c ≤ '9' then some (c.toNat - 48) else none

/-- Value of a digit string in a base, from the value of the digits before it, as long as it stays
below a bound. -/
def valueBelow? (bound base : Nat) (value? : Char → Option Nat) : Nat → List Char → Option Nat
  | acc, [] => some acc
  | acc, c :: cs =>
    match value? c with
    | some d =>
      let next := acc * base + d
      if next < bound then valueBelow? bound base value? next cs else none
    | none => none

/-- Value of a non-empty digit string below `2 ^ 64`. -/
def word? (base : Nat) (value? : Char → Option Nat) (cs : List Char) : Option UInt64 :=
  if cs.isEmpty then none else (valueBelow? UInt64.size base value? 0 cs).map UInt64.ofNat

/-- Reads a literal as a 64-bit word: decimal digits, or `0x` and hexadecimal digits, which one plus
sign may precede. -/
def read? (s : String) : Option UInt64 :=
  match s.toList with
  | '0' :: 'x' :: '+' :: cs => word? 16 hexValue? cs
  | '0' :: 'x' :: cs => word? 16 hexValue? cs
  | cs => word? 10 decimalValue? cs

end Dissect.Numeral
