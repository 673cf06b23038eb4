import Dissect.Bytes
import Dissect.Numeral

/-!
What tells one run from another: a random name, and the time.
-/

namespace Dissect.CommandLine

structure Stamp where
  id : String
  /-- Date and time in the zone without offset, without the name of the zone. -/
  time : String
  deriving DecidableEq, Repr

namespace Stamp

def hexByte (b : UInt8) : List Char :=
  Numeral.padded 2 (Numeral.digits 16 Numeral.digitLower b.toNat)

/-- Sets the bits that mark a random name of sixteen bytes. -/
def marked (bytes : Bytes) : Bytes :=
  bytes.zipIdx.map fun (b, i) =>
    if i = 6 then b % 16 + 0x40 else if i = 8 then b % 64 + 0x80 else b

/-- The name of sixteen random bytes, in five groups of digits. -/
def idText (bytes : Bytes) : String :=
  let group (start n : Nat) : String :=
    String.ofList (((marked bytes).slice start n).flatMap hexByte)
  "-".intercalate [group 0 4, group 4 2, group 6 2, group 8 2, group 10 6]

structure Date where
  year : Nat
  month : Nat
  day : Nat
  deriving DecidableEq, Repr

/-- The date of a day that is counted from the first day of 1970. Years are taken to start in March,
so that a leap day is the last day of its year, and are counted in cycles of four centuries. -/
def dateOf (days : Nat) : Date :=
  let shifted := days + 719468
  let cycle := shifted / 146097
  let inCycle := shifted % 146097
  let year := (inCycle - inCycle / 1460 + inCycle / 36524 - inCycle / 146096) / 365
  let inYear := inCycle - (365 * year + year / 4 - year / 100)
  let month := (5 * inYear + 2) / 153
  { year := year + cycle * 400 + if month < 10 then 0 else 1
    month := if month < 10 then month + 3 else month - 9
    day := inYear - (153 * month + 2) / 5 + 1 }

def paddedText (width n : Nat) : String :=
  String.ofList (Numeral.padded width (Numeral.digits 10 Numeral.digitLower n))

/-- The part of a second, in three, six or nine digits; nothing for none. -/
def fractionText (nanoseconds : Nat) : String :=
  if nanoseconds = 0 then ""
  else if nanoseconds % 1000000 = 0 then "." ++ paddedText 3 (nanoseconds / 1000000)
  else if nanoseconds % 1000 = 0 then "." ++ paddedText 6 (nanoseconds / 1000)
  else "." ++ paddedText 9 nanoseconds

/-- Date and time of a number of nanoseconds since the start of 1970. -/
def timeText (nanoseconds : Nat) : String :=
  let seconds := nanoseconds / 1000000000
  let date := dateOf (seconds / 86400)
  let inDay := seconds % 86400
  paddedText 4 date.year ++ "-" ++ paddedText 2 date.month ++ "-" ++ paddedText 2 date.day ++
    "T" ++ paddedText 2 (inDay / 3600) ++ ":" ++ paddedText 2 (inDay / 60 % 60) ++ ":" ++
    paddedText 2 (inDay % 60) ++ fractionText (nanoseconds % 1000000000)

end Stamp

end Dissect.CommandLine
