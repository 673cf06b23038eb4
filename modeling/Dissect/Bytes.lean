/-!
Byte strings and the integers stored in them.

A file is the list of its bytes. A field of a file is a slice of that list, read as a natural
number in one of the two byte orders.
-/

namespace Dissect

/-- The contents of a file or of a part of one. -/
abbrev Bytes := List UInt8

/-- The order in which the bytes of an integer are stored. -/
inductive ByteOrder
  | little
  | big
  deriving DecidableEq, Repr

namespace ByteOrder

/-- Value of a byte string whose first byte is the least significant one. -/
def leastFirst : Bytes → Nat
  | [] => 0
  | b :: bs => b.toNat + 256 * leastFirst bs

/-- Value of a byte string in the given order. -/
def value : ByteOrder → Bytes → Nat
  | .little, bs => leastFirst bs
  | .big, bs => leastFirst bs.reverse

/-- The `n` low bytes of a number, least significant first. -/
def bytesLeastFirst : Nat → Nat → Bytes
  | 0, _ => []
  | n + 1, v => UInt8.ofNat v :: bytesLeastFirst n (v / 256)

/-- The `n` low bytes of a number in the given order. -/
def encode : ByteOrder → Nat → Nat → Bytes
  | .little, n, v => bytesLeastFirst n v
  | .big, n, v => (bytesLeastFirst n v).reverse

/-- The other byte order. -/
def swap : ByteOrder → ByteOrder
  | .little => .big
  | .big => .little

end ByteOrder

namespace Bytes

/-- The bytes of a text that holds ASCII only. -/
def ofAscii (s : String) : Bytes := s.toList.map fun c => UInt8.ofNat c.toNat

/-- The bytes of a file between two positions, cut to what the file holds. -/
def slice (bs : Bytes) (start len : Nat) : Bytes := (bs.drop start).take len

/-- The bytes up to the first zero byte. -/
def untilZero (bs : Bytes) : Bytes := bs.takeWhile (· ≠ 0)

end Bytes

end Dissect
