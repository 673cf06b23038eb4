import Dissect.Image.ParseError

/-!
Reading fields one after the other.

A cursor is a position in a file together with a byte order. A reading moves the cursor as it goes
on, and leaves it where it has come to, also where it fails. A read of `n` bytes succeeds when they
all lie inside the file, and moves the position past them; otherwise it says how many bytes were
needed and how many there are.
-/

namespace Dissect

structure Cursor where
  data : Bytes
  offset : Nat
  order : ByteOrder

/-- A computation that reads fields from a cursor. -/
abbrev Reader := ExceptT ParseError (StateM Cursor)

namespace Cursor

/-- The number of bytes from the cursor to the end of the file. -/
def remaining (c : Cursor) : Nat := c.data.length - c.offset

/-- The bytes from the cursor to the end of the file. -/
def rest (c : Cursor) : Bytes := c.data.drop c.offset

end Cursor

namespace Reader

/-- What a reading gives from a cursor on, and where it leaves the cursor. -/
def step (r : Reader α) (c : Cursor) : Except ParseError α × Cursor := (ExceptT.run r).run c

/-- What a reading gives from a cursor on, with the cursor after it if it succeeds. -/
def run (r : Reader α) (c : Cursor) : Except ParseError (α × Cursor) :=
  match r.step c with
  | (.ok a, c') => .ok (a, c')
  | (.error e, _) => .error e

/-- Reads from a position of a file. -/
def runAt (r : Reader α) (data : Bytes) (offset : Nat) (order : ByteOrder) :
    Except ParseError α :=
  (r.run ⟨data, offset, order⟩).map Prod.fst

/-- The next `n` bytes. -/
def bytes (n : Nat) : Reader Bytes := do
  let c ← get
  let stop := c.offset + n
  if stop ≤ c.data.length then
    set { c with offset := stop }
    return c.rest.take n
  else
    throw (.truncated n c.remaining)

/-- Passes over `n` bytes. -/
def skip (n : Nat) : Reader Unit := do
  let _ ← bytes n

/-- The next `n` bytes as a number. -/
def number (n : Nat) : Reader Nat := do
  let order := (← get).order
  return order.value (← bytes n)

def u8 : Reader Nat := number 1
def u16 : Reader Nat := number 2
def u32 : Reader Nat := number 4
def u64 : Reader Nat := number 8

/-- A field as wide as the addresses of the file: eight bytes or four. -/
def word (wide : Bool) : Reader Nat := number (if wide then 8 else 4)

/-- Moves the cursor to a position of the file, which may lie past its end. -/
def seek (offset : Nat) : Reader Unit := modify fun c => { c with offset := offset }

/-- Reads a record. It may start at the end of the file, but not past it. -/
def record (r : Reader α) : Reader α := do
  let c ← get
  if c.data.length < c.offset then throw (.outOfBounds c.offset) else r

end Reader

/-- One step of a scripted reading. -/
inductive ReadStep
  | u8
  | u16
  | u32
  | u64
  | word (wide : Bool)
  | bytes (n : Nat)
  | skip (n : Nat)
  | seek (offset : Nat)
  deriving DecidableEq, Repr

/-- What one step of a scripted reading gives. -/
inductive ReadValue
  | number (n : Nat)
  | bytes (bs : Bytes)
  | nothing
  deriving DecidableEq, Repr

namespace ReadStep

/-- The reading that a step stands for. -/
def reader : ReadStep → Reader ReadValue
  | u8 => .number <$> Reader.u8
  | u16 => .number <$> Reader.u16
  | u32 => .number <$> Reader.u32
  | u64 => .number <$> Reader.u64
  | word wide => .number <$> Reader.word wide
  | bytes n => .bytes <$> Reader.bytes n
  | skip n => (fun _ => .nothing) <$> Reader.skip n
  | seek offset => (fun _ => .nothing) <$> Reader.seek offset

/-- Runs one step. -/
def run (c : Cursor) (s : ReadStep) : Except ParseError ReadValue × Cursor := s.reader.step c

/-- Runs steps in order; every one is answered with its value and the cursor after it. -/
def runAll (c : Cursor) : List ReadStep → List (Except ParseError ReadValue × Cursor)
  | [] => []
  | s :: ss => s.run c :: runAll (s.run c).2 ss

end ReadStep

end Dissect
