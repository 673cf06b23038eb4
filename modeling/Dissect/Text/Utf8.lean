import Dissect.Bytes

/-!
Texts stored as UTF-8.

The bytes are read once, front to back. A byte that cannot continue the character in progress ends
it as ill-formed and is read again as the start of the next one. So a text that is not well formed
has one gap for each longest start of a character that is cut short. A lossy reading fills the gaps,
a strict one refuses them.
-/

namespace Dissect.Utf8

/-- A character in progress: continuation bytes still owed, the bounds of the next one, and the
code point so far. -/
structure Pending where
  owed : Nat
  low : UInt8
  high : UInt8
  code : Nat

/-- What the bytes read so far say, last character first; a gap stands for ill-formed bytes. -/
structure St where
  done : List (Option Char)
  pending : Option Pending

/-- What a byte that starts a character promises. -/
inductive Lead
  | single (c : Char)
  | multi (p : Pending)
  | bad

def lead (b : UInt8) : Lead :=
  let n := b.toNat
  if n < 0x80 then .single (Char.ofNat n)
  else if n < 0xC2 then .bad
  else if n < 0xE0 then .multi ⟨1, 0x80, 0xBF, n - 0xC0⟩
  else if n = 0xE0 then .multi ⟨2, 0xA0, 0xBF, 0⟩
  else if n = 0xED then .multi ⟨2, 0x80, 0x9F, 0xD⟩
  else if n < 0xF0 then .multi ⟨2, 0x80, 0xBF, n - 0xE0⟩
  else if n = 0xF0 then .multi ⟨3, 0x90, 0xBF, 0⟩
  else if n < 0xF4 then .multi ⟨3, 0x80, 0xBF, n - 0xF0⟩
  else if n = 0xF4 then .multi ⟨3, 0x80, 0x8F, 4⟩
  else .bad

/-- Reads a byte that starts a character. -/
def start (done : List (Option Char)) (b : UInt8) : St :=
  match lead b with
  | .single c => ⟨some c :: done, none⟩
  | .multi p => ⟨done, some p⟩
  | .bad => ⟨none :: done, none⟩

/-- Reads one byte. -/
def step (s : St) (b : UInt8) : St :=
  match s.pending with
  | none => start s.done b
  | some p =>
    if p.low ≤ b ∧ b ≤ p.high then
      let code := p.code * 64 + (b.toNat - 0x80)
      if p.owed ≤ 1 then ⟨some (Char.ofNat code) :: s.done, none⟩
      else ⟨s.done, some ⟨p.owed - 1, 0x80, 0xBF, code⟩⟩
    else start (none :: s.done) b

/-- The characters of a byte string, with a gap for each ill-formed stretch. -/
def scan (bs : Bytes) : List (Option Char) :=
  let s := bs.foldl step ⟨[], none⟩
  (if s.pending.isSome then none :: s.done else s.done).reverse

/-- The text of a byte string, with replacement characters in its gaps. -/
def decodeLossy (bs : Bytes) : String :=
  String.ofList ((scan bs).map (·.getD (Char.ofNat 0xFFFD)))

/-- The text of a well-formed byte string. -/
def decode? (bs : Bytes) : Option String :=
  ((scan bs).mapM id).map String.ofList

/-- The bytes of a text. -/
def encode (s : String) : Bytes := s.toList.flatMap String.utf8EncodeChar

end Dissect.Utf8
