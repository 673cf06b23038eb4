import Dissect.Bytes
import Dissect.Numeral
import Dissect.Text.Part

/-!
Decoded instructions.

What an instruction does to the control flow is told from its mnemonic alone, and where it goes to
from its first operand.
-/

namespace Dissect

/-- What an instruction works on, coarsely. -/
inductive InstructionKind
  | arithmetic
  | logical
  | memory
  | controlFlow
  | system
  | unknown
  deriving DecidableEq, Repr

def InstructionKind.tag : InstructionKind → String
  | arithmetic => "Arithmetic"
  | logical => "Logical"
  | memory => "Memory"
  | controlFlow => "ControlFlow"
  | system => "System"
  | unknown => "Unknown"

structure Instruction where
  address : UInt64
  mnemonic : String
  operands : List String
  /-- The encoding of the instruction. -/
  bytes : Bytes
  kind : InstructionKind
  deriving DecidableEq, Repr

namespace Instruction

/-- A byte that is not the start of a known instruction. -/
def rawByte (address : UInt64) (byte : UInt8) : Instruction where
  address := address
  mnemonic := "db"
  operands := [Numeral.hexUpper 2 byte.toNat]
  bytes := [byte]
  kind := .unknown

/-- Address of the instruction that follows in memory. -/
def next (i : Instruction) : UInt64 := i.address + UInt64.ofNat i.bytes.length

def isJump (i : Instruction) : Bool := Text.startsWith i.mnemonic "j"
def isPlainJump (i : Instruction) : Bool := i.mnemonic == "jmp"
def isBranch (i : Instruction) : Bool := i.isJump && !i.isPlainJump
def isCall (i : Instruction) : Bool := i.mnemonic == "call"
def isReturn (i : Instruction) : Bool := Text.startsWith i.mnemonic "ret"
def isInterrupt (i : Instruction) : Bool := i.mnemonic == "int" || i.mnemonic == "int3"

/-- Control does not simply go on to the next instruction, or not at once. -/
def isControlFlow (i : Instruction) : Bool :=
  i.isJump || i.isCall || i.isReturn || i.isInterrupt

/-- The literal address in the first operand. -/
def target? (i : Instruction) : Option UInt64 := i.operands.head?.bind Numeral.read?

/-- Address, mnemonic and operands on one line. -/
def text (i : Instruction) : String :=
  Numeral.hexUpper 8 i.address.toNat ++ ": " ++ i.mnemonic ++
    if i.operands.isEmpty then "" else " " ++ ", ".intercalate i.operands

end Instruction

end Dissect
