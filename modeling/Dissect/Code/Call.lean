import Dissect.Code.Decoder
import Dissect.Code.Function
import Dissect.Code.Signature

/-!
Calls in a function: what they call, and with which arguments.

The arguments are guessed from the instructions in front of the call, back to the last jump, call or
return.
-/

namespace Dissect

/-- How a call names what it calls. -/
inductive CallType
  | direct
  | indirect
  | dynamic
  | unknown
  deriving DecidableEq, Repr

def CallType.tag : CallType → String
  | direct => "Direct"
  | indirect => "Indirect"
  | dynamic => "Dynamic"
  | unknown => "Unknown"

/-- A call in a function. -/
structure Call where
  address : UInt64
  /-- Name of the function that holds the call. -/
  caller : String
  /-- Name of what is called. -/
  name : String
  type : CallType
  signature : Option Signature
  /-- Operands that look like arguments, the first argument first. -/
  arguments : List String
  deriving DecidableEq, Repr

namespace Call

def category (c : Call) : CallCategory := (c.signature.map (·.category)).getD .unknown

/-- What the called function does, if it is known. -/
def description (c : Call) : Option String := c.signature.map (·.description)

/-- Name and type of a call with the given operand. -/
def resolve (operand : String) : String × CallType :=
  match Numeral.read? operand with
  | some address => (functionName address, .direct)
  | none =>
    if Decoder.isRegister operand then ("indirect_call_" ++ operand, .indirect)
    else if Text.startsWith operand "[" || Text.contains operand "ptr" then (operand, .dynamic)
    else (operand, .unknown)

/-- Registers that carry arguments. -/
def argumentRegisters : List String := [
  "ax", "bx", "cx", "dx", "eax", "ebx", "ecx", "edx", "sp", "bp", "esp", "ebp",
  "si", "di", "esi", "edi", "rax", "rbx", "rcx", "rdx", "rsi", "rdi", "r8", "r9"]

/-- Instructions behind which no argument is looked for. -/
def endsWindow (i : Instruction) : Bool := i.isJump || i.isCall || i.isReturn

/-- The instructions that may pass arguments, the nearest first, of those in front of a call. -/
def window (lookback : Nat) (before : List Instruction) : List Instruction :=
  (before.reverse.take lookback).takeWhile fun i => !endsWindow i

/-- A pushed operand comes in front of the arguments, the source of a move to an argument register
after them. -/
def addArgument (arguments : List String) (i : Instruction) : List String :=
  if i.mnemonic == "push" then
    match i.operands with
    | value :: _ => value :: arguments
    | [] => arguments
  else if Text.startsWith i.mnemonic "mov" then
    match i.operands with
    | destination :: source :: _ =>
      if argumentRegisters.contains destination then arguments ++ [source] else arguments
    | _ => arguments
  else arguments

/-- The arguments of a call behind the given instructions. -/
def argumentsAfter (lookback : Nat) (before : List Instruction) : List String :=
  (window lookback before).foldl addArgument []

/-- The call that an instruction makes behind the given instructions. -/
def ofInstruction? (table : SignatureTable) (lookback : Nat) (caller : String)
    (before : List Instruction) (i : Instruction) : Option Call :=
  if i.isCall then
    i.operands.head?.map fun operand =>
      let (name, type) := resolve operand
      { address := i.address
        caller
        name
        type
        signature := table.find? name
        arguments := argumentsAfter lookback before }
  else none

/-- The calls in a list of instructions, in order. -/
def inInstructions (table : SignatureTable) (lookback : Nat) (caller : String)
    (is : List Instruction) : List Call :=
  is.zipIdx.filterMap fun (i, index) => ofInstruction? table lookback caller (is.take index) i

def inFunction (table : SignatureTable) (lookback : Nat) (f : Function) : List Call :=
  inInstructions table lookback f.name f.instructions

/-- The calls in all functions, function by function. -/
def inFunctions (table : SignatureTable) (lookback : Nat) (fs : List Function) : List Call :=
  fs.flatMap (inFunction table lookback)

end Call

end Dissect
