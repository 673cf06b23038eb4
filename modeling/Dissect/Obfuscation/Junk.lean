import Dissect.Code.Function

/-!
Instructions without effect.

These are instructions that do nothing, instructions that clear a register against itself, and a
push that the next instruction pops again. Removing a pair can bring another pair together, so the
instructions kept so far form a stack on which the next one acts.
-/

namespace Dissect.Junk

def isNop (i : Instruction) : Bool := i.mnemonic == "nop"

/-- Combines a value with itself. -/
def isSelfXor (i : Instruction) : Bool :=
  i.mnemonic == "xor" &&
    match i.operands with
    | [a, b] => a == b
    | _ => false

/-- The second instruction undoes the first. -/
def cancels (push pop : Instruction) : Bool :=
  push.mnemonic == "push" && pop.mnemonic == "pop" && push.operands == pop.operands

/-- An instruction that is junk by itself. -/
def isJunk (i : Instruction) : Bool := isNop i || isSelfXor i

/-- Two adjacent instructions cancel each other. -/
def hasPair : List Instruction → Bool
  | a :: b :: rest => cancels a b || hasPair (b :: rest)
  | _ => false

/-- Adds an instruction to those kept so far, the last of which comes first. -/
def keep (kept : List Instruction) (i : Instruction) : List Instruction :=
  if isJunk i then kept
  else
    match kept with
    | last :: rest => if cancels last i then rest else i :: last :: rest
    | [] => [i]

/-- The instructions without junk. -/
def remove (is : List Instruction) : List Instruction := (is.foldl keep []).reverse

/-- The function without junk, with the graph of what is left. -/
def clean (f : Function) : Function :=
  { Function.ofInstructions f.start (remove f.instructions) with name := f.name }.withGraph

end Dissect.Junk
