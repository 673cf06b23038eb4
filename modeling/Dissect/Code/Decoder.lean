import Dissect.Code.Instruction
import Dissect.Image.Format
import Dissect.Word

/-!
Decoding x86 machine code in its 32-bit and 64-bit modes.

A part of the instruction set is known: moves, pushes and a few arithmetic instructions between
registers or with constants, and all of the direct control flow. Everything else, an encoding that
is cut short included, is one byte of data, so that decoding always gets on.
-/

namespace Dissect

/-- Operating mode of the processor. -/
inductive Mode
  | bits32
  | bits64
  deriving DecidableEq, Repr

namespace Decoder

/-- The mode in which code of an architecture is decoded. -/
def mode? : Architecture → Option Mode
  | .x86 => some .bits32
  | .x64 => some .bits64
  | _ => none

def registers32 : List String := [
  "eax", "ecx", "edx", "ebx", "esp", "ebp", "esi", "edi",
  "r8d", "r9d", "r10d", "r11d", "r12d", "r13d", "r14d", "r15d"]

def registers64 : List String := [
  "rax", "rcx", "rdx", "rbx", "rsp", "rbp", "rsi", "rdi",
  "r8", "r9", "r10", "r11", "r12", "r13", "r14", "r15"]

/-- Name of a register that the decoder writes. -/
def isRegister (name : String) : Bool := registers32.contains name || registers64.contains name

def register (wide : Bool) (index : Nat) : String :=
  (if wide then registers64 else registers32).getD (index % 16) ""

/-- Conditional jumps by the low four bits of their opcode. -/
def conditions : List String := [
  "jo", "jno", "jb", "jae", "je", "jne", "jbe", "ja",
  "js", "jns", "jp", "jnp", "jl", "jge", "jle", "jg"]

def condition (opcode : Nat) : String := conditions.getD (opcode % 16) ""

/-- Arithmetic with a constant, by the middle field of the operand byte. -/
def constantGroup : List (String × InstructionKind) := [
  ("add", .arithmetic), ("or", .logical), ("adc", .arithmetic), ("sbb", .arithmetic),
  ("and", .logical), ("sub", .arithmetic), ("xor", .logical), ("cmp", .arithmetic)]

/-- Bits of the byte that extends an instruction in 64-bit mode. -/
structure Extension where
  wide : Bool := false
  reg : Bool := false
  base : Bool := false
  deriving DecidableEq, Repr

def Extension.ofByte (b : UInt8) : Extension where
  wide := b.toNat.testBit 3
  reg := b.toNat.testBit 2
  base := b.toNat.testBit 0

/-- Byte that extends an instruction in 64-bit mode. -/
def isExtension (b : UInt8) : Bool := 0x40 ≤ b && b ≤ 0x4F

/-- A register number with its high bit. -/
def extended (low : Nat) (high : Bool) : Nat := low + if high then 8 else 0

/-- What a decoded encoding says; the length counts all of its bytes. -/
structure Form where
  length : Nat
  mnemonic : String
  operands : List String
  kind : InstructionKind
  deriving DecidableEq, Repr

/-- A constant of `n` bytes at the start of a byte string. -/
def constant? (n : Nat) (bs : Bytes) : Option Nat :=
  if n ≤ bs.length then some (ByteOrder.little.value (bs.take n)) else none

/-- The two registers of an operand byte that names two registers. -/
def registerPair? (ext : Extension) : Bytes → Option (Nat × Nat)
  | b :: _ =>
    if 0xC0 ≤ b then
      some (extended (b.toNat / 8 % 8) ext.reg, extended (b.toNat % 8) ext.base)
    else none
  | [] => none

/-- Where a relative jump goes from the address after it. -/
def targetText (mode : Mode) (next : UInt64) (displacement : Int) : String :=
  let target := Word.ofInt ((next.toNat : Int) + displacement)
  let target := match mode with
    | .bits64 => target
    | .bits32 => target % 0x100000000
  Numeral.hexUpper 8 target.toNat

/-- A jump or call relative to the address after it, with a displacement of `n` bytes in front of
which `start` bytes are encoded. -/
def relative? (mode : Mode) (address : UInt64) (mnemonic : String) (start n : Nat) (rest : Bytes) :
    Option Form :=
  (constant? n rest).map fun d =>
    { length := start + n
      mnemonic
      operands := [targetText mode (address + UInt64.ofNat (start + n)) (Word.signed (8 * n) d)]
      kind := .controlFlow }

/-- An instruction on two registers. -/
def pair? (ext : Extension) (start : Nat) (rest : Bytes) (mnemonic : String)
    (kind : InstructionKind) (reversed : Bool) : Option Form :=
  (registerPair? ext rest).map fun (reg, rm) =>
    let reg := register ext.wide reg
    let rm := register ext.wide rm
    { length := start + 1
      mnemonic
      operands := if reversed then [reg, rm] else [rm, reg]
      kind }

/-- Arithmetic on a register with a constant of `n` bytes. -/
def withConstant? (ext : Extension) (start n : Nat) (rest : Bytes) : Option Form := do
  let (reg, rm) ← registerPair? ext rest
  let c ← constant? n (rest.drop 1)
  let (mnemonic, kind) := constantGroup.getD (reg % 8) ("", .unknown)
  return {
    length := start + 1 + n
    mnemonic
    operands := [register ext.wide rm, Numeral.hexUpper (2 * n) c]
    kind }

/-- An instruction with one constant of `n` bytes as its operand. -/
def constantOnly? (start n : Nat) (rest : Bytes) (mnemonic : String) (kind : InstructionKind) :
    Option Form :=
  (constant? n rest).map fun c =>
    { length := start + n, mnemonic, operands := [Numeral.hexUpper (2 * n) c], kind }

/-- A constant moved into a register. -/
def moveConstant? (ext : Extension) (start opcode : Nat) (rest : Bytes) : Option Form :=
  let n := if ext.wide then 8 else 4
  (constant? n rest).map fun c =>
    { length := start + n
      mnemonic := "mov"
      operands := [register ext.wide (extended (opcode % 8) ext.base), Numeral.hexUpper 8 c]
      kind := .memory }

/-- Control flow through a register, by the middle field of the operand byte. -/
def registerGroup? (reg : Nat) : Option String :=
  match reg % 8 with
  | 2 => some "call"
  | 4 => some "jmp"
  | _ => none

/-- A call or jump to the address in a register. -/
def throughRegister? (mode : Mode) (ext : Extension) (start : Nat) (rest : Bytes) :
    Option Form := do
  let (reg, rm) ← registerPair? ext rest
  let mnemonic ← registerGroup? reg
  return {
    length := start + 1
    mnemonic
    operands := [register (mode == .bits64) rm]
    kind := .controlFlow }

/-- An instruction without operands. -/
def Form.plain (start : Nat) (mnemonic : String) (kind : InstructionKind) : Form :=
  { length := start, mnemonic, operands := [], kind }

/-- What stands after an opcode. -/
inductive Layout
  /-- Nothing: the opcode itself names a register as wide as the stack. -/
  | stack (mnemonic : String)
  | constant (size : Nat) (mnemonic : String) (kind : InstructionKind)
  | relative (size : Nat) (mnemonic : String)
  /-- A displacement; the opcode itself names the condition. -/
  | branch (size : Nat)
  | pair (mnemonic : String) (kind : InstructionKind) (reversed : Bool)
  | withConstant (size : Nat)
  | moveConstant
  | throughRegister
  | plain (mnemonic : String) (kind : InstructionKind)
  deriving DecidableEq, Repr

/-- Opcodes from a first to a last one that share a layout. -/
structure Opcodes where
  first : Nat
  last : Nat := first
  layout : Layout
  deriving DecidableEq, Repr

/-- The opcodes of one byte. -/
def shortOpcodes : List Opcodes := [
  { first := 0x50, last := 0x57, layout := .stack "push" },
  { first := 0x58, last := 0x5F, layout := .stack "pop" },
  { first := 0x68, layout := .constant 4 "push" .memory },
  { first := 0x6A, layout := .constant 1 "push" .memory },
  { first := 0x70, last := 0x7F, layout := .branch 1 },
  { first := 0x31, layout := .pair "xor" .logical false },
  { first := 0x33, layout := .pair "xor" .logical true },
  { first := 0x85, layout := .pair "test" .logical false },
  { first := 0x89, layout := .pair "mov" .memory false },
  { first := 0x8B, layout := .pair "mov" .memory true },
  { first := 0x81, layout := .withConstant 4 },
  { first := 0x83, layout := .withConstant 1 },
  { first := 0x90, layout := .plain "nop" .unknown },
  { first := 0xB8, last := 0xBF, layout := .moveConstant },
  { first := 0xC2, layout := .constant 2 "ret" .controlFlow },
  { first := 0xC3, layout := .plain "ret" .controlFlow },
  { first := 0xC9, layout := .plain "leave" .memory },
  { first := 0xCC, layout := .plain "int3" .system },
  { first := 0xCD, layout := .constant 1 "int" .system },
  { first := 0xE8, layout := .relative 4 "call" },
  { first := 0xE9, layout := .relative 4 "jmp" },
  { first := 0xEB, layout := .relative 1 "jmp" },
  { first := 0xF4, layout := .plain "hlt" .system },
  { first := 0xFF, layout := .throughRegister }]

/-- The opcodes of two bytes, by the second one. -/
def longOpcodes : List Opcodes := [
  { first := 0x80, last := 0x8F, layout := .branch 4 },
  { first := 0x31, layout := .plain "rdtsc" .system },
  { first := 0xA2, layout := .plain "cpuid" .system }]

/-- The layout that a table gives an opcode. -/
def layout? (table : List Opcodes) (op : Nat) : Option Layout :=
  (table.find? fun r => r.first ≤ op && op ≤ r.last).map (·.layout)

/-- The instruction of an opcode with a layout. `start` counts the bytes up to the opcode, which is
included, and `rest` holds the bytes after it. -/
def Layout.form? (mode : Mode) (ext : Extension) (address : UInt64) (start op : Nat)
    (rest : Bytes) : Layout → Option Form
  | .stack mnemonic =>
    some ⟨start, mnemonic, [register (mode == .bits64) (extended (op % 8) ext.base)], .memory⟩
  | .constant size mnemonic kind => constantOnly? start size rest mnemonic kind
  | .relative size mnemonic => relative? mode address mnemonic start size rest
  | .branch size => relative? mode address (condition op) start size rest
  | .pair mnemonic kind reversed => pair? ext start rest mnemonic kind reversed
  | .withConstant size => withConstant? ext start size rest
  | .moveConstant => moveConstant? ext start op rest
  | .throughRegister => throughRegister? mode ext start rest
  | .plain mnemonic kind => some (.plain start mnemonic kind)

/-- The instruction of an opcode, which can have a second byte. -/
def opcode? (mode : Mode) (ext : Extension) (address : UInt64) (start : Nat) (op : UInt8)
    (rest : Bytes) : Option Form :=
  if op = 0x0F then
    match rest with
    | op :: rest =>
      (layout? longOpcodes op.toNat).bind (·.form? mode ext address (start + 1) op.toNat rest)
    | [] => none
  else (layout? shortOpcodes op.toNat).bind (·.form? mode ext address start op.toNat rest)

/-- The known instruction at the start of a byte string. -/
def form? (mode : Mode) (address : UInt64) : Bytes → Option Form
  | [] => none
  | b :: rest =>
    if mode == .bits64 && isExtension b then
      match rest with
      | op :: rest => opcode? mode (.ofByte b) address 2 op rest
      | [] => none
    else opcode? mode {} address 1 b rest

end Decoder

/-- The instruction at the start of a byte string that stands at an address; none when there are no
bytes. -/
def Mode.decode (mode : Mode) (data : Bytes) (address : UInt64) : Option Instruction :=
  match data with
  | [] => none
  | b :: _ =>
    match Decoder.form? mode address data with
    | some f => some ⟨address, f.mnemonic, f.operands, data.take f.length, f.kind⟩
    | none => some (.rawByte address b)

/-- Decodes a byte string from its start to its end. The first argument bounds the number of
instructions. -/
def Mode.decodeFrom (mode : Mode) : Nat → Bytes → UInt64 → List Instruction
  | 0, _, _ => []
  | count + 1, data, address =>
    match mode.decode data address with
    | none => []
    | some i => i :: mode.decodeFrom count (data.drop i.bytes.length) i.next

/-- The instructions of a byte string, one after the other. -/
def Mode.decodeAll (mode : Mode) (data : Bytes) (address : UInt64) : List Instruction :=
  mode.decodeFrom data.length data address

end Dissect
