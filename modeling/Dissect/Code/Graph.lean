import Dissect.Code.Instruction

/-!
Control-flow graphs.

The instructions of a function are cut into blocks, at each instruction that control can come to
from elsewhere and after each one that sends it elsewhere. Edges join blocks by their indices.
-/

namespace Dissect

/-- Instructions that run one after the other, given by their indices in the function. -/
structure Block where
  /-- Address of the first instruction. -/
  start : UInt64
  /-- Address of the last instruction. -/
  last : UInt64
  /-- Index of the first instruction. -/
  first : Nat
  /-- Index after that of the last instruction. -/
  stop : Nat
  deriving DecidableEq, Repr

inductive EdgeKind
  | fallThrough
  | unconditional
  | taken
  | notTaken
  deriving DecidableEq, Repr

def EdgeKind.tag : EdgeKind → String
  | fallThrough => "FallThrough"
  | unconditional => "Unconditional"
  | taken => "ConditionalTrue"
  | notTaken => "ConditionalFalse"

/-- Control can go from the end of one block to the start of another. -/
structure Edge where
  source : Nat
  target : Nat
  kind : EdgeKind
  deriving DecidableEq, Repr

/-- A loop closed by an edge that leads back. -/
structure Loop where
  /-- The block that the edge leads to. -/
  header : Nat
  /-- Index of the edge. -/
  backEdge : Nat
  /-- The blocks laid out between the two ends of the edge. -/
  body : List Nat
  deriving DecidableEq, Repr

/-- A call of a literal address. -/
structure DirectCall where
  address : UInt64
  target : UInt64
  name : String
  deriving DecidableEq, Repr

structure Graph where
  /-- Start address of the function. -/
  function : UInt64
  blocks : List Block := []
  edges : List Edge := []
  loops : List Loop := []
  calls : List DirectCall := []
  /-- Blocks that end in a choice between two ways. -/
  choices : List Nat := []
  deriving DecidableEq, Repr

/-- The name of the function at an address. -/
def functionName (address : UInt64) : String := "sub_" ++ Numeral.hex address.toNat

namespace Graph

/-- Addresses that follow an instruction with control flow, or that a jump or call names. -/
def targetsFrom : List Instruction → List UInt64
  | [] => []
  | i :: rest =>
    (if i.isJump || i.isCall then i.target?.toList else []) ++
      (if i.isControlFlow then (rest.head?.map (·.address)).toList else []) ++
      targetsFrom rest

/-- Addresses at which blocks start, as far as they are addresses of instructions. -/
def leaders (is : List Instruction) : List UInt64 :=
  (is.head?.map (·.address)).toList ++ targetsFrom is

/-- Ranges of the blocks from index `i` on, where the block that starts at `start` is in
progress. -/
def rangesFrom (leads : UInt64 → Bool) : Option Nat → Nat → List Instruction → List (Nat × Nat)
  | start, i, [] => (start.map (·, i)).toList
  | start, i, x :: xs =>
    let (before, start) :=
      if leads x.address then ((start.map (·, i)).toList, some i) else ([], start)
    let (after, start) :=
      if x.isControlFlow then ((start.map (·, i + 1)).toList, none) else ([], start)
    before ++ after ++ rangesFrom leads start (i + 1) xs

def addressAt (is : List Instruction) (index : Nat) : UInt64 :=
  (is[index]?.map (·.address)).getD 0

/-- The blocks of a function, in order. -/
def blocksOf (is : List Instruction) : List Block :=
  let starts := leaders is
  (rangesFrom starts.contains none 0 is).map fun (first, stop) =>
    { start := addressAt is first, last := addressAt is (stop - 1), first, stop }

/-- The last block that starts at an address. -/
def blockAt? (blocks : List Block) (address : UInt64) : Option Nat :=
  ((blocks.zipIdx.filter fun b => b.1.start == address).getLast?).map (·.2)

/-- The edges from a block of the given index. -/
def edgesFrom (is : List Instruction) (blocks : List Block) (index : Nat) (b : Block) :
    List Edge :=
  match is[b.stop - 1]? with
  | none => []
  | some i =>
    let jump := i.target?.bind (blockAt? blocks)
    let next := if index + 1 < blocks.length then some (index + 1) else none
    if i.isPlainJump then (jump.map (⟨index, ·, .unconditional⟩)).toList
    else if i.isBranch then
      (jump.map (⟨index, ·, .taken⟩)).toList ++ (next.map (⟨index, ·, .notTaken⟩)).toList
    else if i.isReturn then []
    else (next.map (⟨index, ·, .fallThrough⟩)).toList

def edgesOf (is : List Instruction) (blocks : List Block) : List Edge :=
  blocks.zipIdx.flatMap fun (b, index) => edgesFrom is blocks index b

def startAt (blocks : List Block) (index : Nat) : UInt64 := (blocks[index]?.map (·.start)).getD 0

/-- The edge leads to a lower address. -/
def leadsBack (blocks : List Block) (e : Edge) : Bool :=
  startAt blocks e.target < startAt blocks e.source

def loopsOf (blocks : List Block) (edges : List Edge) : List Loop :=
  (edges.zipIdx.filter fun e => leadsBack blocks e.1).map fun (e, index) =>
    let low := min e.source e.target
    let high := max e.source e.target
    { header := e.target, backEdge := index, body := List.range' low (high + 1 - low) }

def callsOf (is : List Instruction) : List DirectCall :=
  (is.filter (·.isCall)).filterMap fun i =>
    i.target?.map fun target => ⟨i.address, target, functionName target⟩

/-- The edges that leave a block. -/
def outgoing (g : Graph) (block : Nat) : List Edge := g.edges.filter (·.source == block)

/-- The edges that enter a block. -/
def incoming (g : Graph) (block : Nat) : List Edge := g.edges.filter (·.target == block)

/-- Two edges leave a block, one for each side of a condition. -/
def isChoice (edges : List Edge) (block : Nat) : Bool :=
  let kinds := (edges.filter (·.source == block)).map (·.kind)
  kinds.length == 2 && kinds.contains .taken && kinds.contains .notTaken

/-- The graph of the function that starts at an address. -/
def build (function : UInt64) (is : List Instruction) : Graph :=
  if is.isEmpty then { function }
  else
    let blocks := blocksOf is
    let edges := edgesOf is blocks
    { function
      blocks
      edges
      loops := loopsOf blocks edges
      calls := callsOf is
      choices := (List.range blocks.length).filter (isChoice edges) }

end Graph

end Dissect
