import Dissect.Code.Function
import Dissect.Json.Basic

/-!
Documents of instructions, functions and graphs.
-/

namespace Dissect

def Instruction.document (i : Instruction) : Json := .obj [
  ("address", .ofWord i.address),
  ("mnemonic", .str i.mnemonic),
  ("operands", .ofList .str i.operands),
  ("bytes", .ofList (fun b => .nat b.toNat) i.bytes),
  ("kind", .str i.kind.tag)]

def Block.document (b : Block) : Json := .obj [
  ("start_address", .ofWord b.start),
  ("end_address", .ofWord b.last),
  ("instructions", .obj [("start", .nat b.first), ("end", .nat b.stop)])]

def Edge.document (e : Edge) : Json := .obj [
  ("source", .nat e.source),
  ("target", .nat e.target),
  ("kind", .str e.kind.tag)]

def Loop.document (l : Loop) : Json := .obj [
  ("header", .nat l.header),
  ("back_edge", .nat l.backEdge),
  ("kind", .str "While"),
  ("body", .ofList .nat l.body)]

def DirectCall.document (c : DirectCall) : Json := .obj [
  ("address", .ofWord c.address),
  ("target_address", .ofWord c.target),
  ("target_name", .str c.name)]

def Graph.document (g : Graph) : Json := .obj [
  ("function", .ofWord g.function),
  ("blocks", .ofList Block.document g.blocks),
  ("edges", .ofList Edge.document g.edges),
  ("loops", .ofList Loop.document g.loops),
  ("calls", .ofList DirectCall.document g.calls),
  ("patterns", .ofList (fun b => .obj [("kind", .str "IfElse"), ("block", .nat b)]) g.choices)]

def Function.document (f : Function) : Json := .obj [
  ("name", .str f.name),
  ("start_address", .ofWord f.start),
  ("end_address", .ofWord f.stop),
  ("instructions", .ofList Instruction.document f.instructions),
  ("cfg", .ofOption Graph.document f.graph),
  ("called_functions", .ofList .str f.called)]

end Dissect
