import Dissect.Document.Code
import Dissect.Obfuscation.Deobfuscation

/-!
Documents of deobfuscation.
-/

namespace Dissect

def Step.document (s : Step) : Json := .obj [
  ("technique", .str s.technique),
  ("description", .str s.description),
  ("success", .bool s.success),
  ("improvements", .ofList .str s.improvements),
  ("error", .ofOption .str s.error)]

def Improvement.document (i : Improvement) : Json := .obj [
  ("strings", .ofOption (.ofList .str) i.strings),
  ("functions", .ofOption (.ofList Function.document) i.functions)]

def Deobfuscation.document (d : Deobfuscation) : Json := .obj [
  ("obfuscated", .bool d.isObfuscated),
  ("detected", .ofList (fun o => .str o.tag) d.detected),
  ("steps", .ofList Step.document d.steps),
  ("improved", d.improved.document),
  ("success_rate", .float d.successRate)]

end Dissect
