import Dissect.Code.Call
import Dissect.Json.Basic

/-!
Documents of calls.
-/

namespace Dissect

def Signature.document (s : Signature) : Json := .obj [
  ("name", .str s.name),
  ("category", .str s.category.tag),
  ("description", .str s.description),
  ("parameter_types", .ofList .str s.parameters),
  ("return_type", .str s.result)]

def Call.document (c : Call) : Json := .obj [
  ("address", .ofWord c.address),
  ("caller", .str c.caller),
  ("function_name", .str c.name),
  ("call_type", .str c.type.tag),
  ("category", .str c.category.tag),
  ("signature", .ofOption Signature.document c.signature),
  ("parameters", .ofList .str c.arguments)]

end Dissect
