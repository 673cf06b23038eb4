import Dissect.Json.Basic
import Dissect.Strings.Extract

/-!
Documents of texts found in a file.
-/

namespace Dissect.Strings

def Context.document (c : Context) : Json := .obj [
  ("null_prefixed", .bool c.afterZero),
  ("possible_reference", .ofOption .nat c.reference)]

def Occurrence.document (o : Occurrence) : Json := .obj [
  ("value", .str o.value),
  ("offset", .nat o.offset),
  ("length", .nat o.length),
  ("encoding", .str o.encoding.tag),
  ("context", o.context.document),
  ("kind", .str o.kind.tag)]

end Dissect.Strings
