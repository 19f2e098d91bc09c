import PatternGraph.Filter
import PatternGraph.Json.Decoder

/-!
# JSON forms of filters

What a filter does not ask for is not written, and may be left out or null when read. A scope is
written as its name, and any name is read.
-/

namespace PatternGraph

open Json (Record Decoder)

/-- A field that is written only if there is something to write. -/
def Json.optionalField (name : String) : Option Json → List (String × Json)
  | none => []
  | some j => [(name, j)]

namespace VertexFilter

/-- The JSON form of a vertex filter. -/
def toJson (f : VertexFilter) : Json :=
  .obj (Json.optionalField "ids" (f.ids.map .strings) ++
    Json.optionalField "types" (f.types.map .strings) ++
    Json.optionalField "search_term" (f.searchTerm.map .str))

/-- Reads a vertex filter. -/
def decoder : Decoder VertexFilter :=
  ((((Record.pure VertexFilter.mk).field "ids" (.option (.list .string)) (.anywhere none)).field
    "types" (.option (.list .string)) (.anywhere none)).field "search_term" (.option .string)
    (.anywhere none)).decode

end VertexFilter

namespace EdgeScope

/-- The JSON form of a scope. -/
def toJson (s : EdgeScope) : Json := .str s.name

/-- Reads a scope. -/
def decoder : Decoder EdgeScope := Decoder.string.map ofName

end EdgeScope

namespace EdgeFilter

/-- The JSON form of an edge filter. -/
def toJson (f : EdgeFilter) : Json :=
  .obj (Json.optionalField "types" (f.types.map .strings) ++
    [("scope", f.scope.toJson), ("is_negated", .bool f.negated)])

/-- Reads an edge filter. -/
def decoder : Decoder EdgeFilter :=
  ((((Record.pure EdgeFilter.mk).field "types" (.option (.list .string)) (.anywhere none)).field
    "scope" EdgeScope.decoder (.anywhere .all)).field "is_negated" .bool (.anywhere false)).decode

end EdgeFilter

end PatternGraph
