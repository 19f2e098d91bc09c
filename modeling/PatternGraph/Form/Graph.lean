import PatternGraph.Edge.Basic
import PatternGraph.Json.Decoder
import PatternGraph.Vertex

/-!
# JSON forms of vertices and edges

A vertex may leave out its types. An edge may leave out all but its two ends; how it came about and
its name in another system are not written where there is nothing to write. A set of types is a list
in ascending order when written, and a list in any order when read.
-/

namespace PatternGraph

open Json (Record Decoder)

namespace TypeSet

/-- The JSON form of a set. -/
def toJson (types : TypeSet) : Json := .strings types.names

/-- Reads a set. -/
def decoder : Decoder TypeSet := (Decoder.list .string).map ofList

end TypeSet

namespace Vertex

/-- The fields of a vertex. -/
def fields (v : Vertex) : List (String × Json) :=
  [("id", .str v.id), ("name", .str v.name), ("types", v.types.toJson)]

/-- The JSON form of a vertex. -/
def toJson (v : Vertex) : Json := .obj v.fields

/-- Reads a vertex. -/
def decoder : Decoder Vertex :=
  ((((Record.pure Vertex.mk).field "id" .string).field "name" .string).field "types"
    TypeSet.decoder (.anywhere ∅)).decode

end Vertex

namespace Edge

/-- The fields of an edge. -/
def fields (e : Edge) : List (String × Json) :=
  [("id", .str e.id), ("source_id", .str e.source), ("target_id", .str e.target),
    ("types", e.types.toJson)] ++
  (if e.derivation.isEmpty then [] else [("derivation_path", .strings e.derivation)]) ++
  (match e.externalId with
    | none => []
    | some id => [("external_id", .str id)])

/-- The JSON form of an edge. -/
def toJson (e : Edge) : Json := .obj e.fields

/-- Reads an edge. -/
def decoder : Decoder Edge :=
  (((((((Record.pure Edge.mk).field "id" .string (.anywhere "")).field "source_id" .string).field
    "target_id" .string).field "types" TypeSet.decoder (.anywhere ∅)).field "derivation_path"
    (.list .string) (.anywhere [])).field "external_id" (.option .string) (.anywhere none)).decode

end Edge

end PatternGraph
