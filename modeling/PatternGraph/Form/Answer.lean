import PatternGraph.Form.Graph
import PatternGraph.Query.Answer

/-!
# JSON forms of answers

An answer names its mode in the field `mode` and holds its results in the field `results`. A member
of a path names its sort in the field `element`.
-/

namespace PatternGraph

open Json (Record Decoder)

namespace PathElement

/-- The JSON form of a member of a path. -/
def toJson : PathElement → Json
  | vertex v => .obj (("element", .str "vertex") :: v.fields)
  | edge e => .obj (("element", .str "edge") :: e.fields)

/-- Reads a member of a path. -/
def decoder : Decoder PathElement :=
  .tagged "element"
    (.named [("vertex", Vertex.decoder.map vertex), ("edge", Edge.decoder.map edge)])

end PathElement

namespace MatchedPath

/-- The JSON form of a path. -/
def toJson (p : MatchedPath) : Json := .obj [("elements", .arr (p.elements.map PathElement.toJson))]

/-- Reads a path. -/
def decoder : Decoder MatchedPath :=
  ((Record.pure MatchedPath.mk).field "elements" (.list PathElement.decoder)).decode

end MatchedPath

namespace Answer

/-- The JSON form of an answer. -/
def toJson : Answer → Json
  | paths results =>
    .obj [("mode", .str "paths"), ("results", .arr (results.map MatchedPath.toJson))]
  | scopeList results =>
    .obj [("mode", .str "scope_list"), ("results", .arr (results.map Vertex.toJson))]

/-- How each mode is read. -/
def modes : List (String × Decoder Answer) :=
  [("paths", ((Record.pure paths).field "results" (.list MatchedPath.decoder)).decode),
   ("scope_list", ((Record.pure scopeList).field "results" (.list Vertex.decoder)).decode)]

/-- Reads an answer. -/
def decoder : Decoder Answer := .tagged "mode" (.oneOf modes) (.named modes)

end Answer

end PatternGraph
