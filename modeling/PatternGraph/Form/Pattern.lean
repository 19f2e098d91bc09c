import PatternGraph.Json.Decoder
import PatternGraph.Pattern.Basic

/-!
# JSON forms of patterns

A member of a chain names its sort in the field `element`, and what a node or a relationship asks
for names its kind in the field `kind`. What is inside a member of a chain is read more freely than
it is written: a kind may be given by its number, and a connector may be the name of a field that
holds nothing.
-/

namespace PatternGraph

open Json (Record Decoder)

namespace Connector

/-- The JSON form of a connector. -/
def toJson (c : Connector) : Json := .str c.name

/-- Reads a connector. -/
def decoder : Decoder Connector := .oneOf named

/-- Reads a connector inside a member of a chain. -/
def innerDecoder : Decoder Connector := .oneOf named .nothing

end Connector

namespace NodeKind

/-- The JSON form of what a node asks for. -/
def toJson : NodeKind → Json
  | typed types => .obj [("kind", .str "TYPED"), ("types", .strings types)]
  | described name types =>
    .obj [("kind", .str "DESCRIBED"), ("name", .str name), ("types", .strings types)]
  | identified name => .obj [("kind", .str "IDENTIFIED"), ("name", .str name)]
  | group => .obj [("kind", .str "GROUP")]
  | anonymous => .obj [("kind", .str "NON_DESCRIBED")]

/-- Reads what a node asks for. -/
def decoder : Decoder NodeKind :=
  .tagged "kind" (.numbered
    [("TYPED", ((Record.pure typed).field "types" (.list .string)).decode),
     ("DESCRIBED",
      (((Record.pure described).field "name" .string).field "types" (.list .string)).decode),
     ("IDENTIFIED", ((Record.pure identified).field "name" .string).decode),
     ("GROUP", .bare group),
     ("NON_DESCRIBED", .bare anonymous)])

end NodeKind

namespace LinkKind

/-- The JSON form of what a relationship asks for. -/
def toJson : LinkKind → Json
  | short => .obj [("kind", .str "SHORT")]
  | typed types negated =>
    .obj [("kind", .str "TYPED"), ("types", .strings types), ("negated", .bool negated)]

/-- Reads what a relationship asks for. -/
def decoder : Decoder LinkKind :=
  .tagged "kind" (.numbered
    [("SHORT", .bare short),
     ("TYPED",
      (((Record.pure typed).field "types" (.list .string)).field "negated" .bool).decode)])

end LinkKind

namespace PatternNode

/-- The fields of a node. -/
def fields (n : PatternNode) : List (String × Json) :=
  [("alias", .str n.aliasName), ("kind", n.kind.toJson)]

/-- Reads a node. -/
def decoder : Decoder PatternNode :=
  (((Record.pure PatternNode.mk).field "alias" .string).field "kind" NodeKind.decoder).decode

end PatternNode

namespace PatternLink

/-- The fields of a relationship. -/
def fields (l : PatternLink) : List (String × Json) :=
  [("alias", .str l.aliasName), ("kind", l.kind.toJson), ("source", l.source.toJson),
    ("target", l.target.toJson)]

/-- The relationship of an alias. -/
def of (aliasName : String) (kind : LinkKind) (source target : Connector) : PatternLink :=
  ⟨⟨kind, source, target⟩, aliasName⟩

/-- Reads a relationship. -/
def decoder : Decoder PatternLink :=
  (((((Record.pure of).field "alias" .string).field "kind" LinkKind.decoder).field "source"
    Connector.innerDecoder).field "target" Connector.innerDecoder).decode

end PatternLink

namespace PatternElement

/-- The JSON form of a member of a chain. -/
def toJson : PatternElement → Json
  | node n => .obj (("element", .str "node") :: n.fields)
  | link l => .obj (("element", .str "relationship") :: l.fields)

/-- Reads a member of a chain. -/
def decoder : Decoder PatternElement :=
  .tagged "element" (.named
    [("node", PatternNode.decoder.map node), ("relationship", PatternLink.decoder.map link)])

end PatternElement

namespace AliasTable

/-- The JSON form of a table of aliases. -/
def toJson (t : AliasTable) : Json := .obj (t.entries.map fun (key, text) => (key, .str text))

/-- Reads a table of aliases. -/
def decoder : Decoder AliasTable := (Decoder.table .string).map ofList

end AliasTable

namespace Pattern

/-- The JSON form of a pattern. -/
def toJson (p : Pattern) : Json :=
  .obj [("chain", .arr (p.chain.map PatternElement.toJson)), ("identifiers", p.searchTerms.toJson)]

/-- Reads a pattern. -/
def decoder : Decoder Pattern :=
  (((Record.pure Pattern.mk).field "chain" (.list PatternElement.decoder)).field "identifiers"
    AliasTable.decoder).decode

end Pattern

end PatternGraph
