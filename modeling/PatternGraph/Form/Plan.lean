import PatternGraph.Form.Graph
import PatternGraph.Query.Plan

/-!
# JSON forms of query plans

An alias, a searched name and the filter of a plan are written as null where there is none, and may
be left out of an object when read.
-/

namespace PatternGraph

open Json (Record Decoder)

namespace Direction

/-- The JSON form of a direction. -/
def toJson (d : Direction) : Json := .str d.name

/-- Reads a direction. -/
def decoder : Decoder Direction := .oneOf named

end Direction

namespace NodeTest

/-- The JSON form of a node test. -/
def toJson (t : NodeTest) : Json :=
  .obj [("alias", .optStr t.aliasName), ("types", t.types.toJson),
    ("search_term", .optStr t.searchTerm), ("should_be_returned", .bool t.returned)]

/-- Reads a node test. -/
def decoder : Decoder NodeTest :=
  (((((Record.pure NodeTest.mk).field "alias" (.option .string) (.inObject none)).field "types"
    TypeSet.decoder).field "search_term" (.option .string) (.inObject none)).field
    "should_be_returned" .bool).decode

end NodeTest

namespace LinkTest

/-- The JSON form of a link test. -/
def toJson (t : LinkTest) : Json :=
  .obj [("alias", .optStr t.aliasName), ("types", t.types.toJson),
    ("direction", t.direction.toJson), ("is_negated", .bool t.negated),
    ("is_derived", .bool t.derived)]

/-- Reads a link test. -/
def decoder : Decoder LinkTest :=
  ((((((Record.pure LinkTest.mk).field "alias" (.option .string) (.inObject none)).field "types"
    TypeSet.decoder).field "direction" Direction.decoder).field "is_negated" .bool).field
    "is_derived" .bool).decode

end LinkTest

namespace Step

/-- The JSON form of a step. -/
def toJson (s : Step) : Json :=
  .obj [("left_node", s.left.toJson), ("relationship", s.link.toJson),
    ("right_node", s.right.toJson)]

/-- Reads a step. -/
def decoder : Decoder Step :=
  ((((Record.pure Step.mk).field "left_node" NodeTest.decoder).field "relationship"
    LinkTest.decoder).field "right_node" NodeTest.decoder).decode

end Step

namespace Plan

/-- The JSON form of a plan. -/
def toJson (p : Plan) : Json :=
  .obj [("query_chain", .arr (p.steps.map Step.toJson)),
    ("query_filter", (p.filter.map NodeTest.toJson).getD .null)]

/-- Reads a plan. -/
def decoder : Decoder Plan :=
  (((Record.pure Plan.mk).field "query_chain" (.list Step.decoder)).field "query_filter"
    (.option NodeTest.decoder) (.inObject none)).decode

end Plan

end PatternGraph
