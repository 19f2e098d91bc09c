import PatternGraph.Form.Graph
import PatternGraph.Rule.Basic

/-!
# JSON forms of rules
-/

namespace PatternGraph

open Json (Record Decoder)

namespace RulePart

/-- The JSON form of a part of a rule. -/
def toJson (p : RulePart) : Json := .str p.name

/-- Reads a part of a rule. -/
def decoder : Decoder RulePart := .oneOf named

end RulePart

namespace HopDirection

/-- The JSON form of the direction of a hop. -/
def toJson (d : HopDirection) : Json := .str d.name

/-- Reads the direction of a hop. -/
def decoder : Decoder HopDirection := .oneOf named

end HopDirection

namespace Hop

/-- The JSON form of a hop. -/
def toJson (h : Hop) : Json :=
  .obj [("element_types", h.vertexTypes.toJson), ("edge_types", h.edgeTypes.toJson),
    ("direction", h.direction.toJson)]

/-- Reads a hop. -/
def decoder : Decoder Hop :=
  ((((Record.pure Hop.mk).field "element_types" TypeSet.decoder).field "edge_types"
    TypeSet.decoder).field "direction" HopDirection.decoder).decode

end Hop

namespace Condition

/-- The JSON form of a condition. -/
def toJson (c : Condition) : Json :=
  .obj [("first_part", c.first.toJson), ("middle_element_types", c.middleTypes.toJson),
    ("second_part", c.second.toJson)]

/-- Reads a condition. -/
def decoder : Decoder Condition :=
  ((((Record.pure Condition.mk).field "first_part" Hop.decoder).field "middle_element_types"
    TypeSet.decoder).field "second_part" Hop.decoder).decode

end Condition

namespace Effect

/-- The JSON form of an effect. -/
def toJson (e : Effect) : Json :=
  .obj [("source", e.source.toJson), ("target", e.target.toJson), ("types", e.types.toJson)]

/-- Reads an effect. -/
def decoder : Decoder Effect :=
  ((((Record.pure Effect.mk).field "source" RulePart.decoder).field "target"
    RulePart.decoder).field "types" TypeSet.decoder).decode

end Effect

namespace Rule

/-- The JSON form of a rule. -/
def toJson (r : Rule) : Json :=
  .obj [("label", .str r.label), ("conditional", r.condition.toJson), ("effect", r.effect.toJson)]

/-- Reads a rule. -/
def decoder : Decoder Rule :=
  ((((Record.pure Rule.mk).field "label" .string).field "conditional" Condition.decoder).field
    "effect" Effect.decoder).decode

end Rule

end PatternGraph
