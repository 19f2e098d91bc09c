import PatternGraph.TypeSet

/-!
# Derivation rules

A rule looks for two edges in a row, from a first vertex over a middle one to a last one, and
derives an edge between two of the three. Each of the two hops asks for types of its edge, says
which way the edge points, and asks for types of its outer vertex. An empty set of types asks for
nothing.
-/

namespace PatternGraph

/-- One of the three vertices of a rule. -/
inductive RulePart where
  | first
  | middle
  | last
deriving DecidableEq, Repr

namespace RulePart

/-- The place of a vertex in the text of a rule. -/
def position : RulePart → Nat
  | first => 1
  | middle => 2
  | last => 3

/-- The vertices with their names. -/
def named : List (String × RulePart) :=
  [("FIRST_PART_ELEMENT", first), ("MIDDLE_ELEMENT", middle), ("SECOND_PART_ELEMENT", last)]

/-- The name of a vertex. -/
def name : RulePart → String
  | first => "FIRST_PART_ELEMENT"
  | middle => "MIDDLE_ELEMENT"
  | last => "SECOND_PART_ELEMENT"

theorem lookup_name (p : RulePart) : named.lookup p.name = some p := by
  cases p <;> rfl

end RulePart

/-- Which way the edge of a hop points, in reading order. -/
inductive HopDirection where
  | forward
  | backward
deriving DecidableEq, Repr

namespace HopDirection

/-- The directions with their names. -/
def named : List (String × HopDirection) := [("Forward", forward), ("Backward", backward)]

/-- The name of a direction. -/
def name : HopDirection → String
  | forward => "Forward"
  | backward => "Backward"

theorem lookup_name (d : HopDirection) : named.lookup d.name = some d := by
  cases d <;> rfl

end HopDirection

/-- What a rule asks of one of its two edges and of the outer vertex of it. -/
structure Hop where
  vertexTypes : TypeSet
  edgeTypes : TypeSet
  direction : HopDirection
deriving DecidableEq, Repr

/-- What a rule looks for. -/
structure Condition where
  first : Hop
  middleTypes : TypeSet
  second : Hop
deriving DecidableEq, Repr

/-- The edge that a rule derives. -/
structure Effect where
  source : RulePart
  target : RulePart
  types : TypeSet
deriving DecidableEq, Repr

/-- A derivation rule. -/
structure Rule where
  label : String
  condition : Condition
  effect : Effect
deriving DecidableEq, Repr

namespace Rule

/-- The edge types that the rule looks for. -/
def edgeTypes (r : Rule) : TypeSet := r.condition.first.edgeTypes.union r.condition.second.edgeTypes

/-- The rule under another label. -/
def withLabel (r : Rule) (label : String) : Rule := { r with label }

end Rule

end PatternGraph
