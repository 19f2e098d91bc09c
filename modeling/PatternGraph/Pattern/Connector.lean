/-!
# Connectors

How the two sides of a relationship are written. A side has a framing, `-` or `=`, and may have an
arrow head. The framing says which edges may stand for the relationship: a bonded side asks for
asserted edges, a path side takes derived ones as well. The heads of the two sides give the
direction.
-/

namespace PatternGraph

/-- The sign that a side of a relationship is written with. -/
inductive Framing where
  /-- `-`: asserted edges only. -/
  | bonded
  /-- `=`: derived edges as well. -/
  | path
deriving DecidableEq, Repr

/-- The name of a framing. -/
def Framing.name : Framing → String
  | bonded => "Bonded"
  | path => "Path"

/-- The arrow head of a side. -/
inductive ArrowHead where
  | absent
  | left
  | right
deriving DecidableEq, Repr

/-- One side of a relationship. -/
structure Connector where
  framing : Framing
  head : ArrowHead
deriving DecidableEq, Repr

namespace Connector

/-- Whether the side has an arrow head. -/
def hasArrow (c : Connector) : Bool := c.head != .absent

/-- The connectors with their names. -/
def named : List (String × Connector) :=
  [("BONDED_BASE", ⟨.bonded, .absent⟩), ("BONDED_LEFT", ⟨.bonded, .left⟩),
   ("BONDED_RIGHT", ⟨.bonded, .right⟩), ("PATH_BASE", ⟨.path, .absent⟩),
   ("PATH_LEFT", ⟨.path, .left⟩), ("PATH_RIGHT", ⟨.path, .right⟩)]

/-- The name of a connector. -/
def name : Connector → String
  | ⟨.bonded, .absent⟩ => "BONDED_BASE"
  | ⟨.bonded, .left⟩ => "BONDED_LEFT"
  | ⟨.bonded, .right⟩ => "BONDED_RIGHT"
  | ⟨.path, .absent⟩ => "PATH_BASE"
  | ⟨.path, .left⟩ => "PATH_LEFT"
  | ⟨.path, .right⟩ => "PATH_RIGHT"

theorem lookup_name (c : Connector) : named.lookup c.name = some c := by
  obtain ⟨_ | _, _ | _ | _⟩ := c <;> rfl

end Connector

/-- The direction of a relationship, seen from the node on its left. -/
inductive Direction where
  /-- From the right to the left. -/
  | left
  /-- Either way. -/
  | both
  /-- From the left to the right. -/
  | right
deriving DecidableEq, Repr

namespace Direction

/-- The sign of a direction, as a number. -/
def sign : Direction → Int
  | left => -1
  | both => 0
  | right => 1

/-- The directions with their names. -/
def named : List (String × Direction) := [("Left", left), ("Both", both), ("Right", right)]

/-- The name of a direction. -/
def name : Direction → String
  | left => "Left"
  | both => "Both"
  | right => "Right"

/-- The direction that two sides give: that of the only head, or either way. -/
def ofConnectors (source target : Connector) : Direction :=
  match source.hasArrow, target.hasArrow with
  | true, false => left
  | false, true => right
  | true, true | false, false => both

theorem lookup_name (d : Direction) : named.lookup d.name = some d := by
  cases d <;> rfl

end Direction

end PatternGraph
