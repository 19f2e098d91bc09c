import PatternGraph.Pattern.Grammar
import PatternGraph.TypeSet

/-!
# Query plans

A plan is what a query runs: steps from node to node, each in one direction and over edges of one
kind. It is made from the chain of a pattern. A relationship whose two sides have the same framing
gives one step. One whose sides differ gives two, joined by a node that the pattern does not name
and that is not returned; the first step has the framing of the left side and the second that of the
right side.

A pattern of a single node has no steps; what its node asks for stands beside them.
-/

namespace PatternGraph

/-- What a step asks for at one of its ends. -/
structure NodeTest where
  /-- The alias in the pattern, if the pattern names the node. -/
  aliasName : Option String
  /-- The vertex has one of these types; an empty set asks for nothing. -/
  types : TypeSet
  /-- The name of the vertex holds this text. -/
  searchTerm : Option String
  /-- Whether the vertex is part of the answer. -/
  returned : Bool
deriving DecidableEq, Repr

namespace NodeTest

/-- The node between the two steps of one relationship. -/
def placeholder : NodeTest := ⟨none, ∅, none, false⟩

/-- What a node of a pattern asks for. -/
def ofNode (n : PatternNode) : NodeTest :=
  match n.kind with
  | .typed types => ⟨some n.aliasName, .ofList types, none, true⟩
  | .described _ types => ⟨some n.aliasName, .ofList types, n.kind.searchTerm, true⟩
  | .identified _ => ⟨some n.aliasName, ∅, n.kind.searchTerm, true⟩
  | .group => ⟨some n.aliasName, ∅, none, true⟩
  | .anonymous => ⟨some n.aliasName, ∅, none, false⟩

/-- Whether neither types nor a name are asked for. -/
def isUnconstrained (t : NodeTest) : Bool := t.types.isEmpty && t.searchTerm.isNone

end NodeTest

/-- What a step asks of its edge. -/
structure LinkTest where
  aliasName : Option String
  /-- The edge has one of these types; an empty set asks for nothing. -/
  types : TypeSet
  direction : Direction
  /-- Whether the types are excluded. -/
  negated : Bool
  /-- Whether the edge may be a derived one. -/
  derived : Bool
deriving DecidableEq, Repr

/-- What one side of a relationship asks of its edge, in a direction. -/
def LinkTest.ofLink (l : PatternLink) (direction : Direction) (framing : Framing) : LinkTest :=
  ⟨some l.aliasName, .ofList l.kind.types, direction, l.kind.isNegated, framing == .path⟩

/-- One step of a plan. -/
structure Step where
  left : NodeTest
  link : LinkTest
  right : NodeTest
deriving DecidableEq, Repr

/-- What a query runs. -/
structure Plan where
  steps : List Step
  /-- What the only node asks for, if the pattern is a single node. -/
  filter : Option NodeTest
deriving DecidableEq, Repr

/-- Whether the plan goes from node to node. -/
def Plan.hasSteps (p : Plan) : Bool := !p.steps.isEmpty

namespace Step

/-- The directions of the two steps of a relationship whose sides differ: outwards from the node in
the middle if both sides have a head, and else that of the relationship for both. -/
def splitDirections (l : Link) : Direction × Direction :=
  if l.source.hasArrow && l.target.hasArrow then (.left, .right)
  else
    let direction := Direction.ofConnectors l.source l.target
    (direction, direction)

/-- The steps of a relationship between two nodes. -/
def ofLink (left : NodeTest) (l : PatternLink) (right : NodeTest) : List Step :=
  if l.isHomogeneous then
    [⟨left, .ofLink l (.ofConnectors l.source l.target) l.source.framing, right⟩]
  else
    let (first, second) := splitDirections l.toLink
    [⟨left, .ofLink l first l.source.framing, .placeholder⟩,
     ⟨.placeholder, .ofLink l second l.target.framing, right⟩]

/-- The steps of a chain. From every second member on, a node, a relationship and a node in a row
give steps. -/
def ofChain : List PatternElement → List Step
  | left :: middle :: right :: rest =>
    (match left, middle, right with
      | .node n, .link l, .node m => ofLink (.ofNode n) l (.ofNode m)
      | _, _, _ => []) ++ ofChain (right :: rest)
  | _ => []

end Step

/-- The plan of a pattern. -/
def Pattern.plan (p : Pattern) : Plan :=
  match p.chain with
  | [.node n] => ⟨[], some (.ofNode n)⟩
  | chain => ⟨Step.ofChain chain, none⟩

/-- The plan of the pattern that a text denotes. -/
def Plan.parse (text : String) : Except PatternError Plan := Pattern.plan <$> Pattern.parse text

end PatternGraph
