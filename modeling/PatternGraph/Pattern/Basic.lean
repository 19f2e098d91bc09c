import PatternGraph.Pattern.Alias
import PatternGraph.Pattern.Connector
import PatternGraph.Text.Lowercase

/-!
# Patterns

A pattern as it is written: a chain in which nodes and relationships take turns, each with an alias.
The aliases count the nodes as `n0`, `n1`, …, the bare relationships as `e0`, `e1`, …, and those
with types as `r0`, `r1`, …. Beside the chain stand the names that nodes are searched by, in lower
case, under the aliases of their nodes.

A chain may also be given from outside; then nothing says that nodes and relationships take turns.
-/

namespace PatternGraph

/-- What a node of a pattern asks for. -/
inductive NodeKind where
  /-- `(t1 or t2)`: one of some types. -/
  | typed (types : List String)
  /-- `('name' t1 or t2)`: a name and one of some types. -/
  | described (name : String) (types : List String)
  /-- `('name')`: a name. -/
  | identified (name : String)
  /-- `(*)`: any vertex. -/
  | group
  /-- `()`: any vertex, which is passed through and not returned. -/
  | anonymous
deriving DecidableEq, Repr

namespace NodeKind

/-- Whether a pattern may start with such a node. -/
def canStart : NodeKind → Bool
  | typed _ | described _ _ | identified _ => true
  | group | anonymous => false

/-- The name that the node is searched by, in lower case. -/
def searchTerm : NodeKind → Option String
  | described name _ | identified name => some (Text.lowercase name)
  | typed _ | group | anonymous => none

end NodeKind

/-- A node of a pattern. -/
structure PatternNode where
  aliasName : String
  kind : NodeKind
deriving DecidableEq, Repr

/-- What a relationship of a pattern asks for. -/
inductive LinkKind where
  /-- A bare connector: edges of any type. -/
  | short
  /-- A connector with types in brackets: edges with one of them, or with none if it is negated. -/
  | typed (types : List String) (negated : Bool)
deriving DecidableEq, Repr

namespace LinkKind

/-- The types in the brackets. -/
def types : LinkKind → List String
  | short => []
  | typed types _ => types

/-- Whether the types are excluded. -/
def isNegated : LinkKind → Bool
  | short => false
  | typed _ negated => negated

/-- Whether there are no brackets. -/
def isShort : LinkKind → Bool
  | short => true
  | typed _ _ => false

end LinkKind

/-- A relationship without an alias, as it is written. -/
structure Link where
  kind : LinkKind
  source : Connector
  target : Connector
deriving DecidableEq, Repr

namespace Link

/-- Whether both sides have the same framing. -/
def isHomogeneous (l : Link) : Bool := l.source.framing == l.target.framing

/-- Whether neither side has an arrow head. -/
def isUndirected (l : Link) : Bool := !l.source.hasArrow && !l.target.hasArrow

end Link

/-- A relationship of a pattern. -/
structure PatternLink extends Link where
  aliasName : String
deriving DecidableEq, Repr

/-- A member of the chain. -/
inductive PatternElement where
  | node (n : PatternNode)
  | link (l : PatternLink)
deriving DecidableEq, Repr

/-- A pattern as it is written. -/
structure Pattern where
  chain : List PatternElement
  /-- The names that nodes are searched by, under the aliases of the nodes. -/
  searchTerms : AliasTable
deriving DecidableEq, Repr

namespace Pattern

/-- The nodes in order. -/
def nodes (p : Pattern) : List PatternNode :=
  p.chain.filterMap fun
    | .node n => some n
    | .link _ => none

/-- The relationships in order. -/
def links (p : Pattern) : List PatternLink :=
  p.chain.filterMap fun
    | .link l => some l
    | .node _ => none

/-- How many nodes and relationships have been given an alias. -/
structure AliasCounts where
  nodes : Nat := 0
  short : Nat := 0
  typed : Nat := 0

/-- A node with the next alias for nodes. -/
def AliasCounts.node (c : AliasCounts) (kind : NodeKind) : PatternNode × AliasCounts :=
  (⟨"n" ++ Nat.repr c.nodes, kind⟩, { c with nodes := c.nodes + 1 })

/-- A relationship with the next alias of its kind. -/
def AliasCounts.link (c : AliasCounts) (l : Link) : PatternLink × AliasCounts :=
  if l.kind.isShort then (⟨l, "e" ++ Nat.repr c.short⟩, { c with short := c.short + 1 })
  else (⟨l, "r" ++ Nat.repr c.typed⟩, { c with typed := c.typed + 1 })

/-- The chain behind the first node, with aliases. -/
def aliasRest (c : AliasCounts) : List (Link × NodeKind) → List PatternElement
  | [] => []
  | (l, kind) :: rest =>
    let (l, c) := c.link l
    let (n, c) := c.node kind
    .link l :: .node n :: aliasRest c rest

/-- The table of the names that the nodes of a chain are searched by. -/
def termsOf (chain : List PatternElement) : AliasTable :=
  .ofList (chain.filterMap fun
    | .node n => n.kind.searchTerm.map fun term => (n.aliasName, term)
    | .link _ => none)

/-- The pattern of a first node and the relationships and nodes that follow it. -/
def ofParts (first : NodeKind) (rest : List (Link × NodeKind)) : Pattern :=
  let (n, c) := AliasCounts.node {} first
  let chain := .node n :: aliasRest c rest
  ⟨chain, termsOf chain⟩

end Pattern

end PatternGraph
