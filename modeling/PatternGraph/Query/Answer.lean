import PatternGraph.Edge.Basic
import PatternGraph.Vertex

/-!
# Answers

The answer to a query is a list of paths, or a list of vertices. A path holds the vertices that the
query returns and the edges between them, in the order of the chain. Where the query passes through
a vertex without returning it, two edges stand side by side.
-/

namespace PatternGraph

/-- What a query is to give. -/
inductive OutputMode where
  /-- The paths found. -/
  | paths
  /-- The vertices on the paths found, each once. -/
  | scopeList
deriving DecidableEq, Repr

/-- The name of a mode. -/
def OutputMode.name : OutputMode → String
  | paths => "Paths"
  | scopeList => "ScopeList"

/-- A member of a path. -/
inductive PathElement where
  | vertex (v : Vertex)
  | edge (e : Edge)
deriving DecidableEq, Repr

namespace PathElement

/-- The vertex that the member is. -/
def vertex? : PathElement → Option Vertex
  | vertex v => some v
  | edge _ => none

/-- The edge that the member is. -/
def edge? : PathElement → Option Edge
  | vertex _ => none
  | edge e => some e

end PathElement

/-- A path that a query found. -/
structure MatchedPath where
  elements : List PathElement
deriving DecidableEq, Repr

namespace MatchedPath

/-- The vertices in order. -/
def vertices (p : MatchedPath) : List Vertex := p.elements.filterMap PathElement.vertex?

/-- The edges in order. -/
def edges (p : MatchedPath) : List Edge := p.elements.filterMap PathElement.edge?

/-- The path that is a single vertex. -/
def single (v : Vertex) : MatchedPath := ⟨[.vertex v]⟩

end MatchedPath

/-- The answer to a query. -/
inductive Answer where
  | paths (results : List MatchedPath)
  | scopeList (results : List Vertex)
deriving DecidableEq, Repr

namespace Answer

/-- An answer without results. -/
def empty : OutputMode → Answer
  | .paths => paths []
  | .scopeList => scopeList []

/-- The number of results. -/
def size : Answer → Nat
  | paths results => results.length
  | scopeList results => results.length

/-- Whether there are no results. -/
def isEmpty (a : Answer) : Bool := a.size == 0

/-- The first results, up to a number. -/
def take (a : Answer) (limit : Nat) : Answer :=
  match a with
  | paths results => paths (results.take limit)
  | scopeList results => scopeList (results.take limit)

/-- The results as paths, each vertex being one. -/
def toPaths : Answer → List MatchedPath
  | paths results => results
  | scopeList results => results.map .single

end Answer

end PatternGraph
