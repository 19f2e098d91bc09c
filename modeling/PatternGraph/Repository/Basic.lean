import PatternGraph.Graph.Select

/-!
# Repositories

What derivation and queries need from the place where a graph is kept. `Repository σ` says how a
state of type `σ` is used as a graph: every operation is an `Action`, so it may fail, and even one
that only reads may change the state, for instance to count the calls.

A repository need not say how many vertices or edges are added at once: they are added one after
another, and what that gives is gathered.

A graph in memory is a repository whose reading operations never fail and leave it as it is. It adds
many at once in a way of its own.
-/

namespace PatternGraph

namespace Action

variable {σ α : Type}

/-- Looks something up. -/
def read (f : σ → α) : Action σ α := fun s => (.ok (f s), s)

/-- Makes a change that cannot fail. -/
def change (f : σ → α × σ) : Action σ α := fun s =>
  let (a, s) := f s
  (.ok a, s)

/-- Runs an action for each member of a list, in order, and puts what it gives behind what was given
before. The first failure ends it. -/
def gather {β : Type} (step : α → Action σ β) : List α → Array β → Action σ (List β)
  | [], given, s => (.ok given.toList, s)
  | a :: as, given, s =>
    match step a s with
    | (.error e, s) => (.error e, s)
    | (.ok b, s) => gather step as (given.push b) s

end Action

/-- How a state is used as a graph. -/
class Repository (σ : Type) where
  /-- Adds a vertex; the result is its id. -/
  addVertex : Vertex → Action σ String
  /-- Adds vertices in order, up to the first failure. -/
  addVertices : List Vertex → Action σ (List String) := fun vs => Action.gather addVertex vs #[]
  /-- Takes out a vertex and the edges at it; the result tells whether it was there. -/
  removeVertex : String → Action σ Bool
  /-- Adds an edge, unless it is there already. -/
  addEdge : Edge → Action σ AddedEdge
  /-- Adds edges in order, up to the first failure. -/
  addEdges : List Edge → Action σ (List AddedEdge) := fun es => Action.gather addEdge es #[]
  /-- Takes out an edge; the result tells whether it was there. -/
  removeEdge : String → Action σ Bool
  /-- Whether a vertex or an edge has an id. -/
  contains : String → Action σ Bool
  /-- The vertex of an id. -/
  vertex? : String → Action σ (Option Vertex)
  /-- The vertices of some ids, in their order. -/
  verticesOf : List String → Action σ (List Vertex)
  /-- The edge of an id. -/
  edge? : String → Action σ (Option Edge)
  /-- The edges of some ids, in their order. -/
  edgesOf : List String → Action σ (List Edge)
  /-- All vertices in the order of insertion. -/
  allVertices : Action σ (List Vertex)
  /-- All edges in the order of insertion. -/
  allEdges : Action σ (List Edge)
  /-- The vertices that a filter admits. -/
  selectVertices : VertexFilter → Action σ (List Vertex)
  /-- The edges that the filters of the source, the edge and the target admit. -/
  selectEdges : Option VertexFilter → EdgeFilter → Option VertexFilter → Action σ (List Edge)

instance : Repository Graph where
  addVertex := Graph.addVertex
  addVertices := Graph.addVertices
  removeVertex id := .change (Graph.removeVertex id)
  addEdge := Graph.addEdge
  addEdges := Graph.addEdges
  removeEdge := Graph.removeEdge
  contains id := .read fun g => g.contains id
  vertex? id := .read fun g => g.vertex? id
  verticesOf ids := .read fun g => g.verticesOf ids
  edge? id := .read fun g => g.edge? id
  edgesOf ids := .read fun g => g.edgesOf ids
  allVertices := .read Graph.allVertices
  allEdges := .read Graph.allEdges
  selectVertices f := .read fun g => g.selectVertices f
  selectEdges source edge target := .read fun g => g.selectEdges source edge target

end PatternGraph
