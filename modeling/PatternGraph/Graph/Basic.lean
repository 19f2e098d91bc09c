import PatternGraph.Graph.Error
import PatternGraph.Graph.Table

/-!
# The graph

A labelled graph in memory: the vertices, the edges between them, and the table of type names.
Vertices and edges are kept in the order in which they were put in.

An operation that may fail takes the graph it works on last, and gives its result together with the
graph afterwards. Adding an edge that is stored already is no failure: the edge is known by its id,
so its id is given back with the remark that nothing was inserted. Taking a vertex out takes out the
edges at it as well, so no edge is ever without its two ends.

`compact` builds the graph anew from what is stored, without empty rows and unused type names.
-/

namespace PatternGraph

/-- A labelled graph. -/
structure Graph where
  types : TypeTable := ∅
  vertices : VertexTable := ∅
  edges : EdgeTable := ∅

/-- What came of adding an edge. -/
structure AddedEdge where
  id : String
  /-- Whether the edge is new. -/
  inserted : Bool
deriving DecidableEq, Repr

/-- A step on a state that may fail: its result, and the state afterwards. -/
abbrev Action (σ α : Type) := σ → Except GraphError α × σ

/-- Runs an action for each member of a list, in order, up to the first failure. What the actions
before it did stays done. -/
def Action.forEach {σ α β : Type} (step : α → Action σ β) : List α → Action σ (List β)
  | [], s => (.ok [], s)
  | a :: as, s =>
    match step a s with
    | (.error e, s) => (.error e, s)
    | (.ok b, s) =>
      match forEach step as s with
      | (.error e, s) => (.error e, s)
      | (.ok bs, s) => (.ok (b :: bs), s)

namespace Graph

instance : EmptyCollection Graph := ⟨{}⟩

instance : Inhabited Graph := ⟨∅⟩

/-- The number of vertices. -/
def vertexCount (g : Graph) : Nat := g.vertices.size

/-- The number of edges. -/
def edgeCount (g : Graph) : Nat := g.edges.size

/-- The number of derived edges. -/
def derivedCount (g : Graph) : Nat := g.edges.derived.size

/-- The number of rows that are empty since a vertex or an edge was taken out. -/
def tombstones (g : Graph) : Nat := g.vertices.vacant + g.edges.vacant

/-- Adds a vertex, with its types normalized. The result is its id. -/
def addVertex (v : Vertex) : Action Graph String := fun g =>
  match g.vertices.slot? v.id with
  | some _ => (.error (.duplicateVertex v.id), g)
  | none =>
    let v := v.normalize
    let (typeIds, types) := g.types.internAll v.types.names
    (.ok v.id, { g with types, vertices := g.vertices.insert v typeIds })

/-- Adds vertices in order, up to the first that is refused. -/
def addVertices : List Vertex → Action Graph (List String) := Action.forEach addVertex

/-- Adds an edge, with its types normalized and its id made from them. -/
def addEdge (e : Edge) : Action Graph AddedEdge := fun g =>
  let e := e.normalize
  match g.edges.slot? e.id with
  | some _ => (.ok ⟨e.id, false⟩, g)
  | none =>
    match g.vertices.slot? e.source with
    | none => (.error (.danglingEdge e.id e.source), g)
    | some source =>
      match g.vertices.slot? e.target with
      | none => (.error (.danglingEdge e.id e.target), g)
      | some target =>
        let (typeIds, types) := g.types.internAll e.types.names
        (.ok ⟨e.id, true⟩,
          { g with types, edges := g.edges.insert g.vertices e source target typeIds })

/-- Adds edges in order, up to the first that is refused. -/
def addEdges : List Edge → Action Graph (List AddedEdge) := Action.forEach addEdge

/-- The graph without the edge at a slot. -/
def eraseEdge (g : Graph) (slot : Slot) : Graph :=
  { g with edges := g.edges.erase g.vertices slot }

/-- Takes out a vertex and the edges at it. The result tells whether the vertex was stored. -/
def removeVertex (id : String) (g : Graph) : Bool × Graph :=
  match g.vertices.slot? id with
  | none => (false, g)
  | some slot =>
    let incident := SlotSet.ofList (g.edges.outbound.lookup slot ++ g.edges.inbound.lookup slot)
    let g := incident.toList.foldl eraseEdge g
    ((g.vertices.get? slot).isSome,
      { g with vertices := g.vertices.erase slot, edges := g.edges.clear slot })

/-- The slot of the edge that an id denotes: the one stored under it, or else the one stored under
the text of the key that the id spells. -/
def edgeSlot? (g : Graph) (id : String) : Except GraphError (Option Slot) :=
  match g.edges.slot? id with
  | some slot => .ok (some slot)
  | none =>
    match EdgeKey.parse id with
    | some key => .ok (g.edges.slot? key.text)
    | none => .error (.invalidEdgeId id)

/-- Takes out an edge. The result tells whether it was stored. A text that is neither the id of a
stored edge nor spells a key is refused. -/
def removeEdge (id : String) : Action Graph Bool := fun g =>
  match g.edgeSlot? id with
  | .error e => (.error e, g)
  | .ok none => (.ok false, g)
  | .ok (some slot) => (.ok (g.edges.get? slot).isSome, g.eraseEdge slot)

/-- Whether a vertex or an edge is stored under an id. -/
def contains (g : Graph) (id : String) : Bool :=
  (g.vertices.slot? id).isSome || (g.edges.slot? id).isSome

/-- The vertex of an id. -/
def vertex? (g : Graph) (id : String) : Option Vertex := g.vertices.slot? id >>= g.vertices.get?

/-- The edge of an id. -/
def edge? (g : Graph) (id : String) : Option Edge := g.edges.slot? id >>= g.edges.get?

/-- The stored vertices among those of some ids, in the order of the ids. -/
def verticesOf (g : Graph) (ids : List String) : List Vertex := ids.filterMap g.vertex?

/-- The stored edges among those of some ids, in the order of the ids. -/
def edgesOf (g : Graph) (ids : List String) : List Edge := ids.filterMap g.edge?

/-- All vertices in the order of insertion. -/
def allVertices (g : Graph) : List Vertex := g.vertices.live.toList.filterMap g.vertices.get?

/-- All edges in the order of insertion. -/
def allEdges (g : Graph) : List Edge := g.edges.live.toList.filterMap g.edges.get?

/-- Builds a graph from vertices and then edges. -/
def ofLists (vertices : List Vertex) (edges : List Edge) : Except GraphError Graph := do
  let (result, g) := addVertices vertices ∅
  let _ ← result
  let (result, g) := addEdges edges g
  let _ ← result
  return g

/-- Builds the graph anew from what is stored. -/
def compact : Action Graph Unit := fun g =>
  match ofLists g.allVertices g.allEdges with
  | .ok rebuilt => (.ok (), rebuilt)
  | .error e => (.error e, g)

end Graph

end PatternGraph
