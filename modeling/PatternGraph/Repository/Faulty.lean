import PatternGraph.Repository.Basic

/-!
# A repository with faults

A graph behind a connection that fails as planned: some of the edge queries, some of the edges that
are added, all reading of vertices, and vertices that are left out when they are asked for by id.
What the plan does not name works as on the graph itself.
-/

namespace PatternGraph

/-- Which operations fail. -/
structure FaultPlan where
  /-- Whether the edge query of this number fails, counted from zero. -/
  failsQuery : Nat → Bool := fun _ => false
  /-- Whether adding this edge fails, as the addition of this number, counted from zero. -/
  refusesEdge : Nat → Edge → Bool := fun _ _ => false
  /-- Whether reading vertices fails. -/
  refusesVertices : Bool := false
  /-- Whether the vertex of this id is left out when vertices are asked for by id. -/
  hides : String → Bool := fun _ => false

/-- A graph whose operations fail as planned. -/
structure FaultyGraph where
  graph : Graph
  plan : FaultPlan
  /-- The number of edge queries so far. -/
  queries : Nat := 0
  /-- The number of edges that were to be added so far. -/
  additions : Nat := 0

namespace FaultyGraph

/-- Works on the graph itself. -/
def onGraph {α : Type} (action : Action Graph α) : Action FaultyGraph α := fun s =>
  let (result, graph) := action s.graph
  (result, { s with graph })

/-- Reads vertices, unless that is planned to fail. -/
def readVertices {α : Type} (f : FaultyGraph → α) : Action FaultyGraph α := fun s =>
  if s.plan.refusesVertices then (.error (.backend "vertices"), s) else (.ok (f s), s)

/-- Adds an edge, unless that is planned to fail. -/
def addEdge (e : Edge) : Action FaultyGraph AddedEdge := fun s =>
  let counted := { s with additions := s.additions + 1 }
  if s.plan.refusesEdge s.additions e then (.error (.backend ("add " ++ e.id)), counted)
  else onGraph (Graph.addEdge e) counted

/-- Selects edges, unless that is planned to fail. -/
def selectEdges (source : Option VertexFilter) (edge : EdgeFilter) (target : Option VertexFilter) :
    Action FaultyGraph (List Edge) := fun s =>
  let counted := { s with queries := s.queries + 1 }
  if s.plan.failsQuery s.queries then
    (.error (.backend ("query #" ++ Nat.repr s.queries)), counted)
  else (.ok (s.graph.selectEdges source edge target), counted)

instance : Repository FaultyGraph where
  addVertex v := onGraph (Graph.addVertex v)
  removeVertex id := onGraph (.change (Graph.removeVertex id))
  addEdge := addEdge
  removeEdge id := onGraph (Graph.removeEdge id)
  contains id := .read fun s => s.graph.contains id
  vertex? id := readVertices fun s => s.graph.vertex? id
  verticesOf ids :=
    readVertices fun s => (s.graph.verticesOf ids).filter fun v => !s.plan.hides v.id
  edge? id := .read fun s => s.graph.edge? id
  edgesOf ids := .read fun s => s.graph.edgesOf ids
  allVertices := readVertices fun s => s.graph.allVertices
  allEdges := .read fun s => s.graph.allEdges
  selectVertices f := readVertices fun s => s.graph.selectVertices f
  selectEdges := selectEdges

end FaultyGraph

end PatternGraph
