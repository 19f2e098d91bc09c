import PatternGraph.Filter
import PatternGraph.Graph.Basic

/-!
# Selecting vertices and edges

The vertices and edges of a graph that a filter admits.

Vertices are taken from the narrowest source that the filter gives: the ids, in their order and each
once; or else the vertices of the types; or else all vertices. What the filter asks for beyond that
is then checked on each.

Edges are taken from the edges at the vertices of one end if the filter of that end names ids; from
the triple index if types are asked for; and otherwise from the edges at the vertices of an end that
is restricted, or from all edges. Both ends, the scope and the types are then checked on each. The
edges come out in the order of insertion.
-/

namespace PatternGraph

/-- What one end of an edge has to be. -/
structure EndTest where
  /-- The slots that the end may have, unless any will do. -/
  slots : Option SlotSet
  /-- The numbers of the types one of which the end has to have, if types are asked for. -/
  typeIds : Option (List TypeId)
  /-- Whether ids are asked for. -/
  byId : Bool

namespace Graph

/-- The slots of the vertices that a filter admits, in the order of the answer. -/
def vertexSlots (g : Graph) (f : VertexFilter) : List Slot :=
  let test := VertexTest.of f
  let admitted := fun slot => (g.vertices.get? slot).any test.admits
  match f.ids with
  | some ids => (ids.filterMap g.vertices.slot?).eraseDups.filter admitted
  | none =>
    match test.types with
    | some wanted =>
      (g.vertices.byType.lookupAll (g.types.known wanted)).toList.filter admitted
    | none => g.vertices.live.toList.filter admitted

/-- The vertices that a filter admits. -/
def selectVertices (g : Graph) (f : VertexFilter) : List Vertex :=
  (g.vertexSlots f).filterMap g.vertices.get?

/-- What an end has to be for a filter to admit it. Without a filter, or with one that asks for
nothing, any vertex will do. -/
def endTest (g : Graph) : Option VertexFilter → EndTest
  | none => ⟨none, none, false⟩
  | some f =>
    ⟨if f.isEmpty then none else some (.ofList (g.vertexSlots f)), f.wantedTypes.map g.types.known,
      f.ids.isSome⟩

/-- The edges that leave one of some vertices. -/
def edgesFrom (g : Graph) (slots : SlotSet) : SlotSet := g.edges.outbound.lookupAll slots.toList

/-- The edges that enter one of some vertices. -/
def edgesInto (g : Graph) (slots : SlotSet) : SlotSet := g.edges.inbound.lookupAll slots.toList

/-- The slots of edges among which are all those that the tests admit. -/
def candidateEdges (g : Graph) (source target : EndTest) (edge : EdgeTest) : SlotSet :=
  match source.slots, source.byId, target.slots, target.byId with
  | some slots, true, _, _ => g.edgesFrom slots
  | _, _, some slots, true => g.edgesInto slots
  | _, _, _, _ =>
    match edge.types, edge.negated with
    | some wanted, false =>
      g.edges.triples.candidates source.typeIds (some (g.types.known wanted)) target.typeIds
    | _, _ =>
      match source.slots, target.slots with
      | some slots, _ => g.edgesFrom slots
      | none, some slots => g.edgesInto slots
      | none, none => g.edges.live

/-- Whether the tests admit the edge at a slot. -/
def admitsEdge (g : Graph) (source target : EndTest) (edge : EdgeTest) (slot : Slot) : Bool :=
  match g.edges.ends? slot, g.edges.get? slot with
  | some (s, t), some e =>
    source.slots.all (·.contains s) && target.slots.all (·.contains t) &&
      edge.admits (g.edges.derived.contains slot) e.types
  | _, _ => false

/-- The edges that the filters admit. -/
def selectEdges (g : Graph) (source : Option VertexFilter) (edge : EdgeFilter)
    (target : Option VertexFilter) : List Edge :=
  let source := g.endTest source
  let target := g.endTest target
  let edge := EdgeTest.of edge
  ((g.candidateEdges source target edge).toList.filter (g.admitsEdge source target edge)).filterMap
    g.edges.get?

end Graph

end PatternGraph
