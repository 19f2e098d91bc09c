import PatternGraph.Edge.Basic
import PatternGraph.Graph.Adjacency
import PatternGraph.Graph.TripleIndex
import PatternGraph.Vertex

/-!
# The tables of a graph

Vertices and edges stand in rows. A row is never used twice: a new row goes to the end, and taking a
vertex or an edge out leaves an empty row. So the order of the rows is the order of insertion, and a
slot means the same row for good.

A row is spread over several columns, each an array that is read at the slot: the vertex or the edge
itself, the numbers of its types, and for an edge the slots of its ends. Beside its columns a table
holds what is looked up: the slot of an id, the occupied slots, the vertices of a type, the edges at
a vertex, the edges of a triple of types, and the derived edges.

A slot is a natural number, so there is room for one more row at any time. Where slots have 32 bits, a
vertex or an edge is refused once 2^32 rows have been used. That refusal is left out here, and so is its
error (see `GraphError`).
-/

namespace PatternGraph

/-- The vertices of a graph. -/
structure VertexTable where
  /-- The vertex of each slot, unless it was taken out. -/
  rows : Array (Option Vertex) := #[]
  /-- The numbers of the types of each slot's vertex; none once the vertex was taken out. -/
  typeRows : Array (List TypeId) := #[]
  /-- The slot of each id. -/
  slots : Std.TreeMap String Slot := ∅
  /-- The vertices that have a type. -/
  byType : SlotIndex TypeId compare := ∅
  /-- The occupied slots. -/
  live : SlotSet := ∅

namespace VertexTable

instance : EmptyCollection VertexTable := ⟨{}⟩

instance : Inhabited VertexTable := ⟨∅⟩

/-- The vertex at a slot. -/
def get? (t : VertexTable) (slot : Slot) : Option Vertex := t.rows[slot]?.join

/-- The slot of an id. -/
def slot? (t : VertexTable) (id : String) : Option Slot := t.slots[id]?

/-- The numbers of the types of the vertex at a slot. -/
def typeIds (t : VertexTable) (slot : Slot) : List TypeId := t.typeRows[slot]?.getD []

/-- The number of vertices. -/
def size (t : VertexTable) : Nat := t.live.size

/-- The number of empty rows. -/
def vacant (t : VertexTable) : Nat := t.rows.size - t.size

/-- Puts a vertex into a new row. -/
def insert (t : VertexTable) (vertex : Vertex) (typeIds : List TypeId) : VertexTable where
  rows := t.rows.push (some vertex)
  typeRows := t.typeRows.push typeIds
  slots := t.slots.insert vertex.id t.rows.size
  byType := t.byType.insertAll typeIds t.rows.size
  live := t.live.insert t.rows.size

/-- Empties a row. -/
def erase (t : VertexTable) (slot : Slot) : VertexTable :=
  match t.get? slot with
  | none => t
  | some vertex =>
    { rows := t.rows.setIfInBounds slot none
      typeRows := t.typeRows.setIfInBounds slot []
      slots := t.slots.erase vertex.id
      byType := t.byType.eraseAll (t.typeIds slot) slot
      live := t.live.erase slot }

end VertexTable

/-- The edges of a graph. -/
structure EdgeTable where
  /-- The edge of each slot, unless it was taken out. -/
  rows : Array (Option Edge) := #[]
  /-- The slots of the source and the target of each slot's edge. -/
  ends : Array (Slot × Slot) := #[]
  /-- The numbers of the types of each slot's edge; none once the edge was taken out. -/
  typeRows : Array (List TypeId) := #[]
  /-- The slot of each id. -/
  slots : Std.TreeMap String Slot := ∅
  /-- The edges that leave a vertex. -/
  outbound : Adjacency := ∅
  /-- The edges that enter a vertex. -/
  inbound : Adjacency := ∅
  /-- The edges of a triple of types. -/
  triples : TripleIndex := ∅
  /-- The slots of the derived edges. -/
  derived : SlotSet := ∅
  /-- The occupied slots. -/
  live : SlotSet := ∅

namespace EdgeTable

instance : EmptyCollection EdgeTable := ⟨{}⟩

instance : Inhabited EdgeTable := ⟨∅⟩

/-- The edge at a slot. -/
def get? (t : EdgeTable) (slot : Slot) : Option Edge := t.rows[slot]?.join

/-- The slot of an id. -/
def slot? (t : EdgeTable) (id : String) : Option Slot := t.slots[id]?

/-- The slots of the source and the target of the edge at a slot. -/
def ends? (t : EdgeTable) (slot : Slot) : Option (Slot × Slot) := t.ends[slot]?

/-- The numbers of the types of the edge at a slot. -/
def typeIds (t : EdgeTable) (slot : Slot) : List TypeId := t.typeRows[slot]?.getD []

/-- The number of edges. -/
def size (t : EdgeTable) : Nat := t.live.size

/-- The number of empty rows. -/
def vacant (t : EdgeTable) : Nat := t.rows.size - t.size

/-- Puts an edge between the vertices at two slots into a new row. The tables of types are those of
the vertices. -/
def insert (t : EdgeTable) (vertices : VertexTable) (edge : Edge) (source target : Slot)
    (typeIds : List TypeId) : EdgeTable where
  rows := t.rows.push (some edge)
  ends := t.ends.push (source, target)
  typeRows := t.typeRows.push typeIds
  slots := t.slots.insert edge.id t.rows.size
  outbound := t.outbound.push source t.rows.size
  inbound := t.inbound.push target t.rows.size
  triples :=
    t.triples.insert t.rows.size (vertices.typeIds source) typeIds (vertices.typeIds target)
  derived := if edge.isDerived then t.derived.insert t.rows.size else t.derived
  live := t.live.insert t.rows.size

/-- Empties a row. The tables of types are those of the vertices. -/
def erase (t : EdgeTable) (vertices : VertexTable) (slot : Slot) : EdgeTable :=
  match t.get? slot, t.ends? slot with
  | some edge, some (source, target) =>
    { rows := t.rows.setIfInBounds slot none
      ends := t.ends
      typeRows := t.typeRows.setIfInBounds slot []
      slots := t.slots.erase edge.id
      outbound := t.outbound.erase source slot
      inbound := t.inbound.erase target slot
      triples :=
        t.triples.erase slot (vertices.typeIds source) (t.typeIds slot) (vertices.typeIds target)
      derived := t.derived.erase slot
      live := t.live.erase slot }
  | _, _ => t

/-- Takes away the lists of edges at a vertex. -/
def clear (t : EdgeTable) (vertex : Slot) : EdgeTable :=
  { t with outbound := t.outbound.clear vertex, inbound := t.inbound.clear vertex }

end EdgeTable

end PatternGraph
