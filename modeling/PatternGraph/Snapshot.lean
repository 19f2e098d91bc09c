import PatternGraph.Form.Graph
import PatternGraph.Graph.Basic
import PatternGraph.Json.Printer

/-!
# Snapshots

A snapshot is what a graph is saved as: its vertices and its edges, in the order of insertion. When
a graph is built from a snapshot, all vertices go in before the edges, so an edge may stand anywhere
among the edges; the ids of the edges are made anew.

The text of a snapshot is JSON, one item or field a line. Either list may be left out when it is
read.
-/

namespace PatternGraph

/-- The vertices and edges of a graph. -/
structure Snapshot where
  vertices : List Vertex := []
  edges : List Edge := []
deriving DecidableEq, Repr

namespace Snapshot

open Json (Record Decoder Document Fault)

/-- What a graph holds. -/
def ofGraph (g : Graph) : Snapshot := ⟨g.allVertices, g.allEdges⟩

/-- The graph that holds the vertices and edges. -/
def toGraph (s : Snapshot) : Except GraphError Graph := Graph.ofLists s.vertices s.edges

/-- The JSON form of a snapshot. -/
def toJson (s : Snapshot) : Json :=
  .obj [("vertices", .arr (s.vertices.map Vertex.toJson)),
    ("edges", .arr (s.edges.map Edge.toJson))]

/-- Reads a snapshot. -/
def decoder : Decoder Snapshot :=
  (((Record.pure Snapshot.mk).field "vertices" (.list Vertex.decoder) (.anywhere [])).field "edges"
    (.list Edge.decoder) (.anywhere [])).decode

/-- The text of a snapshot. -/
def text (s : Snapshot) : String := s.toJson.pretty

/-- The snapshot of a text. -/
def parse (text : String) : Except Fault Snapshot := (Document.read text).decode decoder

end Snapshot

end PatternGraph
