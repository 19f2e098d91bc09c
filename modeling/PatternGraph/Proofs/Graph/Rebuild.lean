import PatternGraph.Proofs.Graph.Listing

/-!
# A graph built from lists has no empty rows

Adding a vertex or an edge takes a new row at the end, and a refusal takes none. So the rows of a graph
that is built from lists are all occupied.
-/

namespace PatternGraph

/-- A slot behind all members is one more member. -/
theorem SlotSet.size_insert {s : SlotSet} {i : Slot} (h : ∀ j ∈ s, j < i) :
    (s.insert i).size = s.size + 1 := by
  unfold size
  rw [toList_insert h, List.length_append, List.length_singleton]

theorem VertexTable.WellFormed.vacant_insert {t : VertexTable} {types : TypeTable}
    (h : t.WellFormed types) (v : Vertex) (ids : List TypeId) :
    (t.insert v ids).vacant = t.vacant := by
  have hlive : ∀ slot ∈ t.live, slot < t.rows.size := by
    intro slot hslot
    obtain ⟨w, hw⟩ := Option.isSome_iff_exists.1 ((h.mem_live slot).1 hslot)
    exact VertexTable.lt_size_of_get? hw
  unfold vacant size VertexTable.insert
  rw [SlotSet.size_insert hlive, Array.size_push]
  omega

theorem EdgeTable.WellFormed.vacant_insert {t : EdgeTable} {vertices : VertexTable}
    {types : TypeTable} (h : t.WellFormed vertices types) (e : Edge) (source target : Slot)
    (ids : List TypeId) : (t.insert vertices e source target ids).vacant = t.vacant := by
  unfold vacant size EdgeTable.insert
  rw [SlotSet.size_insert fun _ hs => h.lt_size_of_mem_live hs, Array.size_push]
  omega

namespace Graph

variable {g : Graph}

namespace WellFormed

theorem tombstones_addVertex (h : g.WellFormed) (v : Vertex) :
    (g.addVertex v).2.tombstones = g.tombstones := by
  cases hs : g.vertices.slot? v.id with
  | some slot => rw [addVertex_of_stored hs]
  | none =>
    rw [addVertex_of_new hs]
    exact congrArg (· + g.edges.vacant) (h.vertices.vacant_insert v.normalize _)

theorem tombstones_addEdge (h : g.WellFormed) (e : Edge) :
    (g.addEdge e).2.tombstones = g.tombstones := by
  rcases g.addEdge_cases e with heq | ⟨_, heq⟩ | ⟨source, target, -, -, -, heq⟩
  · rw [heq]
  · rw [heq]
  · rw [heq]
    exact congrArg (g.vertices.vacant + ·) (h.edges.vacant_insert e.normalize source target _)

end WellFormed

/-- No row of a graph that is built from lists is empty. -/
theorem tombstones_ofLists {vertices : List Vertex} {edges : List Edge}
    (hg : ofLists vertices edges = .ok g) : g.tombstones = 0 := by
  refine (ofLists_preserves (P := fun g => g.WellFormed ∧ g.tombstones = 0) ?empty ?vertex ?edge
    hg).2
  case empty => exact ⟨wellFormed_empty, rfl⟩
  case vertex =>
    rintro v g ⟨h, hnone⟩
    exact ⟨h.addVertex v, (h.tombstones_addVertex v).trans hnone⟩
  case edge =>
    rintro e g ⟨h, hnone⟩
    exact ⟨h.addEdge e, (h.tombstones_addEdge e).trans hnone⟩

end Graph

end PatternGraph
