import PatternGraph.Proofs.Graph.History

/-!
# What a graph stores

A well-formed graph seen from the outside: by the ids of its vertices and by the list of its edges,
without slots. Every stored edge is found under its id and has both its ends stored, so a reader who
knows the edges in order and the vertex of each id knows the whole graph.
-/

namespace PatternGraph.Graph

variable {g : Graph}

theorem vertex?_eq_some {id : String} {v : Vertex} :
    g.vertex? id = some v ↔
      ∃ slot, g.vertices.slot? id = some slot ∧ g.vertices.get? slot = some v := by
  rw [vertex?]
  exact Option.bind_eq_some_iff

theorem edge?_eq_some {id : String} {e : Edge} :
    g.edge? id = some e ↔ ∃ slot, g.edges.slot? id = some slot ∧ g.edges.get? slot = some e := by
  rw [edge?]
  exact Option.bind_eq_some_iff

namespace WellFormed

theorem vertex?_of_slot? (h : g.WellFormed) {id : String} {slot : Slot}
    (hs : g.vertices.slot? id = some slot) :
    ∃ v, g.vertices.get? slot = some v ∧ v.id = id ∧ g.vertex? id = some v := by
  obtain ⟨v, hv, hid⟩ := h.vertices.indexed.exists_get? hs
  exact ⟨v, hv, hid, vertex?_eq_some.2 ⟨slot, hs, hv⟩⟩

theorem id_of_vertex? (h : g.WellFormed) {id : String} {v : Vertex} (hv : g.vertex? id = some v) :
    v.id = id := by
  obtain ⟨slot, hs, hget⟩ := vertex?_eq_some.1 hv
  obtain ⟨w, hw, hid⟩ := h.vertices.indexed.exists_get? hs
  obtain rfl := Option.some.inj (hget.symm.trans hw)
  exact hid

theorem mem_allVertices_of_vertex? (h : g.WellFormed) {id : String} {v : Vertex}
    (hv : g.vertex? id = some v) : v ∈ g.allVertices := by
  obtain ⟨slot, -, hget⟩ := vertex?_eq_some.1 hv
  have hlive : slot ∈ g.vertices.live := (h.vertices.mem_live slot).2 (by rw [hget]; rfl)
  exact List.mem_filterMap.2 ⟨slot, SlotSet.mem_toList.2 hlive, hget⟩

theorem mem_allEdges (h : g.WellFormed) {e : Edge} :
    e ∈ g.allEdges ↔ ∃ slot, g.edges.get? slot = some e := by
  rw [allEdges, List.mem_filterMap]
  refine exists_congr fun slot => ?_
  refine and_iff_right_of_imp fun he => SlotSet.mem_toList.2 ((h.edges.mem_live slot).2 ?_)
  rw [he]
  rfl

/-- The two vertices of an edge are stored. -/
theorem exists_ends (h : g.WellFormed) {e : Edge} (he : e ∈ g.allEdges) :
    ∃ v w, g.vertex? e.source = some v ∧ g.vertex? e.target = some w := by
  obtain ⟨slot, hslot⟩ := h.mem_allEdges.1 he
  obtain ⟨source, target, -, hsource, htarget⟩ := h.edges.exists_ends? hslot
  obtain ⟨v, -, -, hv⟩ := h.vertex?_of_slot? hsource
  obtain ⟨w, -, -, hw⟩ := h.vertex?_of_slot? htarget
  exact ⟨v, w, hv, hw⟩

theorem edge?_of_mem (h : g.WellFormed) {e : Edge} (he : e ∈ g.allEdges) : g.edge? e.id = some e := by
  obtain ⟨slot, hslot⟩ := h.mem_allEdges.1 he
  exact edge?_eq_some.2 ⟨slot, h.edges.indexed.slot?_of_get? hslot, hslot⟩

theorem normalize_of_mem (h : g.WellFormed) {e : Edge} (he : e ∈ g.allEdges) : e.normalize = e := by
  obtain ⟨slot, hslot⟩ := h.mem_allEdges.1 he
  exact h.edges.normalize_eq slot e hslot

/-- Two edges of one id are the same edge. -/
theorem eq_of_id_eq (h : g.WellFormed) {e e' : Edge} (he : e ∈ g.allEdges) (he' : e' ∈ g.allEdges)
    (hid : e.id = e'.id) : e = e' := by
  have hlookup := h.edge?_of_mem he
  rw [hid, h.edge?_of_mem he'] at hlookup
  exact (Option.some.inj hlookup).symm

/-- The edges are listed without repetition, even by their ids. -/
theorem nodup_ids (h : g.WellFormed) : (g.allEdges.map Edge.id).Nodup :=
  h.edges.indexed.nodup_map g.edges.live

/-- A new vertex comes last. -/
theorem allVertices_withVertex (h : g.WellFormed) (v : Vertex) :
    (g.withVertex v).allVertices = g.allVertices ++ [v] := by
  refine filterMap_toList_insert (fun s hs => ?_) (VertexTable.get?_insert g.vertices v _)
  obtain ⟨w, hw⟩ := Option.isSome_iff_exists.1 ((h.vertices.mem_live s).1 hs)
  exact VertexTable.lt_size_of_get? hw

/-- A new edge comes last. -/
theorem allEdges_withEdge (h : g.WellFormed) (e : Edge) (source target : Slot) :
    (g.withEdge e source target).allEdges = g.allEdges ++ [e] :=
  filterMap_toList_insert (fun _ hs => h.edges.lt_size_of_mem_live hs)
    (EdgeTable.get?_insert g.edges g.vertices e source target _)

theorem nodup_allEdges (h : g.WellFormed) : g.allEdges.Nodup :=
  (List.pairwise_map.1 h.nodup_ids).imp fun hne e => hne (congrArg Edge.id e)

end WellFormed

end PatternGraph.Graph
