import PatternGraph.Proofs.Graph.Stored

/-!
# A graph as two lists

What a graph stores is two lists, of its vertices and of its edges, in the order in which they were
put in. `Listing.apply` says what each operation makes of the lists, without slots, numbers of types
and indexes; `Graph.listing_after` says that the graph of a history has the lists of that history.

An operation that is refused leaves the lists as they are. `compact` is never refused and leaves them
as they are, too.
-/

namespace PatternGraph

/-- Vertices and edges in the order in which they were put in. -/
structure Listing where
  vertices : List Vertex := []
  edges : List Edge := []

namespace Listing

/-- The id of the edge that a text denotes: the text, if an edge has it as its id, and else the id
that it spells. -/
def edgeId (l : Listing) (text : String) : String :=
  if text ∈ l.edges.map Edge.id then text else ((EdgeKey.parse text).map EdgeKey.text).getD text

/-- What an operation makes of the lists. -/
def apply : Change → Listing → Listing
  | .addVertex v, l =>
    if v.id ∈ l.vertices.map Vertex.id then l else { l with vertices := l.vertices ++ [v.normalize] }
  | .addEdge e, l =>
    if e.normalize.id ∉ l.edges.map Edge.id ∧ e.source ∈ l.vertices.map Vertex.id ∧
        e.target ∈ l.vertices.map Vertex.id then
      { l with edges := l.edges ++ [e.normalize] }
    else l
  | .removeVertex id, l =>
    { vertices := l.vertices.filter fun v => v.id ≠ id
      edges := l.edges.filter fun e => e.source ≠ id ∧ e.target ≠ id }
  | .removeEdge text, l => { l with edges := l.edges.filter fun e => e.id ≠ l.edgeId text }
  | .compact, l => l

/-- The lists after some operations in a row, the first of them on empty lists. -/
def after (changes : List Change) : Listing := changes.foldl (fun l c => l.apply c) {}

end Listing

namespace Graph

/-- The vertices and the edges of a graph. -/
def listing (g : Graph) : Listing := ⟨g.allVertices, g.allEdges⟩

namespace WellFormed

variable {g : Graph}

/-! ### What is listed is looked up -/

theorem mem_vertexIds (h : g.WellFormed) {id : String} :
    id ∈ g.allVertices.map Vertex.id ↔ ∃ slot, g.vertices.slot? id = some slot := by
  rw [List.mem_map]
  constructor
  · rintro ⟨v, hv, rfl⟩
    obtain ⟨slot, -, hget⟩ := List.mem_filterMap.1 hv
    exact ⟨slot, h.vertices.indexed.slot?_of_get? hget⟩
  · rintro ⟨slot, hs⟩
    obtain ⟨v, -, hid, hv⟩ := h.vertex?_of_slot? hs
    exact ⟨v, h.mem_allVertices_of_vertex? hv, hid⟩

theorem not_mem_vertexIds (h : g.WellFormed) {id : String} :
    id ∉ g.allVertices.map Vertex.id ↔ g.vertices.slot? id = none := by
  rw [h.mem_vertexIds, Option.eq_none_iff_forall_ne_some, not_exists]

theorem mem_edgeIds (h : g.WellFormed) {id : String} :
    id ∈ g.allEdges.map Edge.id ↔ ∃ slot, g.edges.slot? id = some slot := by
  rw [List.mem_map]
  constructor
  · rintro ⟨e, he, rfl⟩
    obtain ⟨slot, hget⟩ := h.mem_allEdges.1 he
    exact ⟨slot, h.edges.indexed.slot?_of_get? hget⟩
  · rintro ⟨slot, hs⟩
    obtain ⟨e, hget, hid⟩ := h.edges.indexed.exists_get? hs
    exact ⟨e, h.mem_allEdges.2 ⟨slot, hget⟩, hid⟩

theorem not_mem_edgeIds (h : g.WellFormed) {id : String} :
    id ∉ g.allEdges.map Edge.id ↔ g.edges.slot? id = none := by
  rw [h.mem_edgeIds, Option.eq_none_iff_forall_ne_some, not_exists]

/-! ### What each operation does to the lists -/

theorem listing_addVertex (h : g.WellFormed) (v : Vertex) :
    (g.addVertex v).2.listing = g.listing.apply (.addVertex v) := by
  rw [Listing.apply]
  by_cases hv : v.id ∈ g.allVertices.map Vertex.id
  · obtain ⟨slot, hs⟩ := h.mem_vertexIds.1 hv
    rw [addVertex_of_stored hs]
    exact (if_pos hv).symm
  · rw [addVertex_of_new (h.not_mem_vertexIds.1 hv), listing, h.allVertices_withVertex]
    exact (if_neg hv).symm

theorem listing_addEdge (h : g.WellFormed) (e : Edge) :
    (g.addEdge e).2.listing = g.listing.apply (.addEdge e) := by
  rw [Listing.apply]
  by_cases he : e.normalize.id ∈ g.allEdges.map Edge.id
  · obtain ⟨slot, hs⟩ := h.mem_edgeIds.1 he
    rw [addEdge_of_stored hs]
    exact (if_neg fun hc => hc.1 he).symm
  have hnew := h.not_mem_edgeIds.1 he
  by_cases hsource : e.source ∈ g.allVertices.map Vertex.id
  · obtain ⟨source, hs⟩ := h.mem_vertexIds.1 hsource
    by_cases htarget : e.target ∈ g.allVertices.map Vertex.id
    · obtain ⟨target, ht⟩ := h.mem_vertexIds.1 htarget
      rw [addEdge_of_new hnew hs ht, listing, h.allEdges_withEdge]
      exact (if_pos ⟨he, hsource, htarget⟩).symm
    · rw [addEdge_of_no_target hnew hs (h.not_mem_vertexIds.1 htarget)]
      exact (if_neg fun hc => htarget hc.2.2).symm
  · rw [addEdge_of_no_source hnew (h.not_mem_vertexIds.1 hsource)]
    exact (if_neg fun hc => hsource hc.2.1).symm

/-- The vertices that are left when some are taken out. -/
theorem allVertices_eq_filter {g' : Graph} (h : g.WellFormed) (h' : g'.WellFormed) {p : Vertex → Bool}
    (hget : ∀ s, g'.vertices.get? s = (g.vertices.get? s).filter p) :
    g'.allVertices = g.allVertices.filter p :=
  filterMap_toList_filter h.vertices.mem_live h'.vertices.mem_live hget

/-- The edges that are left when some are taken out. -/
theorem allEdges_eq_filter {g' : Graph} (h : g.WellFormed) (h' : g'.WellFormed) {p : Edge → Bool}
    (hget : ∀ s, g'.edges.get? s = (g.edges.get? s).filter p) :
    g'.allEdges = g.allEdges.filter p :=
  filterMap_toList_filter h.edges.mem_live h'.edges.mem_live hget

/-- Taking out the edge of an id. -/
theorem allEdges_eraseEdge (h : g.WellFormed) {id : String} {slot : Slot}
    (hs : g.edges.slot? id = some slot) :
    (g.eraseEdge slot).allEdges = g.allEdges.filter fun e => e.id ≠ id := by
  refine h.allEdges_eq_filter (h.eraseEdge slot) fun s => ?_
  have hget : (g.eraseEdge slot).edges.get? s = if s = slot then none else g.edges.get? s :=
    h.edges.get?_erase slot s
  rw [hget]
  exact h.edges.indexed.get?_of_emptied hs s

/-- There is no edge of the id to take out. -/
theorem filter_id_of_slot?_none (h : g.WellFormed) {id : String} (hs : g.edges.slot? id = none) :
    (g.allEdges.filter fun e => e.id ≠ id) = g.allEdges := by
  refine List.filter_eq_self.2 fun e he => decide_eq_true fun hid => ?_
  exact h.not_mem_edgeIds.2 hs (hid ▸ List.mem_map_of_mem he)

theorem listing_removeEdge (h : g.WellFormed) (text : String) :
    (g.removeEdge text).2.listing = g.listing.apply (.removeEdge text) := by
  rw [Listing.apply]
  by_cases htext : text ∈ g.allEdges.map Edge.id
  · obtain ⟨slot, hs⟩ := h.mem_edgeIds.1 htext
    have hremove : (g.removeEdge text).2 = g.eraseEdge slot := by
      simp only [Graph.removeEdge, edgeSlot?, hs]
    rw [hremove, show g.listing.edgeId text = text from if_pos htext, listing,
      h.allEdges_eraseEdge hs]
    rfl
  · have hs := h.not_mem_edgeIds.1 htext
    rw [show g.listing.edgeId text = ((EdgeKey.parse text).map EdgeKey.text).getD text from
      if_neg htext]
    cases hparse : EdgeKey.parse text with
    | none =>
      have hremove : (g.removeEdge text).2 = g := by
        simp only [Graph.removeEdge, edgeSlot?, hs, hparse]
      rw [hremove, Option.map_none, Option.getD_none]
      exact congrArg (Listing.mk _) (h.filter_id_of_slot?_none hs).symm
    | some key =>
      rw [Option.map_some, Option.getD_some]
      cases hkey : g.edges.slot? key.text with
      | none =>
        have hremove : (g.removeEdge text).2 = g := by
          simp only [Graph.removeEdge, edgeSlot?, hs, hparse, hkey]
        rw [hremove]
        exact congrArg (Listing.mk _) (h.filter_id_of_slot?_none hkey).symm
      | some slot =>
        have hremove : (g.removeEdge text).2 = g.eraseEdge slot := by
          simp only [Graph.removeEdge, edgeSlot?, hs, hparse, hkey]
        rw [hremove, listing, h.allEdges_eraseEdge hkey]
        rfl

/-- The edges at the vertex of an id are those that have the id as one of their ends. -/
theorem mem_incident_iff (h : g.WellFormed) {id : String} {vertex slot : Slot} {e : Edge}
    (hv : g.vertices.slot? id = some vertex) (he : g.edges.get? slot = some e) :
    slot ∈ g.incident vertex ↔ e.source = id ∨ e.target = id := by
  obtain ⟨source, target, hends, hsource, htarget⟩ := h.edges.exists_ends? he
  have hlive : slot ∈ g.edges.live := (h.edges.mem_live slot).2 (by rw [he]; rfl)
  rw [h.mem_incident, EdgeTable.source?, EdgeTable.target?, hends, and_iff_right hlive]
  simp only [Option.map_some, Option.some.injEq]
  exact or_congr (h.vertices.indexed.slot_eq_iff hsource hv)
    (h.vertices.indexed.slot_eq_iff htarget hv)

theorem get?_vertices_eraseVertex (g : Graph) (vertex slot : Slot) :
    (g.eraseVertex vertex).vertices.get? slot =
      if slot = vertex then none else g.vertices.get? slot := VertexTable.get?_erase _ vertex slot

theorem get?_edges_eraseVertex (g : Graph) (vertex slot : Slot) :
    (g.eraseVertex vertex).edges.get? slot = g.edges.get? slot := rfl

theorem listing_removeVertex (h : g.WellFormed) (id : String) :
    (g.removeVertex id).2.listing = g.listing.apply (.removeVertex id) := by
  rw [Listing.apply]
  cases hs : g.vertices.slot? id with
  | none =>
    have hvertices : (g.allVertices.filter fun v => v.id ≠ id) = g.allVertices := by
      refine List.filter_eq_self.2 fun v hv => decide_eq_true fun hid => ?_
      exact h.not_mem_vertexIds.2 hs (hid ▸ List.mem_map_of_mem hv)
    have hedges : (g.allEdges.filter fun e => e.source ≠ id ∧ e.target ≠ id) = g.allEdges := by
      refine List.filter_eq_self.2 fun e he => decide_eq_true ?_
      obtain ⟨v, w, hv, hw⟩ := h.exists_ends he
      obtain ⟨source, hsource, -⟩ := vertex?_eq_some.1 hv
      obtain ⟨target, htarget, -⟩ := vertex?_eq_some.1 hw
      refine ⟨fun hid => ?_, fun hid => ?_⟩
      · rw [hid, hs] at hsource
        exact absurd hsource nofun
      · rw [hid, hs] at htarget
        exact absurd htarget nofun
    rw [removeVertex_of_unknown hs]
    exact (congrArg₂ Listing.mk hvertices hedges).symm
  | some slot =>
    have hwf := h.removeVertex id
    rw [removeVertex_of_stored hs] at hwf ⊢
    have hvertices : (((g.incident slot).foldl Graph.eraseEdge g).eraseVertex slot).allVertices =
        g.allVertices.filter fun v => v.id ≠ id := by
      refine h.allVertices_eq_filter hwf fun s => ?_
      rw [get?_vertices_eraseVertex, vertices_foldl_eraseEdge]
      exact h.vertices.indexed.get?_of_emptied hs s
    have hedges : (((g.incident slot).foldl Graph.eraseEdge g).eraseVertex slot).allEdges =
        g.allEdges.filter fun e => e.source ≠ id ∧ e.target ≠ id := by
      refine h.allEdges_eq_filter hwf fun s => ?_
      rw [get?_edges_eraseVertex, h.get?_foldl_eraseEdge]
      cases he : g.edges.get? s with
      | none => simp
      | some e =>
        simp only [h.mem_incident_iff hs he, Option.filter_some, decide_eq_true_eq, ← not_or, ite_not]
    exact congrArg₂ Listing.mk hvertices hedges

/-! ### Building a graph from lists -/

/-- New vertices are added in their order. -/
theorem addVertices_spec (h : g.WellFormed) {vertices : List Vertex}
    (hnormal : ∀ v ∈ vertices, v.normalize = v) (hnodup : (vertices.map Vertex.id).Nodup)
    (hnew : ∀ v ∈ vertices, v.id ∉ g.allVertices.map Vertex.id) :
    ∃ ids g', addVertices vertices g = (.ok ids, g') ∧ g'.WellFormed ∧
      g'.listing = ⟨g.allVertices ++ vertices, g.allEdges⟩ := by
  induction vertices generalizing g with
  | nil => exact ⟨[], g, rfl, h, by rw [List.append_nil]; rfl⟩
  | cons v vertices ih =>
    obtain ⟨hv, hvertices⟩ := List.forall_mem_cons.1 hnormal
    obtain ⟨hfresh, hrest⟩ := List.nodup_cons.1 hnodup
    obtain ⟨hnewv, hnewvertices⟩ := List.forall_mem_cons.1 hnew
    have hslot := h.not_mem_vertexIds.1 hnewv
    have hadd := addVertex_of_new hslot
    rw [hv] at hadd
    obtain ⟨ids, g', hrun, hwf, hlist⟩ := ih (h.withVertex hslot hv) hvertices hrest fun w hw => by
      rw [h.allVertices_withVertex, List.map_append, List.mem_append, not_or]
      refine ⟨hnewvertices w hw, fun hid => hfresh ?_⟩
      exact List.mem_singleton.1 hid ▸ List.mem_map_of_mem hw
    refine ⟨v.id :: ids, g', ?_, hwf, ?_⟩
    · rw [addVertices] at hrun ⊢
      rw [Action.forEach, hadd]
      simp only [hrun]
    · rw [hlist, h.allVertices_withVertex, List.append_assoc]
      rfl

/-- New edges between stored vertices are added in their order. -/
theorem addEdges_spec (h : g.WellFormed) {edges : List Edge}
    (hnormal : ∀ e ∈ edges, e.normalize = e) (hnodup : (edges.map Edge.id).Nodup)
    (hnew : ∀ e ∈ edges, e.id ∉ g.allEdges.map Edge.id)
    (hends : ∀ e ∈ edges, e.source ∈ g.allVertices.map Vertex.id ∧
      e.target ∈ g.allVertices.map Vertex.id) :
    ∃ added g', addEdges edges g = (.ok added, g') ∧ g'.WellFormed ∧
      g'.listing = ⟨g.allVertices, g.allEdges ++ edges⟩ := by
  induction edges generalizing g with
  | nil => exact ⟨[], g, rfl, h, by rw [List.append_nil]; rfl⟩
  | cons e edges ih =>
    obtain ⟨he, hedges⟩ := List.forall_mem_cons.1 hnormal
    obtain ⟨hfresh, hrest⟩ := List.nodup_cons.1 hnodup
    obtain ⟨hnewe, hnewedges⟩ := List.forall_mem_cons.1 hnew
    obtain ⟨⟨hsource, htarget⟩, hendsedges⟩ := List.forall_mem_cons.1 hends
    obtain ⟨source, hs⟩ := h.mem_vertexIds.1 hsource
    obtain ⟨target, ht⟩ := h.mem_vertexIds.1 htarget
    have hslot := h.not_mem_edgeIds.1 hnewe
    have hadd := addEdge_of_new (he.symm ▸ hslot) hs ht
    rw [he] at hadd
    obtain ⟨added, g', hrun, hwf, hlist⟩ := ih (h.withEdge hslot he hs ht) hedges hrest
      (fun e' he' => by
        rw [h.allEdges_withEdge, List.map_append, List.mem_append, not_or]
        refine ⟨hnewedges e' he', fun hid => hfresh ?_⟩
        exact List.mem_singleton.1 hid ▸ List.mem_map_of_mem he')
      hendsedges
    refine ⟨⟨e.id, true⟩ :: added, g', ?_, hwf, ?_⟩
    · rw [addEdges] at hrun ⊢
      rw [Action.forEach, hadd]
      simp only [hrun]
    · rw [hlist, h.allEdges_withEdge, List.append_assoc]
      rfl

theorem normalize_of_mem_allVertices (h : g.WellFormed) {v : Vertex} (hv : v ∈ g.allVertices) :
    v.normalize = v := by
  obtain ⟨slot, -, hget⟩ := List.mem_filterMap.1 hv
  exact h.vertices.normalize_eq slot v hget

/-- What is stored is not refused when a graph is built from it, and it is listed as before. -/
theorem ofLists_spec (h : g.WellFormed) :
    ∃ g', Graph.ofLists g.allVertices g.allEdges = .ok g' ∧ g'.WellFormed ∧ g'.listing = g.listing := by
  obtain ⟨ids, filled, hvertices, hfilled, hlist⟩ := wellFormed_empty.addVertices_spec
    (fun v hv => h.normalize_of_mem_allVertices hv) (h.vertices.indexed.nodup_map g.vertices.live)
    fun v _ => List.not_mem_nil
  have hstored : filled.allVertices = g.allVertices := congrArg Listing.vertices hlist
  have hends : ∀ e ∈ g.allEdges, e.source ∈ filled.allVertices.map Vertex.id ∧
      e.target ∈ filled.allVertices.map Vertex.id := by
    intro e he
    obtain ⟨v, w, hv, hw⟩ := h.exists_ends he
    rw [hstored, h.mem_vertexIds, h.mem_vertexIds]
    obtain ⟨source, hsource, -⟩ := vertex?_eq_some.1 hv
    obtain ⟨target, htarget, -⟩ := vertex?_eq_some.1 hw
    exact ⟨⟨source, hsource⟩, ⟨target, htarget⟩⟩
  have hempty : filled.allEdges = [] := congrArg Listing.edges hlist
  obtain ⟨added, g', hedges, hwf, hlist'⟩ := hfilled.addEdges_spec
    (fun e he => h.normalize_of_mem he) h.nodup_ids
    (fun e _ => by rw [hempty]; exact List.not_mem_nil) hends
  refine ⟨g', ?_, hwf, ?_⟩
  · simp only [Graph.ofLists, hvertices, hedges, bind, Except.bind]
    rfl
  · rw [hlist', hstored, hempty]
    rfl

/-- The graph is built anew without fail, and is listed as before. -/
theorem compact_spec (h : g.WellFormed) :
    ∃ g', g.compact = (.ok (), g') ∧ g'.WellFormed ∧ g'.listing = g.listing := by
  obtain ⟨g', hrebuilt, hwf, hlist⟩ := h.ofLists_spec
  exact ⟨g', by rw [Graph.compact, hrebuilt], hwf, hlist⟩

theorem listing_compact (h : g.WellFormed) :
    g.compact.2.listing = g.listing.apply .compact := by
  obtain ⟨g', hcompact, -, hlist⟩ := h.compact_spec
  rw [hcompact]
  exact hlist

theorem listing_apply (h : g.WellFormed) :
    (c : Change) → (c.apply g).listing = g.listing.apply c
  | .addVertex v => h.listing_addVertex v
  | .addEdge e => h.listing_addEdge e
  | .removeVertex id => h.listing_removeVertex id
  | .removeEdge text => h.listing_removeEdge text
  | .compact => h.listing_compact

end WellFormed

/-- The graph of a history has the lists of that history. -/
theorem listing_after (changes : List Change) : (after changes).listing = Listing.after changes := by
  suffices h : ∀ g : Graph, g.WellFormed → (changes.foldl (fun g c => c.apply g) g).listing =
      changes.foldl (fun l c => l.apply c) g.listing from h ∅ wellFormed_empty
  induction changes with
  | nil => exact fun _ _ => rfl
  | cons c changes ih =>
    intro g h
    rw [List.foldl_cons, List.foldl_cons, ih _ (h.apply c), h.listing_apply]

end Graph

end PatternGraph
