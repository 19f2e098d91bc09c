import Mathlib.Data.List.Nodup
import PatternGraph.Proofs.Graph.Listing

/-!
# A graph behaves as its two lists

The two lists of a graph are all that a user can tell of it. `Listing.reply` says what an operation
gives back when all that is known are the lists; together with `Listing.apply` this is a plain model
of the graph, in which an id is found by going through the list. `Graph.Shows` says that every way to
read a graph gives what the lists give.

`Graph.refines_listing` is the result: over any history the graph gives back what the lists give
back, operation by operation, and is read as the lists are afterwards.
-/

namespace PatternGraph

/-- What an operation gives back. -/
inductive Reply where
  | vertexAdded (result : Except GraphError String)
  | edgeAdded (result : Except GraphError AddedEdge)
  | vertexRemoved (stored : Bool)
  | edgeRemoved (result : Except GraphError Bool)
  | compacted (result : Except GraphError Unit)

namespace Change

/-- What an operation gives back when it is done to a graph. -/
def reply : Change → Graph → Reply
  | addVertex v, g => .vertexAdded (g.addVertex v).1
  | addEdge e, g => .edgeAdded (g.addEdge e).1
  | removeVertex id, g => .vertexRemoved (g.removeVertex id).1
  | removeEdge text, g => .edgeRemoved (g.removeEdge text).1
  | compact, g => .compacted g.compact.1

/-- What some operations give back when they are done to a graph in a row. -/
def replies : List Change → Graph → List Reply
  | [], _ => []
  | c :: cs, g => c.reply g :: replies cs (c.apply g)

end Change

namespace Listing

/-- The ids of the vertices. -/
def vertexIds (l : Listing) : List String := l.vertices.map Vertex.id

/-- The ids of the edges. -/
def edgeIds (l : Listing) : List String := l.edges.map Edge.id

/-- What an operation gives back when it is done to the lists. -/
def reply : Change → Listing → Reply
  | .addVertex v, l =>
    .vertexAdded (if v.id ∈ l.vertexIds then .error (.duplicateVertex v.id) else .ok v.id)
  | .addEdge e, l =>
    let id := e.normalize.id
    .edgeAdded
      (if id ∈ l.edgeIds then .ok ⟨id, false⟩
      else if e.source ∉ l.vertexIds then .error (.danglingEdge id e.source)
      else if e.target ∉ l.vertexIds then .error (.danglingEdge id e.target)
      else .ok ⟨id, true⟩)
  | .removeVertex id, l => .vertexRemoved (decide (id ∈ l.vertexIds))
  | .removeEdge text, l =>
    .edgeRemoved
      (if text ∈ l.edgeIds then .ok true
      else match EdgeKey.parse text with
        | some key => .ok (decide (key.text ∈ l.edgeIds))
        | none => .error (.invalidEdgeId text))
  | .compact, _ => .compacted (.ok ())

/-- What some operations give back when they are done to the lists in a row. -/
def replies : List Change → Listing → List Reply
  | [], _ => []
  | c :: cs, l => l.reply c :: replies cs (l.apply c)

/-- The vertex of an id. -/
def vertex? (l : Listing) (id : String) : Option Vertex := l.vertices.find? fun v => v.id = id

/-- The edge of an id. -/
def edge? (l : Listing) (id : String) : Option Edge := l.edges.find? fun e => e.id = id

/-- No two vertices and no two edges have the same id, and the id of an edge spells its key. -/
structure Distinct (l : Listing) : Prop where
  vertexIds : l.vertexIds.Nodup
  edgeIds : l.edgeIds.Nodup
  edge_id : ∀ e ∈ l.edges, e.id = e.key.text

end Listing

/-- In a list without repeated ids, the member found by an id is the one that has it. -/
theorem find?_eq_some_iff_of_nodup {α : Type} {name : α → String} {as : List α}
    (h : (as.map name).Nodup) {id : String} {a : α} :
    (as.find? fun a => name a = id) = some a ↔ a ∈ as ∧ name a = id := by
  constructor
  · intro ha
    exact ⟨List.mem_of_find?_eq_some ha, by simpa using List.find?_some ha⟩
  · rintro ⟨ha, rfl⟩
    cases hfind : as.find? fun b => name b = name a with
    | none => exact absurd (decide_eq_true rfl) (List.find?_eq_none.1 hfind a ha)
    | some b =>
      have hb := List.mem_of_find?_eq_some hfind
      have hname : name b = name a := by simpa using List.find?_some hfind
      rw [List.inj_on_of_nodup_map h hb ha hname]

namespace Graph

/-- Every way to read a graph gives what two lists give. -/
structure Shows (g : Graph) (l : Listing) : Prop where
  allVertices : g.allVertices = l.vertices
  allEdges : g.allEdges = l.edges
  vertexCount : g.vertexCount = l.vertices.length
  edgeCount : g.edgeCount = l.edges.length
  derivedCount : g.derivedCount = l.edges.countP Edge.isDerived
  contains : ∀ id, g.contains id = true ↔ id ∈ l.vertexIds ∨ id ∈ l.edgeIds
  vertex? : ∀ id, g.vertex? id = l.vertex? id
  edge? : ∀ id, g.edge? id = l.edge? id
  verticesOf : ∀ ids, g.verticesOf ids = ids.filterMap l.vertex?
  edgesOf : ∀ ids, g.edgesOf ids = ids.filterMap l.edge?

namespace WellFormed

variable {g : Graph}

/-! ### What each operation gives back -/

theorem reply_addVertex (h : g.WellFormed) (v : Vertex) :
    (Change.addVertex v).reply g = g.listing.reply (.addVertex v) := by
  rw [Change.reply, Listing.reply]
  by_cases hv : v.id ∈ g.listing.vertexIds
  · obtain ⟨slot, hs⟩ := h.mem_vertexIds.1 hv
    rw [addVertex_of_stored hs, if_pos hv]
  · rw [addVertex_of_new (h.not_mem_vertexIds.1 hv), if_neg hv]

theorem reply_addEdge (h : g.WellFormed) (e : Edge) :
    (Change.addEdge e).reply g = g.listing.reply (.addEdge e) := by
  simp only [Change.reply, Listing.reply]
  by_cases he : e.normalize.id ∈ g.listing.edgeIds
  · obtain ⟨slot, hs⟩ := h.mem_edgeIds.1 he
    rw [addEdge_of_stored hs, if_pos he]
  have hnew := h.not_mem_edgeIds.1 he
  rw [if_neg he]
  by_cases hsource : e.source ∈ g.listing.vertexIds
  · obtain ⟨source, hs⟩ := h.mem_vertexIds.1 hsource
    rw [if_neg (not_not_intro hsource)]
    by_cases htarget : e.target ∈ g.listing.vertexIds
    · obtain ⟨target, ht⟩ := h.mem_vertexIds.1 htarget
      rw [addEdge_of_new hnew hs ht, if_neg (not_not_intro htarget)]
    · rw [addEdge_of_no_target hnew hs (h.not_mem_vertexIds.1 htarget), if_pos htarget]
  · rw [addEdge_of_no_source hnew (h.not_mem_vertexIds.1 hsource), if_pos hsource]

theorem reply_removeVertex (h : g.WellFormed) (id : String) :
    (Change.removeVertex id).reply g = g.listing.reply (.removeVertex id) := by
  rw [Change.reply, Listing.reply]
  by_cases hid : id ∈ g.listing.vertexIds
  · obtain ⟨slot, hs⟩ := h.mem_vertexIds.1 hid
    obtain ⟨v, hget, -, -⟩ := h.vertex?_of_slot? hs
    have hremoved : (g.removeVertex id).1 = true := by
      simp only [Graph.removeVertex, hs, vertices_foldl_eraseEdge, hget, Option.isSome_some]
    rw [hremoved, decide_eq_true hid]
  · rw [removeVertex_of_unknown (h.not_mem_vertexIds.1 hid), decide_eq_false hid]

/-- A slot that is looked up holds an edge, so taking it out is no void step. -/
theorem removeEdge_of_slot (h : g.WellFormed) {text id : String} {slot : Slot}
    (hs : g.edges.slot? id = some slot) (htext : g.edgeSlot? text = .ok (some slot)) :
    (g.removeEdge text).1 = .ok true := by
  obtain ⟨e, hget, -⟩ := h.edges.indexed.exists_get? hs
  simp only [Graph.removeEdge, htext, hget, Option.isSome_some]

theorem reply_removeEdge (h : g.WellFormed) (text : String) :
    (Change.removeEdge text).reply g = g.listing.reply (.removeEdge text) := by
  rw [Change.reply, Listing.reply]
  by_cases htext : text ∈ g.listing.edgeIds
  · obtain ⟨slot, hs⟩ := h.mem_edgeIds.1 htext
    have hslot : g.edgeSlot? text = .ok (some slot) := by simp only [edgeSlot?, hs]
    rw [if_pos htext, h.removeEdge_of_slot hs hslot]
  have hs := h.not_mem_edgeIds.1 htext
  rw [if_neg htext]
  cases hparse : EdgeKey.parse text with
  | none => simp only [Graph.removeEdge, edgeSlot?, hs, hparse]
  | some key =>
    by_cases hkey : key.text ∈ g.listing.edgeIds
    · obtain ⟨slot, hk⟩ := h.mem_edgeIds.1 hkey
      have hslot : g.edgeSlot? text = .ok (some slot) := by simp only [edgeSlot?, hs, hparse, hk]
      simp only [h.removeEdge_of_slot hk hslot, decide_eq_true hkey]
    · have hk := h.not_mem_edgeIds.1 hkey
      simp only [Graph.removeEdge, edgeSlot?, hs, hparse, hk, decide_eq_false hkey]

theorem reply_compact (h : g.WellFormed) :
    Change.compact.reply g = g.listing.reply .compact := by
  obtain ⟨g', hcompact, -, -⟩ := h.compact_spec
  rw [Change.reply, Listing.reply, hcompact]

theorem reply_eq (h : g.WellFormed) : (c : Change) → c.reply g = g.listing.reply c
  | .addVertex v => h.reply_addVertex v
  | .addEdge e => h.reply_addEdge e
  | .removeVertex id => h.reply_removeVertex id
  | .removeEdge text => h.reply_removeEdge text
  | .compact => h.reply_compact

theorem replies_eq (h : g.WellFormed) (changes : List Change) :
    Change.replies changes g = Listing.replies changes g.listing := by
  induction changes generalizing g with
  | nil => rfl
  | cons c changes ih =>
    rw [Change.replies, Listing.replies, h.reply_eq, ih (h.apply c), h.listing_apply]

/-! ### How the graph is read -/

theorem distinct_listing (h : g.WellFormed) : g.listing.Distinct where
  vertexIds := h.vertices.indexed.nodup_map g.vertices.live
  edgeIds := h.nodup_ids
  edge_id _ he := Edge.id_eq_text_of_normalize_eq (h.normalize_of_mem he)

theorem vertex?_eq_find? (h : g.WellFormed) (id : String) : g.vertex? id = g.listing.vertex? id := by
  refine Option.ext fun v => ?_
  rw [Listing.vertex?, find?_eq_some_iff_of_nodup h.distinct_listing.vertexIds]
  constructor
  · exact fun hv => ⟨h.mem_allVertices_of_vertex? hv, h.id_of_vertex? hv⟩
  · rintro ⟨hv, rfl⟩
    obtain ⟨slot, -, hget⟩ := List.mem_filterMap.1 hv
    exact vertex?_eq_some.2 ⟨slot, h.vertices.indexed.slot?_of_get? hget, hget⟩

theorem edge?_eq_find? (h : g.WellFormed) (id : String) : g.edge? id = g.listing.edge? id := by
  refine Option.ext fun e => ?_
  rw [Listing.edge?, find?_eq_some_iff_of_nodup h.distinct_listing.edgeIds]
  constructor
  · intro he
    obtain ⟨slot, hs, hget⟩ := edge?_eq_some.1 he
    obtain ⟨e', hget', hid⟩ := h.edges.indexed.exists_get? hs
    obtain rfl := Option.some.inj (hget.symm.trans hget')
    exact ⟨h.mem_allEdges.2 ⟨slot, hget⟩, hid⟩
  · rintro ⟨he, rfl⟩
    exact h.edge?_of_mem he

theorem derivedCount_eq (h : g.WellFormed) : g.derivedCount = g.allEdges.countP Edge.isDerived := by
  have hslots : g.edges.derived.toList =
      g.edges.live.toList.filter fun s => (g.edges.get? s).any Edge.isDerived := by
    refine SlotSet.toList_eq ((SlotSet.pairwise_toList _).filter _) fun s => ?_
    rw [List.mem_filter, SlotSet.mem_toList, h.edges.mem_live, h.edges.mem_derived]
    cases g.edges.get? s <;> simp
  rw [derivedCount, SlotSet.size, hslots, allEdges, List.countP_filterMap,
    ← List.countP_eq_length_filter]
  refine List.countP_congr fun s _ => ?_
  cases g.edges.get? s <;> simp

/-- A graph is read as its lists are. -/
theorem shows_listing (h : g.WellFormed) : g.Shows g.listing where
  allVertices := rfl
  allEdges := rfl
  vertexCount := (length_filterMap_live h.vertices.mem_live).symm
  edgeCount := (length_filterMap_live h.edges.mem_live).symm
  derivedCount := h.derivedCount_eq
  contains id := by
    rw [Graph.contains, Bool.or_eq_true, Option.isSome_iff_exists, Option.isSome_iff_exists]
    exact or_congr h.mem_vertexIds.symm h.mem_edgeIds.symm
  vertex? := h.vertex?_eq_find?
  edge? := h.edge?_eq_find?
  verticesOf ids := List.filterMap_congr fun id _ => h.vertex?_eq_find? id
  edgesOf ids := List.filterMap_congr fun id _ => h.edge?_eq_find? id

end WellFormed

/-- Over any history a graph gives back what two plain lists give back, and is read as the lists are
afterwards; the lists hold no id twice. -/
theorem refines_listing (changes : List Change) :
    Change.replies changes ∅ = Listing.replies changes {} ∧ (Listing.after changes).Distinct ∧
      (after changes).Shows (Listing.after changes) := by
  have h := wellFormed_after changes
  rw [← listing_after changes]
  exact ⟨wellFormed_empty.replies_eq changes, h.distinct_listing, h.shows_listing⟩

end Graph

end PatternGraph
