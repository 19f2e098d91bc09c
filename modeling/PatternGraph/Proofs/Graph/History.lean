import PatternGraph.Graph.Basic
import PatternGraph.Proofs.Graph.EdgeTable

/-!
# Histories of a graph

A `Change` is one of the operations that change a graph, and `Graph.after` gives the graph after any
changes in a row, beginning with the empty one; a change that is refused counts as well.

One lemma for each operation says what it does to the graph, case by case. From these follows that
every graph of a history is well-formed: its tables agree with their rows and with each other.
-/

namespace PatternGraph

/-- An operation that changes a graph. -/
inductive Change where
  | addVertex (v : Vertex)
  | addEdge (e : Edge)
  | removeVertex (id : String)
  | removeEdge (id : String)
  | compact

/-- The graph after an operation, be it done or refused. -/
def Change.apply : Change → Graph → Graph
  | addVertex v, g => (g.addVertex v).2
  | addEdge e, g => (g.addEdge e).2
  | removeVertex id, g => (g.removeVertex id).2
  | removeEdge id, g => (g.removeEdge id).2
  | compact, g => g.compact.2

/-- What each step of an action keeps is kept when it is run for the members of a list. -/
theorem Action.forEach_preserves {σ α β : Type} {P : σ → Prop} {step : α → Action σ β}
    (hstep : ∀ a s, P s → P (step a s).2) (as : List α) {s : σ} (h : P s) :
    P (Action.forEach step as s).2 := by
  induction as generalizing s with
  | nil => exact h
  | cons a as ih =>
    have ha := hstep a s h
    rw [Action.forEach]
    split
    · next e s' heq => rwa [heq] at ha
    · next b s' heq =>
      rw [heq] at ha
      have has := ih ha
      split
      · next e s'' heq' => rwa [heq'] at has
      · next bs s'' heq' => rwa [heq'] at has

namespace Graph

/-- The graph after some operations in a row, the first of them on the empty graph. -/
def after (changes : List Change) : Graph := changes.foldl (fun g c => c.apply g) ∅

/-- The tables agree with their rows and with each other. -/
structure WellFormed (g : Graph) : Prop where
  types : g.types.Faithful
  vertices : g.vertices.WellFormed g.types
  edges : g.edges.WellFormed g.vertices g.types

/-! ### What each operation does -/

/-- The graph with one more vertex. -/
def withVertex (g : Graph) (v : Vertex) : Graph :=
  let interned := g.types.internAll v.types.names
  { g with types := interned.2, vertices := g.vertices.insert v interned.1 }

/-- The graph with one more edge, between the vertices at two slots. -/
def withEdge (g : Graph) (e : Edge) (source target : Slot) : Graph :=
  let interned := g.types.internAll e.types.names
  { g with
    types := interned.2
    edges := g.edges.insert g.vertices e source target interned.1 }

variable {g : Graph}

/-- What holds of the empty graph and is kept by adding vertices and edges holds of a graph that is
built from lists. -/
theorem ofLists_preserves {P : Graph → Prop} (hempty : P ∅)
    (hvertex : ∀ v g, P g → P (g.addVertex v).2) (hedge : ∀ e g, P g → P (g.addEdge e).2)
    {vertices : List Vertex} {edges : List Edge} (hg : ofLists vertices edges = .ok g) : P g := by
  have hvertices : P (addVertices vertices ∅).2 := Action.forEach_preserves hvertex vertices hempty
  have hedges : P (addEdges edges (addVertices vertices ∅).2).2 :=
    Action.forEach_preserves hedge edges hvertices
  simp only [ofLists, bind, Except.bind] at hg
  split at hg
  · exact absurd hg nofun
  · split at hg
    · exact absurd hg nofun
    · exact Except.ok.inj hg ▸ hedges

theorem addVertex_of_stored {v : Vertex} {slot : Slot} (h : g.vertices.slot? v.id = some slot) :
    g.addVertex v = (.error (.duplicateVertex v.id), g) := by
  simp [addVertex, h]

theorem addVertex_of_new {v : Vertex} (h : g.vertices.slot? v.id = none) :
    g.addVertex v = (.ok v.id, g.withVertex v.normalize) := by
  simp [addVertex, h, withVertex]

theorem addEdge_of_stored {e : Edge} {slot : Slot}
    (h : g.edges.slot? e.normalize.id = some slot) :
    g.addEdge e = (.ok ⟨e.normalize.id, false⟩, g) := by
  simp [addEdge, h]

theorem addEdge_of_no_source {e : Edge} (h : g.edges.slot? e.normalize.id = none)
    (hsource : g.vertices.slot? e.source = none) :
    g.addEdge e = (.error (.danglingEdge e.normalize.id e.source), g) := by
  simp [addEdge, h, hsource]

theorem addEdge_of_no_target {e : Edge} {source : Slot} (h : g.edges.slot? e.normalize.id = none)
    (hsource : g.vertices.slot? e.source = some source)
    (htarget : g.vertices.slot? e.target = none) :
    g.addEdge e = (.error (.danglingEdge e.normalize.id e.target), g) := by
  simp [addEdge, h, hsource, htarget]

theorem addEdge_of_new {e : Edge} {source target : Slot} (h : g.edges.slot? e.normalize.id = none)
    (hsource : g.vertices.slot? e.source = some source)
    (htarget : g.vertices.slot? e.target = some target) :
    g.addEdge e = (.ok ⟨e.normalize.id, true⟩, g.withEdge e.normalize source target) := by
  simp [addEdge, h, hsource, htarget, withEdge]

/-- An edge is stored already, is refused, or is new between two stored vertices. -/
theorem addEdge_cases (g : Graph) (e : Edge) :
    g.addEdge e = (.ok ⟨e.normalize.id, false⟩, g) ∨ (∃ error, g.addEdge e = (.error error, g)) ∨
      ∃ source target, g.edges.slot? e.normalize.id = none ∧
        g.vertices.slot? e.source = some source ∧ g.vertices.slot? e.target = some target ∧
        g.addEdge e = (.ok ⟨e.normalize.id, true⟩, g.withEdge e.normalize source target) := by
  cases hslot : g.edges.slot? e.normalize.id with
  | some slot => exact .inl (addEdge_of_stored hslot)
  | none =>
    cases hsource : g.vertices.slot? e.source with
    | none => exact .inr (.inl ⟨_, addEdge_of_no_source hslot hsource⟩)
    | some source =>
      cases htarget : g.vertices.slot? e.target with
      | none => exact .inr (.inl ⟨_, addEdge_of_no_target hslot hsource htarget⟩)
      | some target =>
        exact .inr (.inr ⟨source, target, rfl, rfl, rfl, addEdge_of_new hslot hsource htarget⟩)

theorem removeEdge_cases (g : Graph) (id : String) :
    (g.removeEdge id).2 = g ∨ ∃ slot, (g.removeEdge id).2 = g.eraseEdge slot := by
  rw [removeEdge]
  split
  · exact .inl rfl
  · exact .inl rfl
  · next slot _ => exact .inr ⟨slot, rfl⟩

/-- The edges at a vertex. -/
def incident (g : Graph) (slot : Slot) : List Slot :=
  (SlotSet.ofList (g.edges.outbound.lookup slot ++ g.edges.inbound.lookup slot)).toList

/-- The graph without the vertex at a slot, whose edges have been taken out. -/
def eraseVertex (g : Graph) (slot : Slot) : Graph :=
  { g with vertices := g.vertices.erase slot, edges := g.edges.clear slot }

theorem removeVertex_of_unknown {id : String} (h : g.vertices.slot? id = none) :
    g.removeVertex id = (false, g) := by
  simp [removeVertex, h]

theorem removeVertex_of_stored {id : String} {slot : Slot} (h : g.vertices.slot? id = some slot) :
    (g.removeVertex id).2 = ((g.incident slot).foldl eraseEdge g).eraseVertex slot := by
  simp [removeVertex, h, incident, eraseVertex]

theorem compact_cases (g : Graph) :
    g.compact.2 = g ∨ ∃ vertices edges, ofLists vertices edges = .ok g.compact.2 := by
  rw [compact]
  split
  · next rebuilt h => exact .inr ⟨_, _, h⟩
  · exact .inl rfl

/-! ### Every operation keeps a graph well-formed -/

theorem wellFormed_empty : (∅ : Graph).WellFormed :=
  ⟨TypeTable.faithful_empty, .empty _, .empty _ _⟩

namespace WellFormed

theorem withVertex (h : g.WellFormed) {v : Vertex} (hnew : g.vertices.slot? v.id = none)
    (hnormal : v.normalize = v) : (g.withVertex v).WellFormed where
  types := h.types.internAll v.types.names
  vertices :=
    (h.vertices.of_extends (TypeTable.extends_internAll _ _)).insert hnew hnormal
      (TypeTable.map_id?_internAll _ _)
  edges := by
    refine (h.edges.of_extends (TypeTable.extends_internAll _ _)).of_ends
      fun slot e source target he hends => ?_
    obtain ⟨hsource, htarget⟩ := h.edges.joins slot e _ he hends
    -- the ends of an edge are old vertices, which the new row does not touch
    have hold : ∀ {id : String} {s : Slot}, g.vertices.slot? id = some s →
        (g.vertices.insert v (g.types.internAll v.types.names).1).slot? id = some s ∧
          (g.vertices.insert v (g.types.internAll v.types.names).1).typeIds s =
            g.vertices.typeIds s := by
      intro id s hs
      obtain ⟨w, hw, rfl⟩ := h.vertices.indexed.exists_get? hs
      have hid : w.id ≠ v.id := by
        intro e
        rw [e, hnew] at hs
        exact absurd hs nofun
      have hslot : s ≠ g.vertices.rows.size := Nat.ne_of_lt (VertexTable.lt_size_of_get? hw)
      rw [VertexTable.slot?_insert, if_neg hid, h.vertices.typeIds_insert, if_neg hslot]
      exact ⟨hs, rfl⟩
    exact ⟨⟨(hold hsource).1, (hold htarget).1⟩, (hold hsource).2, (hold htarget).2⟩

theorem withEdge (h : g.WellFormed) {e : Edge} {source target : Slot}
    (hnew : g.edges.slot? e.id = none) (hnormal : e.normalize = e)
    (hsource : g.vertices.slot? e.source = some source)
    (htarget : g.vertices.slot? e.target = some target) :
    (g.withEdge e source target).WellFormed where
  types := h.types.internAll e.types.names
  vertices := h.vertices.of_extends (TypeTable.extends_internAll _ _)
  edges :=
    (h.edges.of_extends (TypeTable.extends_internAll _ _)).insert hnew hnormal
      (TypeTable.map_id?_internAll _ _) ⟨hsource, htarget⟩

theorem addVertex (h : g.WellFormed) (v : Vertex) : (g.addVertex v).2.WellFormed := by
  cases hv : g.vertices.slot? v.id with
  | some slot => rwa [addVertex_of_stored hv]
  | none =>
    rw [addVertex_of_new hv]
    exact h.withVertex hv v.normalize_normalize

theorem addEdge (h : g.WellFormed) (e : Edge) : (g.addEdge e).2.WellFormed := by
  cases he : g.edges.slot? e.normalize.id with
  | some slot => rwa [addEdge_of_stored he]
  | none =>
    cases hs : g.vertices.slot? e.source with
    | none => rwa [addEdge_of_no_source he hs]
    | some source =>
      cases ht : g.vertices.slot? e.target with
      | none => rwa [addEdge_of_no_target he hs ht]
      | some target =>
        rw [addEdge_of_new he hs ht]
        exact h.withEdge he e.normalize_normalize hs ht

theorem eraseEdge (h : g.WellFormed) (slot : Slot) : (g.eraseEdge slot).WellFormed where
  types := h.types
  vertices := h.vertices
  edges := h.edges.erase slot

theorem removeEdge (h : g.WellFormed) (id : String) : (g.removeEdge id).2.WellFormed := by
  rcases g.removeEdge_cases id with e | ⟨slot, e⟩
  · rwa [e]
  · rw [e]
    exact h.eraseEdge slot

theorem foldl_eraseEdge (h : g.WellFormed) (slots : List Slot) :
    (slots.foldl Graph.eraseEdge g).WellFormed := by
  induction slots generalizing g with
  | nil => exact h
  | cons slot slots ih => exact ih (h.eraseEdge slot)

end WellFormed

@[simp] theorem vertices_foldl_eraseEdge (g : Graph) (slots : List Slot) :
    (slots.foldl eraseEdge g).vertices = g.vertices := by
  induction slots generalizing g with
  | nil => rfl
  | cons slot slots ih => exact ih _

theorem ends?_foldl_eraseEdge (g : Graph) (slots : List Slot) (s : Slot) :
    (slots.foldl eraseEdge g).edges.ends? s = g.edges.ends? s := by
  induction slots generalizing g with
  | nil => rfl
  | cons slot slots ih =>
    rw [List.foldl_cons, ih]
    exact EdgeTable.ends?_erase g.edges g.vertices slot s

namespace WellFormed

theorem get?_foldl_eraseEdge (h : g.WellFormed) (slots : List Slot) (s : Slot) :
    (slots.foldl Graph.eraseEdge g).edges.get? s = if s ∈ slots then none else g.edges.get? s := by
  induction slots generalizing g with
  | nil => simp
  | cons slot slots ih =>
    rw [List.foldl_cons, ih (h.eraseEdge slot)]
    have hget : (g.eraseEdge slot).edges.get? s = if s = slot then none else g.edges.get? s :=
      h.edges.get?_erase slot s
    rw [hget]
    by_cases hs : s = slot <;> simp [hs]

theorem mem_incident (h : g.WellFormed) {vertex slot : Slot} :
    slot ∈ g.incident vertex ↔ slot ∈ g.edges.live ∧
      (g.edges.source? slot = some vertex ∨ g.edges.target? slot = some vertex) := by
  rw [incident, SlotSet.mem_toList, SlotSet.mem_ofList, List.mem_append, h.edges.outbound_eq,
    h.edges.inbound_eq]
  simp only [List.mem_filter, SlotSet.mem_toList, decide_eq_true_eq, and_or_left]

/-- Once its edges are taken out, no edge is at a vertex. -/
theorem ends_ne_of_foldl_incident (h : g.WellFormed) (vertex : Slot) {s : Slot} {e : Edge}
    {source target : Slot}
    (he : ((g.incident vertex).foldl Graph.eraseEdge g).edges.get? s = some e)
    (hends : ((g.incident vertex).foldl Graph.eraseEdge g).edges.ends? s = some (source, target)) :
    source ≠ vertex ∧ target ≠ vertex := by
  rw [h.get?_foldl_eraseEdge] at he
  rw [ends?_foldl_eraseEdge] at hends
  split at he
  · exact absurd he nofun
  · next hs =>
    have hlive : s ∈ g.edges.live := (h.edges.mem_live s).2 (by rw [he]; rfl)
    constructor
    · rintro rfl
      exact hs (h.mem_incident.2 ⟨hlive, .inl (by rw [EdgeTable.source?, hends]; rfl)⟩)
    · rintro rfl
      exact hs (h.mem_incident.2 ⟨hlive, .inr (by rw [EdgeTable.target?, hends]; rfl)⟩)

/-- Taking out a vertex at which there is no edge. -/
theorem eraseVertex (h : g.WellFormed) {vertex : Slot}
    (hvertex : ∀ s e source target, g.edges.get? s = some e →
      g.edges.ends? s = some (source, target) → source ≠ vertex ∧ target ≠ vertex) :
    (g.eraseVertex vertex).WellFormed where
  types := h.types
  vertices := h.vertices.erase vertex
  edges := by
    refine (h.edges.clear hvertex).of_ends fun s e source target he hends => ?_
    obtain ⟨hsource, htarget⟩ := h.edges.joins s e _ he hends
    obtain ⟨hs, ht⟩ := hvertex s e source target he hends
    refine ⟨⟨h.vertices.slot?_erase_of_ne hsource hs, h.vertices.slot?_erase_of_ne htarget ht⟩, ?_⟩
    exact ⟨(h.vertices.typeIds_erase vertex source).trans (if_neg hs),
      (h.vertices.typeIds_erase vertex target).trans (if_neg ht)⟩

theorem removeVertex (h : g.WellFormed) (id : String) : (g.removeVertex id).2.WellFormed := by
  cases hs : g.vertices.slot? id with
  | none => rwa [removeVertex_of_unknown hs]
  | some slot =>
    rw [removeVertex_of_stored hs]
    exact (h.foldl_eraseEdge _).eraseVertex fun _ _ _ _ => h.ends_ne_of_foldl_incident slot

theorem ofLists {vertices : List Vertex} {edges : List Edge}
    (hg : Graph.ofLists vertices edges = .ok g) : g.WellFormed :=
  ofLists_preserves wellFormed_empty (fun v _ h => h.addVertex v) (fun e _ h => h.addEdge e) hg

theorem compact (h : g.WellFormed) : g.compact.2.WellFormed := by
  rcases g.compact_cases with e | ⟨vertices, edges, hg⟩
  · rwa [e]
  · exact ofLists hg

theorem apply (h : g.WellFormed) : (c : Change) → (c.apply g).WellFormed
  | .addVertex v => h.addVertex v
  | .addEdge e => h.addEdge e
  | .removeVertex id => h.removeVertex id
  | .removeEdge id => h.removeEdge id
  | .compact => h.compact

end WellFormed

/-- Every graph of a history is well-formed. -/
theorem wellFormed_after (changes : List Change) : (after changes).WellFormed := by
  suffices h : ∀ g : Graph, g.WellFormed → (changes.foldl (fun g c => c.apply g) g).WellFormed from
    h ∅ wellFormed_empty
  induction changes with
  | nil => exact fun _ h => h
  | cons c changes ih => exact fun g h => ih _ (h.apply c)

end Graph

end PatternGraph
