import PatternGraph.Proofs.Snapshot

/-!
# Compaction is invisible

A graph is compacted by building it anew from its own lists of vertices and edges, as it is when a
snapshot of it is read. What it stores is never refused on the way, so compaction does not fail, and
the graph answers as before.

What is gone are the empty rows, and the names in the type table that no vertex and no edge has any
more: `Graph.NamesUsed` says that a table holds the names in use and no others, which adding vertices
and edges keeps. Nor can anything be told later: `Graph.compact_invisible_after` says that whatever is
done to the graph afterwards gives back the same and ends in the same lists as it does without the
compaction.
-/

namespace PatternGraph.Graph

variable {g g' : Graph}

/-! ### The names in use -/

/-- A vertex or an edge of the graph has the type. -/
def Uses (g : Graph) (name : String) : Prop :=
  (∃ v ∈ g.allVertices, name ∈ v.types) ∨ ∃ e ∈ g.allEdges, name ∈ e.types

/-- The type table holds the names in use and no others. -/
def NamesUsed (g : Graph) : Prop := ∀ name, (∃ id, g.types.id? name = some id) ↔ g.Uses name

theorem namesUsed_empty : NamesUsed ∅ := by
  intro name
  have hnone : (∅ : Graph).types.id? name = none := Std.TreeMap.getElem?_emptyc
  rw [hnone]
  refine iff_of_false nofun ?_
  rintro (⟨v, hv, -⟩ | ⟨e, he, -⟩)
  · exact absurd hv List.not_mem_nil
  · exact absurd he List.not_mem_nil

theorem Uses.congr (hvertices : g'.allVertices = g.allVertices) (hedges : g'.allEdges = g.allEdges)
    {name : String} : g'.Uses name ↔ g.Uses name := by
  rw [Uses, hvertices, hedges]
  exact Iff.rfl

namespace WellFormed

theorem uses_withVertex (h : g.WellFormed) (v : Vertex) {name : String} :
    (g.withVertex v).Uses name ↔ name ∈ v.types ∨ g.Uses name := by
  have hedges : (g.withVertex v).allEdges = g.allEdges := rfl
  rw [Uses, h.allVertices_withVertex, hedges]
  simp only [List.mem_append, List.mem_singleton]
  constructor
  · rintro (⟨w, hw | rfl, hname⟩ | hname)
    · exact .inr (.inl ⟨w, hw, hname⟩)
    · exact .inl hname
    · exact .inr (.inr hname)
  · rintro (hname | ⟨w, hw, hname⟩ | hname)
    · exact .inl ⟨v, .inr rfl, hname⟩
    · exact .inl ⟨w, .inl hw, hname⟩
    · exact .inr hname

theorem uses_withEdge (h : g.WellFormed) (e : Edge) (source target : Slot) {name : String} :
    (g.withEdge e source target).Uses name ↔ name ∈ e.types ∨ g.Uses name := by
  have hvertices : (g.withEdge e source target).allVertices = g.allVertices := rfl
  rw [Uses, h.allEdges_withEdge, hvertices]
  simp only [List.mem_append, List.mem_singleton]
  constructor
  · rintro (hname | ⟨e', he' | rfl, hname⟩)
    · exact .inr (.inl hname)
    · exact .inr (.inr ⟨e', he', hname⟩)
    · exact .inl hname
  · rintro (hname | hname | ⟨e', he', hname⟩)
    · exact .inr ⟨e, .inr rfl, hname⟩
    · exact .inl hname
    · exact .inr ⟨e', .inl he', hname⟩

theorem namesUsed_addVertex (h : g.WellFormed) (hg : g.NamesUsed) (v : Vertex) :
    (g.addVertex v).2.NamesUsed := by
  cases hs : g.vertices.slot? v.id with
  | some slot => rwa [addVertex_of_stored hs]
  | none =>
    rw [addVertex_of_new hs]
    intro name
    rw [h.uses_withVertex, ← hg name]
    exact TypeTable.exists_id?_internAll

theorem namesUsed_addEdge (h : g.WellFormed) (hg : g.NamesUsed) (e : Edge) :
    (g.addEdge e).2.NamesUsed := by
  rcases g.addEdge_cases e with heq | ⟨_, heq⟩ | ⟨source, target, -, -, -, heq⟩
  · rwa [heq]
  · rwa [heq]
  · rw [heq]
    intro name
    rw [h.uses_withEdge, ← hg name]
    exact TypeTable.exists_id?_internAll

end WellFormed

/-- A graph that is built from lists holds the names that it uses and no others. -/
theorem namesUsed_ofLists {vertices : List Vertex} {edges : List Edge}
    (hg : ofLists vertices edges = .ok g) : g.NamesUsed := by
  refine (ofLists_preserves (P := fun g => g.WellFormed ∧ g.NamesUsed) ?empty ?vertex ?edge hg).2
  case empty => exact ⟨wellFormed_empty, namesUsed_empty⟩
  case vertex =>
    rintro v g ⟨h, hused⟩
    exact ⟨h.addVertex v, h.namesUsed_addVertex hused v⟩
  case edge =>
    rintro e g ⟨h, hused⟩
    exact ⟨h.addEdge e, h.namesUsed_addEdge hused e⟩

/-! ### The graph after a compaction -/

/-- A graph restores another, and its type table holds each type of a vertex or an edge once and
nothing else. -/
structure Compacts (g' g : Graph) : Prop extends g'.Restores g where
  nodup_names : g'.types.names.toList.Nodup
  mem_names : ∀ name, name ∈ g'.types.names ↔ g.Uses name

theorem WellFormed.compacts (h : g.WellFormed) :
    ∃ g', g.compact = (.ok (), g') ∧ g'.WellFormed ∧ g'.Compacts g := by
  obtain ⟨g', hbuilt, h', hrestores⟩ := h.restores
  have hlists : Graph.ofLists g.allVertices g.allEdges = .ok g' := hbuilt
  refine ⟨g', by rw [Graph.compact, hlists], h', hrestores, h'.types.nodup_names, fun name => ?_⟩
  rw [h'.types.mem_names, namesUsed_ofLists hlists name]
  exact Uses.congr hrestores.allVertices hrestores.allEdges

/-- In every graph of a history: compaction does not fail, and the graph afterwards has no empty rows
and no unused names, holds the same vertices and edges in the same order, finds the same for all
filters and answers every query alike. Any further operations give back what they give back without
the compaction, and end in the same lists. -/
theorem compact_invisible_after (changes : List Change) :
    ∃ g', (after changes).compact = (.ok (), g') ∧ g'.Compacts (after changes) ∧
      ∀ further : List Change,
        Change.replies further g' = Change.replies further (after changes) ∧
          (after (changes ++ .compact :: further)).listing = (after (changes ++ further)).listing := by
  have h := wellFormed_after changes
  obtain ⟨g', hcompact, h', hcompacts⟩ := h.compacts
  refine ⟨g', hcompact, hcompacts, fun further => ⟨?_, ?_⟩⟩
  · have hlisting : g'.listing = (after changes).listing :=
      congrArg₂ Listing.mk hcompacts.allVertices hcompacts.allEdges
    rw [h'.replies_eq, h.replies_eq, hlisting]
  · rw [listing_after, listing_after, Listing.after, Listing.after, List.foldl_append,
      List.foldl_append, List.foldl_cons]
    rfl

/-- The row and the type of a removed vertex are gone. -/
example :
    let g := after [.addVertex (.of "a" "A" ["server"]), .addVertex (.of "b" "B" ["db"]),
      .removeVertex "a"]
    (g.tombstones, g.types.names) = (1, #["server", "db"]) ∧
      (g.compact.2.tombstones, g.compact.2.types.names) = (0, #["db"]) := by
  decide +kernel

end PatternGraph.Graph
