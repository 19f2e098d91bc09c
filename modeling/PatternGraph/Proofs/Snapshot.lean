import PatternGraph.Proofs.Form.Graph
import PatternGraph.Proofs.Graph.Rebuild
import PatternGraph.Proofs.Query.Agreement
import PatternGraph.Snapshot

/-!
# Snapshots lose nothing

The text of a snapshot is read as the snapshot that it was written from, whatever characters stand in
its texts. A graph is built from its own snapshot without fail, and `Graph.Restores` says how it
compares with the graph that was saved: it has the same vertices and edges in the same order and with
the same fields, finds the same for all filters, and answers every query alike. Only the empty rows are
gone.
-/

namespace PatternGraph

namespace Snapshot

open Json (Record Decoder Document NumberFree)

theorem decodes_toJson (s : Snapshot) : decoder.Decodes s.toJson s := by
  have hvertices := (Record.Gives.pure Snapshot.mk).given "vertices" (.anywhere []) (by simp)
    (Decoder.Decodes.list fun v (_ : v ∈ s.vertices) => v.decodes_toJson)
  have hedges := hvertices.given "edges" (.anywhere []) (by simp)
    (Decoder.Decodes.list fun e (_ : e ∈ s.edges) => e.decodes_toJson)
  exact Record.Gives.decodes hedges

theorem numberFree_toJson (s : Snapshot) : s.toJson.NumberFree := by
  refine .obj fun f hf => ?_
  simp only [List.mem_cons, List.not_mem_nil, or_false] at hf
  rcases hf with rfl | rfl
  · refine .arr fun j hj => ?_
    obtain ⟨v, -, rfl⟩ := List.mem_map.1 hj
    exact v.numberFree_toJson
  · refine .arr fun j hj => ?_
    obtain ⟨e, -, rfl⟩ := List.mem_map.1 hj
    exact e.numberFree_toJson

/-- The text of a snapshot is read as the snapshot. -/
theorem parse_text (s : Snapshot) : parse s.text = .ok s := by
  have hroot : decoder (Document.ofJson s.toJson).root = .ok s := s.decodes_toJson
  rw [parse, text, s.numberFree_toJson.read_pretty, Document.decode, hroot]
  rfl

example : parse (mk [⟨"q\"", "back\\slash\n\x01", ∅⟩] []).text =
    .ok (mk [⟨"q\"", "back\\slash\n\x01", ∅⟩] []) := by
  decide +kernel

end Snapshot

/-- A graph holds what another holds, finds what it finds and answers as it answers, and has no empty
rows. -/
structure Graph.Restores (g' g : Graph) : Prop where
  allVertices : g'.allVertices = g.allVertices
  allEdges : g'.allEdges = g.allEdges
  derivedCount : g'.derivedCount = g.derivedCount
  selectVertices : ∀ f, g'.selectVertices f = g.selectVertices f
  /-- In particular the edges in the scope of the derived ones are the same. -/
  selectEdges : ∀ source edge target,
    g'.selectEdges source edge target = g.selectEdges source edge target
  run : ∀ (p : Plan) mode start, ∃ answer,
    p.run mode start g = (.ok answer, g) ∧ p.run mode start g' = (.ok answer, g')
  tombstones : g'.tombstones = 0

/-- A graph is restored from its snapshot. -/
theorem Graph.WellFormed.restores {g : Graph} (h : g.WellFormed) :
    ∃ g', (Snapshot.ofGraph g).toGraph = .ok g' ∧ g'.WellFormed ∧ g'.Restores g := by
  obtain ⟨g', hbuilt, h', hl⟩ := h.ofLists_spec
  have hv : g'.allVertices = g.allVertices := congrArg Listing.vertices hl
  have he : g'.allEdges = g.allEdges := congrArg Listing.edges hl
  refine ⟨g', hbuilt, h', ?_⟩
  exact
    { allVertices := hv
      allEdges := he
      derivedCount := by rw [h.derivedCount_eq, h'.derivedCount_eq, he]
      selectVertices := congrFun (h.selectVertices_of_allVertices h' hv)
      selectEdges := h.selectEdges_of_listing h' hl
      run := Plan.run_of_listing h h' hl
      tombstones := tombstones_ofLists hbuilt }

/-- In every graph of a history: the text of its snapshot is read back as the snapshot, and the graph
that is built from it restores the graph that was saved. -/
theorem Snapshot.restores_after (changes : List Change) :
    ∃ s g, parse (ofGraph (Graph.after changes)).text = .ok s ∧ s.toGraph = .ok g ∧
      g.Restores (Graph.after changes) := by
  obtain ⟨g, hbuilt, -, hrestores⟩ := (Graph.wellFormed_after changes).restores
  exact ⟨_, g, parse_text _, hbuilt, hrestores⟩

end PatternGraph
