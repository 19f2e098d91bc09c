import PatternGraph.Proofs.Graph.Refinement
import PatternGraph.Proofs.Graph.VertexSelection
import PatternGraph.Proofs.Query.Walks

/-!
# Graphs that answer alike

An answer depends on what a query reads of the graph and on nothing else: on the vertices, and on the
readings of its steps. Where two graphs agree in these, the query gives the same answer in both, be it
as paths or as a list of vertices, and whatever the slots, the numbers of types and the indexes are.

`Plan.runSteps_eq` is why: the answer of some steps is made from the list of the walks along them and
from the vertices that the walks return.
-/

namespace PatternGraph

namespace Graph.WellFormed

variable {g g' : Graph}

/-- The vertex of an id is known from the list of the vertices. -/
theorem vertex?_of_allVertices (h : g.WellFormed) (h' : g'.WellFormed)
    (hv : g'.allVertices = g.allVertices) : g'.vertex? = g.vertex? := by
  funext id
  rw [h.vertex?_eq_find?, h'.vertex?_eq_find?]
  simp only [Listing.vertex?, listing, hv]

theorem verticesOf_of_allVertices (h : g.WellFormed) (h' : g'.WellFormed)
    (hv : g'.allVertices = g.allVertices) : g'.verticesOf = g.verticesOf := by
  funext ids
  unfold verticesOf
  rw [h.vertex?_of_allVertices h' hv]

theorem selectVertices_of_allVertices (h : g.WellFormed) (h' : g'.WellFormed)
    (hv : g'.allVertices = g.allVertices) : g'.selectVertices = g.selectVertices := by
  funext f
  rw [h.selectVertices_eq_scan, h'.selectVertices_eq_scan]
  unfold lookedAt
  rw [hv, h.verticesOf_of_allVertices h' hv]

/-- Whether an edge is asked for is known from the edge and the list of the vertices. -/
theorem asked_of_allVertices (h : g.WellFormed) (h' : g'.WellFormed)
    (hv : g'.allVertices = g.allVertices) {source target : Option VertexFilter} {edge : EdgeFilter}
    {e : Edge} : g'.Asked source edge target e ↔ g.Asked source edge target e := by
  have hvertex := h.vertex?_of_allVertices h' hv
  constructor
  · rintro ⟨hsource, hedge, htarget⟩
    rw [hvertex] at hsource htarget
    exact ⟨hsource, hedge, htarget⟩
  · rintro ⟨hsource, hedge, htarget⟩
    rw [← hvertex] at hsource htarget
    exact ⟨hsource, hedge, htarget⟩

/-- Graphs that are listed alike give the same edges for all filters. -/
theorem selectEdges_of_listing (h : g.WellFormed) (h' : g'.WellFormed)
    (hl : g'.listing = g.listing) (source : Option VertexFilter) (edge : EdgeFilter)
    (target : Option VertexFilter) :
    g'.selectEdges source edge target = g.selectEdges source edge target := by
  have hv : g'.allVertices = g.allVertices := congrArg Listing.vertices hl
  have he : g'.allEdges = g.allEdges := congrArg Listing.edges hl
  rw [h.selectEdges_eq_scan, h'.selectEdges_eq_scan, he]
  exact List.filter_congr fun e _ => decide_eq_decide.2 (h.asked_of_allVertices h' hv)

end Graph.WellFormed

namespace Step

variable {g g' : Graph}

theorem fits_congr (hv : g'.vertex? = g.vertex?) {step : Step} {h : Hit} :
    step.Fits g' h ↔ step.Fits g h := by
  rw [fits_iff, fits_iff, hv]

/-- A step reads the same in graphs that are listed alike. -/
theorem readings_congr (hv : g'.vertex? = g.vertex?) (he : g'.allEdges = g.allEdges) (step : Step) :
    step.readings g' = step.readings g := by
  simp only [readings, he, fits_congr hv]

end Step

/-- Where each step reads the same, the walks are the same. -/
theorem Walk.enumerate_congr {g g' : Graph} {steps : List Step}
    (hs : ∀ step ∈ steps, step.readings g' = step.readings g) (start : String → Bool) :
    enumerate g' steps start = enumerate g steps start := by
  induction steps generalizing start with
  | nil => rfl
  | cons step steps ih =>
    obtain ⟨hstep, hsteps⟩ := List.forall_mem_cons.1 hs
    simp only [enumerate, hstep, ih hsteps]

namespace Plan

variable {g g' : Graph}

/-- The ids on the paths of a query are those that the walks along its steps return. -/
theorem exists_paths (h : g.WellFormed) {p : Plan} (hsteps : p.hasSteps = true)
    (start : Option (List String)) :
    ∃ found, p.run .paths start g = (.ok (.paths found), g) ∧
      ∀ ids, (∃ path ∈ found, path.vertices.map Vertex.id = ids) ↔
        ∃ w, Walk.IsWalk g p.steps start w ∧ w.returned p.steps = ids := by
  refine ⟨_, run_paths_eq h hsteps start, fun ids => ?_⟩
  constructor
  · rintro ⟨_, hpath, rfl⟩
    obtain ⟨w, hw, rfl⟩ := List.mem_map.1 hpath
    refine ⟨w, Walk.mem_enumerate_allowed.1 (List.mem_filter.1 hw).1, ?_⟩
    rw [Walk.ids_shown h (Walk.follows_of_mem_kept hw)]
  · rintro ⟨w, hw, rfl⟩
    obtain ⟨w', hw', hsame⟩ := Walk.exists_kept p.steps (Walk.mem_enumerate_allowed.2 hw)
    refine ⟨_, List.mem_map_of_mem hw', ?_⟩
    rw [Walk.ids_shown h (Walk.follows_of_mem_kept hw'), hsame]

/-- An answer is made from walks and from the vertices of ids. -/
theorem answerOf_congr (hv : g'.verticesOf = g.verticesOf) (mode : OutputMode) (returned : List Bool)
    (walks : List Walk) : ∃ answer, answerOf mode returned walks g = (.ok answer, g) ∧
      answerOf mode returned walks g' = (.ok answer, g') := by
  refine ⟨_, rfl, ?_⟩
  change (Except.ok (Answer.ofPaths mode _), g') = _
  simp only [hv]

/-- What the only node of a plan without steps asks for, of the vertices of some ids or of all. -/
def nodeFilter (p : Plan) (start : Option (List String)) : VertexFilter :=
  { (p.filter.map VertexFilter.ofNodeTest).getD {} with ids := start }

/-- A plan without steps gives the vertices that its node selects, be it as paths or as a list. -/
theorem run_of_node {p : Plan} (hsteps : p.hasSteps = false) (start : Option (List String)) :
    p.run .paths start g =
        (.ok (.paths ((g.selectVertices (p.nodeFilter start)).map .single)), g) ∧
      p.run .scopeList start g = (.ok (.scopeList (g.selectVertices (p.nodeFilter start))), g) := by
  have hrun : ∀ mode, p.run mode start g = runFilter mode p.filter start g := by
    intro mode
    rw [run, hsteps, if_neg Bool.false_ne_true]
  exact ⟨hrun .paths, hrun .scopeList⟩

/-- Graphs with the same vertices, in which each step of a plan reads the same, give one answer. -/
theorem run_congr (h : g.WellFormed) (h' : g'.WellFormed) (hv : g'.allVertices = g.allVertices)
    {p : Plan} (hs : ∀ step ∈ p.steps, step.readings g' = step.readings g) (mode : OutputMode)
    (start : Option (List String)) :
    ∃ answer, p.run mode start g = (.ok answer, g) ∧ p.run mode start g' = (.ok answer, g') := by
  cases hsteps : p.hasSteps with
  | true =>
    rw [run, if_pos hsteps, runSteps_eq h, runSteps_eq h', Walk.enumerate_congr hs]
    exact answerOf_congr (h.verticesOf_of_allVertices h' hv) mode _ _
  | false =>
    obtain ⟨hpaths, hlist⟩ := run_of_node (g := g) hsteps start
    obtain ⟨hpaths', hlist'⟩ := run_of_node (g := g') hsteps start
    rw [h.selectVertices_of_allVertices h' hv] at hpaths' hlist'
    cases mode with
    | paths => exact ⟨_, hpaths, hpaths'⟩
    | scopeList => exact ⟨_, hlist, hlist'⟩

/-- Graphs that are listed alike give one answer to every query. -/
theorem run_of_listing (h : g.WellFormed) (h' : g'.WellFormed) (hl : g'.listing = g.listing)
    (p : Plan) (mode : OutputMode) (start : Option (List String)) :
    ∃ answer, p.run mode start g = (.ok answer, g) ∧ p.run mode start g' = (.ok answer, g') := by
  have hv : g'.allVertices = g.allVertices := congrArg Listing.vertices hl
  refine run_congr h h' hv (fun step _ => ?_) mode start
  exact Step.readings_congr (h.vertex?_of_allVertices h' hv) (congrArg Listing.edges hl) step

end Plan

end PatternGraph
