import PatternGraph.Proofs.Derivation.FixedPoint
import PatternGraph.Proofs.Query.Agreement

/-!
# A derivation leaves what is asserted alone

A derivation adds edges and does nothing else: the vertices are those of before, and behind the edges
of before stand edges that hold how they came about. `Graph.Grown` says so, and `Derivation.grown` that
every derivation is of this kind, since its run continues the one that it started with.

What that means for a query depends on its steps.

* A step that does not go along derived edges reads the same before and after. So a query of such steps
  gives the same answer.
* Any other step reads what it read before, and perhaps more. So every walk of before is a walk after,
  and the ids that a query returned on some path before it returns on some path after. The path may be
  another one, since of the paths that return the same ids only the first is kept.
-/

namespace PatternGraph

/-- A graph has the vertices of another, and behind the edges of the other it has derived edges. -/
structure Graph.Grown (g g' : Graph) : Prop where
  wellFormed : g'.WellFormed
  allVertices : g'.allVertices = g.allVertices
  allEdges : ∃ added, g'.allEdges = g.allEdges ++ added ∧ ∀ e ∈ added, e.derivation ≠ []

theorem Derivation.grown {g : Graph} (h : g.WellFormed) (rules : List Rule) (maxPasses : Nat) :
    g.Grown ((standard rules).derive maxPasses g).2.2 := by
  have hcontinues := @DerivationRun.continues_passes { store := g } h rules maxPasses
  have hvertices : ((standard rules).derive maxPasses g).2.2.vertices = g.vertices := hcontinues.vertices
  obtain ⟨added, hadded, -, hmay⟩ := hcontinues.edges
  refine ⟨hcontinues.wellFormed, ?_, added, hadded, fun e he => (hmay e he).derived⟩
  rw [Graph.allVertices, Graph.allVertices, hvertices]

/-! ### What a query sees of it -/

namespace Step

variable {g g' : Graph}

/-- A step that asks for asserted edges reads the same. -/
theorem readings_of_grown (h : g.WellFormed) (hg : g.Grown g') {step : Step}
    (hstep : step.link.derived = false) : step.readings g' = step.readings g := by
  obtain ⟨added, hedges, hderived⟩ := hg.allEdges
  have hfits : ∀ hit : Hit, step.Fits g' hit ↔ step.Fits g hit := fun hit =>
    fits_congr (h.vertex?_of_allVertices hg.wellFormed hg.allVertices)
  -- a derived edge does not fit, in whichever direction it is read
  have hnone : ∀ (read : Edge → Hit) (p : Hit → Prop) [DecidablePred p], (∀ e, (read e).edge = e) →
      (∀ hit, p hit → step.Fits g hit) → (added.map read).filter (fun hit => p hit) = [] := by
    intro read p _ hread hp
    refine List.filter_eq_nil_iff.2 fun hit hhit hc => ?_
    obtain ⟨e, he, rfl⟩ := List.mem_map.1 hhit
    have hmet := (hp _ (of_decide_eq_true hc)).link.asserted hstep
    rw [hread] at hmet
    exact hderived e he hmet
  simp only [readings, hedges, hfits, List.map_append, List.filter_append]
  rw [hnone Hit.along _ (fun _ => rfl) fun _ hc => hc.2,
    hnone Hit.against _ (fun _ => rfl) fun _ hc => hc.1.2, List.append_nil, List.append_nil]

theorem Reads.of_grown (h : g.WellFormed) (hg : g.Grown g') {step : Step} {hit : Hit}
    (hreads : step.Reads g hit) : step.Reads g' hit := by
  obtain ⟨added, hedges, -⟩ := hg.allEdges
  refine ⟨?_, hreads.direction, ?_⟩
  · rw [hedges]
    exact List.mem_append_left added hreads.stored
  · exact (fits_congr (h.vertex?_of_allVertices hg.wellFormed hg.allVertices)).2 hreads.fits

end Step

namespace Walk

variable {g g' : Graph}

/-- A walk of before is a walk after. -/
theorem Follows.of_grown (h : g.WellFormed) (hg : g.Grown g') {steps : List Step} {w : Walk}
    (hw : Follows g steps w) : Follows g' steps w := by
  induction steps generalizing w with
  | nil => cases w <;> exact hw
  | cons step steps ih =>
    cases w with
    | nil => exact hw
    | cons hit hits => exact ⟨hw.1.of_grown h hg, hw.2.1, ih hw.2.2⟩

end Walk

namespace Plan

variable {g g' : Graph}

/-- A query of asserted edges is answered as before. -/
theorem run_of_asserted (h : g.WellFormed) (hg : g.Grown g') {p : Plan}
    (hp : ∀ step ∈ p.steps, step.link.derived = false) (mode : OutputMode)
    (start : Option (List String)) :
    ∃ answer, p.run mode start g = (.ok answer, g) ∧ p.run mode start g' = (.ok answer, g') :=
  run_congr h hg.wellFormed hg.allVertices
    (fun step hstep => Step.readings_of_grown h hg (hp step hstep)) mode start

/-- The ids along each path of before are returned on a path after. -/
theorem run_paths_of_grown (h : g.WellFormed) (hg : g.Grown g') (p : Plan)
    (start : Option (List String)) :
    ∃ found found', p.run .paths start g = (.ok (.paths found), g) ∧
      p.run .paths start g' = (.ok (.paths found'), g') ∧
      ∀ path ∈ found, ∃ path' ∈ found',
        path'.vertices.map Vertex.id = path.vertices.map Vertex.id := by
  cases hsteps : p.hasSteps with
  | true =>
    obtain ⟨found, hrun, hfound⟩ := exists_paths h hsteps start
    obtain ⟨found', hrun', hfound'⟩ := exists_paths hg.wellFormed hsteps start
    refine ⟨found, found', hrun, hrun', fun path hpath => (hfound' _).2 ?_⟩
    obtain ⟨w, hw, hids⟩ := (hfound _).1 ⟨path, hpath, rfl⟩
    exact ⟨w, ⟨hw.follows.of_grown h hg, hw.start⟩, hids⟩
  | false =>
    refine ⟨_, _, by rw [run, hsteps]; rfl, by rw [run, hsteps]; rfl, fun path hpath => ⟨path, ?_, rfl⟩⟩
    simpa only [h.selectVertices_of_allVertices hg.wellFormed hg.allVertices] using hpath

end Plan

namespace Derivation

/-- In every graph of a history, for any rules and any number of passes: a query none of whose steps
goes along derived edges gives the same answer before and after the derivation, as paths or as a list
of vertices; and whatever a query asks for, the ids that it returns on a path before, it returns on a
path after. -/
theorem answers_after (changes : List Change) (rules : List Rule) (maxPasses : Nat) (p : Plan)
    (start : Option (List String)) :
    let before := Graph.after changes
    let after := ((standard rules).derive maxPasses before).2.2
    ((∀ step ∈ p.steps, step.link.derived = false) → ∀ mode, ∃ answer,
        p.run mode start before = (.ok answer, before) ∧
        p.run mode start after = (.ok answer, after)) ∧
      ∃ found found', p.run .paths start before = (.ok (.paths found), before) ∧
        p.run .paths start after = (.ok (.paths found'), after) ∧
        ∀ path ∈ found, ∃ path' ∈ found',
          path'.vertices.map Vertex.id = path.vertices.map Vertex.id := by
  intro before after
  have h : before.WellFormed := Graph.wellFormed_after changes
  have hg : before.Grown after := grown h rules maxPasses
  exact ⟨fun hp mode => Plan.run_of_asserted h hg hp mode start, Plan.run_paths_of_grown h hg p start⟩

/-- The query for the two vertices of each asserted edge. -/
def assertedEdges : Plan :=
  ⟨[⟨⟨some "n0", ∅, none, true⟩, ⟨some "r0", ∅, .right, false, false⟩,
    ⟨some "n1", ∅, none, true⟩⟩], none⟩

/-- The query on a path of two edges, before and after a third edge is derived. -/
theorem answers_after_twoEdges :
    ((standard [transitivity]).derive 5 (Graph.after twoEdges)).2.2.derivedCount = 1 ∧
      (∀ step ∈ assertedEdges.steps, step.link.derived = false) ∧
      ∀ mode, ∃ answer,
        assertedEdges.run mode none (Graph.after twoEdges) = (.ok answer, Graph.after twoEdges) ∧
        assertedEdges.run mode none ((standard [transitivity]).derive 5 (Graph.after twoEdges)).2.2 =
          (.ok answer, ((standard [transitivity]).derive 5 (Graph.after twoEdges)).2.2) := by
  have hcount : ((standard [transitivity]).derive 5 (Graph.after twoEdges)).2.2.derivedCount = 1 := by
    decide +kernel
  have hp : ∀ step ∈ assertedEdges.steps, step.link.derived = false := List.forall_mem_singleton.2 rfl
  exact ⟨hcount, hp, (answers_after twoEdges [transitivity] 5 assertedEdges none).1 hp⟩

end Derivation

end PatternGraph
