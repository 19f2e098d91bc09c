import PatternGraph.Proofs.Derivation.Growth

/-!
# Where derived edges come from

A derived edge holds the label of a rule and the ids of two edges. `Rule.Derives` says that these name
a reason for the edge: the two edges match the rule among the vertices of the graph, and the edge is the
one that the rule makes of them. `Derivation.Justified` says of the edges that a derivation adds, in the
order in which it adds them, that each has a reason among the edges in front of it. So no edge is its
own reason, however long the chain of reasons is.

The invariant of the run is `DerivationRun.Accounted`; it also keeps the books, that is, no match is
skipped and the number of edges added is the number of new edges. A match that was found stays a match
while edges are added, since the vertices stay as they are, `Rule.Finds.mono`.
-/

namespace PatternGraph

/-- A rule makes an edge of two edges from a list, which match it among the vertices of a graph. -/
structure Rule.Derives (r : Rule) (g : Graph) (earlier : List Edge) (m : Match) (e : Edge) : Prop where
  mem_first : m.firstEdge ∈ earlier
  mem_second : m.secondEdge ∈ earlier
  leads_first : r.condition.first.Leads m.firstEdge.key m.first m.middle
  leads_second : r.condition.second.Leads m.secondEdge.key m.middle m.last
  holds_first : g.Holds m.first r.condition.first.vertexTypes
  holds_middle : g.Holds m.middle r.condition.middleTypes
  holds_last : g.Holds m.last r.condition.second.vertexTypes
  source : e.source = m.vertex r.effect.source
  target : e.target = m.vertex r.effect.target
  differ : e.source ≠ e.target
  types : e.types = .normalized r.effect.types.names
  derivation : e.derivation = [r.label, m.firstEdge.id, m.secondEdge.id]

/-- Each of some edges that were added to a graph has a reason among those in front of it. -/
def Derivation.Justified (g : Graph) (rules : List Rule) (added : List Edge) : Prop :=
  ∀ earlier e, earlier ++ [e] <+: added → ∃ r ∈ rules, ∃ m, r.Derives g (g.allEdges ++ earlier) m e

theorem Derivation.Justified.append {g : Graph} {rules : List Rule} {added : List Edge}
    (h : Justified g rules added) {r : Rule} (hr : r ∈ rules) {m : Match} {e : Edge}
    (hderives : r.Derives g (g.allEdges ++ added) m e) : Justified g rules (added ++ [e]) := by
  intro earlier x hprefix
  rcases List.prefix_concat_iff.1 hprefix with heq | hprefix
  · obtain ⟨rfl, hx⟩ := List.append_inj' heq rfl
    obtain rfl := List.singleton_inj.1 hx
    exact ⟨r, hr, m, hderives⟩
  · exact h earlier x hprefix

theorem Derivation.Justified.isDerived {g : Graph} {rules : List Rule} {added : List Edge}
    (h : Justified g rules added) : ∀ e ∈ added, e.isDerived := by
  intro e he
  obtain ⟨earlier, later, rfl⟩ := List.append_of_mem he
  obtain ⟨r, -, m, hderives⟩ := h earlier e ⟨later, by rw [List.append_assoc]; rfl⟩
  rw [Edge.isDerived, hderives.derivation]
  rfl

/-- A match stays a match when edges are added. -/
theorem Rule.Finds.mono {r : Rule} {g g' : Graph} {m : Match} (hm : r.Finds g m)
    (hvertices : g'.vertices = g.vertices) (hedges : ∀ e ∈ g.allEdges, e ∈ g'.allEdges) :
    r.Finds g' m := by
  have hholds : ∀ {id : String} {wanted : TypeSet}, g.Holds id wanted → g'.Holds id wanted := by
    intro id wanted h
    rwa [Graph.Holds, Graph.vertex?_congr hvertices]
  exact
    { hm with
      stored_first := hedges _ hm.stored_first
      stored_second := hedges _ hm.stored_second
      holds_first := hholds hm.holds_first
      holds_middle := hholds hm.holds_middle
      holds_last := hholds hm.holds_last }

namespace DerivationRun

variable {g : Graph} {rules : List Rule} {run : DerivationRun Graph} {r : Rule} {m : Match}

/-- A run that began with a graph has added justified edges and counted them, and has skipped
nothing. -/
structure Accounted (g : Graph) (rules : List Rule) (run : DerivationRun Graph) : Prop where
  wellFormed : run.store.WellFormed
  vertices : run.store.vertices = g.vertices
  justified : ∃ added, run.store.allEdges = g.allEdges ++ added ∧ added.length = run.added ∧
    Derivation.Justified g rules added
  skipped : run.skipped = 0

theorem accounted_start (h : g.WellFormed) : Accounted g rules { store := g } :=
  ⟨h, rfl, ⟨[], (List.append_nil _).symm, rfl, fun _ _ hprefix =>
    absurd (List.prefix_nil.1 hprefix) (List.append_ne_nil_of_right_ne_nil _ (List.cons_ne_nil _ _))⟩,
    rfl⟩

/-- The edge that is made of a match of the store is justified by the match. -/
theorem Accounted.derives (h : Accounted g rules run) (hm : r.Finds run.store m) :
    r.Derives g run.store.allEdges m (edgeOf r m) := by
  have hholds : ∀ {id : String} {wanted : TypeSet}, run.store.Holds id wanted → g.Holds id wanted := by
    intro id wanted hstored
    rwa [Graph.Holds, Graph.vertex?_congr h.vertices] at hstored
  exact
    { mem_first := hm.stored_first
      mem_second := hm.stored_second
      leads_first := hm.leads_first
      leads_second := hm.leads_second
      holds_first := hholds hm.holds_first
      holds_middle := hholds hm.holds_middle
      holds_last := hholds hm.holds_last
      source := rfl
      target := rfl
      differ := hm.differ
      types := rfl
      derivation := rfl }

/-- Adding the edge of a match keeps the books, and forgets no edge. -/
theorem Accounted.addMatch (h : Accounted g rules run) (hr : r ∈ rules) (hm : r.Finds run.store m) :
    Accounted g rules (run.addMatch .standard r m) ∧
      ∀ e ∈ run.store.allEdges, e ∈ (run.addMatch .standard r m).store.allEdges := by
  rcases addMatch_cases (r := r) hm.exists_vertex with
    ⟨-, heq⟩ | ⟨source, target, hslot, hsource, htarget, heq⟩
  · rw [heq]
    exact ⟨h, fun _ => id⟩
  · have hedges := h.wellFormed.allEdges_withEdge (edgeOf r m) source target
    obtain ⟨added, hadded, hcount, hjustified⟩ := h.justified
    have hderives := h.derives hm
    rw [hadded] at hderives
    rw [heq]
    refine ⟨⟨h.wellFormed.withEdge hslot normalize_edgeOf hsource htarget, h.vertices,
      ⟨added ++ [edgeOf r m], ?_, ?_, hjustified.append hr hderives⟩, h.skipped⟩, fun e he => ?_⟩
    · rw [hedges, hadded, List.append_assoc]
    · rw [List.length_append, hcount]
      rfl
    · rw [hedges]
      exact List.mem_append_left _ he

theorem Accounted.foldl_addMatch (h : Accounted g rules run) (hr : r ∈ rules) {ms : List Match}
    (hms : ∀ m ∈ ms, r.Finds run.store m) :
    Accounted g rules (ms.foldl (DerivationRun.addMatch .standard r) run) := by
  induction ms generalizing run with
  | nil => exact h
  | cons m ms ih =>
    obtain ⟨hm, hms⟩ := List.forall_mem_cons.1 hms
    obtain ⟨hnext, hkept⟩ := h.addMatch hr hm
    -- the other matches were found before this edge was added
    exact ih hnext fun m' hm' => (hms m' hm').mono (hnext.vertices.trans h.vertices.symm) hkept

theorem Accounted.applyRule (h : Accounted g rules run) (hr : r ∈ rules) (hwritten : r.Written) :
    Accounted g rules (run.applyRule .standard r) := by
  obtain ⟨ms, hms, heq⟩ := applyRule_eq h.wellFormed hwritten
  rw [heq]
  exact h.foldl_addMatch hr fun m hm => (hms m).1 hm

/-- Applying some of the rules keeps the books; a pass applies them all. -/
theorem Accounted.pass {chosen : List Rule} (h : Accounted g rules run)
    (hchosen : ∀ r ∈ chosen, r ∈ rules ∧ r.Written) :
    Accounted g rules (run.pass .standard chosen) := by
  induction chosen generalizing run with
  | nil => exact h
  | cons r chosen ih =>
    obtain ⟨⟨hr, hwritten⟩, hchosen⟩ := List.forall_mem_cons.1 hchosen
    exact ih (h.applyRule hr hwritten) hchosen

theorem accounted_passes (h : g.WellFormed) (hwritten : ∀ r ∈ rules, r.Written) (maxPasses : Nat) :
    Accounted g rules (passes .standard rules maxPasses { store := g }).2 :=
  passes_preserve (fun _ hrun => hrun.pass fun r hr => ⟨hr, hwritten r hr⟩) maxPasses
    (accounted_start h)

end DerivationRun

namespace Derivation

/-- In every graph of a history, for rules that were read from text and any number of passes: the
vertices are as before, and behind the edges of before stand the added ones, each with a reason among
the edges in front of it. The ids that a reason is recorded by are those of no other edges. No match is
skipped, and the edges and the derived edges are as many more as the report tells. -/
theorem provenance_after (changes : List Change) {rules : List Rule}
    (hrules : ∀ r ∈ rules, r.FromText) (maxPasses : Nat) :
    let before := Graph.after changes
    let report := ((standard rules).derive maxPasses before).1
    let after := ((standard rules).derive maxPasses before).2.2
    after.allVertices = before.allVertices ∧ (after.allEdges.map Edge.id).Nodup ∧
      (∃ added, after.allEdges = before.allEdges ++ added ∧ Justified before rules added) ∧
      report.skipped = 0 ∧ after.edgeCount = before.edgeCount + report.added ∧
      after.derivedCount = before.derivedCount + report.added := by
  intro before report after
  have h : before.WellFormed := Graph.wellFormed_after changes
  have hrun := DerivationRun.accounted_passes h (fun r hr => (hrules r hr).written) maxPasses
  have hafter : after.WellFormed := hrun.wellFormed
  obtain ⟨added, hadded, hcount, hjustified⟩ := hrun.justified
  have hedges : after.allEdges = before.allEdges ++ added := hadded
  have hreport : report.added = added.length := hcount.symm
  have hvertices : after.allVertices = before.allVertices := by
    have htable : after.vertices = before.vertices := hrun.vertices
    rw [Graph.allVertices, Graph.allVertices, htable]
  refine ⟨hvertices, hafter.distinct_listing.edgeIds,
    ⟨added, hedges, hjustified⟩, hrun.skipped, ?_, ?_⟩
  · rw [hafter.shows_listing.edgeCount, h.shows_listing.edgeCount, hreport, ← List.length_append]
    exact congrArg List.length hedges
  · rw [hafter.derivedCount_eq, h.derivedCount_eq, hedges, List.countP_append, hreport,
      List.countP_eq_length.2 hjustified.isDerived]

/-- On a path of two edges the third edge is justified by the two. -/
theorem provenance_after_twoEdges :
    (∀ r ∈ [transitivity], r.FromText) ∧
      ((standard [transitivity]).derive 5 (Graph.after twoEdges)).1.added = 1 ∧
      (∃ added, ((standard [transitivity]).derive 5 (Graph.after twoEdges)).2.2.allEdges =
        (Graph.after twoEdges).allEdges ++ added ∧
          Justified (Graph.after twoEdges) [transitivity] added) ∧
      ((standard [transitivity]).derive 5 (Graph.after twoEdges)).1.skipped = 0 := by
  have hparse : Rule.parse "()[next]>()[next]>()" "(1)[next](3)" = .ok transitivity := by
    decide +kernel
  have hrules : ∀ r ∈ [transitivity], r.FromText :=
    List.forall_mem_singleton.2 ⟨_, _, _, hparse, rfl⟩
  have hadded : ((standard [transitivity]).derive 5 (Graph.after twoEdges)).1.added = 1 := by
    decide +kernel
  obtain ⟨-, -, hjustified, hskipped, -⟩ := provenance_after twoEdges hrules 5
  exact ⟨hrules, hadded, hjustified, hskipped⟩

end Derivation

end PatternGraph
