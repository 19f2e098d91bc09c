import Mathlib.Data.List.ReduceOption
import PatternGraph.Proofs.Derivation.FixedPoint
import PatternGraph.Proofs.Graph.EdgeOrder
import PatternGraph.Repository.Faulty

/-!
# Failures during a derivation

A derivation over a graph whose queries and additions fail as planned, with any rules and any builder.
What a failure spoils is said for each application of a rule by `DerivationRun.Settles`:

* if the query for one of the two hops fails, nothing comes of the application at all;
* otherwise the graph is the one that comes of adding, in the order of the matches, the edges that were
  built and that neither the plan nor the graph refused, `FaultPlan.admitted`, and every match whose edge
  is not among these is counted as skipped.

The matches are those of the whole graph, `Rule.matchesIn`, though the second query of an application asks
for less.

A derivation is a list of applications, so it skips what they skip together, `Derivation.failures_after`.
-/

namespace PatternGraph

open DerivationRun

namespace Rule

/-- The edge that is built of a match, unless the builder declines it. -/
def edgeFor (r : Rule) (build : EdgeBuilder) (m : Match) : Option Edge :=
  build (m.vertex r.effect.source) (m.vertex r.effect.target) r.effect.types none
    [r.label, m.firstEdge.id, m.secondEdge.id]

/-- Whether a query of an application fails: the one for the first hop, or the one for the second, which
is made only if there are edges of the first. -/
def hopFails (r : Rule) (s : FaultyGraph) : Bool :=
  s.plan.failsQuery s.queries ||
    (!(r.firstEdgesIn s.graph).isEmpty && s.plan.failsQuery (s.queries + 1))

end Rule

/-! ### The edges that go in -/

namespace Graph

/-- A graph takes an edge if it holds an edge of the same id already, or both ends of the edge. -/
def Takes (g : Graph) (e : Edge) : Prop :=
  e.normalize.id ∈ g.allEdges.map Edge.id ∨
    e.source ∈ g.allVertices.map Vertex.id ∧ e.target ∈ g.allVertices.map Vertex.id

instance (g : Graph) (e : Edge) : Decidable (g.Takes e) :=
  inferInstanceAs (Decidable (_ ∨ _ ∧ _))

end Graph

/-- Which of some edges go in, one after another: each that is there, and that neither the plan nor the
graph of that moment refuses. The number is that of the additions tried before. -/
def FaultPlan.admitted (plan : FaultPlan) : List (Option Edge) → Nat → Graph → List (Option Edge)
  | [], _, _ => []
  | none :: es, n, g => none :: admitted plan es n g
  | some e :: es, n, g =>
    if plan.refusesEdge n e = false ∧ g.Takes e then
      some e :: admitted plan es (n + 1) (g.addEdge e).2
    else none :: admitted plan es (n + 1) g

/-- For each match of a rule the edge that goes in, if one does. No match is tried if a query fails. -/
def Rule.verdicts (r : Rule) (build : EdgeBuilder) (s : FaultyGraph) : List (Option Edge) :=
  if r.hopFails s then []
  else s.plan.admitted ((r.matchesIn s.graph).map (r.edgeFor build)) s.additions s.graph

namespace Graph.WellFormed

variable {g g' : Graph} {e : Edge}

theorem takes_iff (h : g.WellFormed) : g.Takes e ↔ ∃ result g', g.addEdge e = (.ok result, g') := by
  rw [Takes, h.mem_edgeIds, h.mem_vertexIds, h.mem_vertexIds]
  constructor
  · rintro (⟨slot, hslot⟩ | ⟨⟨source, hsource⟩, target, htarget⟩)
    · exact ⟨_, _, addEdge_of_stored hslot⟩
    · exact exists_addEdge_ok hsource htarget
  · rintro ⟨result, g', hadd⟩
    rcases addEdge_eq_ok hadd with ⟨slot, hslot, -⟩ | ⟨source, target, -, hsource, htarget, -⟩
    · exact .inl ⟨slot, hslot⟩
    · exact .inr ⟨⟨source, hsource⟩, target, htarget⟩

/-- The edges that are added stand behind the others, as many as are told to be new. -/
theorem exists_appended (h : g.WellFormed) {edges : List Edge} {results : List AddedEdge}
    (hadd : g.addEdges edges = (.ok results, g')) :
    ∃ added, g'.allEdges = g.allEdges ++ added ∧
      added.length = results.countP AddedEdge.inserted := by
  induction edges generalizing g results with
  | nil =>
    obtain ⟨hresults, rfl⟩ := Prod.ext_iff.1 hadd
    obtain rfl := Except.ok.inj hresults
    exact ⟨[], (List.append_nil _).symm, rfl⟩
  | cons e edges ih =>
    obtain ⟨result, g₁, rest, hfirst, hrest, rfl⟩ := Action.forEach_cons_eq_ok.1 hadd
    obtain ⟨added, hadded, hcount⟩ := ih (h.filled_addEdge hfirst).wellFormed hrest
    rcases g.addEdge_cases e with heq | ⟨_, heq⟩ | ⟨source, target, -, -, -, heq⟩
    · obtain ⟨hresult, rfl⟩ := Prod.ext_iff.1 (heq.symm.trans hfirst)
      rw [← Except.ok.inj hresult]
      exact ⟨added, hadded, hcount⟩
    · exact absurd (congrArg Prod.fst (heq.symm.trans hfirst)) nofun
    · obtain ⟨hresult, rfl⟩ := Prod.ext_iff.1 (heq.symm.trans hfirst)
      rw [← Except.ok.inj hresult]
      refine ⟨e.normalize :: added, ?_, ?_⟩
      · rw [hadded, h.allEdges_withEdge, List.append_assoc]
        rfl
      · rw [List.length_cons, hcount, List.countP_cons_of_pos rfl]

end Graph.WellFormed

/-! ### Querying -/

/-- A query that does not fail gives the edges of the hop. -/
theorem Hop.select_faulty {s : FaultyGraph} (h : s.graph.WellFormed) (hop : Hop)
    (left right : VertexFilter) :
    hop.select left right s =
      (if s.plan.failsQuery s.queries then .error (.backend ("query #" ++ Nat.repr s.queries))
        else .ok (hop.edgesIn s.graph left right), { s with queries := s.queries + 1 }) := by
  have hselect : ∀ source target, FaultyGraph.selectEdges source hop.edgeFilter target s =
      (if s.plan.failsQuery s.queries then .error (.backend ("query #" ++ Nat.repr s.queries))
        else .ok (s.graph.selectEdges source hop.edgeFilter target),
        { s with queries := s.queries + 1 }) := by
    intro source target
    rw [FaultyGraph.selectEdges]
    split <;> rfl
  rw [select, edgesIn_eq_selectEdges h]
  cases hop.direction with
  | forward => exact hselect (some left) (some right)
  | backward => exact hselect (some right) (some left)

namespace DerivationRun

variable {build : EdgeBuilder} {run : DerivationRun FaultyGraph} {r : Rule} {m : Match} {e : Edge}

/-! ### Trying one match -/

theorem addMatch_of_declined (he : r.edgeFor build m = none) :
    run.addMatch build r m =
      { run.note (.declined (m.vertex r.effect.source) (m.vertex r.effect.target)) with
        skipped := run.skipped + 1 } := by
  rw [Rule.edgeFor] at he
  simp only [addMatch, he]

theorem addMatch_of_taken (he : r.edgeFor build m = some e)
    (hplan : run.store.plan.refusesEdge run.store.additions e = false) {result : AddedEdge} {g : Graph}
    (hadd : run.store.graph.addEdge e = (.ok result, g)) :
    run.addMatch build r m =
      { run with
        store := { run.store with graph := g, additions := run.store.additions + 1 }
        added := if result.inserted then run.added + 1 else run.added } := by
  have hrepo : Repository.addEdge e run.store =
      (.ok result, { run.store with graph := g, additions := run.store.additions + 1 }) := by
    change FaultyGraph.addEdge e run.store = _
    simp [FaultyGraph.addEdge, hplan, FaultyGraph.onGraph, hadd]
  rw [Rule.edgeFor] at he
  simp only [addMatch, he, hrepo]

theorem exists_addMatch_of_refused (h : run.store.graph.WellFormed) (he : r.edgeFor build m = some e)
    (hout : ¬(run.store.plan.refusesEdge run.store.additions e = false ∧ run.store.graph.Takes e)) :
    ∃ error, run.addMatch build r m =
      { run.note (.refused (m.vertex r.effect.source) (m.vertex r.effect.target) error) with
        store := { run.store with additions := run.store.additions + 1 }
        skipped := run.skipped + 1 } := by
  have hrepo : ∃ error, Repository.addEdge e run.store =
      (.error error, { run.store with additions := run.store.additions + 1 }) := by
    change ∃ error, FaultyGraph.addEdge e run.store = _
    cases hplan : run.store.plan.refusesEdge run.store.additions e with
    | true => exact ⟨.backend ("add " ++ e.id), by simp only [FaultyGraph.addEdge, hplan, if_true]⟩
    | false =>
      rw [h.takes_iff] at hout
      rcases run.store.graph.addEdge_cases e with heq | ⟨error, heq⟩ | ⟨_, _, -, -, -, heq⟩
      · exact absurd ⟨hplan, _, _, heq⟩ hout
      · exact ⟨error, by simp [FaultyGraph.addEdge, hplan, FaultyGraph.onGraph, heq]⟩
      · exact absurd ⟨hplan, _, _, heq⟩ hout
  obtain ⟨error, hrepo⟩ := hrepo
  rw [Rule.edgeFor] at he
  exact ⟨error, by simp only [addMatch, he, hrepo]⟩

/-! ### Trying the matches of a rule -/

/-- A run after some matches were tried: the edges that went in are added to the graph, the new ones are
counted as added, and the matches of which no edge went in are counted as skipped. -/
structure Tried (run : DerivationRun FaultyGraph) (verdicts : List (Option Edge))
    (next : DerivationRun FaultyGraph) : Prop where
  added : ∃ results,
    run.store.graph.addEdges verdicts.reduceOption = (.ok results, next.store.graph) ∧
      next.added = run.added + results.countP AddedEdge.inserted
  skipped : next.skipped = run.skipped + verdicts.count none

theorem Tried.cons_none {run' next : DerivationRun FaultyGraph} {verdicts : List (Option Edge)}
    (h : Tried run' verdicts next) (hgraph : run'.store.graph = run.store.graph)
    (hadded : run'.added = run.added) (hskipped : run'.skipped = run.skipped + 1) :
    Tried run (none :: verdicts) next where
  added := by
    rw [List.reduceOption_cons_of_none, ← hgraph, ← hadded]
    exact h.added
  skipped := by
    rw [h.skipped, hskipped, List.count_cons_self, Nat.add_right_comm, Nat.add_assoc]

theorem Tried.cons_some {run' next : DerivationRun FaultyGraph} {verdicts : List (Option Edge)}
    (h : Tried run' verdicts next) {result : AddedEdge}
    (hadd : run.store.graph.addEdge e = (.ok result, run'.store.graph))
    (hadded : run'.added = if result.inserted then run.added + 1 else run.added)
    (hskipped : run'.skipped = run.skipped) : Tried run (some e :: verdicts) next where
  added := by
    obtain ⟨results, hrest, hcount⟩ := h.added
    refine ⟨result :: results, ?_, ?_⟩
    · rw [List.reduceOption_cons_of_some]
      exact Action.forEach_cons_eq_ok.2 ⟨result, _, results, hadd, hrest, rfl⟩
    · rw [hcount, hadded, List.countP_cons]
      split
      · rw [Nat.add_right_comm, Nat.add_assoc]
      · rw [Nat.add_zero]
  skipped := by
    rw [h.skipped, hskipped, List.count_cons_of_ne (Option.some_ne_none e)]

/-- The matches are tried one after another; whatever becomes of one, the others are tried as well. -/
theorem tried_foldl_addMatch (h : run.store.graph.WellFormed) (ms : List Match) :
    Tried run (run.store.plan.admitted (ms.map (r.edgeFor build)) run.store.additions run.store.graph)
      (ms.foldl (addMatch build r) run) := by
  induction ms generalizing run with
  | nil => exact ⟨⟨[], rfl, rfl⟩, rfl⟩
  | cons m ms ih =>
    rw [List.foldl_cons, List.map_cons]
    have hnext := @ih (run.addMatch build r m)
    cases he : r.edgeFor build m with
    | none =>
      rw [addMatch_of_declined he] at hnext ⊢
      exact (hnext h).cons_none rfl rfl rfl
    | some e =>
      rw [FaultPlan.admitted]
      split
      · next hin =>
        obtain ⟨hplan, htakes⟩ := hin
        obtain ⟨result, g, hadd⟩ := h.takes_iff.1 htakes
        rw [addMatch_of_taken he hplan hadd] at hnext ⊢
        rw [hadd]
        exact (hnext (h.filled_addEdge hadd).wellFormed).cons_some hadd rfl rfl
      · next hout =>
        obtain ⟨error, heq⟩ := exists_addMatch_of_refused h he hout
        rw [heq] at hnext ⊢
        exact (hnext h).cons_none rfl rfl rfl

/-! ### Applying a rule -/

/-- An application of which a query fails leaves all but notices behind. Any other tries the matches of
the graph. -/
theorem applyRule_cases (h : run.store.graph.WellFormed) (build : EdgeBuilder) (r : Rule) :
    ∃ queries, (r.hopFails run.store = true ∧ ∃ notices, run.applyRule build r =
        { run with store := { run.store with queries }, notices }) ∨
      (r.hopFails run.store = false ∧ run.applyRule build r =
        (r.matchesIn run.store.graph).foldl (addMatch build r)
          { run with store := { run.store with queries } }) := by
  have hfirst := Hop.select_faulty h r.condition.first (.ofTypes r.condition.first.vertexTypes)
    (.ofTypes r.condition.middleTypes)
  rw [← Rule.firstEdgesIn] at hfirst
  cases hfails : run.store.plan.failsQuery run.store.queries with
  | true =>
    rw [hfails, if_pos rfl] at hfirst
    refine ⟨run.store.queries + 1, .inl ⟨by rw [Rule.hopFails, hfails, Bool.true_or], ?_⟩⟩
    simp only [applyRule, hfirst]
    exact ⟨_, rfl⟩
  | false =>
    rw [hfails, if_neg Bool.false_ne_true] at hfirst
    cases hedges : r.firstEdgesIn run.store.graph with
    | nil =>
      refine ⟨run.store.queries + 1, .inr ⟨?_, ?_⟩⟩
      · rw [Rule.hopFails, hfails, hedges]
        rfl
      · rw [hedges] at hfirst
        simp only [applyRule, hfirst, Rule.matchesIn_of_no_firstEdges hedges]
        rfl
    | cons e es =>
      have hsecond := @Hop.select_faulty { run.store with queries := run.store.queries + 1 } h
        r.condition.second
        { VertexFilter.ofTypes r.condition.middleTypes with ids := some (r.middles (e :: es)) }
        (.ofTypes r.condition.second.vertexTypes)
      rw [hedges] at hfirst
      have hhop : r.hopFails run.store = run.store.plan.failsQuery (run.store.queries + 1) := by
        rw [Rule.hopFails, hfails, hedges]
        rfl
      refine ⟨run.store.queries + 2, ?_⟩
      rw [hhop]
      cases hfails' : run.store.plan.failsQuery (run.store.queries + 1) with
      | true =>
        simp only [hfails', if_true] at hsecond
        simp only [applyRule, hfirst, hsecond]
        exact .inl ⟨trivial, _, rfl⟩
      | false =>
        simp only [hfails', Bool.false_eq_true, if_false] at hsecond
        simp only [applyRule, hfirst, hsecond]
        rw [Rule.matchesOf_reached h, ← hedges]
        exact .inr ⟨trivial, rfl⟩

/-- What comes of an application of a rule: nothing if a query fails, and else what comes of trying its
matches. -/
structure Settles (build : EdgeBuilder) (r : Rule) (run next : DerivationRun FaultyGraph) : Prop where
  failed : r.hopFails run.store → next.store.graph = run.store.graph ∧ next.added = run.added ∧
    next.skipped = run.skipped
  tried : Tried run (r.verdicts build run.store) next

theorem settles_applyRule (h : run.store.graph.WellFormed) (build : EdgeBuilder) (r : Rule) :
    Settles build r run (run.applyRule build r) := by
  obtain ⟨queries, ⟨hfails, notices, heq⟩ | ⟨hfails, heq⟩⟩ := applyRule_cases h build r
  · rw [heq]
    refine ⟨fun _ => ⟨rfl, rfl, rfl⟩, ?_⟩
    rw [Rule.verdicts, if_pos hfails]
    exact ⟨⟨[], rfl, rfl⟩, rfl⟩
  · rw [heq]
    refine ⟨fun hc => absurd (hfails.symm.trans hc) Bool.false_ne_true, ?_⟩
    rw [Rule.verdicts, hfails, if_neg Bool.false_ne_true]
    -- which queries come next matters to no match
    have htried := @tried_foldl_addMatch build
      { run with store := { run.store with queries } } r h (r.matchesIn run.store.graph)
    exact ⟨htried.added, htried.skipped⟩

/-! ### The whole run -/

/-- A run that began with a graph has its vertices, and behind its edges as many more as the run has
counted. -/
structure Kept (g : Graph) (run : DerivationRun FaultyGraph) : Prop where
  wellFormed : run.store.graph.WellFormed
  allVertices : run.store.graph.allVertices = g.allVertices
  allEdges : ∃ added, run.store.graph.allEdges = g.allEdges ++ added ∧ added.length = run.added

variable {g : Graph}

theorem Kept.tried {next : DerivationRun FaultyGraph} {verdicts : List (Option Edge)}
    (h : Kept g run) (htried : Tried run verdicts next) : Kept g next := by
  obtain ⟨results, hadd, hcount⟩ := htried.added
  obtain ⟨added, hadded, hlength⟩ := h.allEdges
  obtain ⟨more, hmore, hlength'⟩ := h.wellFormed.exists_appended hadd
  have hfilled := h.wellFormed.filled_addEdges hadd
  refine ⟨hfilled.wellFormed, hfilled.allVertices.trans h.allVertices, added ++ more, ?_, ?_⟩
  · rw [hmore, hadded, List.append_assoc]
  · rw [List.length_append, hlength, hlength', hcount]

theorem Kept.applyRule (h : Kept g run) (build : EdgeBuilder) (r : Rule) :
    Kept g (run.applyRule build r) :=
  h.tried (settles_applyRule h.wellFormed build r).tried

/-- All applications together skip what each of them skips. -/
theorem Kept.skipped_foldl (h : Kept g run) (build : EdgeBuilder) (rules : List Rule) :
    (rules.foldl (DerivationRun.applyRule build) run).skipped = run.skipped +
      ((applications build rules run).map fun a => (a.1.verdicts build a.2.store).count none).sum := by
  induction rules generalizing run with
  | nil => rfl
  | cons r rules ih =>
    rw [List.foldl_cons, ih (h.applyRule build r),
      (settles_applyRule h.wellFormed build r).tried.skipped, applications, List.map_cons,
      List.sum_cons, Nat.add_assoc]

end DerivationRun

/-- In every graph of a history, whichever queries and additions of it fail, and for any rules, builder
and number of passes: a derivation ends as the applications of its rules do, as many times over as the
report tells. Each of them does nothing if one of its queries fails, and else adds the edges that were
built and not refused and skips the other matches. Together they skip as many as the report tells, the
edges are as many more as it tells, and what was stored before is stored still. -/
theorem Derivation.failures_after (changes : List Change) (plan : FaultPlan) (queries additions : Nat)
    (d : Derivation) (maxPasses : Nat) :
    let before := Graph.after changes
    let start : DerivationRun FaultyGraph := { store := ⟨before, plan, queries, additions⟩ }
    let report := (d.derive maxPasses start.store).1
    let after := (d.derive maxPasses start.store).2.2
    let rules := (List.replicate report.passes d.rules).flatten
    after = (rules.foldl (applyRule d.build) start).store ∧
      (∀ a ∈ applications d.build rules start,
        Settles d.build a.1 a.2 (a.2.applyRule d.build a.1)) ∧
      report.skipped = ((applications d.build rules start).map fun a =>
        (a.1.verdicts d.build a.2.store).count none).sum ∧
      after.graph.edgeCount = before.edgeCount + report.added ∧
      after.graph.allVertices = before.allVertices ∧ before.allEdges <+: after.graph.allEdges := by
  intro before start report after rules
  have hstart : Kept before start :=
    ⟨Graph.wellFormed_after changes, rfl, [], (List.append_nil _).symm, rfl⟩
  have hlast : (passes d.build d.rules maxPasses start).2 = rules.foldl (applyRule d.build) start :=
    passes_eq_foldl d.rules maxPasses start
  have hafter : Kept before (rules.foldl (applyRule d.build) start) :=
    foldl_applyRule_preserve (fun _ r hrun => hrun.applyRule d.build r) rules hstart
  have hskipped := hstart.skipped_foldl d.build rules
  rw [← hlast] at hafter hskipped
  obtain ⟨added, hadded, hcount⟩ := hafter.allEdges
  have hreport : report.added = added.length := hcount.symm
  refine ⟨congrArg store hlast, fun a ha => ?_, ?_, ?_, hafter.allVertices, added, hadded.symm⟩
  · exact settles_applyRule (applications_preserve (fun _ r hrun => hrun.applyRule d.build r) rules
      hstart a ha).wellFormed d.build a.1
  · exact hskipped.trans (Nat.zero_add _)
  · have hwf : after.graph.WellFormed := hafter.wellFormed
    rw [hwf.shows_listing.edgeCount, (Graph.wellFormed_after changes).shows_listing.edgeCount, hreport,
      ← List.length_append]
    exact congrArg List.length hadded

-- The second query of the first application fails, so the edge is added by the second one; adding it
-- once more, in the next pass, is refused.
example :
    let start : FaultyGraph := ⟨Graph.after Derivation.twoEdges,
      { failsQuery := fun n => n == 1, refusesEdge := fun n _ => n == 1 }, 0, 0⟩
    ((Derivation.standard [Derivation.transitivity, Derivation.transitivity]).derive 5 start).1 =
      ⟨2, 1, 1⟩ := by
  decide +kernel

end PatternGraph
