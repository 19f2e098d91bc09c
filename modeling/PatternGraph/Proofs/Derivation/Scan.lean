import PatternGraph.Derivation.Basic
import PatternGraph.Proofs.Graph.Selection

/-!
# The matches of a rule in a graph

What applying a rule to a graph comes to, for any rule and any builder. `Rule.matchesIn` gives the
matches: the edges of the two hops are those that a scan of all edges finds, and two of them match if
they meet in the middle and the edge to be derived has two different ends. `applyRule_eq_foldl` says that
applying the rule tries these matches one after another.

The second query of an application asks for less than the second hop, namely for edges at the middle
vertices of the first; no match is lost by that, `Rule.matchesOf_reached`.
-/

namespace PatternGraph

theorem Graph.vertex?_congr {g g' : Graph} (h : g'.vertices = g.vertices) (id : String) :
    g'.vertex? id = g.vertex? id := by
  rw [vertex?, vertex?, h]

/-! ### The edges of a hop -/

namespace Hop

/-- An edge that a hop asks for, between vertices that two filters admit. -/
structure Asked (hop : Hop) (g : Graph) (left right : VertexFilter) (e : Edge) : Prop where
  edge : hop.edgeFilter.Satisfied e
  left : ∃ v ∈ g.vertex? (hop.ends e).1, left.Satisfied v
  right : ∃ w ∈ g.vertex? (hop.ends e).2, right.Satisfied w

theorem asked_iff {hop : Hop} {g : Graph} {left right : VertexFilter} {e : Edge} :
    hop.Asked g left right e ↔ hop.edgeFilter.Satisfied e ∧
      (∃ v ∈ g.vertex? (hop.ends e).1, left.Satisfied v) ∧
        ∃ w ∈ g.vertex? (hop.ends e).2, right.Satisfied w :=
  ⟨fun h => ⟨h.edge, h.left, h.right⟩, fun ⟨edge, left, right⟩ => ⟨edge, left, right⟩⟩

instance (hop : Hop) (g : Graph) (left right : VertexFilter) (e : Edge) :
    Decidable (hop.Asked g left right e) :=
  decidable_of_iff _ asked_iff.symm

/-- The edges of a hop in a graph, in the order in which they were put in. -/
def edgesIn (hop : Hop) (g : Graph) (left right : VertexFilter) : List Edge :=
  g.allEdges.filter fun e => hop.Asked g left right e

end Hop

/-- The edges of a hop are selected between the two filters, in the direction of the hop. -/
theorem Hop.edgesIn_eq_selectEdges {g : Graph} (h : g.WellFormed) (hop : Hop)
    (left right : VertexFilter) :
    hop.edgesIn g left right = match hop.direction with
      | .forward => g.selectEdges (some left) hop.edgeFilter (some right)
      | .backward => g.selectEdges (some right) hop.edgeFilter (some left) := by
  cases hdirection : hop.direction with
  | forward =>
    simp only [edgesIn, h.selectEdges_eq_scan]
    refine List.filter_congr fun e _ => decide_eq_decide.2 ?_
    rw [Graph.asked_some_iff, asked_iff, ends, hdirection]
    exact and_left_comm
  | backward =>
    simp only [edgesIn, h.selectEdges_eq_scan]
    refine List.filter_congr fun e _ => decide_eq_decide.2 ?_
    rw [Graph.asked_some_iff, asked_iff, ends, hdirection]
    exact (and_congr_right fun _ => and_comm).trans and_left_comm

/-- Querying a graph gives the edges of the hop, and leaves the graph as it is. -/
theorem Hop.select_eq {g : Graph} (h : g.WellFormed) (hop : Hop) (left right : VertexFilter) :
    hop.select left right g = (.ok (hop.edgesIn g left right), g) := by
  rw [select, edgesIn_eq_selectEdges h]
  cases hop.direction <;> rfl

/-- The edges of a hop whose left vertex is in a list. -/
theorem Hop.edgesIn_ids {g : Graph} (h : g.WellFormed) (hop : Hop) (types : TypeSet)
    (ids : List String) (right : VertexFilter) :
    hop.edgesIn g { VertexFilter.ofTypes types with ids := some ids } right =
      (hop.edgesIn g (.ofTypes types) right).filter fun e => (hop.ends e).1 ∈ ids := by
  rw [edgesIn, edgesIn, List.filter_filter]
  refine List.filter_congr fun e _ => ?_
  rw [← Bool.decide_and, decide_eq_decide]
  constructor
  · rintro ⟨hedge, ⟨v, hv, hids, htypes, hname⟩, hright⟩
    have hmem := hids ids rfl
    rw [h.id_of_vertex? hv] at hmem
    exact ⟨hmem, hedge, ⟨v, hv, nofun, htypes, hname⟩, hright⟩
  · rintro ⟨hmem, hedge, ⟨v, hv, -, htypes, hname⟩, hright⟩
    rw [← h.id_of_vertex? hv] at hmem
    refine ⟨hedge, ⟨v, hv, ?_, htypes, hname⟩, hright⟩
    rintro _ ⟨⟩
    exact hmem

/-! ### The matches -/

namespace Rule

/-- The edges of the first hop of a rule. -/
def firstEdgesIn (r : Rule) (g : Graph) : List Edge :=
  r.condition.first.edgesIn g (.ofTypes r.condition.first.vertexTypes)
    (.ofTypes r.condition.middleTypes)

/-- The edges of the second hop of a rule. -/
def secondEdgesIn (r : Rule) (g : Graph) : List Edge :=
  r.condition.second.edgesIn g (.ofTypes r.condition.middleTypes)
    (.ofTypes r.condition.second.vertexTypes)

/-- The matches of a rule in a graph: pairs of edges of its hops that meet in the middle, such that the
edge to be derived has two different ends. -/
def matchesIn (r : Rule) (g : Graph) : List Match :=
  (r.matchesOf (r.firstEdgesIn g) (r.secondEdgesIn g)).filter r.applies

theorem mem_matchesOf {r : Rule} {es₁ es₂ : List Edge} {m : Match} :
    m ∈ r.matchesOf es₁ es₂ ↔ m.firstEdge ∈ es₁ ∧ m.secondEdge ∈ es₂ ∧
      r.condition.first.ends m.firstEdge = (m.first, m.middle) ∧
      r.condition.second.ends m.secondEdge = (m.middle, m.last) := by
  simp only [matchesOf, List.mem_flatMap, List.mem_filterMap, Option.ite_none_right_eq_some,
    Option.some.injEq]
  constructor
  · rintro ⟨e₂, he₂, e₁, he₁, hmeet, rfl⟩
    exact ⟨he₁, he₂, by rw [← hmeet], rfl⟩
  · rintro ⟨he₁, he₂, hends, hends'⟩
    refine ⟨m.secondEdge, he₂, m.firstEdge, he₁, ?_⟩
    rw [hends, hends']
    exact ⟨rfl, rfl⟩

theorem matchesOf_cons (r : Rule) (es₁ es₂ : List Edge) (e : Edge) :
    r.matchesOf es₁ (e :: es₂) = r.matchesOf es₁ [e] ++ r.matchesOf es₁ es₂ :=
  @List.flatMap_append _ _ [e] es₂ _

/-- An edge of the second hop whose left vertex the first hop does not reach is in no match. -/
theorem matchesOf_filter_middles (r : Rule) (es₁ es₂ : List Edge) :
    r.matchesOf es₁ (es₂.filter fun e => (r.condition.second.ends e).1 ∈ r.middles es₁) =
      r.matchesOf es₁ es₂ := by
  induction es₂ with
  | nil => rfl
  | cons e es₂ ih =>
    by_cases hreached : (r.condition.second.ends e).1 ∈ r.middles es₁
    · simp only [List.filter_cons, hreached, decide_true, if_true]
      rw [matchesOf_cons, ih, ← matchesOf_cons]
    · have hnone : r.matchesOf es₁ [e] = [] := by
        refine List.eq_nil_iff_forall_not_mem.2 fun m hm => hreached ?_
        obtain ⟨hfirst, hsecond, hends, hends'⟩ := mem_matchesOf.1 hm
        rw [List.mem_singleton.1 hsecond] at hends'
        rw [hends']
        exact List.mem_eraseDups.2 (List.mem_map.2 ⟨m.firstEdge, hfirst, congrArg Prod.snd hends⟩)
      simp only [List.filter_cons, hreached, decide_false, Bool.false_eq_true, if_false]
      rw [ih, matchesOf_cons, hnone, List.nil_append]

/-- Asking the second hop only at the middle vertices of the first takes no match away. -/
theorem matchesOf_reached {g : Graph} (h : g.WellFormed) (r : Rule) (es₁ : List Edge) :
    r.matchesOf es₁ (r.condition.second.edgesIn g
        { VertexFilter.ofTypes r.condition.middleTypes with ids := some (r.middles es₁) }
        (.ofTypes r.condition.second.vertexTypes)) =
      r.matchesOf es₁ (r.secondEdgesIn g) := by
  rw [Hop.edgesIn_ids h, matchesOf_filter_middles, secondEdgesIn]

theorem matchesIn_of_no_firstEdges {r : Rule} {g : Graph} (hnone : r.firstEdgesIn g = []) :
    r.matchesIn g = [] := by
  refine List.eq_nil_iff_forall_not_mem.2 fun m hm => ?_
  have hmem := (mem_matchesOf.1 (List.mem_of_mem_filter hm)).1
  rw [hnone] at hmem
  exact List.not_mem_nil hmem

end Rule

namespace DerivationRun

variable {run : DerivationRun Graph}

/-- Applying a rule tries its matches, one after another. -/
theorem applyRule_eq_foldl (h : run.store.WellFormed) (build : EdgeBuilder) (r : Rule) :
    run.applyRule build r = (r.matchesIn run.store).foldl (addMatch build r) run := by
  have hfirst := Hop.select_eq h r.condition.first (.ofTypes r.condition.first.vertexTypes)
    (.ofTypes r.condition.middleTypes)
  rw [← Rule.firstEdgesIn] at hfirst
  cases hedges : r.firstEdgesIn run.store with
  | nil =>
    rw [hedges] at hfirst
    simp only [applyRule, hfirst, Rule.matchesIn_of_no_firstEdges hedges, List.foldl_nil]
  | cons e es =>
    have hsecond := Hop.select_eq h r.condition.second
      { VertexFilter.ofTypes r.condition.middleTypes with ids := some (r.middles (e :: es)) }
      (.ofTypes r.condition.second.vertexTypes)
    rw [hedges] at hfirst
    simp only [applyRule, hfirst, hsecond]
    rw [Rule.matchesOf_reached h, ← hedges]
    rfl

/-- The vertices of a match are stored in the graph. -/
def Anchored (g : Graph) (m : Match) : Prop := ∀ part, ∃ v, g.vertex? (m.vertex part) = some v

theorem Anchored.exists_slot {g : Graph} {m : Match} (hm : Anchored g m) (part : RulePart) :
    ∃ slot, g.vertices.slot? (m.vertex part) = some slot := by
  obtain ⟨v, hv⟩ := hm part
  obtain ⟨slot, hslot, -⟩ := Graph.vertex?_eq_some.1 hv
  exact ⟨slot, hslot⟩

theorem Anchored.congr {g g' : Graph} {m : Match} (hm : Anchored g m)
    (hvertices : g'.vertices = g.vertices) : Anchored g' m := by
  intro part
  rw [Graph.vertex?_congr hvertices]
  exact hm part

end DerivationRun

namespace Rule

variable {r : Rule} {g : Graph} {m : Match}

theorem mem_matchesIn : m ∈ r.matchesIn g ↔
    (m.firstEdge ∈ r.firstEdgesIn g ∧ m.secondEdge ∈ r.secondEdgesIn g ∧
      r.condition.first.ends m.firstEdge = (m.first, m.middle) ∧
      r.condition.second.ends m.secondEdge = (m.middle, m.last)) ∧
      m.vertex r.effect.source ≠ m.vertex r.effect.target := by
  rw [matchesIn, List.mem_filter, mem_matchesOf, applies, bne_iff_ne]

/-- The vertices of a match are the ends of stored edges. -/
theorem anchored_of_mem_matchesIn (hm : m ∈ r.matchesIn g) : DerivationRun.Anchored g m := by
  obtain ⟨⟨hfirst, hsecond, hends, hends'⟩, -⟩ := mem_matchesIn.1 hm
  have hasked := of_decide_eq_true (List.mem_filter.1 hfirst).2
  have hasked' := of_decide_eq_true (List.mem_filter.1 hsecond).2
  have hleft := hasked.left
  have hmiddle := hasked.right
  have hright := hasked'.right
  rw [hends] at hleft hmiddle
  rw [hends'] at hright
  intro part
  cases part with
  | first => exact hleft.imp fun _ => And.left
  | middle => exact hmiddle.imp fun _ => And.left
  | last => exact hright.imp fun _ => And.left

end Rule

end PatternGraph
