import PatternGraph.Proofs.Except
import PatternGraph.Proofs.Query.Agreement
import PatternGraph.Snapshot

/-!
# The order of the edges in a snapshot

All vertices of a snapshot go in before its edges, so an edge never waits for an end that comes later.
But of the edges that have one id the first is stored, with its derivation and its name in another
system, and the others are passed over unread. So the order does matter, if edges that have one id
differ in what is stored of them.

`Edge.Agree` says that they do not. `Snapshot.toGraph_perm` says that this is the whole of it: edges
that agree can be put in any order, and edges that do not can be put in an order that fails or stores
other edges. Both come from `Graph.Filled`, which says what is known of a graph that some edges were
added to: every edge of it was there or is one of them, and every one of them has its id stored.
-/

namespace PatternGraph

/-- Edges that have one id are the same edge, once they are stored. -/
def Edge.Agree (edges : List Edge) : Prop :=
  ∀ e ∈ edges, ∀ e' ∈ edges, e.normalize.id = e'.normalize.id → e.normalize = e'.normalize

theorem Edge.agree_singleton (e : Edge) : Agree [e] := by
  intro e₁ h₁ e₂ h₂ _
  rw [List.mem_singleton.1 h₁, List.mem_singleton.1 h₂]

theorem Edge.Agree.perm {edges edges' : List Edge} (h : Agree edges) (hperm : edges'.Perm edges) :
    Agree edges' :=
  fun e he e' he' => h e (hperm.mem_iff.1 he) e' (hperm.mem_iff.1 he')

/-- An action succeeds for each member of a list if it does for the first and then for the others. -/
theorem Action.forEach_cons_eq_ok {σ α β : Type} {step : α → Action σ β} {a : α} {as : List α}
    {bs : List β} {s s' : σ} :
    Action.forEach step (a :: as) s = (.ok bs, s') ↔ ∃ first s₁ rest,
      step a s = (.ok first, s₁) ∧ Action.forEach step as s₁ = (.ok rest, s') ∧ bs = first :: rest := by
  rcases hfirst : step a s with ⟨_ | first, s₁⟩
  · simp [Action.forEach, hfirst]
  · rcases hrest : Action.forEach step as s₁ with ⟨_ | rest, s₂⟩
    · simp [Action.forEach, hfirst, hrest]
    · simp [Action.forEach, hfirst, hrest, and_comm, eq_comm]

namespace Graph

/-- A graph holds what another holds and some edges more, and knows the ids of all of these. -/
structure Filled (g : Graph) (edges : List Edge) (g' : Graph) : Prop where
  wellFormed : g'.WellFormed
  allVertices : g'.allVertices = g.allVertices
  kept : ∀ e ∈ g.allEdges, e ∈ g'.allEdges
  origin : ∀ e ∈ g'.allEdges, e ∈ g.allEdges ∨ ∃ e₀ ∈ edges, e₀.normalize = e
  known : ∀ e ∈ edges, ∃ stored ∈ g'.allEdges, stored.id = e.normalize.id

/-- A graph holds the vertices of another and, in some order, its edges, and finds the same edges for
all filters. -/
structure Reorders (g' g : Graph) : Prop where
  allVertices : g'.allVertices = g.allVertices
  allEdges : g'.allEdges.Perm g.allEdges
  selectEdges : ∀ source edge target,
    (g'.selectEdges source edge target).Perm (g.selectEdges source edge target)

variable {g g₁ g' : Graph} {e : Edge} {edges edges' : List Edge} {vertices : List Vertex}

/-! ### Adding edges -/

/-- An edge that is not refused is stored already, or is new between two stored vertices. -/
theorem addEdge_eq_ok {added : AddedEdge} (h : g.addEdge e = (.ok added, g')) :
    (∃ slot, g.edges.slot? e.normalize.id = some slot ∧ g' = g) ∨
      ∃ source target, g.edges.slot? e.normalize.id = none ∧
        g.vertices.slot? e.source = some source ∧ g.vertices.slot? e.target = some target ∧
        g' = g.withEdge e.normalize source target := by
  have hgraph : g' = (g.addEdge e).2 := by rw [h]
  cases hslot : g.edges.slot? e.normalize.id with
  | some slot => exact .inl ⟨slot, rfl, by rw [hgraph, addEdge_of_stored hslot]⟩
  | none =>
    rcases g.addEdge_cases e with heq | ⟨error, heq⟩ | ⟨source, target, -, hs, ht, heq⟩
    · cases hs : g.vertices.slot? e.source with
      | none => simp [addEdge_of_no_source hslot hs] at heq
      | some source =>
        cases ht : g.vertices.slot? e.target with
        | none => simp [addEdge_of_no_target hslot hs ht] at heq
        | some target => simp [addEdge_of_new hslot hs ht] at heq
    · exact absurd (congrArg Prod.fst (h.symm.trans heq)) nofun
    · exact .inr ⟨source, target, rfl, hs, ht, by rw [hgraph, heq]⟩

/-- An edge between stored vertices is not refused. -/
theorem exists_addEdge_ok {source target : Slot} (hsource : g.vertices.slot? e.source = some source)
    (htarget : g.vertices.slot? e.target = some target) :
    ∃ added g', g.addEdge e = (.ok added, g') := by
  cases hslot : g.edges.slot? e.normalize.id with
  | some slot => exact ⟨_, _, addEdge_of_stored hslot⟩
  | none => exact ⟨_, _, addEdge_of_new hslot hsource htarget⟩

theorem WellFormed.filled_nil (h : g.WellFormed) : g.Filled [] g :=
  ⟨h, rfl, fun _ => id, fun _ => .inl, nofun⟩

theorem WellFormed.filled_addEdge (h : g.WellFormed) {added : AddedEdge}
    (hadd : g.addEdge e = (.ok added, g')) : g.Filled [e] g' := by
  rcases addEdge_eq_ok hadd with ⟨slot, hslot, rfl⟩ | ⟨source, target, hnew, hs, ht, rfl⟩
  · refine ⟨h, rfl, fun _ => id, fun _ => .inl, List.forall_mem_singleton.2 ?_⟩
    exact List.mem_map.1 (h.mem_edgeIds.2 ⟨slot, hslot⟩)
  · refine ⟨h.withEdge hnew e.normalize_normalize hs ht, rfl, ?_, ?_, List.forall_mem_singleton.2 ?_⟩
    all_goals simp only [h.allEdges_withEdge, List.mem_append, List.mem_singleton]
    · exact fun x => .inl
    · rintro x (hx | rfl)
      · exact .inl hx
      · exact .inr ⟨e, rfl, rfl⟩
    · exact ⟨e.normalize, .inr rfl, rfl⟩

theorem Filled.cons (h : g.Filled [e] g₁) (hs : g₁.Filled edges g') : g.Filled (e :: edges) g' where
  wellFormed := hs.wellFormed
  allVertices := hs.allVertices.trans h.allVertices
  kept x hx := hs.kept x (h.kept x hx)
  origin x hx := by
    rcases hs.origin x hx with hx | ⟨e₀, he₀, rfl⟩
    · exact (h.origin x hx).imp_right fun ⟨e₀, he₀, heq⟩ =>
        ⟨e₀, List.mem_cons.2 (.inl (List.mem_singleton.1 he₀)), heq⟩
    · exact .inr ⟨e₀, List.mem_cons_of_mem e he₀, rfl⟩
  known := by
    refine List.forall_mem_cons.2 ⟨?_, hs.known⟩
    obtain ⟨stored, hstored, hid⟩ := h.known e (List.mem_singleton_self e)
    exact ⟨stored, hs.kept stored hstored, hid⟩

theorem WellFormed.filled_addEdges (h : g.WellFormed) {added : List AddedEdge}
    (hadd : g.addEdges edges = (.ok added, g')) : g.Filled edges g' := by
  induction edges generalizing g added with
  | nil =>
    obtain rfl : g = g' := congrArg Prod.snd hadd
    exact h.filled_nil
  | cons e edges ih =>
    obtain ⟨first, g₁, rest, hfirst, hrest, -⟩ := Action.forEach_cons_eq_ok.1 hadd
    have hfilled := h.filled_addEdge hfirst
    exact hfilled.cons (ih hfilled.wellFormed hrest)

/-- Edges between stored vertices are added without fail. -/
theorem WellFormed.exists_addEdges_ok (h : g.WellFormed)
    (hends : ∀ e ∈ edges, e.source ∈ g.allVertices.map Vertex.id ∧
      e.target ∈ g.allVertices.map Vertex.id) :
    ∃ added g', g.addEdges edges = (.ok added, g') := by
  induction edges generalizing g with
  | nil => exact ⟨[], g, rfl⟩
  | cons e edges ih =>
    obtain ⟨⟨hsource, htarget⟩, hends⟩ := List.forall_mem_cons.1 hends
    obtain ⟨source, hs⟩ := h.mem_vertexIds.1 hsource
    obtain ⟨target, ht⟩ := h.mem_vertexIds.1 htarget
    obtain ⟨first, g₁, hfirst⟩ := exists_addEdge_ok hs ht
    have hfilled := h.filled_addEdge hfirst
    obtain ⟨rest, g', hrest⟩ := ih hfilled.wellFormed (by rwa [hfilled.allVertices])
    exact ⟨_, g', Action.forEach_cons_eq_ok.2 ⟨first, g₁, rest, hfirst, hrest, rfl⟩⟩

/-! ### A graph that had no edges -/

/-- Of edges that agree exactly these are stored, whatever their order. -/
theorem Filled.mem_allEdges_iff (h : g.Filled edges g') (hnone : g.allEdges = [])
    (hagree : Edge.Agree edges) {x : Edge} : x ∈ g'.allEdges ↔ ∃ e ∈ edges, e.normalize = x := by
  have horigin : ∀ x ∈ g'.allEdges, ∃ e ∈ edges, e.normalize = x := by
    intro x hx
    rcases h.origin x hx with hx | hx
    · exact absurd (hnone ▸ hx) List.not_mem_nil
    · exact hx
  refine ⟨horigin x, ?_⟩
  rintro ⟨e, he, rfl⟩
  obtain ⟨stored, hstored, hid⟩ := h.known e he
  obtain ⟨e₀, he₀, rfl⟩ := horigin stored hstored
  exact hagree e₀ he₀ e he hid ▸ hstored

/-- Edges that agree are added without fail if, and only if, they are between stored vertices. -/
theorem WellFormed.exists_addEdges_ok_iff (h : g.WellFormed) (hnone : g.allEdges = [])
    (hagree : Edge.Agree edges) :
    (∃ added g', g.addEdges edges = (.ok added, g')) ↔
      ∀ e ∈ edges, e.source ∈ g.allVertices.map Vertex.id ∧ e.target ∈ g.allVertices.map Vertex.id := by
  refine ⟨?_, h.exists_addEdges_ok⟩
  rintro ⟨added, g', hadd⟩ e he
  have hfilled := h.filled_addEdges hadd
  have hstored := (hfilled.mem_allEdges_iff hnone hagree).2 ⟨e, he, rfl⟩
  obtain ⟨v, w, hv, hw⟩ := hfilled.wellFormed.exists_ends hstored
  rw [← hfilled.allVertices]
  have hid := hfilled.wellFormed.id_of_vertex? hv
  have hid' := hfilled.wellFormed.id_of_vertex? hw
  exact ⟨List.mem_map.2 ⟨v, hfilled.wellFormed.mem_allVertices_of_vertex? hv, hid⟩,
    List.mem_map.2 ⟨w, hfilled.wellFormed.mem_allVertices_of_vertex? hw, hid'⟩⟩

/-- Two graphs with the same vertices and the same set of edges are each other's reordering. -/
theorem WellFormed.reorders (h : g.WellFormed) (h' : g'.WellFormed)
    (hv : g'.allVertices = g.allVertices) (he : ∀ e, e ∈ g'.allEdges ↔ e ∈ g.allEdges) :
    g'.Reorders g := by
  have hperm := (List.perm_ext_iff_of_nodup h'.nodup_allEdges h.nodup_allEdges).2 he
  refine ⟨hv, hperm, fun source edge target => ?_⟩
  rw [h.selectEdges_eq_scan, h'.selectEdges_eq_scan]
  simp only [h.asked_of_allVertices h' hv]
  exact hperm.filter _

/-! ### Building a graph from lists -/

theorem allEdges_addVertex (g : Graph) (v : Vertex) : (g.addVertex v).2.allEdges = g.allEdges := by
  cases hv : g.vertices.slot? v.id with
  | some slot => rw [addVertex_of_stored hv]
  | none =>
    rw [addVertex_of_new hv]
    rfl

/-- Either the vertices are refused, whatever the edges are, or the edges are added to a graph that has
no edges yet. -/
theorem ofLists_cases (vertices : List Vertex) :
    (∃ error, ∀ edges, ofLists vertices edges = .error error) ∨
      ∃ g₀ : Graph, g₀.WellFormed ∧ g₀.allEdges = [] ∧ ∀ edges g,
        ofLists vertices edges = .ok g ↔ ∃ added, g₀.addEdges edges = (.ok added, g) := by
  cases hadd : addVertices vertices ∅ with
  | mk result g₀ =>
    cases result with
    | error error => exact .inl ⟨error, fun edges => by simp only [ofLists, hadd]; rfl⟩
    | ok ids =>
      have hkept := Action.forEach_preserves (P := fun g : Graph => g.WellFormed ∧ g.allEdges = [])
        (fun v g hg => ⟨hg.1.addVertex v, (g.allEdges_addVertex v).trans hg.2⟩) vertices
        ⟨wellFormed_empty, rfl⟩
      rw [← addVertices, hadd] at hkept
      refine .inr ⟨g₀, hkept.1, hkept.2, fun edges g => ?_⟩
      cases hedges : g₀.addEdges edges with
      | mk result g₁ =>
        cases result with
        | error error => simp [ofLists, hadd, hedges, bind, Except.bind]
        | ok added => simp [ofLists, hadd, hedges, bind, Except.bind, pure, Except.pure]

end Graph

namespace Snapshot

variable {vertices : List Vertex} {edges edges' : List Edge} {g g' : Graph}

/-- Edges that agree are stored in any order, or in none. -/
theorem reorders_of_agree (hagree : Edge.Agree edges) (hperm : edges'.Perm edges)
    (hg : toGraph ⟨vertices, edges⟩ = .ok g) :
    ∃ g', toGraph ⟨vertices, edges'⟩ = .ok g' ∧ g'.Reorders g := by
  rcases Graph.ofLists_cases vertices with ⟨error, herror⟩ | ⟨g₀, h₀, hnone, hbuilt⟩
  · exact absurd ((herror edges).symm.trans hg) nofun
  · obtain ⟨added, hadd⟩ := (hbuilt edges g).1 hg
    have hends := (h₀.exists_addEdges_ok_iff hnone hagree).1 ⟨added, g, hadd⟩
    obtain ⟨added', g', hadd'⟩ := h₀.exists_addEdges_ok fun e he => hends e (hperm.mem_iff.1 he)
    have hfilled := h₀.filled_addEdges hadd
    have hfilled' := h₀.filled_addEdges hadd'
    refine ⟨g', (hbuilt edges' g').2 ⟨added', hadd'⟩, hfilled.wellFormed.reorders hfilled'.wellFormed
      (hfilled'.allVertices.trans hfilled.allVertices.symm) fun e => ?_⟩
    rw [hfilled.mem_allEdges_iff hnone hagree, hfilled'.mem_allEdges_iff hnone (hagree.perm hperm)]
    exact exists_congr fun _ => and_congr_left' hperm.mem_iff

/-- Of edges that do not agree one is not stored; put in front of the others it is, if any are. -/
theorem exists_perm_of_not_agree (hagree : ¬ Edge.Agree edges)
    (hg : toGraph ⟨vertices, edges⟩ = .ok g) :
    ∃ e edges', (e :: edges').Perm edges ∧ e.normalize ∉ g.allEdges ∧
      ∀ g', toGraph ⟨vertices, e :: edges'⟩ = .ok g' → e.normalize ∈ g'.allEdges := by
  rcases Graph.ofLists_cases vertices with ⟨error, herror⟩ | ⟨g₀, h₀, hnone, hbuilt⟩
  · exact absurd ((herror edges).symm.trans hg) nofun
  obtain ⟨e, he, hout⟩ : ∃ e ∈ edges, e.normalize ∉ g.allEdges := by
    have h : g.WellFormed := .ofLists hg
    by_contra hall
    simp only [not_exists, not_and, not_not] at hall
    exact hagree fun e he e' he' => h.eq_of_id_eq (hall e he) (hall e' he')
  refine ⟨e, edges.erase e, (List.perm_cons_erase he).symm, hout, fun g' hg' => ?_⟩
  obtain ⟨added, hadd⟩ := (hbuilt _ g').1 hg'
  obtain ⟨first, g₁, rest, hfirst, hrest, -⟩ := Action.forEach_cons_eq_ok.1 hadd
  have hfilled := h₀.filled_addEdge hfirst
  refine (hfilled.wellFormed.filled_addEdges hrest).kept _ ?_
  exact (hfilled.mem_allEdges_iff hnone (Edge.agree_singleton e)).2 ⟨e, List.mem_singleton_self e, rfl⟩

/-- Edges that agree may stand in any order: either every order fails, or every order gives the same
edges and the same answers for all filters. Edges that do not agree may not: if they give a graph, there
is an order of them that fails or gives a graph with an edge that this one lacks. -/
theorem toGraph_perm (vertices : List Vertex) (edges : List Edge) :
    (Edge.Agree edges → ∀ edges', edges'.Perm edges →
      (∃ error error', toGraph ⟨vertices, edges⟩ = .error error ∧
        toGraph ⟨vertices, edges'⟩ = .error error') ∨
      ∃ g g', toGraph ⟨vertices, edges⟩ = .ok g ∧ toGraph ⟨vertices, edges'⟩ = .ok g' ∧
        g'.Reorders g) ∧
    (¬ Edge.Agree edges → ∀ g, toGraph ⟨vertices, edges⟩ = .ok g →
      ∃ edges', edges'.Perm edges ∧ ∀ g', toGraph ⟨vertices, edges'⟩ = .ok g' →
        ∃ e ∈ g'.allEdges, e ∉ g.allEdges) := by
  refine ⟨fun hagree edges' hperm => ?_, fun hagree g hg => ?_⟩
  · cases hg : toGraph ⟨vertices, edges⟩ with
    | ok g =>
      obtain ⟨g', hg', hreorders⟩ := reorders_of_agree hagree hperm hg
      exact .inr ⟨g, g', rfl, hg', hreorders⟩
    | error error =>
      cases hg' : toGraph ⟨vertices, edges'⟩ with
      | error error' => exact .inl ⟨error, error', rfl, rfl⟩
      | ok g' =>
        obtain ⟨g, hok, -⟩ := reorders_of_agree (hagree.perm hperm) hperm.symm hg'
        exact absurd (hg.symm.trans hok) nofun
  · obtain ⟨e, edges', hperm, hout, hin⟩ := exists_perm_of_not_agree hagree hg
    exact ⟨e :: edges', hperm, fun g' hg' => ⟨e.normalize, hin g' hg', hout⟩⟩

/-- Two vertices. -/
def twoVertices : List Vertex := [.of "a" "A" [], .of "b" "B" []]

/-- An edge that is asserted, and the same edge as a rule derives it. -/
def twoCopies : List Edge :=
  [.of "a" "b" ["next"], .build "a" "b" ["next"] none ["rule", "first", "second"]]

/-- Two vertices of which one has an id that holds the marks of a key. -/
def markedVertices : List Vertex := [.of "a" "A" [], .of "b-[t]->c" "B" []]

/-- Two edges of one id, of which the first alone is between these vertices. -/
def twoReadings : List Edge := [.of "a" "b-[t]->c" ["t"], .of "a-[t]->b" "c" ["t"]]

/-- Three edges that agree, two of them being one edge in two spellings. -/
def threeEdges : List Edge :=
  [.of "a" "b" ["next"], .of "b" "a" ["next"],
    { source := "a", target := "b", types := .ofList [" Next"] }]

/-- Edges that agree are reversed, and of two copies that do not the order decides. -/
theorem toGraph_perm_threeEdges :
    Edge.Agree threeEdges ∧ threeEdges.reverse.Perm threeEdges ∧
      ((∃ error error', toGraph ⟨twoVertices, threeEdges⟩ = .error error ∧
          toGraph ⟨twoVertices, threeEdges.reverse⟩ = .error error') ∨
        ∃ g g', toGraph ⟨twoVertices, threeEdges⟩ = .ok g ∧
          toGraph ⟨twoVertices, threeEdges.reverse⟩ = .ok g' ∧ g'.Reorders g) ∧
      ¬ Edge.Agree twoCopies ∧ ∃ g, toGraph ⟨twoVertices, twoCopies⟩ = .ok g ∧
        ∃ edges', edges'.Perm twoCopies ∧ ∀ g', toGraph ⟨twoVertices, edges'⟩ = .ok g' →
          ∃ e ∈ g'.allEdges, e ∉ g.allEdges := by
  have hagree : Edge.Agree threeEdges := by
    unfold Edge.Agree
    decide +kernel
  have hcopies : ¬ Edge.Agree twoCopies := by
    unfold Edge.Agree
    decide +kernel
  have hcount : (toGraph ⟨twoVertices, twoCopies⟩).map Graph.edgeCount = .ok 1 := by decide +kernel
  cases hg : toGraph ⟨twoVertices, twoCopies⟩ with
  | error error => exact absurd (hg ▸ hcount) nofun
  | ok g =>
    exact ⟨hagree, threeEdges.reverse_perm,
      (toGraph_perm twoVertices threeEdges).1 hagree _ threeEdges.reverse_perm, hcopies, g, rfl,
      (toGraph_perm twoVertices twoCopies).2 hcopies g hg⟩

/-- The order of two copies of an edge decides whether the edge is an asserted one, and the order of two
edges of one id whether there is a graph at all. -/
theorem order_matters_twoCopies :
    twoCopies.reverse.Perm twoCopies ∧
      (toGraph ⟨twoVertices, twoCopies⟩).map Graph.allEdges = .ok (twoCopies.take 1) ∧
      (toGraph ⟨twoVertices, twoCopies.reverse⟩).map Graph.allEdges = .ok (twoCopies.drop 1) ∧
      (toGraph ⟨twoVertices, twoCopies⟩).map Graph.derivedCount = .ok 0 ∧
      (toGraph ⟨twoVertices, twoCopies.reverse⟩).map Graph.derivedCount = .ok 1 ∧
      (toGraph ⟨markedVertices, twoReadings⟩).map Graph.edgeCount = .ok 1 ∧
      (toGraph ⟨markedVertices, twoReadings.reverse⟩).map Graph.edgeCount =
        .error (.danglingEdge "a-[t]->b-[t]->c" "a-[t]->b") := by
  refine ⟨twoCopies.reverse_perm, ?_⟩
  decide +kernel

end Snapshot

end PatternGraph
