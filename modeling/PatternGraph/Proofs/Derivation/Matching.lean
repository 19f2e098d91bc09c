import PatternGraph.Proofs.Derivation.Closure
import PatternGraph.Proofs.Derivation.Passes
import PatternGraph.Proofs.Derivation.Scan
import PatternGraph.Proofs.Rule.Names

/-!
# Applying one rule

A rule is applied by two queries that are joined in the middle. `Rule.Finds` says which matches come
out of that, in terms of the stored edges alone, and `Rule.demands_keys_iff` that the edges of these
matches are those that the rule demands of the stored keys. `DerivationRun.applyRule_eq` says that
applying the rule adds the edges of these matches one after another, and `DerivationRun.addMatch_cases`
all that can come of a single one.

The rules have written names, and the edges are made by the standard builder.
-/

namespace PatternGraph

/-! ### Types as filters -/

theorem TypeSet.allows_iff {wanted types : TypeSet} :
    wanted.Allows types ↔ (wanted.names ≠ [] → ∃ name ∈ wanted.names, name ∈ types) := by
  have hempty : wanted = ∅ ↔ wanted.names = [] := by
    constructor
    · rintro rfl
      rfl
    · intro h
      ext name
      rw [TypeSet.mem_def, h]
      rfl
  rw [TypeSet.Allows, hempty]
  by_cases h : wanted.names = []
  · simp [h]
  · simp [h, TypeSet.mem_def]

theorem TypeSet.Written.askedNames_eq {ts : TypeSet} (h : ts.Written) :
    askedNames (if ts.isEmpty then none else some ts.names) = ts.names := by
  rw [askedNames_of_isEmpty]
  exact h.normalizeNames_eq

theorem VertexFilter.satisfied_ofTypes {types : TypeSet} (hw : types.Written) {v : Vertex} :
    (VertexFilter.ofTypes types).Satisfied v ↔ types.Allows v.types := by
  rw [TypeSet.allows_iff]
  constructor
  · rintro ⟨-, htypes, -⟩
    rw [VertexFilter.ofTypes, hw.askedNames_eq] at htypes
    exact htypes
  · intro htypes
    refine ⟨nofun, ?_, nofun⟩
    rw [VertexFilter.ofTypes, hw.askedNames_eq]
    exact htypes

theorem Hop.satisfied_edgeFilter {hop : Hop} (hw : hop.edgeTypes.Written) {e : Edge} :
    hop.edgeFilter.Satisfied e ↔ hop.edgeTypes.Allows e.types := by
  rw [TypeSet.allows_iff]
  constructor
  · rintro ⟨-, htypes⟩
    rw [Hop.edgeFilter, hw.askedNames_eq] at htypes
    exact htypes
  · intro htypes
    refine ⟨trivial, ?_⟩
    rw [Hop.edgeFilter, hw.askedNames_eq]
    exact htypes

theorem Hop.leads_iff {hop : Hop} {e : Edge} {left right : String} :
    hop.Leads e.key left right ↔ hop.ends e = (left, right) ∧ hop.edgeTypes.Allows e.types := by
  rw [Hop.ends]
  constructor
  · intro h
    have hends := h.ends
    cases hd : hop.direction with
    | forward =>
      rw [hd] at hends
      exact ⟨Prod.ext_iff.2 hends, h.types⟩
    | backward =>
      rw [hd] at hends
      exact ⟨Prod.ext_iff.2 hends.symm, h.types⟩
  · rintro ⟨hends, htypes⟩
    refine ⟨?_, htypes⟩
    cases hd : hop.direction with
    | forward =>
      rw [hd] at hends
      exact Prod.ext_iff.1 hends
    | backward =>
      rw [hd] at hends
      exact (Prod.ext_iff.1 hends).symm

/-! ### The matches of a rule -/

namespace Rule

/-- A match among the stored edges, with two different ends. -/
structure Finds (r : Rule) (g : Graph) (m : Match) : Prop where
  stored_first : m.firstEdge ∈ g.allEdges
  stored_second : m.secondEdge ∈ g.allEdges
  leads_first : r.condition.first.Leads m.firstEdge.key m.first m.middle
  leads_second : r.condition.second.Leads m.secondEdge.key m.middle m.last
  holds_first : g.Holds m.first r.condition.first.vertexTypes
  holds_middle : g.Holds m.middle r.condition.middleTypes
  holds_last : g.Holds m.last r.condition.second.vertexTypes
  differ : m.vertex r.effect.source ≠ m.vertex r.effect.target

/-- The key of the edge that a rule derives from a match. -/
def keyOf (r : Rule) (m : Match) : EdgeKey :=
  ⟨m.vertex r.effect.source, r.effect.types, m.vertex r.effect.target⟩

theorem vertex_eq_pick (m : Match) (part : RulePart) :
    m.vertex part = part.pick m.first m.middle m.last := by
  cases part <;> rfl

/-- What a rule demands of the stored keys are the keys of its matches. -/
theorem demands_keys_iff {r : Rule} {g : Graph} {k : EdgeKey} :
    r.Demands g g.keys k ↔ ∃ m, r.Finds g m ∧ r.keyOf m = k := by
  constructor
  · rintro ⟨_, _, first, middle, last, hmatch, hne, rfl⟩
    obtain ⟨⟨e₁, he₁, rfl⟩, ⟨e₂, he₂, rfl⟩, hlead, hlead', hfirst, hmiddle, hlast⟩ := hmatch
    have hpick := vertex_eq_pick ⟨e₁, e₂, first, middle, last⟩
    refine ⟨⟨e₁, e₂, first, middle, last⟩,
      ⟨he₁, he₂, hlead, hlead', hfirst, hmiddle, hlast, ?_⟩, ?_⟩
    · rwa [hpick, hpick]
    · rw [keyOf, hpick, hpick]
  · rintro ⟨m, hm, rfl⟩
    have hpick := vertex_eq_pick m
    refine ⟨m.firstEdge.key, m.secondEdge.key, m.first, m.middle, m.last,
      ⟨⟨m.firstEdge, hm.stored_first, rfl⟩, ⟨m.secondEdge, hm.stored_second, rfl⟩, hm.leads_first,
        hm.leads_second, hm.holds_first, hm.holds_middle, hm.holds_last⟩, ?_, ?_⟩
    · rw [← hpick, ← hpick]
      exact hm.differ
    · rw [keyOf, hpick, hpick]

/-- The vertices of a match are stored. -/
theorem Finds.exists_vertex {r : Rule} {g : Graph} {m : Match} (h : r.Finds g m) (part : RulePart) :
    ∃ v, g.vertex? (m.vertex part) = some v := by
  cases part with
  | first => exact h.holds_first.imp fun _ => And.left
  | middle => exact h.holds_middle.imp fun _ => And.left
  | last => exact h.holds_last.imp fun _ => And.left

/-- A vertex satisfies the filter for some types. -/
theorem holds_ofTypes_iff {g : Graph} {types : TypeSet} (hw : types.Written) {id : String} :
    (∃ v ∈ g.vertex? id, (VertexFilter.ofTypes types).Satisfied v) ↔ g.Holds id types :=
  exists_congr fun _ => and_congr_right fun _ => VertexFilter.satisfied_ofTypes hw

/-- An edge of a hop, with its ends in reading order. -/
theorem mem_edgesIn_ofTypes {hop : Hop} {g : Graph} {e : Edge} {types types' : TypeSet}
    (hw : hop.edgeTypes.Written) (hleft : types.Written) (hright : types'.Written)
    {left right : String} (hends : hop.ends e = (left, right)) :
    e ∈ hop.edgesIn g (.ofTypes types) (.ofTypes types') ↔
      e ∈ g.allEdges ∧ hop.Leads e.key left right ∧ g.Holds left types ∧ g.Holds right types' := by
  rw [Hop.edgesIn, List.mem_filter, decide_eq_true_iff, Hop.asked_iff, Hop.satisfied_edgeFilter hw,
    Hop.leads_iff, hends, holds_ofTypes_iff hleft, holds_ofTypes_iff hright]
  exact and_congr_right fun _ => and_congr_left' (and_iff_right rfl).symm

/-- For a rule with written names, the matches are told by the keys of their edges. -/
theorem mem_matchesIn_iff_finds {r : Rule} (hr : r.Written) {g : Graph} {m : Match} :
    m ∈ r.matchesIn g ↔ r.Finds g m := by
  rw [mem_matchesIn, firstEdgesIn, secondEdgesIn]
  constructor
  · rintro ⟨⟨hfirst, hsecond, hends, hends'⟩, hne⟩
    obtain ⟨hstored, hleads, hleft, hmiddle⟩ :=
      (mem_edgesIn_ofTypes hr.firstEdge hr.firstVertex hr.middle hends).1 hfirst
    obtain ⟨hstored', hleads', -, hright⟩ :=
      (mem_edgesIn_ofTypes hr.secondEdge hr.middle hr.secondVertex hends').1 hsecond
    exact ⟨hstored, hstored', hleads, hleads', hleft, hmiddle, hright, hne⟩
  · intro hm
    have hends := (Hop.leads_iff.1 hm.leads_first).1
    have hends' := (Hop.leads_iff.1 hm.leads_second).1
    refine ⟨⟨?_, ?_, hends, hends'⟩, hm.differ⟩
    · exact (mem_edgesIn_ofTypes hr.firstEdge hr.firstVertex hr.middle hends).2
        ⟨hm.stored_first, hm.leads_first, hm.holds_first, hm.holds_middle⟩
    · exact (mem_edgesIn_ofTypes hr.secondEdge hr.middle hr.secondVertex hends').2
        ⟨hm.stored_second, hm.leads_second, hm.holds_middle, hm.holds_last⟩

end Rule

namespace DerivationRun

/-- Applying a rule adds the edges of its matches, one after another. -/
theorem applyRule_eq {run : DerivationRun Graph} (h : run.store.WellFormed) {r : Rule}
    (hr : r.Written) :
    ∃ ms : List Match, (∀ m, m ∈ ms ↔ r.Finds run.store m) ∧
      run.applyRule .standard r = ms.foldl (addMatch .standard r) run :=
  ⟨r.matchesIn run.store, fun _ => Rule.mem_matchesIn_iff_finds hr, applyRule_eq_foldl h .standard r⟩

/-! ### Adding the edge of a match -/

/-- The edge that a rule derives from a match. -/
def edgeOf (r : Rule) (m : Match) : Edge :=
  Edge.build (m.vertex r.effect.source) (m.vertex r.effect.target) r.effect.types.names none
    [r.label, m.firstEdge.id, m.secondEdge.id]

theorem key_edgeOf {r : Rule} (hr : r.Written) (m : Match) : (edgeOf r m).key = r.keyOf m := by
  simp only [edgeOf, Edge.build, Edge.key, Rule.keyOf, hr.effect.normalized_eq]

variable {run : DerivationRun Graph} {r : Rule} {m : Match}

theorem standard_eq : EdgeBuilder.standard (m.vertex r.effect.source) (m.vertex r.effect.target)
    r.effect.types none [r.label, m.firstEdge.id, m.secondEdge.id] = some (edgeOf r m) := rfl

theorem normalize_edgeOf : (edgeOf r m).normalize = edgeOf r m := Edge.normalize_build ..

theorem addMatch_of_stored {slot : Slot} (h : run.store.edges.slot? (edgeOf r m).id = some slot) :
    run.addMatch .standard r m = run := by
  have hadd : Repository.addEdge (edgeOf r m) run.store =
      (.ok ⟨(edgeOf r m).id, false⟩, run.store) := by
    have hstored := Graph.addEdge_of_stored (normalize_edgeOf.symm ▸ h)
    rwa [normalize_edgeOf] at hstored
  simp only [addMatch, standard_eq, hadd, Bool.false_eq_true, if_false]

theorem addMatch_of_new {source target : Slot} (h : run.store.edges.slot? (edgeOf r m).id = none)
    (hsource : run.store.vertices.slot? (m.vertex r.effect.source) = some source)
    (htarget : run.store.vertices.slot? (m.vertex r.effect.target) = some target) :
    run.addMatch .standard r m =
      { run with
        store := run.store.withEdge (edgeOf r m) source target
        added := run.added + 1 } := by
  have hadd : Repository.addEdge (edgeOf r m) run.store =
      (.ok ⟨(edgeOf r m).id, true⟩, run.store.withEdge (edgeOf r m) source target) := by
    have hnew := Graph.addEdge_of_new (normalize_edgeOf.symm ▸ h) hsource htarget
    rwa [normalize_edgeOf] at hnew
  simp only [addMatch, standard_eq, hadd, if_true]

/-- All that a match at stored vertices can do: nothing, as an edge of the id is stored already, or put
its edge in and count it. -/
theorem addMatch_cases (hm : Anchored run.store m) :
    ((∃ slot, run.store.edges.slot? (edgeOf r m).id = some slot) ∧ run.addMatch .standard r m = run) ∨
      ∃ source target, run.store.edges.slot? (edgeOf r m).id = none ∧
        run.store.vertices.slot? (m.vertex r.effect.source) = some source ∧
        run.store.vertices.slot? (m.vertex r.effect.target) = some target ∧
        run.addMatch .standard r m =
          { run with
            store := run.store.withEdge (edgeOf r m) source target
            added := run.added + 1 } := by
  cases hslot : run.store.edges.slot? (edgeOf r m).id with
  | some slot => exact .inl ⟨⟨slot, rfl⟩, addMatch_of_stored hslot⟩
  | none =>
    obtain ⟨source, hsource⟩ := hm.exists_slot r.effect.source
    obtain ⟨target, htarget⟩ := hm.exists_slot r.effect.target
    exact .inr ⟨source, target, rfl, hsource, htarget, addMatch_of_new hslot hsource htarget⟩

end DerivationRun

end PatternGraph
