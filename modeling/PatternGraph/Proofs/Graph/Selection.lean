import PatternGraph.Graph.Select
import PatternGraph.Proofs.Filter
import PatternGraph.Proofs.Graph.Consistency
import PatternGraph.Proofs.Graph.Listing

/-!
# Selecting edges is a scan

The edges that filters admit are taken from an index where one helps. `selectEdges_after` says that
this cannot be seen from the answer: in every graph of a history it is what a scan of all edges
finds, in the order in which they were put in and each edge once.

A `Seed` is one of the sources of candidates: the edges that leave the vertices of one end, the edges
that enter those of the other, the triple index, or all edges. Which of them apply depends on the
filters. Each that applies holds every edge that the filters admit, so each of them gives the same
answer, and in particular the one that is chosen.
-/

namespace PatternGraph

/-- Two sets that agree where a test succeeds have the same members that pass it. -/
theorem SlotSet.filter_toList_congr {s t : SlotSet} {p : Slot → Bool}
    (h : ∀ slot, p slot = true → (slot ∈ s ↔ slot ∈ t)) :
    s.toList.filter p = t.toList.filter p := by
  refine SlotSet.eq_of_ascending ((SlotSet.pairwise_toList s).filter _)
    ((SlotSet.pairwise_toList t).filter _) fun slot => ?_
  simp only [List.mem_filter, SlotSet.mem_toList]
  exact and_congr_left (h slot)

namespace Graph

/-- An edge that a query asks for: its two vertices and the edge itself are what the filters ask
for. Where there is no filter, any vertex will do. -/
structure Asked (g : Graph) (source : Option VertexFilter) (edge : EdgeFilter)
    (target : Option VertexFilter) (e : Edge) : Prop where
  source : ∀ f ∈ source, ∃ v ∈ g.vertex? e.source, f.Satisfied v
  edge : edge.Satisfied e
  target : ∀ f ∈ target, ∃ w ∈ g.vertex? e.target, f.Satisfied w

instance (g : Graph) (source : Option VertexFilter) (edge : EdgeFilter)
    (target : Option VertexFilter) (e : Edge) : Decidable (g.Asked source edge target e) :=
  decidable_of_iff
    ((∀ f ∈ source, ∃ v ∈ g.vertex? e.source, f.Satisfied v) ∧ edge.Satisfied e ∧
      ∀ f ∈ target, ∃ w ∈ g.vertex? e.target, f.Satisfied w)
    ⟨fun ⟨source, edge, target⟩ => ⟨source, edge, target⟩, fun h => ⟨h.source, h.edge, h.target⟩⟩

theorem asked_some_iff {g : Graph} {f f' : VertexFilter} {edge : EdgeFilter} {e : Edge} :
    g.Asked (some f) edge (some f') e ↔ (∃ v ∈ g.vertex? e.source, f.Satisfied v) ∧
      edge.Satisfied e ∧ ∃ w ∈ g.vertex? e.target, f'.Satisfied w := by
  constructor
  · intro h
    exact ⟨h.source f rfl, h.edge, h.target f' rfl⟩
  · rintro ⟨hsource, hedge, htarget⟩
    refine ⟨?_, hedge, ?_⟩
    · rintro _ ⟨⟩
      exact hsource
    · rintro _ ⟨⟩
      exact htarget

/-- What is asked of an edge, said of the two vertices at its ends. -/
theorem asked_iff_of_ends {g : Graph} {source target : Option VertexFilter} {edge : EdgeFilter}
    {e : Edge} {v w : Vertex} (hv : g.vertex? e.source = some v) (hw : g.vertex? e.target = some w) :
    g.Asked source edge target e ↔
      (∀ f ∈ source, f.Satisfied v) ∧ edge.Satisfied e ∧ ∀ f ∈ target, f.Satisfied w := by
  have hsource : ∀ f : VertexFilter, (∃ v' ∈ g.vertex? e.source, f.Satisfied v') ↔ f.Satisfied v := by
    simp [hv]
  have htarget : ∀ f : VertexFilter, (∃ w' ∈ g.vertex? e.target, f.Satisfied w') ↔ f.Satisfied w := by
    simp [hw]
  constructor
  · rintro ⟨h₁, h₂, h₃⟩
    exact ⟨fun f hf => (hsource f).1 (h₁ f hf), h₂, fun f hf => (htarget f).1 (h₃ f hf)⟩
  · rintro ⟨h₁, h₂, h₃⟩
    exact ⟨fun f hf => (hsource f).2 (h₁ f hf), h₂, fun f hf => (htarget f).2 (h₃ f hf)⟩

/-- A source of candidates. -/
inductive Seed where
  /-- The edges that leave the vertices the source may be. -/
  | outbound
  /-- The edges that enter the vertices the target may be. -/
  | inbound
  /-- The edges of the triples that are asked for. -/
  | triples
  /-- All edges. -/
  | all

namespace Seed

/-- Whether the tests give what a seed is made from. -/
def Applies (source target : EndTest) (edge : EdgeTest) : Seed → Prop
  | outbound => source.slots ≠ none
  | inbound => target.slots ≠ none
  | triples => edge.types ≠ none ∧ edge.negated = false
  | all => True

/-- The candidates that a seed gives. -/
def edges (g : Graph) (source target : EndTest) (edge : EdgeTest) : Seed → SlotSet
  | outbound => g.edgesFrom (source.slots.getD ∅)
  | inbound => g.edgesInto (target.slots.getD ∅)
  | triples =>
    g.edges.triples.candidates source.typeIds (some (g.types.known (edge.types.getD [])))
      target.typeIds
  | all => g.edges.live

/-- The edges among the candidates of a seed that the tests admit. -/
def answer (g : Graph) (source target : EndTest) (edge : EdgeTest) (seed : Seed) : List Edge :=
  ((seed.edges g source target edge).toList.filter (g.admitsEdge source target edge)).filterMap
    g.edges.get?

end Seed

variable {g : Graph} {source target : Option VertexFilter}

/-- The candidates are those of a seed that applies. -/
theorem exists_seed (g : Graph) (source target : EndTest) (edge : EdgeTest) :
    ∃ seed : Seed, seed.Applies source target edge ∧
      g.candidateEdges source target edge = seed.edges g source target edge := by
  rw [candidateEdges]
  split
  · next slots hslots _ =>
    exact ⟨.outbound, by simp [Seed.Applies, hslots], by simp [Seed.edges, hslots]⟩
  · next slots hslots _ _ =>
    exact ⟨.inbound, by simp [Seed.Applies, hslots], by simp [Seed.edges, hslots]⟩
  · split
    · next wanted hwanted hnot =>
      exact ⟨.triples, by simp [Seed.Applies, hwanted, hnot], by simp [Seed.edges, hwanted]⟩
    · split
      · next slots hslots =>
        exact ⟨.outbound, by simp [Seed.Applies, hslots], by simp [Seed.edges, hslots]⟩
      · next slots _ hslots =>
        exact ⟨.inbound, by simp [Seed.Applies, hslots], by simp [Seed.edges, hslots]⟩
      · exact ⟨.all, trivial, rfl⟩

/-! ### The vertices that a filter admits -/

theorem any_admits_iff {slot : Slot} {test : VertexTest} :
    (g.vertices.get? slot).any test.admits = true ↔
      ∃ v, g.vertices.get? slot = some v ∧ test.admits v = true := by
  cases g.vertices.get? slot <;> simp

namespace WellFormed

/-- The slots that come out for a filter are those of the vertices that satisfy it, whichever of its
parts they are taken from. -/
theorem mem_vertexSlots (h : g.WellFormed) {f : VertexFilter} {slot : Slot} :
    slot ∈ g.vertexSlots f ↔ ∃ v, g.vertices.get? slot = some v ∧ f.Satisfied v := by
  simp only [VertexFilter.satisfied_iff]
  rw [vertexSlots]
  split
  · next ids hids =>
    rw [List.mem_filter, List.mem_eraseDups, List.mem_filterMap, any_admits_iff]
    constructor
    · rintro ⟨⟨id, hid, hslot⟩, v, hv, hadmits⟩
      obtain ⟨w, hw, rfl⟩ := h.vertices.indexed.exists_get? hslot
      obtain rfl := Option.some.inj (hv.symm.trans hw)
      refine ⟨v, hv, fun ids' hids' => ?_, hadmits⟩
      obtain rfl := Option.some.inj (hids.symm.trans hids')
      exact hid
    · rintro ⟨v, hv, hmem, hadmits⟩
      exact ⟨⟨v.id, hmem ids hids, h.vertices.indexed.slot?_of_get? hv⟩, v, hv, hadmits⟩
  · next hids =>
    have hnoids : ∀ v : Vertex, ∀ ids ∈ f.ids, v.id ∈ ids := by
      intro v ids hmem
      rw [hids] at hmem
      exact absurd hmem nofun
    split
    · next wanted hwanted =>
      rw [List.mem_filter, SlotSet.mem_toList, SlotIndex.mem_lookupAll, any_admits_iff]
      constructor
      · rintro ⟨-, v, hv, hadmits⟩
        exact ⟨v, hv, hnoids v, hadmits⟩
      · rintro ⟨v, hv, -, hadmits⟩
        refine ⟨?_, v, hv, hadmits⟩
        -- one of the types that are asked for is a type of the vertex, so it has a number
        obtain ⟨name, hname, hmem⟩ : ∃ name ∈ wanted, name ∈ v.types := by
          rw [VertexTest.admits, Bool.and_eq_true, hwanted] at hadmits
          exact TypeSet.meets_iff.1 hadmits.1
        obtain ⟨id, hid⟩ := TypeTable.exists_id?_of_map (h.vertices.map_id? slot v hv) hmem
        exact ⟨id, TypeTable.mem_known.2 ⟨name, hname, hid⟩,
          (h.mem_byType slot id).2 ⟨v, name, hv, hmem, hid⟩⟩
    · rw [List.mem_filter, SlotSet.mem_toList, h.vertices.mem_live, any_admits_iff]
      constructor
      · rintro ⟨-, v, hv, hadmits⟩
        exact ⟨v, hv, hnoids v, hadmits⟩
      · rintro ⟨v, hv, -, hadmits⟩
        exact ⟨by rw [hv]; rfl, v, hv, hadmits⟩

/-- What an end has to be is what the filter asks of its vertex. -/
theorem endTest_slots_iff (h : g.WellFormed) {filter : Option VertexFilter} {slot : Slot} {v : Vertex}
    (hv : g.vertices.get? slot = some v) :
    (g.endTest filter).slots.all (·.contains slot) = true ↔ ∀ f ∈ filter, f.Satisfied v := by
  cases filter with
  | none => simp [endTest]
  | some f =>
    have hsome : (∀ f' ∈ some f, f'.Satisfied v) ↔ f.Satisfied v := by simp
    rw [hsome, endTest]
    cases hempty : f.isEmpty with
    | true => exact iff_of_true rfl (VertexFilter.satisfied_of_isEmpty hempty v)
    | false =>
      change (slot ∈ SlotSet.ofList (g.vertexSlots f)) ↔ _
      rw [SlotSet.mem_ofList, h.mem_vertexSlots]
      constructor
      · rintro ⟨w, hw, hsat⟩
        obtain rfl := Option.some.inj (hv.symm.trans hw)
        exact hsat
      · exact fun hsat => ⟨v, hv, hsat⟩

/-! ### The edges that the tests admit -/

/-- The tests admit the edges that the query asks for. -/
theorem admitsEdge_iff (h : g.WellFormed) {edge : EdgeFilter} {slot : Slot} {e : Edge}
    (he : g.edges.get? slot = some e) :
    g.admitsEdge (g.endTest source) (g.endTest target) (.of edge) slot = true ↔
      g.Asked source edge target e := by
  obtain ⟨s, t, hends, hs, ht⟩ := h.edges.exists_ends? he
  obtain ⟨v, hv, -, hvertex⟩ := h.vertex?_of_slot? hs
  obtain ⟨w, hw, -, hwertex⟩ := h.vertex?_of_slot? ht
  have hderived : g.edges.derived.contains slot = e.isDerived := by
    rw [Bool.eq_iff_iff]
    refine (h.edges.mem_derived slot).trans ⟨?_, fun hd => ⟨e, he, hd⟩⟩
    rintro ⟨e', he', hd⟩
    exact Option.some.inj (he.symm.trans he') ▸ hd
  simp only [admitsEdge, hends, he, Bool.and_eq_true]
  rw [h.endTest_slots_iff hv, h.endTest_slots_iff hw, hderived, ← EdgeFilter.satisfied_iff,
    asked_iff_of_ends hvertex hwertex, and_assoc, and_comm (a := edge.Satisfied e)]

theorem exists_get?_of_admitsEdge {source target : EndTest} {edge : EdgeTest} {slot : Slot}
    (hadmits : g.admitsEdge source target edge slot = true) :
    ∃ e, g.edges.get? slot = some e := by
  rw [admitsEdge] at hadmits
  split at hadmits
  · next e _ he => exact ⟨e, he⟩
  · exact absurd hadmits nofun

/-- Types that an end has to have one of, or no type at all, leave a place for the triple index that
fits the end. -/
theorem exists_place (h : g.WellFormed) {filter : Option VertexFilter} {slot : Slot} {v : Vertex}
    (hv : g.vertices.get? slot = some v) (hsat : ∀ f ∈ filter, f.Satisfied v) :
    ∃ place ∈ TripleIndex.alternatives (g.endTest filter).typeIds, g.types.Fits place v.types := by
  have hopen : g.types.Fits none v.types := fun id hid => absurd hid nofun
  cases filter with
  | none => exact ⟨none, List.mem_singleton_self none, hopen⟩
  | some f =>
    rw [endTest]
    cases hwanted : f.wantedTypes with
    | none => exact ⟨none, List.mem_singleton_self none, hopen⟩
    | some wanted =>
      obtain ⟨hnames, hne⟩ := wantedTypes_eq_some.1 hwanted
      obtain ⟨name, hname, hmem⟩ := (hsat f rfl).types (hnames ▸ hne)
      obtain ⟨id, hid⟩ := TypeTable.exists_id?_of_map (h.vertices.map_id? slot v hv) hmem
      refine ⟨some id, TripleIndex.mem_alternatives.2 ⟨id, ?_, rfl⟩, ?_⟩
      · exact TypeTable.mem_known.2 ⟨name, hnames ▸ hname, hid⟩
      · rintro id' hid'
        obtain rfl := Option.some.inj hid'
        exact ⟨name, hmem, hid⟩

/-- The edges that leave or enter one of some vertices. -/
theorem mem_adjacent (h : g.WellFormed) {slot s t : Slot} {e : Edge}
    (he : g.edges.get? slot = some e) (hends : g.edges.ends? slot = some (s, t)) {slots : SlotSet} :
    (s ∈ slots → slot ∈ g.edgesFrom slots) ∧ (t ∈ slots → slot ∈ g.edgesInto slots) := by
  have hlive : slot ∈ g.edges.live.toList :=
    SlotSet.mem_toList.2 ((h.edges.mem_live slot).2 (by rw [he]; rfl))
  constructor
  · intro hs
    refine Adjacency.mem_lookupAll.2 ⟨s, SlotSet.mem_toList.2 hs, ?_⟩
    rw [h.edges.outbound_eq, List.mem_filter]
    exact ⟨hlive, by simp [EdgeTable.source?, hends]⟩
  · intro ht
    refine Adjacency.mem_lookupAll.2 ⟨t, SlotSet.mem_toList.2 ht, ?_⟩
    rw [h.edges.inbound_eq, List.mem_filter]
    exact ⟨hlive, by simp [EdgeTable.target?, hends]⟩

/-- An edge that has one of the types asked for is registered under a triple that is looked up. -/
theorem mem_candidates (h : g.WellFormed) {slot : Slot} {e : Edge} (he : g.edges.get? slot = some e)
    {v w : Vertex} (hv : g.vertex? e.source = some v) (hw : g.vertex? e.target = some w)
    (hsource : ∀ f ∈ source, f.Satisfied v) (htarget : ∀ f ∈ target, f.Satisfied w)
    {wanted : List String} {name : String} (hname : name ∈ wanted) (hmem : name ∈ e.types) :
    slot ∈ g.edges.triples.candidates (g.endTest source).typeIds (some (g.types.known wanted))
      (g.endTest target).typeIds := by
  obtain ⟨s, -, hs⟩ := vertex?_eq_some.1 hv
  obtain ⟨t, -, ht⟩ := vertex?_eq_some.1 hw
  obtain ⟨id, hid⟩ := TypeTable.exists_id?_of_map (h.edges.map_id? slot e he) hmem
  obtain ⟨place, hplace, hfits⟩ := h.exists_place hs hsource
  obtain ⟨place', hplace', hfits'⟩ := h.exists_place ht htarget
  refine TripleIndex.mem_candidates.2
    ⟨⟨place, some id, place'⟩, ⟨hplace, TripleIndex.mem_alternatives.2 ⟨id, ?_, rfl⟩, hplace'⟩, ?_⟩
  · exact TypeTable.mem_known.2 ⟨name, hname, hid⟩
  · refine (h.mem_triples slot _).2 ⟨e, v, w, he, hv, hw, hfits, ?_, hfits'⟩
    rintro id' hid'
    obtain rfl := Option.some.inj hid'
    exact ⟨name, hmem, hid⟩

/-- A seed that applies holds every edge that the query asks for. -/
theorem mem_seed (h : g.WellFormed) {edge : EdgeFilter} {seed : Seed}
    (happlies : seed.Applies (g.endTest source) (g.endTest target) (.of edge)) {slot : Slot} {e : Edge}
    (he : g.edges.get? slot = some e) (hasked : g.Asked source edge target e) :
    slot ∈ seed.edges g (g.endTest source) (g.endTest target) (.of edge) := by
  obtain ⟨s, t, hends, hs, ht⟩ := h.edges.exists_ends? he
  obtain ⟨v, hv, -, hvertex⟩ := h.vertex?_of_slot? hs
  obtain ⟨w, hw, -, hwertex⟩ := h.vertex?_of_slot? ht
  obtain ⟨hsource, hedge, htarget⟩ := (asked_iff_of_ends hvertex hwertex).1 hasked
  cases seed with
  | outbound =>
    obtain ⟨slots, hslots⟩ := Option.ne_none_iff_exists'.1 happlies
    have hall := (h.endTest_slots_iff hv).2 hsource
    rw [hslots] at hall
    rw [Seed.edges, hslots]
    exact (h.mem_adjacent he hends).1 hall
  | inbound =>
    obtain ⟨slots, hslots⟩ := Option.ne_none_iff_exists'.1 happlies
    have hall := (h.endTest_slots_iff hw).2 htarget
    rw [hslots] at hall
    rw [Seed.edges, hslots]
    exact (h.mem_adjacent he hends).2 hall
  | triples =>
    obtain ⟨hne, hpositive⟩ := happlies
    obtain ⟨wanted, hwanted⟩ := Option.ne_none_iff_exists'.1 hne
    obtain ⟨hnames, hnonempty⟩ := wantedTypes_eq_some.1 hwanted
    have htypes := hedge.types (hnames ▸ hnonempty)
    have hnegated : edge.negated = false := hpositive
    rw [hnegated, if_neg Bool.false_ne_true, hnames] at htypes
    obtain ⟨name, hname, hmem⟩ := htypes
    rw [Seed.edges, hwanted]
    exact h.mem_candidates he hvertex hwertex hsource htarget hname hmem
  | all => exact (h.edges.mem_live slot).2 (by rw [he]; rfl)

/-- A seed that applies gives what a scan finds. -/
theorem answer_eq_scan (h : g.WellFormed) (source target : Option VertexFilter) (edge : EdgeFilter)
    {seed : Seed} (happlies : seed.Applies (g.endTest source) (g.endTest target) (.of edge)) :
    seed.answer g (g.endTest source) (g.endTest target) (.of edge) =
      g.allEdges.filter fun e => g.Asked source edge target e := by
  have hfilter : (seed.edges g (g.endTest source) (g.endTest target) (.of edge)).toList.filter
        (g.admitsEdge (g.endTest source) (g.endTest target) (.of edge)) =
      g.edges.live.toList.filter (g.admitsEdge (g.endTest source) (g.endTest target) (.of edge)) := by
    refine SlotSet.filter_toList_congr fun slot hadmits => ?_
    obtain ⟨e, he⟩ := exists_get?_of_admitsEdge hadmits
    refine iff_of_true (h.mem_seed happlies he ((h.admitsEdge_iff he).1 hadmits)) ?_
    exact (h.edges.mem_live slot).2 (by rw [he]; rfl)
  rw [Seed.answer, hfilter, allEdges, List.filter_filterMap, List.filterMap_filter]
  refine List.filterMap_congr fun slot hslot => ?_
  obtain ⟨e, he⟩ :=
    Option.isSome_iff_exists.1 ((h.edges.mem_live slot).1 (SlotSet.mem_toList.1 hslot))
  have hadmits : g.admitsEdge (g.endTest source) (g.endTest target) (.of edge) slot = true ↔
      g.Asked source edge target e := h.admitsEdge_iff he
  rw [he, Option.filter_some]
  by_cases hasked : g.Asked source edge target e
  · rw [if_pos (hadmits.2 hasked), if_pos (decide_eq_true hasked)]
  · rw [if_neg fun hc => hasked (hadmits.1 hc), if_neg fun hc => hasked (of_decide_eq_true hc)]

theorem selectEdges_eq_scan (h : g.WellFormed) (source target : Option VertexFilter)
    (edge : EdgeFilter) : g.selectEdges source edge target =
      g.allEdges.filter fun e => g.Asked source edge target e := by
  obtain ⟨seed, happlies, hseed⟩ :=
    g.exists_seed (g.endTest source) (g.endTest target) (.of edge)
  rw [← h.answer_eq_scan source target edge happlies, selectEdges, Seed.answer, hseed]

end WellFormed

/-- In every graph of a history, selecting edges gives what a scan of all edges in the order in which
they were put in finds, each edge once; and every source of candidates that the filters allow for
gives the same answer. -/
theorem selectEdges_after (changes : List Change) (source target : Option VertexFilter)
    (edge : EdgeFilter) :
    (after changes).selectEdges source edge target =
        ((Listing.after changes).edges.filter fun e => (after changes).Asked source edge target e) ∧
      ((Listing.after changes).edges.map Edge.id).Nodup ∧
      ∀ seed : Seed,
        seed.Applies ((after changes).endTest source) ((after changes).endTest target) (.of edge) →
        seed.answer (after changes) ((after changes).endTest source)
            ((after changes).endTest target) (.of edge) =
          (after changes).selectEdges source edge target := by
  have h := wellFormed_after changes
  have hedges : (after changes).allEdges = (Listing.after changes).edges :=
    congrArg Listing.edges (listing_after changes)
  rw [← hedges]
  refine ⟨h.selectEdges_eq_scan source target edge, h.nodup_ids, fun seed happlies => ?_⟩
  rw [h.answer_eq_scan source target edge happlies, h.selectEdges_eq_scan]

end Graph

end PatternGraph
