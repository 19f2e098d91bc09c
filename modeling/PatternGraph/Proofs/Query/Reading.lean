import PatternGraph.Proofs.Graph.Selection
import PatternGraph.Query.Run

/-!
# Readings of a step

A step of a query reads edges: it walks an edge from its source to its target, or the other way, if
its direction allows that and if the edge and its two vertices are what the step asks for. `Step.Reads`
says which readings a step has, `Step.Before` in which order they come: the readings along the edges
before those against them, and each kind in the order of insertion.

`Step.run_eq` says that running a step gives its readings in that order, of which only those are left
that enter at one of the ids to start from. An edge from a vertex to itself has one reading, even if
the step goes both ways.
-/

namespace PatternGraph

/-! ### The first of each key -/

section FirstOfEach

variable {α κ : Type} [DecidableEq κ] {key : α → κ}

theorem firstOfEach_congr (as : List α) {seen seen' : List κ} (h : ∀ k, k ∈ seen ↔ k ∈ seen') :
    firstOfEach key as seen = firstOfEach key as seen' := by
  induction as generalizing seen seen' with
  | nil => rfl
  | cons a as ih =>
    have hcons : ∀ k, k ∈ key a :: seen ↔ k ∈ key a :: seen' := fun k => by simp [h k]
    simp only [firstOfEach, h (key a)]
    rw [ih h, ih hcons]

theorem firstOfEach_append (as bs : List α) (seen : List κ) :
    firstOfEach key (as ++ bs) seen =
      firstOfEach key as seen ++ firstOfEach key bs (as.map key ++ seen) := by
  induction as generalizing seen with
  | nil => rfl
  | cons a as ih =>
    simp only [List.cons_append, firstOfEach, List.map_cons]
    split
    · next hk =>
      rw [ih]
      congr 1
      exact firstOfEach_congr bs fun k => by grind
    · rw [ih, List.cons_append]
      congr 2
      exact firstOfEach_congr bs fun k => by grind

/-- Where no key comes twice, only those that were seen before are left out. -/
theorem firstOfEach_of_nodup {as : List α} (h : (as.map key).Nodup) {seen : List κ} {p : α → Bool}
    (hp : ∀ a ∈ as, p a = true ↔ key a ∉ seen) : firstOfEach key as seen = as.filter p := by
  induction as generalizing seen with
  | nil => rfl
  | cons a as ih =>
    obtain ⟨ha, has⟩ := List.nodup_cons.1 h
    obtain ⟨hpa, hpas⟩ := List.forall_mem_cons.1 hp
    by_cases hk : key a ∈ seen
    · rw [List.filter_cons_of_neg fun hc => hpa.1 hc hk, ← ih has hpas]
      simp only [firstOfEach, if_pos hk]
    · rw [List.filter_cons_of_pos (hpa.2 hk)]
      simp only [firstOfEach, if_neg hk]
      rw [ih has]
      intro b hb
      have hne : key b ≠ key a := fun e => ha (e ▸ List.mem_map_of_mem hb)
      rw [hpas b hb, List.mem_cons, not_or, and_iff_right hne]

/-- Each member that is the first with its key, unless the key was seen before. -/
theorem firstOfEach_eq_filter [DecidableEq α] {as : List α} (h : as.Nodup) (seen : List κ) :
    firstOfEach key as seen =
      as.filter fun a => key a ∉ seen ∧ as.find? (fun b => key b = key a) = some a := by
  induction as generalizing seen with
  | nil => rfl
  | cons a as ih =>
    obtain ⟨ha, has⟩ := List.nodup_cons.1 h
    by_cases hk : key a ∈ seen
    · rw [List.filter_cons_of_neg (by simp [hk])]
      simp only [firstOfEach, if_pos hk, ih has]
      refine List.filter_congr fun b _ => decide_eq_decide.2 (and_congr_right fun hb => ?_)
      have hkey : key a ≠ key b := fun e => hb (e ▸ hk)
      rw [List.find?_cons_of_neg (by simpa using hkey)]
    · rw [List.filter_cons_of_pos (by simpa using hk)]
      simp only [firstOfEach, if_neg hk, ih has]
      congr 1
      refine List.filter_congr fun b hb => decide_eq_decide.2 ?_
      by_cases hkey : key a = key b
      · have hne : a ≠ b := fun e => ha (e ▸ hb)
        simp [hkey, hne]
      · simp [hkey, Ne.symm hkey]

end FirstOfEach

/-! ### What a step reads -/

/-- A vertex is what a node asks for. -/
structure NodeTest.Met (t : NodeTest) (v : Vertex) : Prop where
  /-- If types are asked for, the vertex has one of them. -/
  types : askedNames (some t.types.names) ≠ [] →
    ∃ name ∈ askedNames (some t.types.names), name ∈ v.types
  /-- If a text is given, it stands in the name of the vertex, letter case aside. -/
  name : ∀ term ∈ t.searchTerm, (Text.lowercase term).toList <:+: (Text.lowercase v.name).toList

/-- An edge is what a link asks for. -/
structure LinkTest.Met (t : LinkTest) (e : Edge) : Prop where
  /-- Unless derived edges will do, the edge is an asserted one. -/
  asserted : t.derived = false → e.derivation = []
  /-- If types are asked for, the edge has one of them, or none if they are excluded. -/
  types : askedNames (some t.types.names) ≠ [] →
    if t.negated then ∀ name ∈ askedNames (some t.types.names), name ∉ e.types
    else ∃ name ∈ askedNames (some t.types.names), name ∈ e.types

theorem NodeTest.met_iff {t : NodeTest} {v : Vertex} {ids : Option (List String)} :
    ({ VertexFilter.ofNodeTest t with ids := ids } : VertexFilter).Satisfied v ↔
      (∀ l ∈ ids, v.id ∈ l) ∧ t.Met v := by
  constructor
  · rintro ⟨hids, htypes, hname⟩
    rw [VertexFilter.ofNodeTest, askedNames_of_isEmpty] at htypes
    exact ⟨hids, htypes, hname⟩
  · rintro ⟨hids, htypes, hname⟩
    refine ⟨hids, ?_, hname⟩
    rw [VertexFilter.ofNodeTest, askedNames_of_isEmpty]
    exact htypes

theorem LinkTest.met_iff {t : LinkTest} {e : Edge} :
    (EdgeFilter.ofLinkTest t).Satisfied e ↔ t.Met e := by
  have hscope : (EdgeFilter.ofLinkTest t).scope.Covers e ↔
      (t.derived = false → e.derivation = []) := by
    rw [EdgeFilter.ofLinkTest]
    cases t.derived <;> simp [EdgeScope.Covers]
  constructor
  · rintro ⟨hs, htypes⟩
    rw [EdgeFilter.ofLinkTest, askedNames_of_isEmpty] at htypes
    exact ⟨hscope.1 hs, htypes⟩
  · rintro ⟨hs, htypes⟩
    refine ⟨hscope.2 hs, ?_⟩
    rw [EdgeFilter.ofLinkTest, askedNames_of_isEmpty]
    exact htypes

instance (t : NodeTest) (v : Vertex) : Decidable (t.Met v) :=
  decidable_of_iff (({ VertexFilter.ofNodeTest t with ids := none } : VertexFilter).Satisfied v)
    (NodeTest.met_iff.trans (and_iff_right nofun))

instance (t : LinkTest) (e : Edge) : Decidable (t.Met e) :=
  decidable_of_iff ((EdgeFilter.ofLinkTest t).Satisfied e) LinkTest.met_iff

namespace Step

/-- The edge of a hit and its two vertices are what a step asks for. -/
structure Fits (g : Graph) (step : Step) (h : Hit) : Prop where
  entry : ∃ v ∈ g.vertex? h.entry, step.left.Met v
  link : step.link.Met h.edge
  exit : ∃ w ∈ g.vertex? h.exit, step.right.Met w

theorem fits_iff {g : Graph} {step : Step} {h : Hit} :
    step.Fits g h ↔ (∃ v ∈ g.vertex? h.entry, step.left.Met v) ∧ step.link.Met h.edge ∧
      ∃ w ∈ g.vertex? h.exit, step.right.Met w :=
  ⟨fun h => ⟨h.entry, h.link, h.exit⟩, fun ⟨entry, link, exit⟩ => ⟨entry, link, exit⟩⟩

instance (g : Graph) (step : Step) (h : Hit) : Decidable (step.Fits g h) :=
  decidable_of_iff
    ((∃ v ∈ g.vertex? h.entry, step.left.Met v) ∧ step.link.Met h.edge ∧
      ∃ w ∈ g.vertex? h.exit, step.right.Met w)
    fits_iff.symm

/-- A reading of a stored edge, in a direction in which the step goes. -/
structure Reads (g : Graph) (step : Step) (h : Hit) : Prop where
  stored : h.edge ∈ g.allEdges
  direction : (step.link.direction ≠ .left ∧ h = .along h.edge) ∨
    (step.link.direction ≠ .right ∧ h = .against h.edge)
  fits : step.Fits g h

/-- For a step that goes both ways, whether an edge is walked against its direction. -/
def turn (step : Step) (h : Hit) : Nat :=
  if step.link.direction = .both ∧ h ≠ .along h.edge then 1 else 0

/-- The order of the readings of a step: along the edges before against them, and then by
insertion. -/
def Before (g : Graph) (step : Step) (h h' : Hit) : Prop :=
  step.turn h < step.turn h' ∨
    (step.turn h = step.turn h' ∧ g.allEdges.idxOf h.edge < g.allEdges.idxOf h'.edge)

/-- The readings of a step in their order. -/
def readings (g : Graph) (step : Step) : List Hit :=
  ((g.allEdges.map Hit.along).filter fun h => step.link.direction ≠ .left ∧ step.Fits g h) ++
    (g.allEdges.map Hit.against).filter fun h =>
      (step.link.direction ≠ .right ∧ step.Fits g h) ∧
        ¬ (step.link.direction ≠ .left ∧ h = .along h.edge)

theorem mem_readings {g : Graph} {step : Step} {h : Hit} :
    h ∈ step.readings g ↔ step.Reads g h := by
  simp only [readings, List.mem_append, List.mem_filter, List.mem_map, decide_eq_true_eq]
  constructor
  · rintro (⟨⟨e, he, rfl⟩, hdir, hfits⟩ | ⟨⟨e, he, rfl⟩, ⟨hdir, hfits⟩, -⟩)
    · exact ⟨he, .inl ⟨hdir, rfl⟩, hfits⟩
    · exact ⟨he, .inr ⟨hdir, rfl⟩, hfits⟩
  · rintro ⟨hstored, hdir, hfits⟩
    by_cases halong : step.link.direction ≠ .left ∧ h = .along h.edge
    · exact .inl ⟨⟨h.edge, hstored, halong.2.symm⟩, halong.1, hfits⟩
    · rcases hdir with hdir | ⟨hdir, hagainst⟩
      · exact absurd hdir halong
      · exact .inr ⟨⟨h.edge, hstored, hagainst.symm⟩, ⟨hdir, hfits⟩, halong⟩

end Step

/-- The places of the members of a list without repetition ascend. -/
theorem pairwise_idxOf {α : Type} [DecidableEq α] {as : List α} (h : as.Nodup) :
    as.Pairwise fun a b => as.idxOf a < as.idxOf b := by
  rw [List.pairwise_iff_getElem]
  intro i j hi hj hij
  rwa [h.idxOf_getElem i hi, h.idxOf_getElem j hj]

namespace Step

variable {g : Graph}

theorem pairwise_readings (h : g.WellFormed) (step : Step) :
    (step.readings g).Pairwise (step.Before g) := by
  have hsorted := pairwise_idxOf h.nodup_allEdges
  refine List.pairwise_append.2 ⟨?along, ?against, ?cross⟩
  case along =>
    have halong : (g.allEdges.map Hit.along).Pairwise (step.Before g) := by
      refine List.pairwise_map.2 (hsorted.imp fun hlt => .inr ⟨?_, hlt⟩)
      simp [turn, Hit.along]
    exact halong.filter _
  case against =>
    rw [List.pairwise_filter]
    refine List.pairwise_map.2 (hsorted.imp fun {e e'} hlt hp hp' => .inr ⟨?_, hlt⟩)
    -- a step that goes both ways has no reading along an edge here
    have hturn : ∀ {h : Hit}, ¬ (step.link.direction ≠ .left ∧ h = .along h.edge) →
        step.turn h = if step.link.direction = .both then 1 else 0 := by
      intro h hnot
      by_cases hboth : step.link.direction = .both
      · have hne : h ≠ .along h.edge := fun e => hnot ⟨by rw [hboth]; exact nofun, e⟩
        rw [turn, if_pos ⟨hboth, hne⟩, if_pos hboth]
      · rw [turn, if_neg fun hc => hboth hc.1, if_neg hboth]
    rw [hturn (of_decide_eq_true hp).2, hturn (of_decide_eq_true hp').2]
  case cross =>
    intro a ha b hb
    simp only [List.mem_filter, List.mem_map, decide_eq_true_eq] at ha hb
    obtain ⟨⟨e, -, rfl⟩, hleft, -⟩ := ha
    obtain ⟨-, ⟨hright, -⟩, hnot⟩ := hb
    have hboth : step.link.direction = .both := by
      cases hd : step.link.direction with
      | left => exact absurd hd hleft
      | both => rfl
      | right => exact absurd hd hright
    have hne : b ≠ .along b.edge := fun e => hnot ⟨hleft, e⟩
    refine .inl ?_
    rw [show step.turn b = 1 from if_pos ⟨hboth, hne⟩]
    simp [turn, Hit.along]

/-! ### Running a step -/

/-- Whether a walk may start at an id. -/
def allowed (start : Option (List String)) (id : String) : Bool := start.all (·.contains id)

theorem allowed_iff {start : Option (List String)} {id : String} :
    allowed start id = true ↔ ∀ ids ∈ start, id ∈ ids := by
  cases start <;> simp [allowed]

theorem entry_iff (h : g.WellFormed) {t : NodeTest} {start : Option (List String)} {id : String} :
    (∃ v ∈ g.vertex? id,
        ({ VertexFilter.ofNodeTest t with ids := start } : VertexFilter).Satisfied v) ↔
      (∃ v ∈ g.vertex? id, t.Met v) ∧ allowed start id = true := by
  rw [allowed_iff]
  constructor
  · rintro ⟨v, hv, hsat⟩
    obtain ⟨hids, hmet⟩ := NodeTest.met_iff.1 hsat
    rw [h.id_of_vertex? hv] at hids
    exact ⟨⟨v, hv, hmet⟩, hids⟩
  · rintro ⟨⟨v, hv, hmet⟩, hids⟩
    rw [← h.id_of_vertex? hv] at hids
    exact ⟨v, hv, NodeTest.met_iff.2 ⟨hids, hmet⟩⟩

theorem exit_iff {t : NodeTest} {id : String} :
    (∃ w ∈ g.vertex? id, (VertexFilter.ofNodeTest t).Satisfied w) ↔ ∃ w ∈ g.vertex? id, t.Met w := by
  have hmet : ∀ {w : Vertex}, (VertexFilter.ofNodeTest t).Satisfied w ↔ t.Met w :=
    NodeTest.met_iff.trans (and_iff_right nofun)
  simp only [hmet]

/-- The query of a step along the edges asks for the readings along the edges. -/
theorem asked_along (h : g.WellFormed) {step : Step} {start : Option (List String)} {e : Edge} :
    g.Asked (some { VertexFilter.ofNodeTest step.left with ids := start }) (.ofLinkTest step.link)
        (some (.ofNodeTest step.right)) e ↔
      step.Fits g (.along e) ∧ allowed start (Hit.along e).entry = true := by
  rw [Graph.asked_some_iff, entry_iff h, LinkTest.met_iff, exit_iff, fits_iff]
  exact and_right_comm

/-- The query of a step against the edges asks for the readings against the edges. -/
theorem asked_against (h : g.WellFormed) {step : Step} {start : Option (List String)} {e : Edge} :
    g.Asked (some (.ofNodeTest step.right)) (.ofLinkTest step.link)
        (some { VertexFilter.ofNodeTest step.left with ids := start }) e ↔
      step.Fits g (.against e) ∧ allowed start (Hit.against e).entry = true := by
  rw [Graph.asked_some_iff, exit_iff, LinkTest.met_iff, entry_iff h, fits_iff]
  constructor
  · rintro ⟨hexit, hlink, hentry, hstart⟩
    exact ⟨⟨hentry, hlink, hexit⟩, hstart⟩
  · rintro ⟨⟨hentry, hlink, hexit⟩, hstart⟩
    exact ⟨hexit, hlink, hentry, hstart⟩

/-- What a step keeps of the edges that it finds in one direction. -/
def seen (g : Graph) (step : Step) (wanted : Bool) (read : Edge → Hit)
    (start : Option (List String)) : List Hit :=
  (g.allEdges.map read).filter fun h => (wanted = true ∧ step.Fits g h) ∧ allowed start h.entry = true

theorem map_lookAlong (h : g.WellFormed) (step : Step) (wanted : Bool) (start : Option (List String))
    {source target : VertexFilter} {edge : EdgeFilter} {read : Edge → Hit}
    (hasked : ∀ e, g.Asked (some source) edge (some target) e ↔
      step.Fits g (read e) ∧ allowed start (read e).entry = true) :
    ∃ found, lookAlong wanted source edge target g = (.ok found, g) ∧
      found.map read = step.seen g wanted read start := by
  cases wanted with
  | false =>
    refine ⟨[], rfl, ?_⟩
    simp [seen]
  | true =>
    refine ⟨g.selectEdges (some source) edge (some target), rfl, ?_⟩
    rw [h.selectEdges_eq_scan, seen, List.filter_map]
    congr 1
    refine List.filter_congr fun e _ => ?_
    simp [hasked]

/-- The key by which a step takes what it finds twice for the same. -/
def hitKey (h : Hit) : String × String := (h.edge.id, h.entry)

theorem nodup_map_hitKey (h : g.WellFormed) {read : Edge → Hit} (hread : ∀ e, (read e).edge = e)
    (step : Step) (wanted : Bool) (start : Option (List String)) :
    ((step.seen g wanted read start).map hitKey).Nodup := by
  have hkeys : ((g.allEdges.map read).map hitKey).Nodup := by
    rw [List.map_map]
    refine List.pairwise_map.2 ((List.pairwise_map.1 h.nodup_ids).imp fun hne e => ?_)
    simp only [Function.comp, hitKey, hread, Prod.mk.injEq] at e
    exact hne e.1
  exact hkeys.sublist (List.filter_sublist.map hitKey)

/-- What a step finds against the edges was found along the edges already if it is a reading along an
edge. -/
theorem hitKey_mem_iff (h : g.WellFormed) {step : Step} {start : Option (List String)} {hit : Hit}
    (hhit : hit ∈ step.seen g (step.link.direction != .right) .against start) :
    hitKey hit ∈ (step.seen g (step.link.direction != .left) .along start).map hitKey ↔
      step.link.direction ≠ .left ∧ hit = .along hit.edge := by
  simp only [seen, List.mem_filter, List.mem_map, decide_eq_true_eq, bne_iff_ne] at hhit ⊢
  obtain ⟨⟨e, he, rfl⟩, ⟨-, hfits⟩, hstart⟩ := hhit
  constructor
  · rintro ⟨_, ⟨⟨e', he', rfl⟩, ⟨hleft, -⟩, -⟩, hkey⟩
    simp only [hitKey, Hit.along, Hit.against, Prod.mk.injEq] at hkey
    obtain rfl := h.eq_of_id_eq he' he hkey.1
    refine ⟨hleft, ?_⟩
    simp [Hit.along, Hit.against, hkey.2]
  · rintro ⟨hleft, halong⟩
    exact ⟨.against e, ⟨⟨e, he, halong.symm⟩, ⟨hleft, hfits⟩, hstart⟩, rfl⟩

/-- Running a step gives its readings in their order, of those that enter at an id to start from. -/
theorem run_eq (h : g.WellFormed) (step : Step) (start : Option (List String)) :
    step.run start g = (.ok ((step.readings g).filter fun hit => allowed start hit.entry), g) := by
  obtain ⟨forward, hforward, hfmap⟩ :=
    map_lookAlong h step (step.link.direction != .left) start fun e => asked_along h
  obtain ⟨backward, hbackward, hbmap⟩ :=
    map_lookAlong h step (step.link.direction != .right) start fun e => asked_against h
  have hfirst : firstOfEach hitKey (step.seen g (step.link.direction != .left) .along start) [] =
      step.seen g (step.link.direction != .left) .along start := by
    rw [firstOfEach_of_nodup (p := fun _ => true) (nodup_map_hitKey h (fun _ => rfl) step _ start)
      (by simp), List.filter_true]
  have hsecond := firstOfEach_of_nodup
    (p := fun hit => decide ¬ (step.link.direction ≠ .left ∧ hit = .along hit.edge))
    (nodup_map_hitKey h (fun _ => rfl) step (step.link.direction != .right) start)
    fun hit hhit => decide_eq_true_iff.trans (not_congr (hitKey_mem_iff h hhit)).symm
  simp only [run, Action.andThen, hforward, hbackward, Action.give, hfmap, hbmap]
  congr 2
  change firstOfEach hitKey _ [] = _
  rw [firstOfEach_append, hfirst, List.append_nil, hsecond, readings, List.filter_append]
  congr 1
  · rw [seen, List.filter_filter]
    exact List.filter_congr fun hit _ => by simp [Bool.and_comm]
  · rw [seen, List.filter_filter, List.filter_filter]
    refine List.filter_congr fun hit _ => ?_
    simp only [bne_iff_ne, Bool.decide_and, Bool.decide_eq_true]
    ac_rfl

end Step

end PatternGraph
