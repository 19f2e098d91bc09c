import PatternGraph.Proofs.Edge.Canonical
import PatternGraph.Proofs.Graph.EdgeIdentity
import PatternGraph.Proofs.Graph.Refinement

/-!
# Taking out an edge by any spelling of its id

The id of an edge names its types in order and as the store keeps them. A text that names them in
another order, twice, in other letter case or with white space denotes the same edge, if it is read as
the key of the edge. In a graph whose keys are all legible, `Graph.Legible`, such a text is the id of no
other edge: the id of an edge is read as the key of that edge, and a text is read in one way only. So
taking out the edge of the text takes out the edge of the key, `WellFormed.removeEdge_of_parse`.

The keys are legible if no vertex id is empty or holds a mark and no edge type holds a comma. What stands
in the types beside that does not matter; they may hold the marks.
-/

namespace PatternGraph

namespace EdgeKey

variable {source target : String} {names : List String}

/-- A spelled key is read, with the types that the store keeps. -/
theorem parse_spelling (hsource : source ≠ "") (hopening : ¬ opening <:+: source.toList)
    (htarget : target ≠ "") (hclosing : ¬ closing <:+: target.toList)
    (hnames : ∀ name ∈ names, Text.trim name ≠ "" ∧ ',' ∉ name.toList) :
    parse (spelling source names target) = some ⟨source, .normalized names, target⟩ := by
  have hfirst := cutFirst_opening hopening
    ([','].intercalate (names.map String.toList) ++ closing ++ target.toList)
  rw [← toList_spelling] at hfirst
  have hlast := cutLast_closing hclosing ([','].intercalate (names.map String.toList))
  refine parse_eq_some.2 ⟨_, _, hfirst, hlast, hsource, htarget, readTypes_names ?_⟩
  refine fun name hname => ⟨fun hblank => ?_, (hnames name hname).2⟩
  refine (hnames name hname).1 ?_
  rw [Text.trim, hblank]

end EdgeKey

namespace Graph

variable {g : Graph}

/-- The keys of all stored edges are read back from their texts. -/
def Legible (g : Graph) : Prop := ∀ e ∈ g.allEdges, e.key.Legible

namespace WellFormed

theorem legible_of_plain (h : g.WellFormed) (hne : ∀ v ∈ g.allVertices, v.id ≠ "") (hids : g.PlainIds)
    (htypes : g.CommaFree) : g.Legible := by
  have hid : ∀ {id : String} {v : Vertex}, g.vertex? id = some v → id ≠ "" := by
    intro id v hv
    rw [← h.id_of_vertex? hv]
    exact hne v (h.mem_allVertices_of_vertex? hv)
  intro e he
  obtain ⟨v, w, hv, hw⟩ := h.exists_ends he
  have hplain : e.key.Plain := h.plain_of_mem_keys hids htypes ⟨e, he, rfl⟩
  refine
    { source_ne_empty := hid hv
      source := hplain.source
      target_ne_empty := hid hw
      target := hplain.target
      types := fun name hname => ?_ }
  have hmem : name ∈ TypeSet.normalized e.types.names := by
    rwa [Edge.types_of_normalize_eq (h.normalize_of_mem he)]
  obtain ⟨hnormal, hne⟩ := TypeSet.kept_of_mem_normalized hmem
  exact ⟨hne, (hplain.types name hname).2, hnormal⟩

/-- An edge whose id is a text that is read as the key of another is that other edge. -/
theorem eq_of_parse_id (h : g.WellFormed) (hlegible : g.Legible) {e e' : Edge} (he : e ∈ g.allEdges)
    (he' : e' ∈ g.allEdges) (hparse : EdgeKey.parse e'.id = some e.key) : e' = e := by
  rw [Edge.id_eq_text_of_normalize_eq (h.normalize_of_mem he'), (hlegible e' he').parse_text] at hparse
  refine h.eq_of_id_eq he' he ?_
  rw [Edge.id_eq_text_of_normalize_eq (h.normalize_of_mem he'), Option.some.inj hparse,
    ← Edge.id_eq_text_of_normalize_eq (h.normalize_of_mem he)]

/-- A text that is read as the key of an edge denotes this edge. -/
theorem edgeSlot?_of_parse (h : g.WellFormed) (hlegible : g.Legible) {e : Edge} (he : e ∈ g.allEdges)
    {text : String} (hparse : EdgeKey.parse text = some e.key) :
    g.edgeSlot? text = .ok (g.edges.slot? e.id) := by
  rw [edgeSlot?]
  cases hslot : g.edges.slot? text with
  | some slot =>
    obtain ⟨e', hget, rfl⟩ := h.edges.indexed.exists_get? hslot
    obtain rfl := h.eq_of_parse_id hlegible he (h.mem_allEdges.2 ⟨slot, hget⟩) hparse
    simp only [hslot]
  | none => simp only [hparse, ← Edge.id_eq_text_of_normalize_eq (h.normalize_of_mem he)]

/-- Once an edge is taken out, a text that is read as its key denotes no edge. -/
theorem removeEdge_of_gone {g' : Graph} (h : g.WellFormed) (hlegible : g.Legible) {e : Edge}
    (he : e ∈ g.allEdges) (h' : g'.WellFormed) (hedges : g'.allEdges = g.allEdges.erase e)
    {text : String} (hparse : EdgeKey.parse text = some e.key) :
    g'.removeEdge text = (.ok false, g') := by
  -- an edge that is left is another one, so its id is not read as this key
  have hgone : ∀ {id : String}, EdgeKey.parse id = some e.key → g'.edges.slot? id = none := by
    intro id hid
    refine h'.not_mem_edgeIds.1 fun hmem => ?_
    obtain ⟨e', he', rfl⟩ := List.mem_map.1 hmem
    rw [hedges, h.nodup_allEdges.mem_erase_iff] at he'
    exact he'.1 (h.eq_of_parse_id hlegible he he'.2 hid)
  have hslot := hgone hparse
  have hslot' := hgone (hlegible e he).parse_text
  simp only [Graph.removeEdge, edgeSlot?, hslot, hparse, hslot']

/-- Taking out the edge that a text is read as takes out this edge and nothing else; a second time there
is nothing to take out. -/
theorem removeEdge_of_parse (h : g.WellFormed) (hlegible : g.Legible) {e : Edge} (he : e ∈ g.allEdges)
    {text : String} (hparse : EdgeKey.parse text = some e.key) :
    ∃ g', g.removeEdge text = (.ok true, g') ∧ g'.Shows ⟨g.allVertices, g.allEdges.erase e⟩ ∧
      g'.removeEdge text = (.ok false, g') := by
  obtain ⟨slot, hget⟩ := h.mem_allEdges.1 he
  have hslot := h.edges.indexed.slot?_of_get? hget
  have hremove : g.removeEdge text = (.ok true, g.eraseEdge slot) := by
    simp only [Graph.removeEdge, h.edgeSlot?_of_parse hlegible he hparse, hslot, hget, Option.isSome_some]
  have hwf := h.eraseEdge slot
  have hedges : (g.eraseEdge slot).allEdges = g.allEdges.erase e := by
    rw [h.allEdges_eraseEdge hslot, h.nodup_allEdges.erase_eq_filter]
    refine List.filter_congr fun e' he' => ?_
    rw [Bool.eq_iff_iff, decide_eq_true_iff, bne_iff_ne]
    exact not_congr ⟨h.eq_of_id_eq he' he, congrArg Edge.id⟩
  refine ⟨g.eraseEdge slot, hremove, ?_, h.removeEdge_of_gone hlegible he hwf hedges hparse⟩
  rw [← hedges]
  exact hwf.shows_listing

end WellFormed

/-- In every graph of a history none of whose vertex ids is empty or holds a mark and none of whose edge
types holds a comma: an edge is taken out by every text that spells its id, in whichever way its types
are written. All else is read as before, and a second time nothing is taken out. -/
theorem removeEdge_spelled_after (changes : List Change)
    (hne : ∀ v ∈ (after changes).allVertices, v.id ≠ "") (hids : (after changes).PlainIds)
    (htypes : (after changes).CommaFree) {e : Edge} (he : e ∈ (after changes).allEdges)
    {names : List String} (hnames : ∀ name ∈ names, Text.trim name ≠ "" ∧ ',' ∉ name.toList)
    (hspelled : TypeSet.normalized names = e.types) :
    ∃ g', (after changes).removeEdge (EdgeKey.spelling e.source names e.target) = (.ok true, g') ∧
      g'.Shows ⟨(after changes).allVertices, (after changes).allEdges.erase e⟩ ∧
      g'.removeEdge (EdgeKey.spelling e.source names e.target) = (.ok false, g') := by
  have h := wellFormed_after changes
  have hlegible := h.legible_of_plain hne hids htypes
  have hparse : EdgeKey.parse (EdgeKey.spelling e.source names e.target) = some e.key := by
    have hkey := hlegible e he
    have hread := EdgeKey.parse_spelling hkey.source_ne_empty hkey.source hkey.target_ne_empty
      hkey.target hnames
    rwa [hspelled] at hread
  exact h.removeEdge_of_parse hlegible he hparse

/-- Two edges between two vertices; a type of the first holds both marks. -/
def markedTypes : List Change :=
  [.addVertex (.of "a" "A" []), .addVertex (.of "b" "B" []),
    .addEdge (.of "a" "b" ["]->-[", "t"]), .addEdge (.of "a" "b" ["t"])]

/-- The first edge is taken out by a text that pads its types, swaps them and names one twice. -/
theorem removeEdge_spelled_after_markedTypes :
    EdgeKey.spelling "a" [" T", "]->-[", "t "] "b" = "a-[ T,]->-[,t ]->b" ∧
      ∃ g', (after markedTypes).removeEdge "a-[ T,]->-[,t ]->b" = (.ok true, g') ∧
        g'.allEdges = [.of "a" "b" ["t"]] ∧
        g'.removeEdge "a-[ T,]->-[,t ]->b" = (.ok false, g') := by
  have hne : ∀ v ∈ (after markedTypes).allVertices, v.id ≠ "" := by decide +kernel
  have hids : (after markedTypes).PlainIds := by
    rw [PlainIds]
    decide +kernel
  have htypes : (after markedTypes).CommaFree := by
    rw [CommaFree]
    decide +kernel
  have he : Edge.of "a" "b" ["]->-[", "t"] ∈ (after markedTypes).allEdges := by decide +kernel
  have hnames : ∀ name ∈ [" T", "]->-[", "t "], Text.trim name ≠ "" ∧ ',' ∉ name.toList := by
    decide +kernel
  have hspelled : TypeSet.normalized [" T", "]->-[", "t "] = (Edge.of "a" "b" ["]->-[", "t"]).types := by
    decide +kernel
  have htext : EdgeKey.spelling "a" [" T", "]->-[", "t "] "b" = "a-[ T,]->-[,t ]->b" := by
    decide +kernel
  have hrest : (after markedTypes).allEdges.erase (.of "a" "b" ["]->-[", "t"]) =
      [.of "a" "b" ["t"]] := by
    decide +kernel
  obtain ⟨g', hremove, hshows, hagain⟩ :=
    removeEdge_spelled_after markedTypes hne hids htypes he hnames hspelled
  have hsource : (Edge.of "a" "b" ["]->-[", "t"]).source = "a" := rfl
  have htarget : (Edge.of "a" "b" ["]->-[", "t"]).target = "b" := rfl
  rw [hsource, htarget, htext] at hremove hagain
  exact ⟨htext, g', hremove, hshows.allEdges.trans hrest, hagain⟩

end Graph

end PatternGraph
