import Mathlib.Data.Set.Insert
import PatternGraph.Proofs.Edge.Key
import PatternGraph.Proofs.Graph.Stored

/-!
# What an edge is known by

An edge is known by its key, that is, by its source, its set of types and its target; but the graph
finds it by the text of the key. Two keys that differ may have one text, if a vertex id holds one of
the marks `-[` and `]->` or a type holds a comma. Then the second edge is taken for the first and is
not stored. `Graph.Clashes` says that a stored edge stands in the way of a key in this manner.

`Graph.addEdge_identity_after` tells the two cases apart: where no edge is in the way, the edge is
inserted if, and only if, its key is not stored yet; where one is, the edge is lost. A graph whose ids
hold no mark and whose types hold no comma never loses an edge.
-/

namespace PatternGraph.Graph

variable {g : Graph}

/-- The keys of the stored edges. -/
def keys (g : Graph) : Set EdgeKey := {k | ∃ e ∈ g.allEdges, e.key = k}

/-- No vertex id holds a mark of the texts of keys. -/
def PlainIds (g : Graph) : Prop :=
  ∀ v ∈ g.allVertices, ¬ EdgeKey.opening <:+: v.id.toList ∧ ¬ EdgeKey.closing <:+: v.id.toList

/-- No edge type holds a comma. -/
def CommaFree (g : Graph) : Prop := ∀ e ∈ g.allEdges, ∀ name ∈ e.types, ',' ∉ name.toList

theorem PlainIds.of_vertex? (hids : g.PlainIds) (h : g.WellFormed) {id : String}
    (hv : ∃ v, g.vertex? id = some v) :
    ¬ EdgeKey.opening <:+: id.toList ∧ ¬ EdgeKey.closing <:+: id.toList := by
  obtain ⟨v, hv⟩ := hv
  have hplain := hids v (h.mem_allVertices_of_vertex? hv)
  rwa [h.id_of_vertex? hv] at hplain

/-- The keys of the stored edges are plain. -/
theorem WellFormed.plain_of_mem_keys (h : g.WellFormed) (hids : g.PlainIds) (htypes : g.CommaFree)
    {k : EdgeKey} (hk : k ∈ g.keys) : k.Plain := by
  obtain ⟨e, he, rfl⟩ := hk
  obtain ⟨v, w, hv, hw⟩ := h.exists_ends he
  refine ⟨(hids.of_vertex? h ⟨v, hv⟩).1, (hids.of_vertex? h ⟨w, hw⟩).2, fun name hname => ?_⟩
  refine ⟨?_, htypes e he name hname⟩
  have hmem : name ∈ TypeSet.normalized e.types.names := by
    rwa [Edge.types_of_normalize_eq (h.normalize_of_mem he)]
  exact (TypeSet.kept_of_mem_normalized hmem).2

theorem WellFormed.keys_withEdge (h : g.WellFormed) (e : Edge) (source target : Slot) :
    (g.withEdge e source target).keys = insert e.key g.keys := by
  ext k
  simp only [keys, h.allEdges_withEdge, List.mem_append, List.mem_singleton, Set.mem_ofPred_eq,
    Set.mem_insert_iff]
  constructor
  · rintro ⟨e', he' | rfl, rfl⟩
    · exact .inr ⟨e', he', rfl⟩
    · exact .inl rfl
  · rintro (rfl | ⟨e', he', rfl⟩)
    · exact ⟨e, .inr rfl, rfl⟩
    · exact ⟨e', .inl he', rfl⟩

/-- An edge whose id is stored and whose key is plain has its key stored. -/
theorem WellFormed.mem_keys_of_slot? (h : g.WellFormed) (hplain : ∀ k ∈ g.keys, k.Plain)
    {k : EdgeKey} (hk : k.Plain) {slot : Slot} (hs : g.edges.slot? k.text = some slot) :
    k ∈ g.keys := by
  obtain ⟨e, hget, hid⟩ := h.edges.indexed.exists_get? hs
  have he : e ∈ g.allEdges := h.mem_allEdges.2 ⟨slot, hget⟩
  have htext : e.key.text = k.text := by
    rw [← hid, Edge.id_eq_text_of_normalize_eq (h.normalize_of_mem he)]
  exact ⟨e, he, (hplain e.key ⟨e, he, rfl⟩).eq_of_text_eq hk htext⟩

/-! ### Keys of one text -/

/-- A stored edge has another key of the same text. -/
def Clashes (g : Graph) (k : EdgeKey) : Prop := ∃ k' ∈ g.keys, k' ≠ k ∧ k'.text = k.text

namespace WellFormed

/-- The text of a key is the id of a stored edge if the key is stored, or if one is in its way. -/
theorem exists_slot?_text_iff (h : g.WellFormed) {k : EdgeKey} :
    (∃ slot, g.edges.slot? k.text = some slot) ↔ k ∈ g.keys ∨ g.Clashes k := by
  constructor
  · rintro ⟨slot, hs⟩
    obtain ⟨e, hget, hid⟩ := h.edges.indexed.exists_get? hs
    have he : e ∈ g.allEdges := h.mem_allEdges.2 ⟨slot, hget⟩
    have htext : e.key.text = k.text := by
      rw [← hid, Edge.id_eq_text_of_normalize_eq (h.normalize_of_mem he)]
    by_cases hk : e.key = k
    · exact .inl ⟨e, he, hk⟩
    · exact .inr ⟨e.key, ⟨e, he, rfl⟩, hk, htext⟩
  · intro hk
    obtain ⟨k', ⟨e, he, rfl⟩, htext⟩ : ∃ k' ∈ g.keys, k'.text = k.text := by
      rcases hk with hk | ⟨k', hk', -, htext⟩
      · exact ⟨k, hk, rfl⟩
      · exact ⟨k', hk', htext⟩
    obtain ⟨slot, hget⟩ := h.mem_allEdges.1 he
    refine ⟨slot, ?_⟩
    rw [← htext, ← Edge.id_eq_text_of_normalize_eq (h.normalize_of_mem he)]
    exact h.edges.indexed.slot?_of_get? hget

/-- An edge in the way of a key means that the key is not stored. -/
theorem not_mem_keys_of_clashes (h : g.WellFormed) {k : EdgeKey} (hk : g.Clashes k) : k ∉ g.keys := by
  rintro ⟨e, he, rfl⟩
  obtain ⟨_, ⟨e', he', rfl⟩, hne, htext⟩ := hk
  refine hne (congrArg Edge.key (h.eq_of_id_eq he' he ?_))
  rw [Edge.id_eq_text_of_normalize_eq (h.normalize_of_mem he'), htext,
    Edge.id_eq_text_of_normalize_eq (h.normalize_of_mem he)]

/-- Of plain keys none is in the way of another. -/
theorem not_clashes_of_plain (h : g.WellFormed) (hids : g.PlainIds) (htypes : g.CommaFree)
    {k : EdgeKey} (hk : k.Plain) : ¬ g.Clashes k := by
  rintro ⟨k', hk', hne, htext⟩
  exact hne ((h.plain_of_mem_keys hids htypes hk').eq_of_text_eq hk htext)

theorem key_of_edge?_text (h : g.WellFormed) {k : EdgeKey} {e : Edge} (he : g.edge? k.text = some e) :
    e.key ∈ g.keys ∧ e.key.text = k.text := by
  obtain ⟨slot, hs, hget⟩ := edge?_eq_some.1 he
  obtain ⟨e', hget', hid⟩ := h.edges.indexed.exists_get? hs
  obtain rfl := Option.some.inj (hget.symm.trans hget')
  have hmem : e ∈ g.allEdges := h.mem_allEdges.2 ⟨slot, hget⟩
  exact ⟨⟨e, hmem, rfl⟩, by rw [← Edge.id_eq_text_of_normalize_eq (h.normalize_of_mem hmem), hid]⟩

/-- Adding an edge of a key whose text no stored edge has puts it in, and it is found. -/
theorem addEdge_of_free (h : g.WellFormed) {e : Edge} (hnew : g.edges.slot? e.normalize.id = none)
    {v w : Vertex} (hsource : g.vertex? e.source = some v) (htarget : g.vertex? e.target = some w) :
    ∃ g', g.addEdge e = (.ok ⟨e.normalize.id, true⟩, g') ∧
      g'.edge? e.normalize.id = some e.normalize := by
  obtain ⟨source, hs, -⟩ := vertex?_eq_some.1 hsource
  obtain ⟨target, ht, -⟩ := vertex?_eq_some.1 htarget
  refine ⟨_, addEdge_of_new hnew hs ht, ?_⟩
  refine (h.withEdge hnew e.normalize_normalize hs ht).edge?_of_mem ?_
  rw [h.allEdges_withEdge]
  exact List.mem_append_right _ (List.mem_singleton_self _)

end WellFormed

/-- An edge between stored vertices is always accepted. If no edge is in the way of its key, it is
inserted if, and only if, the key is not stored yet, and afterwards an edge of this key is stored under
the id that is given back. If one is in the way, the edge is not inserted though its key is not stored,
and what is stored under the id is another edge. No edge is in the way where the ids of the vertices
hold no mark and the types no comma. -/
theorem addEdge_identity_after (changes : List Change) (e : Edge) {v w : Vertex}
    (hsource : (after changes).vertex? e.source = some v)
    (htarget : (after changes).vertex? e.target = some w) :
    ∃ inserted g' stored,
      (after changes).addEdge e = (.ok ⟨e.normalize.key.text, inserted⟩, g') ∧
      g'.edge? e.normalize.key.text = some stored ∧
      (¬ (after changes).Clashes e.normalize.key →
        (inserted = true ↔ e.normalize.key ∉ (after changes).keys) ∧
          stored.key = e.normalize.key) ∧
      ((after changes).Clashes e.normalize.key →
        inserted = false ∧ e.normalize.key ∉ (after changes).keys ∧
          stored.key ≠ e.normalize.key) ∧
      ((after changes).PlainIds → (after changes).CommaFree →
        (∀ name ∈ e.normalize.types, ',' ∉ name.toList) →
          ¬ (after changes).Clashes e.normalize.key) := by
  have h := wellFormed_after changes
  have hplain : (after changes).PlainIds → (after changes).CommaFree →
      (∀ name ∈ e.normalize.types, ',' ∉ name.toList) →
        ¬ (after changes).Clashes e.normalize.key := by
    intro hids htypes hcommas
    refine h.not_clashes_of_plain hids htypes ⟨?_, ?_, fun name hname => ⟨?_, hcommas name hname⟩⟩
    · exact (hids.of_vertex? h ⟨v, hsource⟩).1
    · exact (hids.of_vertex? h ⟨w, htarget⟩).2
    · exact (TypeSet.kept_of_mem_normalized hname).2
  rw [← Edge.id_normalize]
  cases hslot : (after changes).edges.slot? e.normalize.id with
  | none =>
    obtain ⟨g', hadd, hfound⟩ := h.addEdge_of_free hslot hsource htarget
    have hfree : ¬ (e.normalize.key ∈ (after changes).keys ∨
        (after changes).Clashes e.normalize.key) := by
      rw [← h.exists_slot?_text_iff, ← Edge.id_normalize, hslot]
      exact nofun
    obtain ⟨hkey, hclash⟩ := not_or.1 hfree
    exact ⟨true, g', e.normalize, hadd, hfound, fun _ => ⟨iff_of_true rfl hkey, rfl⟩,
      fun hc => absurd hc hclash, hplain⟩
  | some slot =>
    obtain ⟨stored, hget, -⟩ := h.edges.indexed.exists_get? hslot
    have hfound := edge?_eq_some.2 ⟨slot, hslot, hget⟩
    obtain ⟨hstored, htext⟩ := h.key_of_edge?_text (k := e.normalize.key) hfound
    refine ⟨false, after changes, stored, addEdge_of_stored hslot, hfound, fun hclash => ?_,
      fun hclash => ?_, hplain⟩
    · have hkey : stored.key = e.normalize.key :=
        Decidable.byContradiction fun hne => hclash ⟨stored.key, hstored, hne, htext⟩
      exact ⟨iff_of_false nofun (not_not_intro (hkey ▸ hstored)), hkey⟩
    · have hkey := h.not_mem_keys_of_clashes hclash
      exact ⟨rfl, hkey, fun heq => hkey (heq ▸ hstored)⟩

/-- Two vertices, and an edge of a type that holds a comma. -/
def commaType : List Change :=
  [.addVertex (.of "a" "A" []), .addVertex (.of "b" "B" []), .addEdge (.of "a" "b" ["x,y"])]

/-- An edge of two types is lost behind one of a single type that holds a comma. -/
theorem addEdge_identity_after_commaType :
    (after commaType).vertex? "a" = some (.of "a" "A" []) ∧
      (after commaType).vertex? "b" = some (.of "b" "B" []) ∧
      ∃ inserted g' stored, (after commaType).addEdge (.of "a" "b" ["x", "y"]) =
          (.ok ⟨(Edge.of "a" "b" ["x", "y"]).normalize.key.text, inserted⟩, g') ∧
        g'.edge? (Edge.of "a" "b" ["x", "y"]).normalize.key.text = some stored ∧
        inserted = false ∧ stored.key ≠ (Edge.of "a" "b" ["x", "y"]).normalize.key := by
  have hsource : (after commaType).vertex? "a" = some (.of "a" "A" []) := by decide +kernel
  have htarget : (after commaType).vertex? "b" = some (.of "b" "B" []) := by decide +kernel
  have hclash : (after commaType).Clashes (Edge.of "a" "b" ["x", "y"]).normalize.key := by
    refine ⟨(Edge.of "a" "b" ["x,y"]).key, ?_, by decide +kernel, by decide +kernel⟩
    exact ⟨Edge.of "a" "b" ["x,y"], by decide +kernel, rfl⟩
  obtain ⟨inserted, g', stored, hadd, hfound, -, hlost, -⟩ :=
    addEdge_identity_after commaType (.of "a" "b" ["x", "y"]) hsource htarget
  obtain ⟨hinserted, -, hkey⟩ := hlost hclash
  exact ⟨hsource, htarget, inserted, g', stored, hadd, hfound, hinserted, hkey⟩

/-- An edge need not be inserted though its two vertices are stored and its key is not. -/
theorem not_inserted_of_other_key :
    ((after commaType).addEdge (.of "a" "b" ["x", "y"])).1 = .ok ⟨"a-[x,y]->b", false⟩ ∧
      ∀ e ∈ (after commaType).allEdges, e.key ≠ (Edge.of "a" "b" ["x", "y"]).normalize.key := by
  decide +kernel

end PatternGraph.Graph
