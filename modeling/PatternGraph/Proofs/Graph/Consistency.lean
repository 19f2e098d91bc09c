import PatternGraph.Proofs.Graph.Stored

/-!
# Consistency

What it means that a graph is consistent, said with the names of types instead of their numbers and
with the ids of vertices instead of their slots: `Graph.Consistent` has one field for each column and
each index of the two tables. `consistent_after` says that every graph of a history is consistent,
whatever operations it went through and whichever of them were refused.
-/

namespace PatternGraph

/-- A place of a triple is open, or filled with the number of a type of the set. -/
def TypeTable.Fits (types : TypeTable) (place : Option TypeId) (ts : TypeSet) : Prop :=
  ∀ id ∈ place, ∃ name ∈ ts, types.id? name = some id

theorem TypeTable.fits_iff {types : TypeTable} {ts : TypeSet} {ids : List TypeId}
    (hids : ts.names.map types.id? = ids.map some) {place : Option TypeId} :
    types.Fits place ts ↔ ∀ id ∈ place, id ∈ ids :=
  forall₂_congr fun _ _ => (TypeTable.mem_ids_iff hids).symm

namespace Graph

variable {g : Graph}

/-- The columns and the indexes of a graph say what its rows say. -/
structure Consistent (g : Graph) : Prop where
  /-- The columns of each table have one length, so a row that is read in one is read in all. -/
  columns : g.vertices.typeRows.size = g.vertices.rows.size ∧
    g.edges.ends.size = g.edges.rows.size ∧ g.edges.typeRows.size = g.edges.rows.size
  /-- The occupied slots are those of the vertices, -/
  vertex_live : ∀ slot, slot ∈ g.vertices.live ↔ ∃ v, g.vertices.get? slot = some v
  /-- and those of the edges. -/
  edge_live : ∀ slot, slot ∈ g.edges.live ↔ ∃ e, g.edges.get? slot = some e
  /-- The ids that are looked up are those of the vertices, -/
  vertex_ids : ∀ id slot, g.vertices.slot? id = some slot ↔
    ∃ v, g.vertices.get? slot = some v ∧ v.id = id
  /-- and those of the edges. -/
  edge_ids : ∀ id slot, g.edges.slot? id = some slot ↔
    ∃ e, g.edges.get? slot = some e ∧ e.id = id
  /-- A number stands for one type name, -/
  numbers : g.types.Faithful
  /-- and every type of a vertex or of an edge has a number. -/
  numbered : (∀ slot v, g.vertices.get? slot = some v → ∀ name ∈ v.types, (g.types.id? name).isSome) ∧
    ∀ slot e, g.edges.get? slot = some e → ∀ name ∈ e.types, (g.types.id? name).isSome
  /-- Under a type are the vertices that have it. -/
  by_type : ∀ slot id, slot ∈ g.vertices.byType.lookup id ↔
    ∃ v name, g.vertices.get? slot = some v ∧ name ∈ v.types ∧ g.types.id? name = some id
  /-- No type is kept without a vertex. -/
  by_type_tight : g.vertices.byType.Tight
  /-- The ends of an edge are the slots of its two vertices. -/
  ends : ∀ slot e, g.edges.get? slot = some e → ∃ source target v w,
    g.edges.ends? slot = some (source, target) ∧ g.vertices.get? source = some v ∧ v.id = e.source ∧
      g.vertices.get? target = some w ∧ w.id = e.target
  /-- The id of an edge spells its key, whose types are normalized. -/
  edge_id : ∀ slot e, g.edges.get? slot = some e →
    e.types = .normalized e.types.names ∧ e.id = EdgeKey.text ⟨e.source, e.types, e.target⟩
  /-- Listed at a vertex are the edges that leave it, in the order of the rows, -/
  outbound : ∀ slot, g.edges.outbound.lookup slot = g.edges.live.toList.filter fun s =>
    ((g.edges.get? s).bind fun e => g.vertices.slot? e.source) = some slot
  /-- and those that enter it. -/
  inbound : ∀ slot, g.edges.inbound.lookup slot = g.edges.live.toList.filter fun s =>
    ((g.edges.get? s).bind fun e => g.vertices.slot? e.target) = some slot
  /-- Under a triple are the edges whose types and whose ends' types it fits. -/
  triples : ∀ slot key, slot ∈ g.edges.triples.lookup key ↔ ∃ e v w, g.edges.get? slot = some e ∧
    g.vertex? e.source = some v ∧ g.vertex? e.target = some w ∧ g.types.Fits key.source v.types ∧
      g.types.Fits key.edge e.types ∧ g.types.Fits key.target w.types
  /-- No triple is kept without an edge. -/
  triples_tight : g.edges.triples.index.Tight
  /-- The derived edges are those with a derivation. -/
  derived : ∀ slot, slot ∈ g.edges.derived ↔ ∃ e, g.edges.get? slot = some e ∧ e.derivation ≠ []
  /-- A row that is occupied is inside of every column. -/
  in_bounds : (∀ slot v, g.vertices.get? slot = some v → slot < g.vertices.typeRows.size) ∧
    ∀ slot e, g.edges.get? slot = some e → slot < g.edges.ends.size ∧ slot < g.edges.typeRows.size

/-! ### From well-formed to consistent -/

namespace WellFormed

theorem mem_byType (h : g.WellFormed) (slot : Slot) (id : TypeId) :
    slot ∈ g.vertices.byType.lookup id ↔
      ∃ v name, g.vertices.get? slot = some v ∧ name ∈ v.types ∧ g.types.id? name = some id := by
  rw [h.vertices.mem_byType]
  constructor
  · intro hid
    cases hv : g.vertices.get? slot with
    | none =>
      rw [h.vertices.typeIds_eq_nil slot hv] at hid
      exact absurd hid List.not_mem_nil
    | some v =>
      obtain ⟨name, hname, hnumber⟩ := (TypeTable.mem_ids_iff (h.vertices.map_id? slot v hv)).1 hid
      exact ⟨v, name, rfl, hname, hnumber⟩
  · rintro ⟨v, name, hv, hname, hnumber⟩
    exact (TypeTable.mem_ids_iff (h.vertices.map_id? slot v hv)).2 ⟨name, hname, hnumber⟩

/-- The edges at a vertex, by the id that an edge holds for that end. -/
theorem filter_live_ends (h : g.WellFormed) (pick : Slot × Slot → Slot) (name : Edge → String)
    (hpick : ∀ e ends, EdgeTable.Joins g.vertices e ends →
      g.vertices.slot? (name e) = some (pick ends)) (vertex : Slot) :
    (g.edges.live.toList.filter fun s => (g.edges.ends? s).map pick = some vertex) =
      g.edges.live.toList.filter fun s =>
        ((g.edges.get? s).bind fun e => g.vertices.slot? (name e)) = some vertex := by
  refine List.filter_congr fun s hs => ?_
  obtain ⟨e, he⟩ := Option.isSome_iff_exists.1 ((h.edges.mem_live s).1 (SlotSet.mem_toList.1 hs))
  obtain ⟨source, target, hends, hjoins⟩ := h.edges.exists_ends? he
  rw [hends, he, Option.map_some, Option.bind_some, hpick e (source, target) hjoins]

theorem mem_triples (h : g.WellFormed) (slot : Slot) (key : TripleKey) :
    slot ∈ g.edges.triples.lookup key ↔ ∃ e v w, g.edges.get? slot = some e ∧
      g.vertex? e.source = some v ∧ g.vertex? e.target = some w ∧ g.types.Fits key.source v.types ∧
        g.types.Fits key.edge e.types ∧ g.types.Fits key.target w.types := by
  have hkeys : ∀ {e v w source target}, g.edges.get? slot = some e →
      g.vertices.get? source = some v → g.vertices.get? target = some w →
      (key ∈ TripleIndex.keys (g.vertices.typeIds source) (g.edges.typeIds slot)
          (g.vertices.typeIds target) ↔
        g.types.Fits key.source v.types ∧ g.types.Fits key.edge e.types ∧
          g.types.Fits key.target w.types) := by
    intro e v w source target he hv hw
    rw [TripleIndex.mem_keys, TypeTable.fits_iff (h.vertices.map_id? source v hv),
      TypeTable.fits_iff (h.edges.map_id? slot e he),
      TypeTable.fits_iff (h.vertices.map_id? target w hw)]
  rw [h.edges.mem_triples]
  constructor
  · rintro ⟨source, target, hlive, hends, hkey⟩
    obtain ⟨e, he⟩ := Option.isSome_iff_exists.1 hlive
    obtain ⟨hsource, htarget⟩ := h.edges.joins slot e _ he hends
    obtain ⟨v, hv, -, hvertex⟩ := h.vertex?_of_slot? hsource
    obtain ⟨w, hw, -, hwertex⟩ := h.vertex?_of_slot? htarget
    exact ⟨e, v, w, he, hvertex, hwertex, (hkeys he hv hw).1 hkey⟩
  · rintro ⟨e, v, w, he, hvertex, hwertex, hfits⟩
    obtain ⟨source, target, hends, hsource, htarget⟩ := h.edges.exists_ends? he
    obtain ⟨s, hs, hv⟩ := vertex?_eq_some.1 hvertex
    obtain rfl := Option.some.inj (hsource.symm.trans hs)
    obtain ⟨t, ht, hw⟩ := vertex?_eq_some.1 hwertex
    obtain rfl := Option.some.inj (htarget.symm.trans ht)
    exact ⟨source, target, by rw [he]; rfl, hends, (hkeys he hv hw).2 hfits⟩

theorem consistent (h : g.WellFormed) : g.Consistent where
  columns := ⟨h.vertices.size_typeRows, h.edges.size_ends, h.edges.size_typeRows⟩
  vertex_live slot := by rw [h.vertices.mem_live, Option.isSome_iff_exists]
  edge_live slot := by rw [h.edges.mem_live, Option.isSome_iff_exists]
  vertex_ids := h.vertices.indexed
  edge_ids := h.edges.indexed
  numbers := h.types
  numbered :=
    ⟨fun slot v hv _ hname =>
        Option.isSome_iff_exists.2 (TypeTable.exists_id?_of_map (h.vertices.map_id? slot v hv) hname),
      fun slot e he _ hname =>
        Option.isSome_iff_exists.2 (TypeTable.exists_id?_of_map (h.edges.map_id? slot e he) hname)⟩
  by_type := h.mem_byType
  by_type_tight := h.vertices.tight_byType
  ends slot e he := by
    obtain ⟨source, target, hends, hsource, htarget⟩ := h.edges.exists_ends? he
    obtain ⟨v, hv, hid, -⟩ := h.vertex?_of_slot? hsource
    obtain ⟨w, hw, hid', -⟩ := h.vertex?_of_slot? htarget
    exact ⟨source, target, v, w, hends, hv, hid, hw, hid'⟩
  edge_id slot e he :=
    ⟨(Edge.types_of_normalize_eq (h.edges.normalize_eq slot e he)).symm,
      Edge.id_eq_text_of_normalize_eq (h.edges.normalize_eq slot e he)⟩
  outbound slot :=
    (h.edges.outbound_eq slot).trans
      (h.filter_live_ends Prod.fst Edge.source (fun _ _ hj => hj.1) slot)
  inbound slot :=
    (h.edges.inbound_eq slot).trans
      (h.filter_live_ends Prod.snd Edge.target (fun _ _ hj => hj.2) slot)
  triples := h.mem_triples
  triples_tight := h.edges.tight_triples
  derived slot := by
    simp only [h.edges.mem_derived, Edge.isDerived, Bool.not_eq_true', List.isEmpty_eq_false_iff]
  in_bounds := by
    rw [h.vertices.size_typeRows, h.edges.size_ends, h.edges.size_typeRows]
    exact ⟨fun _ _ hv => VertexTable.lt_size_of_get? hv,
      fun _ _ he => ⟨EdgeTable.lt_size_of_get? he, EdgeTable.lt_size_of_get? he⟩⟩

end WellFormed

/-- Every graph of a history is consistent. -/
theorem consistent_after (changes : List Change) : (after changes).Consistent :=
  (wellFormed_after changes).consistent

end Graph

end PatternGraph
