import PatternGraph.Graph.Table
import PatternGraph.Proofs.Graph.Index
import PatternGraph.Proofs.Graph.Rows
import PatternGraph.Proofs.Graph.TypeTable
import PatternGraph.Proofs.TypeSet

/-!
# Well-formed vertex tables

A vertex table says several times what its rows say: which slots are occupied, which slot an id has,
which vertices have a type. `VertexTable.WellFormed` states that all of these agree with the rows.
It holds of the empty table, and putting a vertex in and taking one out keep it.
-/

namespace PatternGraph.VertexTable

variable {t : VertexTable} {types : TypeTable}

@[simp] theorem get?_empty (slot : Slot) : (∅ : VertexTable).get? slot = none := by
  change (#[] : Array (Option Vertex))[slot]?.join = none
  simp

@[simp] theorem slot?_empty (id : String) : (∅ : VertexTable).slot? id = none := by
  change (∅ : Std.TreeMap String Slot)[id]? = none
  simp

theorem get?_insert (t : VertexTable) (vertex : Vertex) (ids : List TypeId) (slot : Slot) :
    (t.insert vertex ids).get? slot = if slot = t.rows.size then some vertex else t.get? slot :=
  join_getElem?_push t.rows vertex slot

theorem slot?_insert (t : VertexTable) (vertex : Vertex) (ids : List TypeId) (id : String) :
    (t.insert vertex ids).slot? id =
      if id = vertex.id then some t.rows.size else t.slot? id := by
  simp only [slot?, insert, Std.TreeMap.getElem?_insert, Std.compare_eq_iff_eq,
    eq_comm (a := vertex.id)]

theorem lt_size_of_get? {slot : Slot} {v : Vertex} (h : t.get? slot = some v) :
    slot < t.rows.size := lt_size_of_join_getElem? h

theorem get?_size (t : VertexTable) : t.get? t.rows.size = none := by simp [get?]

theorem erase_of_none {slot : Slot} (h : t.get? slot = none) : t.erase slot = t := by
  simp [erase, h]

theorem erase_of_some {slot : Slot} {vertex : Vertex} (h : t.get? slot = some vertex) :
    t.erase slot =
      { rows := t.rows.setIfInBounds slot none
        typeRows := t.typeRows.setIfInBounds slot []
        slots := t.slots.erase vertex.id
        byType := t.byType.eraseAll (t.typeIds slot) slot
        live := t.live.erase slot } := by
  simp only [erase, h]

theorem get?_erase (t : VertexTable) (slot s : Slot) :
    (t.erase slot).get? s = if s = slot then none else t.get? s := by
  cases h : t.get? slot with
  | none =>
    rw [erase_of_none h]
    split
    · next e => rw [e, h]
    · rfl
  | some vertex =>
    rw [erase_of_some h]
    exact join_getElem?_setIfInBounds t.rows slot s

theorem slot?_erase {slot : Slot} {vertex : Vertex} (h : t.get? slot = some vertex) (id : String) :
    (t.erase slot).slot? id = if id = vertex.id then none else t.slot? id := by
  simp only [erase_of_some h, slot?, Std.TreeMap.getElem?_erase, Std.compare_eq_iff_eq,
    eq_comm (a := vertex.id)]

/-- The columns and the indexes of the table agree with its rows. -/
structure WellFormed (t : VertexTable) (types : TypeTable) : Prop where
  size_typeRows : t.typeRows.size = t.rows.size
  mem_live : ∀ slot, slot ∈ t.live ↔ (t.get? slot).isSome
  indexed : IndexedBy t.slot? t.get? Vertex.id
  normalize_eq : ∀ slot v, t.get? slot = some v → v.normalize = v
  map_id? : ∀ slot v, t.get? slot = some v → v.types.names.map types.id? = (t.typeIds slot).map some
  typeIds_eq_nil : ∀ slot, t.get? slot = none → t.typeIds slot = []
  mem_byType : ∀ slot id, slot ∈ t.byType.lookup id ↔ id ∈ t.typeIds slot
  tight_byType : t.byType.Tight

namespace WellFormed

theorem empty (types : TypeTable) : (∅ : VertexTable).WellFormed types where
  size_typeRows := rfl
  mem_live slot := by
    change slot ∈ (∅ : SlotSet) ↔ _
    simp
  indexed id slot := by simp
  normalize_eq slot v h := absurd h (by simp)
  map_id? slot v h := absurd h (by simp)
  typeIds_eq_nil slot _ := rfl
  mem_byType slot id := by
    change slot ∈ (∅ : SlotIndex TypeId compare).lookup id ↔ id ∈ []
    simp
  tight_byType := SlotIndex.tight_empty

theorem of_extends {types' : TypeTable} (h : t.WellFormed types) (he : types'.Extends types) :
    t.WellFormed types' :=
  { h with map_id? := fun slot v hv => he.map_id? (h.map_id? slot v hv) }

theorem typeIds_insert (h : t.WellFormed types) (vertex : Vertex) (ids : List TypeId) (slot : Slot) :
    (t.insert vertex ids).typeIds slot = if slot = t.rows.size then ids else t.typeIds slot := by
  rw [← h.size_typeRows]
  exact getD_getElem?_push t.typeRows ids slot

theorem typeIds_erase (h : t.WellFormed types) (slot s : Slot) :
    (t.erase slot).typeIds s = if s = slot then [] else t.typeIds s := by
  cases hg : t.get? slot with
  | none =>
    rw [erase_of_none hg]
    split
    · next e => rw [e, h.typeIds_eq_nil slot hg]
    · rfl
  | some vertex =>
    rw [erase_of_some hg]
    exact getD_getElem?_setIfInBounds t.typeRows slot s

/-- Putting in a vertex with a new id. -/
theorem insert (h : t.WellFormed types) {vertex : Vertex} {ids : List TypeId}
    (hnew : t.slot? vertex.id = none) (hnormal : vertex.normalize = vertex)
    (hids : vertex.types.names.map types.id? = ids.map some) :
    (t.insert vertex ids).WellFormed types where
  size_typeRows := by simp [VertexTable.insert, h.size_typeRows]
  mem_live slot := by
    rw [get?_insert]
    change slot ∈ t.live.insert t.rows.size ↔ _
    rw [SlotSet.mem_insert, h.mem_live]
    split <;> simp_all
  indexed :=
    h.indexed.insert (get?_size t) hnew (slot?_insert t vertex ids) (get?_insert t vertex ids)
  normalize_eq slot v hv := by
    rw [get?_insert] at hv
    split at hv
    · exact Option.some.inj hv ▸ hnormal
    · exact h.normalize_eq slot v hv
  map_id? slot v hv := by
    rw [get?_insert] at hv
    rw [h.typeIds_insert]
    split at hv
    · next hslot =>
      obtain rfl := Option.some.inj hv
      rw [if_pos hslot, hids]
    · next hslot => rw [if_neg hslot, h.map_id? slot v hv]
  typeIds_eq_nil slot hn := by
    rw [get?_insert] at hn
    rw [h.typeIds_insert]
    split at hn
    · exact absurd hn nofun
    · next hslot => rw [if_neg hslot, h.typeIds_eq_nil slot hn]
  mem_byType slot id := by
    rw [h.typeIds_insert]
    change slot ∈ (t.byType.insertAll ids t.rows.size).lookup id ↔ _
    rw [SlotIndex.mem_lookup_insertAll, h.mem_byType]
    split
    · next hslot => simp [hslot, h.typeIds_eq_nil _ (get?_size t)]
    · next hslot => simp [hslot]
  tight_byType := h.tight_byType.insertAll ids _

/-- Taking a vertex out. -/
theorem erase (h : t.WellFormed types) (slot : Slot) : (t.erase slot).WellFormed types := by
  cases hg : t.get? slot with
  | none => exact (erase_of_none hg).symm ▸ h
  | some vertex =>
    refine ⟨?size_typeRows, fun s => ?mem_live, ?indexed, fun s v hv => ?normalize_eq,
      fun s v hv => ?map_id?, fun s hn => ?typeIds_eq_nil, fun s id => ?mem_byType, ?tight_byType⟩
    case size_typeRows => simp [erase_of_some hg, h.size_typeRows]
    case mem_live =>
      rw [get?_erase, erase_of_some hg, SlotSet.mem_erase, h.mem_live]
      split <;> simp_all
    case indexed => exact h.indexed.erase hg (slot?_erase hg) (get?_erase t slot)
    case normalize_eq =>
      rw [get?_erase] at hv
      split at hv
      · exact absurd hv nofun
      · exact h.normalize_eq s v hv
    case map_id? =>
      rw [get?_erase] at hv
      rw [h.typeIds_erase]
      split at hv
      · exact absurd hv nofun
      · next hne => rw [if_neg hne, h.map_id? s v hv]
    case typeIds_eq_nil =>
      rw [get?_erase] at hn
      rw [h.typeIds_erase]
      split
      · rfl
      · next hne => exact h.typeIds_eq_nil s (by rwa [if_neg hne] at hn)
    case mem_byType =>
      rw [h.typeIds_erase, erase_of_some hg, SlotIndex.mem_lookup_eraseAll, h.mem_byType]
      split
      · next e => simp [e]
      · next hne => simp [hne]
    case tight_byType =>
      rw [erase_of_some hg]
      exact h.tight_byType.eraseAll _ _

/-- The slot of an id stays what it is when another vertex is taken out. -/
theorem slot?_erase_of_ne (h : t.WellFormed types) {id : String} {slot s : Slot}
    (hs : t.slot? id = some s) (hne : s ≠ slot) : (t.erase slot).slot? id = some s := by
  obtain ⟨v, hv, rfl⟩ := h.indexed.exists_get? hs
  refine (h.erase slot).indexed.slot?_of_get? ?_
  rw [get?_erase, if_neg hne, hv]

end WellFormed

end PatternGraph.VertexTable
