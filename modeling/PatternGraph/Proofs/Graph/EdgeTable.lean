import PatternGraph.Proofs.Graph.VertexTable

/-!
# Well-formed edge tables

`EdgeTable.WellFormed` states that the columns and the indexes of an edge table agree with its rows,
beside a table of vertices: the ends of an edge are the slots of its two vertices, the edges at a
vertex are listed in the order of the rows, and an edge is registered under the triples that the
types of its ends and its own types give.

Putting an edge in and taking one out keep it. So does a change of the vertices that leaves the ends
of all edges alone.
-/

namespace PatternGraph.EdgeTable

variable {t : EdgeTable} {vertices : VertexTable} {types : TypeTable}

@[simp] theorem get?_empty (slot : Slot) : (∅ : EdgeTable).get? slot = none := by
  change (#[] : Array (Option Edge))[slot]?.join = none
  simp

@[simp] theorem slot?_empty (id : String) : (∅ : EdgeTable).slot? id = none := by
  change (∅ : Std.TreeMap String Slot)[id]? = none
  simp

theorem lt_size_of_get? {slot : Slot} {e : Edge} (h : t.get? slot = some e) :
    slot < t.rows.size := lt_size_of_join_getElem? h

theorem get?_size (t : EdgeTable) : t.get? t.rows.size = none := by simp [get?]

section Insert

variable (t vertices) (edge : Edge) (source target : Slot) (ids : List TypeId)

theorem get?_insert (slot : Slot) :
    (t.insert vertices edge source target ids).get? slot =
      if slot = t.rows.size then some edge else t.get? slot :=
  join_getElem?_push t.rows edge slot

theorem slot?_insert (id : String) :
    (t.insert vertices edge source target ids).slot? id =
      if id = edge.id then some t.rows.size else t.slot? id := by
  simp only [slot?, insert, Std.TreeMap.getElem?_insert, Std.compare_eq_iff_eq,
    eq_comm (a := edge.id)]

end Insert

section Erase

variable {slot : Slot} {edge : Edge} {source target : Slot}

theorem erase_of_none (h : t.get? slot = none) : t.erase vertices slot = t := by
  simp [erase, h]

theorem erase_of_some (h : t.get? slot = some edge) (hends : t.ends? slot = some (source, target)) :
    t.erase vertices slot =
      { rows := t.rows.setIfInBounds slot none
        ends := t.ends
        typeRows := t.typeRows.setIfInBounds slot []
        slots := t.slots.erase edge.id
        outbound := t.outbound.erase source slot
        inbound := t.inbound.erase target slot
        triples :=
          t.triples.erase slot (vertices.typeIds source) (t.typeIds slot) (vertices.typeIds target)
        derived := t.derived.erase slot
        live := t.live.erase slot } := by
  simp only [erase, h, hends]

theorem ends?_erase (t : EdgeTable) (vertices : VertexTable) (slot s : Slot) :
    (t.erase vertices slot).ends? s = t.ends? s := by
  rw [erase]
  split <;> rfl

theorem slot?_erase (h : t.get? slot = some edge) (hends : t.ends? slot = some (source, target))
    (id : String) :
    (t.erase vertices slot).slot? id = if id = edge.id then none else t.slot? id := by
  simp only [erase_of_some h hends, slot?, Std.TreeMap.getElem?_erase, Std.compare_eq_iff_eq,
    eq_comm (a := edge.id)]

end Erase

/-- The slot of the source of the edge at a slot. -/
def source? (t : EdgeTable) (slot : Slot) : Option Slot := (t.ends? slot).map Prod.fst

/-- The slot of the target of the edge at a slot. -/
def target? (t : EdgeTable) (slot : Slot) : Option Slot := (t.ends? slot).map Prod.snd

/-- The ends of an edge are the vertices at two slots. -/
def Joins (vertices : VertexTable) (e : Edge) (ends : Slot × Slot) : Prop :=
  vertices.slot? e.source = some ends.1 ∧ vertices.slot? e.target = some ends.2

/-- The edge at a slot is registered under a triple. -/
def Registered (t : EdgeTable) (vertices : VertexTable) (slot : Slot) (key : TripleKey) : Prop :=
  ∃ source target, (t.get? slot).isSome ∧ t.ends? slot = some (source, target) ∧
    key ∈ TripleIndex.keys (vertices.typeIds source) (t.typeIds slot) (vertices.typeIds target)

/-- The columns and the indexes of the table agree with its rows. -/
structure WellFormed (t : EdgeTable) (vertices : VertexTable) (types : TypeTable) : Prop where
  size_ends : t.ends.size = t.rows.size
  size_typeRows : t.typeRows.size = t.rows.size
  mem_live : ∀ slot, slot ∈ t.live ↔ (t.get? slot).isSome
  indexed : IndexedBy t.slot? t.get? Edge.id
  normalize_eq : ∀ slot e, t.get? slot = some e → e.normalize = e
  map_id? : ∀ slot e, t.get? slot = some e → e.types.names.map types.id? = (t.typeIds slot).map some
  typeIds_eq_nil : ∀ slot, t.get? slot = none → t.typeIds slot = []
  joins : ∀ slot e ends, t.get? slot = some e → t.ends? slot = some ends → Joins vertices e ends
  outbound_eq : ∀ vertex, t.outbound.lookup vertex =
    t.live.toList.filter fun slot => t.source? slot = some vertex
  inbound_eq : ∀ vertex, t.inbound.lookup vertex =
    t.live.toList.filter fun slot => t.target? slot = some vertex
  mem_triples : ∀ slot key, slot ∈ t.triples.lookup key ↔ t.Registered vertices slot key
  tight_triples : t.triples.index.Tight
  mem_derived : ∀ slot, slot ∈ t.derived ↔ ∃ e, t.get? slot = some e ∧ e.isDerived

namespace WellFormed

theorem empty (vertices : VertexTable) (types : TypeTable) :
    (∅ : EdgeTable).WellFormed vertices types where
  size_ends := rfl
  size_typeRows := rfl
  mem_live slot := by
    change slot ∈ (∅ : SlotSet) ↔ _
    simp
  indexed id slot := by simp
  normalize_eq slot e h := absurd h (by simp)
  map_id? slot e h := absurd h (by simp)
  typeIds_eq_nil slot _ := rfl
  joins slot e ends h := absurd h (by simp)
  outbound_eq vertex := by
    change (∅ : Adjacency).lookup vertex = (∅ : SlotSet).toList.filter _
    simp
  inbound_eq vertex := by
    change (∅ : Adjacency).lookup vertex = (∅ : SlotSet).toList.filter _
    simp
  mem_triples slot key := by
    change slot ∈ (∅ : SlotIndex TripleKey TripleKey.order).lookup key ↔ _
    simp [Registered]
  tight_triples := SlotIndex.tight_empty
  mem_derived slot := by
    change slot ∈ (∅ : SlotSet) ↔ _
    simp

theorem of_extends {types' : TypeTable} (h : t.WellFormed vertices types)
    (he : types'.Extends types) : t.WellFormed vertices types' :=
  { h with map_id? := fun slot e hv => he.map_id? (h.map_id? slot e hv) }

theorem lt_size_of_mem_live (h : t.WellFormed vertices types) {slot : Slot} (hs : slot ∈ t.live) :
    slot < t.rows.size := by
  obtain ⟨e, he⟩ := Option.isSome_iff_exists.1 ((h.mem_live slot).1 hs)
  exact lt_size_of_get? he

/-- The ends of an edge are known. -/
theorem exists_ends? (h : t.WellFormed vertices types) {slot : Slot} {e : Edge}
    (he : t.get? slot = some e) :
    ∃ source target, t.ends? slot = some (source, target) ∧
      vertices.slot? e.source = some source ∧ vertices.slot? e.target = some target := by
  have hlt : slot < t.ends.size := h.size_ends ▸ lt_size_of_get? he
  have hends : t.ends? slot = some t.ends[slot] := Array.getElem?_eq_getElem hlt
  exact ⟨_, _, hends, h.joins slot e _ he hends⟩

/-- A change of the vertices that leaves the ends of all edges alone. -/
theorem of_ends {vertices' : VertexTable} (h : t.WellFormed vertices types)
    (hends : ∀ slot e source target, t.get? slot = some e → t.ends? slot = some (source, target) →
      Joins vertices' e (source, target) ∧ vertices'.typeIds source = vertices.typeIds source ∧
        vertices'.typeIds target = vertices.typeIds target) :
    t.WellFormed vertices' types :=
  { h with
    joins := fun slot e ends he hs => (hends slot e ends.1 ends.2 he hs).1
    mem_triples := fun slot key => by
      rw [h.mem_triples]
      refine exists_congr fun source => exists_congr fun target => ?_
      refine and_congr_right fun hlive => and_congr_right fun hs => ?_
      obtain ⟨e, he⟩ := Option.isSome_iff_exists.1 hlive
      obtain ⟨-, hsource, htarget⟩ := hends slot e source target he hs
      rw [hsource, htarget] }

/-! ### Putting an edge in -/

section Insert

variable {edge : Edge} {source target : Slot} {ids : List TypeId}

theorem ends?_insert (h : t.WellFormed vertices types) (edge : Edge) (source target : Slot)
    (ids : List TypeId) (slot : Slot) :
    (t.insert vertices edge source target ids).ends? slot =
      if slot = t.rows.size then some (source, target) else t.ends? slot := by
  rw [← h.size_ends]
  exact Array.getElem?_push

theorem typeIds_insert (h : t.WellFormed vertices types) (edge : Edge) (source target : Slot)
    (ids : List TypeId) (slot : Slot) :
    (t.insert vertices edge source target ids).typeIds slot =
      if slot = t.rows.size then ids else t.typeIds slot := by
  rw [← h.size_typeRows]
  exact getD_getElem?_push t.typeRows ids slot

theorem toList_live_insert (h : t.WellFormed vertices types) (edge : Edge) (source target : Slot)
    (ids : List TypeId) :
    (t.insert vertices edge source target ids).live.toList = t.live.toList ++ [t.rows.size] :=
  SlotSet.toList_insert fun _ hs => h.lt_size_of_mem_live hs

/-- A list of the edges at a vertex, with the new edge at its end if it is one of them. -/
theorem filter_live_insert (h : t.WellFormed vertices types) (edge : Edge) (source target : Slot)
    (ids : List TypeId) (pick : Slot × Slot → Slot) (vertex : Slot) :
    ((t.insert vertices edge source target ids).live.toList.filter fun slot =>
        ((t.insert vertices edge source target ids).ends? slot).map pick = some vertex) =
      (t.live.toList.filter fun slot => (t.ends? slot).map pick = some vertex) ++
        if vertex = pick (source, target) then [t.rows.size] else [] := by
  rw [h.toList_live_insert, List.filter_append]
  congr 1
  · refine List.filter_congr fun slot hslot => ?_
    have hne : slot ≠ t.rows.size :=
      Nat.ne_of_lt (h.lt_size_of_mem_live (SlotSet.mem_toList.1 hslot))
    rw [h.ends?_insert, if_neg hne]
  · rw [List.filter_singleton, h.ends?_insert, if_pos rfl]
    simp [eq_comm (a := vertex)]

/-- Putting in an edge with a new id between two vertices. -/
theorem insert (h : t.WellFormed vertices types) (hnew : t.slot? edge.id = none)
    (hnormal : edge.normalize = edge) (hids : edge.types.names.map types.id? = ids.map some)
    (hjoins : Joins vertices edge (source, target)) :
    (t.insert vertices edge source target ids).WellFormed vertices types where
  size_ends := by simp [EdgeTable.insert, h.size_ends]
  size_typeRows := by simp [EdgeTable.insert, h.size_typeRows]
  mem_live slot := by
    rw [get?_insert]
    change slot ∈ t.live.insert t.rows.size ↔ _
    rw [SlotSet.mem_insert, h.mem_live]
    split <;> simp_all
  indexed := h.indexed.insert (get?_size t) hnew (slot?_insert t vertices edge source target ids)
    (get?_insert t vertices edge source target ids)
  normalize_eq slot e he := by
    rw [get?_insert] at he
    split at he
    · exact Option.some.inj he ▸ hnormal
    · exact h.normalize_eq slot e he
  map_id? slot e he := by
    rw [get?_insert] at he
    rw [h.typeIds_insert]
    split at he
    · next hslot =>
      obtain rfl := Option.some.inj he
      rw [if_pos hslot, hids]
    · next hslot => rw [if_neg hslot, h.map_id? slot e he]
  typeIds_eq_nil slot hn := by
    rw [get?_insert] at hn
    rw [h.typeIds_insert]
    split at hn
    · exact absurd hn nofun
    · next hslot => rw [if_neg hslot, h.typeIds_eq_nil slot hn]
  joins slot e ends he hends := by
    rw [get?_insert] at he
    rw [h.ends?_insert] at hends
    split at he
    · next hslot =>
      rw [if_pos hslot] at hends
      obtain rfl := Option.some.inj he
      obtain rfl := Option.some.inj hends
      exact hjoins
    · next hslot =>
      rw [if_neg hslot] at hends
      exact h.joins slot e ends he hends
  outbound_eq vertex := by
    refine Eq.trans ?_ (h.filter_live_insert edge source target ids Prod.fst vertex).symm
    change (t.outbound.push source t.rows.size).lookup vertex = _
    rw [Adjacency.lookup_push]
    split
    · next e => rw [e, h.outbound_eq source]; rfl
    · rw [List.append_nil, h.outbound_eq vertex]; rfl
  inbound_eq vertex := by
    refine Eq.trans ?_ (h.filter_live_insert edge source target ids Prod.snd vertex).symm
    change (t.inbound.push target t.rows.size).lookup vertex = _
    rw [Adjacency.lookup_push]
    split
    · next e => rw [e, h.inbound_eq target]; rfl
    · rw [List.append_nil, h.inbound_eq vertex]; rfl
  mem_triples slot key := by
    rw [Registered, get?_insert, h.ends?_insert, h.typeIds_insert]
    change slot ∈ (t.triples.insert t.rows.size (vertices.typeIds source) ids
      (vertices.typeIds target)).lookup key ↔ _
    rw [TripleIndex.mem_lookup_insert, h.mem_triples]
    by_cases hslot : slot = t.rows.size
    · simp [hslot, Registered, get?_size]
    · simp [hslot, Registered]
  tight_triples := h.tight_triples.insertAll _ _
  mem_derived slot := by
    rw [get?_insert]
    change slot ∈ (if edge.isDerived then t.derived.insert t.rows.size else t.derived) ↔ _
    by_cases hslot : slot = t.rows.size
    · have hold : slot ∉ t.derived := by
        rw [h.mem_derived, hslot, get?_size]
        simp
      by_cases hd : edge.isDerived <;> simp [hslot, hd]
      exact hslot ▸ hold
    · by_cases hd : edge.isDerived <;> simp [hslot, hd, h.mem_derived]

end Insert

/-! ### Taking an edge out -/

theorem get?_erase (h : t.WellFormed vertices types) (slot s : Slot) :
    (t.erase vertices slot).get? s = if s = slot then none else t.get? s := by
  cases hg : t.get? slot with
  | none =>
    rw [erase_of_none hg]
    split
    · next e => rw [e, hg]
    · rfl
  | some edge =>
    obtain ⟨source, target, hends, -⟩ := h.exists_ends? hg
    rw [erase_of_some hg hends]
    exact join_getElem?_setIfInBounds t.rows slot s

theorem typeIds_erase (h : t.WellFormed vertices types) (slot s : Slot) :
    (t.erase vertices slot).typeIds s = if s = slot then [] else t.typeIds s := by
  cases hg : t.get? slot with
  | none =>
    rw [erase_of_none hg]
    split
    · next e => rw [e, h.typeIds_eq_nil slot hg]
    · rfl
  | some edge =>
    obtain ⟨source, target, hends, -⟩ := h.exists_ends? hg
    rw [erase_of_some hg hends]
    exact getD_getElem?_setIfInBounds t.typeRows slot s

theorem toList_live_erase (h : t.WellFormed vertices types) (slot : Slot) :
    (t.erase vertices slot).live.toList = t.live.toList.filter (· != slot) := by
  cases hg : t.get? slot with
  | none =>
    rw [erase_of_none hg, Eq.comm, List.filter_eq_self]
    intro s hs
    have hlive := (h.mem_live s).1 (SlotSet.mem_toList.1 hs)
    rw [bne_iff_ne]
    rintro rfl
    rw [hg] at hlive
    exact absurd hlive nofun
  | some edge =>
    obtain ⟨source, target, hends, -⟩ := h.exists_ends? hg
    rw [erase_of_some hg hends]
    exact SlotSet.toList_erase t.live slot

/-- The list of the edges at a vertex, without the edge that was taken out. -/
theorem filter_live_erase (h : t.WellFormed vertices types) (slot : Slot) (pick : Slot × Slot → Slot)
    (vertex : Slot) :
    ((t.erase vertices slot).live.toList.filter fun s =>
        ((t.erase vertices slot).ends? s).map pick = some vertex) =
      (t.live.toList.filter fun s => (t.ends? s).map pick = some vertex).filter (· != slot) := by
  simp only [ends?_erase]
  rw [h.toList_live_erase, List.filter_filter, List.filter_filter]
  exact List.filter_congr fun s _ => Bool.and_comm _ _

/-- The edges at another vertex do not have the one that was taken out among them. -/
theorem filter_ne_of_ends {slot : Slot} {ends : Slot × Slot} (hends : t.ends? slot = some ends)
    (pick : Slot × Slot → Slot) {vertex : Slot} (hne : vertex ≠ pick ends) :
    (t.live.toList.filter fun s => (t.ends? s).map pick = some vertex).filter (· != slot) =
      t.live.toList.filter fun s => (t.ends? s).map pick = some vertex := by
  rw [List.filter_eq_self]
  intro s hs
  rw [bne_iff_ne]
  rintro rfl
  have hpick := (List.mem_filter.1 hs).2
  rw [hends, decide_eq_true_eq] at hpick
  exact hne (Option.some.inj hpick).symm

/-- Taking an edge out. -/
theorem erase (h : t.WellFormed vertices types) (slot : Slot) :
    (t.erase vertices slot).WellFormed vertices types := by
  cases hg : t.get? slot with
  | none => exact (erase_of_none hg).symm ▸ h
  | some edge =>
    obtain ⟨source, target, hends, -⟩ := h.exists_ends? hg
    have heq : t.erase vertices slot = _ := erase_of_some hg hends
    refine ⟨?size_ends, ?size_typeRows, fun s => ?mem_live, ?indexed, fun s e he => ?normalize_eq,
      fun s e he => ?map_id?, fun s hn => ?typeIds_eq_nil, fun s e ends he hs => ?joins,
      fun v => ?outbound_eq, fun v => ?inbound_eq, fun s key => ?mem_triples, ?tight_triples,
      fun s => ?mem_derived⟩
    case size_ends => simp [heq, h.size_ends]
    case size_typeRows => simp [heq, h.size_typeRows]
    case mem_live =>
      rw [h.get?_erase, heq, SlotSet.mem_erase, h.mem_live]
      split <;> simp_all
    case indexed => exact h.indexed.erase hg (slot?_erase hg hends) (h.get?_erase slot)
    case normalize_eq =>
      rw [h.get?_erase] at he
      split at he
      · exact absurd he nofun
      · exact h.normalize_eq s e he
    case map_id? =>
      rw [h.get?_erase] at he
      rw [h.typeIds_erase]
      split at he
      · exact absurd he nofun
      · next hne => rw [if_neg hne, h.map_id? s e he]
    case typeIds_eq_nil =>
      rw [h.get?_erase] at hn
      rw [h.typeIds_erase]
      split
      · rfl
      · next hne => exact h.typeIds_eq_nil s (by rwa [if_neg hne] at hn)
    case joins =>
      rw [h.get?_erase] at he
      rw [ends?_erase] at hs
      split at he
      · exact absurd he nofun
      · exact h.joins s e ends he hs
    case outbound_eq =>
      refine Eq.trans ?_ (h.filter_live_erase slot Prod.fst v).symm
      rw [heq, Adjacency.lookup_erase]
      split
      · next e => rw [e, h.outbound_eq source]; rfl
      · next hne => rw [filter_ne_of_ends hends Prod.fst hne, h.outbound_eq v]; rfl
    case inbound_eq =>
      refine Eq.trans ?_ (h.filter_live_erase slot Prod.snd v).symm
      rw [heq, Adjacency.lookup_erase]
      split
      · next e => rw [e, h.inbound_eq target]; rfl
      · next hne => rw [filter_ne_of_ends hends Prod.snd hne, h.inbound_eq v]; rfl
    case mem_triples =>
      rw [Registered, h.get?_erase, ends?_erase, h.typeIds_erase, heq, TripleIndex.mem_lookup_erase,
        h.mem_triples]
      by_cases hs : s = slot
      · subst hs
        refine iff_of_false ?_ ?_
        · rintro ⟨hnot, source', target', -, hends', hkey⟩
          obtain ⟨rfl, rfl⟩ := Prod.mk.inj (Option.some.inj (hends.symm.trans hends'))
          exact hnot ⟨rfl, hkey⟩
        · rintro ⟨_, _, hlive, -⟩
          simp at hlive
      · simp [hs, Registered]
    case tight_triples =>
      rw [heq]
      exact h.tight_triples.eraseAll _ _
    case mem_derived =>
      rw [h.get?_erase, heq, SlotSet.mem_erase, h.mem_derived]
      by_cases hs : s = slot <;> simp [hs]

/-- Taking the lists of a vertex away at which there is no edge. -/
theorem clear (h : t.WellFormed vertices types) {vertex : Slot}
    (hvertex : ∀ slot e source target, t.get? slot = some e → t.ends? slot = some (source, target) →
      source ≠ vertex ∧ target ≠ vertex) : (t.clear vertex).WellFormed vertices types := by
  have hnone : ∀ pick : Slot × Slot → Slot, (∀ ends, pick ends = ends.1 ∨ pick ends = ends.2) →
      (t.live.toList.filter fun s => (t.ends? s).map pick = some vertex) = [] := by
    intro pick hpick
    rw [List.filter_eq_nil_iff]
    intro s hs
    obtain ⟨e, he⟩ := Option.isSome_iff_exists.1 ((h.mem_live s).1 (SlotSet.mem_toList.1 hs))
    obtain ⟨source, target, hends, -⟩ := h.exists_ends? he
    obtain ⟨hsource, htarget⟩ := hvertex s e source target he hends
    rw [hends]
    rcases hpick (source, target) with hp | hp <;> simp [hp, hsource, htarget]
  exact
    { h with
      outbound_eq := fun v => by
        change (t.outbound.clear vertex).lookup v = _
        rw [Adjacency.lookup_clear]
        split
        · next e => exact e ▸ (hnone Prod.fst fun _ => .inl rfl).symm
        · exact h.outbound_eq v
      inbound_eq := fun v => by
        change (t.inbound.clear vertex).lookup v = _
        rw [Adjacency.lookup_clear]
        split
        · next e => exact e ▸ (hnone Prod.snd fun _ => .inr rfl).symm
        · exact h.inbound_eq v }

end WellFormed

end PatternGraph.EdgeTable
