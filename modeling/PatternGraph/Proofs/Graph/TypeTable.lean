import PatternGraph.Graph.TypeTable

/-!
# The numbers of type names

A type table is *faithful* if the number of a name and the name of a number undo each other. Putting
names into the table keeps it so, and keeps the number of every name that was there: the table only
grows.
-/

namespace PatternGraph.TypeTable

/-- The number of a name and the name of a number undo each other. -/
def Faithful (t : TypeTable) : Prop :=
  ∀ (name : String) (id : TypeId), t.id? name = some id ↔ t.name? id = some name

/-- Every name of a table has the same number in another. -/
def Extends (t' t : TypeTable) : Prop :=
  ∀ (name : String) (id : TypeId), t.id? name = some id → t'.id? name = some id

theorem Extends.refl (t : TypeTable) : t.Extends t := fun _ _ h => h

theorem Extends.trans {t t' t'' : TypeTable} (h' : t''.Extends t') (h : t'.Extends t) :
    t''.Extends t := fun name id hid => h' name id (h name id hid)

theorem faithful_empty : (∅ : TypeTable).Faithful := by
  intro name id
  change (∅ : Std.TreeMap String TypeId)[name]? = some id ↔ (#[] : Array String)[id]? = some name
  simp

theorem intern_of_some {t : TypeTable} {name : String} {id : TypeId} (h : t.id? name = some id) :
    t.intern name = (id, t) := by
  simp [intern, h]

theorem intern_of_none {t : TypeTable} {name : String} (h : t.id? name = none) :
    t.intern name = (t.size, ⟨t.ids.insert name t.size, t.names.push name⟩) := by
  simp [intern, h]

theorem id?_intern (t : TypeTable) (name other : String) :
    (t.intern name).2.id? other =
      if other = name then some (t.intern name).1 else t.id? other := by
  cases h : t.id? name with
  | some id =>
    rw [intern_of_some h]
    split
    · next e => rw [e, h]
    · rfl
  | none =>
    rw [intern_of_none h]
    simp only [id?, Std.TreeMap.getElem?_insert, Std.compare_eq_iff_eq, eq_comm (a := name)]

theorem extends_intern (t : TypeTable) (name : String) : (t.intern name).2.Extends t := by
  intro other id hid
  rw [id?_intern]
  split
  · next e =>
    subst e
    rw [intern_of_some hid]
  · exact hid

theorem Faithful.intern {t : TypeTable} (h : t.Faithful) (name : String) :
    (t.intern name).2.Faithful := by
  cases hn : t.id? name with
  | some id =>
    rw [intern_of_some hn]
    exact h
  | none =>
    intro other id
    rw [id?_intern, intern_of_none hn]
    simp only [name?, Array.getElem?_push, size]
    -- the new name is the only one with the new number, and it had none before
    by_cases ho : other = name
    · subst ho
      have hother : t.names[id]? ≠ some other := by
        intro e
        rw [(h other id).2 e] at hn
        exact absurd hn nofun
      by_cases hid : id = t.names.size
      · simp [hid]
      · simp [hid, hother, Ne.symm hid]
    · rw [if_neg ho, h other id, name?]
      by_cases hid : id = t.names.size
      · simp [hid, Ne.symm ho]
      · simp [hid]

theorem internAll_cons (t : TypeTable) (name : String) (names : List String) :
    t.internAll (name :: names) =
      ((t.intern name).1 :: ((t.intern name).2.internAll names).1,
        ((t.intern name).2.internAll names).2) := rfl

theorem extends_internAll (t : TypeTable) (names : List String) :
    (t.internAll names).2.Extends t := by
  induction names generalizing t with
  | nil => exact .refl t
  | cons name names ih => exact (ih _).trans (extends_intern t name)

theorem Faithful.internAll {t : TypeTable} (h : t.Faithful) (names : List String) :
    (t.internAll names).2.Faithful := by
  induction names generalizing t with
  | nil => exact h
  | cons name names ih => exact ih (h.intern name)

/-- The numbers that come out are those of the names. -/
theorem map_id?_internAll (t : TypeTable) (names : List String) :
    names.map (t.internAll names).2.id? = (t.internAll names).1.map some := by
  induction names generalizing t with
  | nil => rfl
  | cons name names ih =>
    rw [internAll_cons, List.map_cons, List.map_cons, ih]
    have hname : (t.intern name).2.id? name = some (t.intern name).1 := by
      rw [id?_intern, if_pos rfl]
    rw [extends_internAll _ names name _ hname]

/-- A larger table has the same numbers for names that all had one. -/
theorem Extends.map_id? {t t' : TypeTable} (h : t'.Extends t) {names : List String}
    {ids : List TypeId} (hids : names.map t.id? = ids.map some) :
    names.map t'.id? = ids.map some := by
  rw [← hids]
  refine List.map_congr_left fun name hname => ?_
  have hmem : t.id? name ∈ ids.map some := hids ▸ List.mem_map_of_mem hname
  obtain ⟨id, -, hid⟩ := List.mem_map.1 hmem
  rw [← hid]
  exact h name id hid.symm

theorem exists_id?_of_map {t : TypeTable} {names : List String} {ids : List TypeId}
    (hids : names.map t.id? = ids.map some) {name : String} (hname : name ∈ names) :
    ∃ id, t.id? name = some id := by
  have hmem : t.id? name ∈ ids.map some := hids ▸ List.mem_map_of_mem hname
  obtain ⟨id, -, hid⟩ := List.mem_map.1 hmem
  exact ⟨id, hid.symm⟩

/-- Among the numbers of some names are those of the names, and no others. -/
theorem mem_ids_iff {t : TypeTable} {names : List String} {ids : List TypeId}
    (hids : names.map t.id? = ids.map some) {id : TypeId} :
    id ∈ ids ↔ ∃ name ∈ names, t.id? name = some id := by
  have h : some id ∈ ids.map some ↔ id ∈ ids := by simp
  rw [← h, ← hids, List.mem_map]

/-- A name has a number after some names were put in if it is one of them, or if it had one. -/
theorem exists_id?_internAll {t : TypeTable} {names : List String} {other : String} :
    (∃ id, (t.internAll names).2.id? other = some id) ↔
      other ∈ names ∨ ∃ id, t.id? other = some id := by
  induction names generalizing t with
  | nil => simp [internAll]
  | cons name names ih =>
    have hone : (∃ id, (t.intern name).2.id? other = some id) ↔
        other = name ∨ ∃ id, t.id? other = some id := by
      rw [id?_intern]
      split
      · next e => exact iff_of_true ⟨_, rfl⟩ (.inl e)
      · next e => exact (or_iff_right e).symm
    rw [internAll_cons, ih, hone, List.mem_cons, ← or_assoc, or_comm (a := other ∈ names)]

/-- The names that a faithful table holds are those with a number. -/
theorem Faithful.mem_names {t : TypeTable} (h : t.Faithful) {name : String} :
    name ∈ t.names ↔ ∃ id, t.id? name = some id := by
  simp only [h name, name?, Array.mem_iff_getElem?]

/-- A faithful table holds no name twice. -/
theorem Faithful.nodup_names {t : TypeTable} (h : t.Faithful) : t.names.toList.Nodup := by
  refine List.pairwise_iff_getElem.2 fun i j hi hj hlt heq => ?_
  -- the name at a place has the place as its number
  have hplace : ∀ k (hk : k < t.names.toList.length), t.id? t.names.toList[k] = some k := by
    intro k hk
    rw [h, name?, ← Array.getElem?_toList, List.getElem?_eq_getElem hk]
  have hnumber := hplace i hi
  rw [heq, hplace j hj] at hnumber
  have := Option.some.inj hnumber
  omega

theorem mem_known {t : TypeTable} {names : List String} {id : TypeId} :
    id ∈ t.known names ↔ ∃ name ∈ names, t.id? name = some id := by
  simp [known]

end PatternGraph.TypeTable
