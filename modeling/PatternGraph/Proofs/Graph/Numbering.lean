import Mathlib.Data.List.Induction
import PatternGraph.Proofs.Graph.TypeTable

/-!
# Names are numbered as they are first seen

The table of type names begins empty, and names are put into it one after another, some of them again
and again. `TypeTable.Numbering` says what the table holds then: the different names in the order in
which they first came, each under its place in that order. So the numbers in use are those below the
size of the table, and number and name determine each other.

What the table says once, it says for good: putting in a known name changes nothing, and putting in
further names leaves the numbers and the names that are there.
-/

namespace PatternGraph.TypeTable

/-- What a table holds after some names were put into it one after another, and the numbers that came
out of that. -/
structure Numbering (names : List String) (ids : List TypeId) (t : TypeTable) : Prop where
  /-- The numbers are handed out in the order in which the names are first seen, -/
  order : ∀ id, t.name? id = names.eraseDups[id]?
  /-- without a gap. -/
  numbers : ∀ id, (∃ name, t.name? id = some name) ↔ id < t.size
  /-- The names with a number are those that were put in. -/
  known : ∀ name, (∃ id, t.id? name = some id) ↔ name ∈ names
  /-- Number and name undo each other. -/
  faithful : ∀ name id, t.id? name = some id ↔ t.name? id = some name
  /-- What came out for a name is its number. -/
  given : ids.map some = names.map t.id?
  /-- To put in a known name gives its number and changes nothing. -/
  again : ∀ name id, t.id? name = some id → t.intern name = (id, t)
  /-- A new name gets the next number. -/
  new : ∀ name, name ∉ names → (t.intern name).1 = t.size
  /-- Whatever is put in later, a name keeps its number and a number its name. -/
  lasting : ∀ more name id,
    (t.id? name = some id → (t.internAll more).2.id? name = some id) ∧
      (t.name? id = some name → (t.internAll more).2.name? id = some name)

theorem internAll_append (t : TypeTable) (names more : List String) :
    (t.internAll (names ++ more)).2 = ((t.internAll names).2.internAll more).2 := by
  induction names generalizing t with
  | nil => rfl
  | cons name names ih => exact ih _

/-- The names with a number are those that were put into the empty table. -/
theorem exists_id?_internAll_empty {names : List String} {name : String} :
    (∃ id, ((∅ : TypeTable).internAll names).2.id? name = some id) ↔ name ∈ names := by
  have hempty : ¬ ∃ id, (∅ : TypeTable).id? name = some id := by
    rintro ⟨id, hid⟩
    rw [faithful_empty] at hid
    exact absurd hid nofun
  rw [exists_id?_internAll, or_iff_left hempty]

theorem id?_internAll_of_not_mem {names : List String} {name : String} (h : name ∉ names) :
    ((∅ : TypeTable).internAll names).2.id? name = none :=
  Option.eq_none_iff_forall_ne_some.2 fun id hid => h (exists_id?_internAll_empty.1 ⟨id, hid⟩)

/-- The names stand in the table in the order in which they were first seen. -/
theorem names_internAll (names : List String) :
    ((∅ : TypeTable).internAll names).2.names.toList = names.eraseDups := by
  induction names using List.reverseRecOn with
  | nil => rfl
  | append_singleton names name ih =>
    rw [internAll_append, List.eraseDups_append, ← ih]
    change (((∅ : TypeTable).internAll names).2.intern name).2.names.toList = _
    by_cases hname : name ∈ names
    · obtain ⟨id, hid⟩ := exists_id?_internAll_empty.2 hname
      simp [intern_of_some hid, List.removeAll, hname]
    · simp [intern_of_none (id?_internAll_of_not_mem hname), List.removeAll, hname, List.eraseDups_cons]

/-- What a table that begins empty holds after any names were put into it. -/
theorem numbering_internAll (names : List String) :
    Numbering names ((∅ : TypeTable).internAll names).1 ((∅ : TypeTable).internAll names).2 := by
  have hfaithful : ((∅ : TypeTable).internAll names).2.Faithful := faithful_empty.internAll names
  exact
    { order := fun id => by rw [← names_internAll, Array.getElem?_toList, name?]
      numbers := fun id => by
        rw [← Option.isSome_iff_exists]
        simp [name?, size]
      known := fun _ => exists_id?_internAll_empty
      faithful := hfaithful
      given := (map_id?_internAll _ names).symm
      again := fun _ _ => intern_of_some
      new := fun name hname => by rw [intern_of_none (id?_internAll_of_not_mem hname)]
      lasting := fun more name id => by
        have hkept := extends_internAll ((∅ : TypeTable).internAll names).2 more name id
        refine ⟨hkept, fun hid => ?_⟩
        exact (hfaithful.internAll more name id).1 (hkept ((hfaithful name id).2 hid)) }

end PatternGraph.TypeTable
