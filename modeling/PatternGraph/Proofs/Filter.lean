import Mathlib.Data.List.Infix
import PatternGraph.Filter
import PatternGraph.Proofs.TypeSet

/-!
# What filters ask for

`VertexFilter.Satisfied` and `EdgeFilter.Satisfied` say what a filter asks for in terms of the vertex
or the edge alone, without the tests that the store computes from a filter. The two can be decided,
and the tests agree with them.

Type names are compared as the store reads them, and a list of which nothing is left asks for
nothing. Letter case does not matter in a name, but white space does: only type names are trimmed.
-/

namespace PatternGraph

/-- The type names that a list asks for, as the store reads them. -/
def askedNames (types : Option (List String)) : List String :=
  TypeSet.normalizeNames (types.getD [])

/-- A set without members asks for no names, as no set does. -/
theorem askedNames_of_isEmpty (ts : TypeSet) :
    askedNames (if ts.isEmpty then none else some ts.names) = askedNames (some ts.names) := by
  split
  · next h =>
    rw [List.isEmpty_iff.1 h]
    rfl
  · rfl

theorem wantedTypes_eq_some {types : Option (List String)} {wanted : List String} :
    wantedTypes types = some wanted ↔
      askedNames types = wanted ∧ wanted ≠ [] := by
  rw [wantedTypes, ← askedNames]
  split
  · next h => simp [h, eq_comm]
  · next names h =>
    constructor
    · intro e
      obtain rfl := Option.some.inj e
      exact ⟨rfl, h⟩
    · rintro ⟨rfl, -⟩
      rfl

theorem wantedTypes_eq_none {types : Option (List String)} :
    wantedTypes types = none ↔ askedNames types = [] := by
  rw [wantedTypes, ← askedNames]
  split
  · next h => exact iff_of_true rfl h
  · next names h => exact iff_of_false nofun h

/-- A test that is asked for only if types are. -/
theorem all_wantedTypes {types : Option (List String)} {p : List String → Bool} :
    (wantedTypes types).all p = true ↔
      (askedNames types ≠ [] → p (askedNames types) = true) := by
  cases h : wantedTypes types with
  | none => simp [wantedTypes_eq_none.1 h]
  | some wanted =>
    obtain ⟨rfl, hne⟩ := wantedTypes_eq_some.1 h
    simp [hne]

namespace VertexFilter

/-- A vertex is what a filter asks for. -/
structure Satisfied (f : VertexFilter) (v : Vertex) : Prop where
  /-- If ids are given, the vertex has one of them. -/
  ids : ∀ ids ∈ f.ids, v.id ∈ ids
  /-- If types are asked for, the vertex has one of them. -/
  types : askedNames f.types ≠ [] → ∃ name ∈ askedNames f.types, name ∈ v.types
  /-- If a text is given, it stands in the name of the vertex, letter case aside. -/
  name : ∀ term ∈ f.searchTerm, (Text.lowercase term).toList <:+: (Text.lowercase v.name).toList

instance (f : VertexFilter) (v : Vertex) : Decidable (f.Satisfied v) :=
  decidable_of_iff
    ((∀ ids ∈ f.ids, v.id ∈ ids) ∧
      (askedNames f.types ≠ [] → ∃ name ∈ askedNames f.types, name ∈ v.types) ∧
      ∀ term ∈ f.searchTerm, (Text.lowercase term).toList <:+: (Text.lowercase v.name).toList)
    ⟨fun ⟨ids, types, name⟩ => ⟨ids, types, name⟩, fun h => ⟨h.ids, h.types, h.name⟩⟩

theorem all_wantedName {f : VertexFilter} {v : Vertex} :
    (f.wantedName.all fun name => Text.holds (Text.lowercase v.name) name) = true ↔
      ∀ term ∈ f.searchTerm, (Text.lowercase term).toList <:+: (Text.lowercase v.name).toList := by
  rw [wantedName]
  cases f.searchTerm with
  | none => simp
  | some term =>
    by_cases hterm : Text.lowercase term = ""
    · simp [hterm]
    · simp [hterm, Text.holds, Text.holdsChars_iff]

/-- The test of a filter asks for all that the filter asks for beside the ids. -/
theorem satisfied_iff {f : VertexFilter} {v : Vertex} :
    f.Satisfied v ↔ (∀ ids ∈ f.ids, v.id ∈ ids) ∧ (VertexTest.of f).admits v = true := by
  have htest : (VertexTest.of f).admits v = true ↔
      (askedNames f.types ≠ [] → ∃ name ∈ askedNames f.types, name ∈ v.types) ∧
      ∀ term ∈ f.searchTerm, (Text.lowercase term).toList <:+: (Text.lowercase v.name).toList := by
    rw [← all_wantedName, VertexTest.admits, Bool.and_eq_true]
    refine and_congr_left fun _ => ?_
    simp only [VertexTest.of, VertexFilter.wantedTypes, all_wantedTypes, TypeSet.meets_iff]
  rw [htest]
  exact ⟨fun h => ⟨h.ids, h.types, h.name⟩, fun ⟨ids, types, name⟩ => ⟨ids, types, name⟩⟩

/-- A filter that asks for nothing is satisfied by every vertex. -/
theorem satisfied_of_isEmpty {f : VertexFilter} (h : f.isEmpty = true) (v : Vertex) :
    f.Satisfied v := by
  simp only [isEmpty, Bool.and_eq_true, Option.isNone_iff_eq_none] at h
  obtain ⟨⟨hids, htypes⟩, hname⟩ := h
  refine ⟨fun ids hmem => ?_, fun hne => absurd (wantedTypes_eq_none.1 htypes) hne,
    all_wantedName.1 (by rw [hname]; rfl)⟩
  rw [hids] at hmem
  exact absurd hmem nofun

end VertexFilter

/-- Whether an edge is in a scope, by its derivation. -/
def EdgeScope.Covers : EdgeScope → Edge → Prop
  | all, _ => True
  | assertedOnly, e => e.derivation = []
  | derivedOnly, e => e.derivation ≠ []
  | unrecognized _, _ => False

instance (s : EdgeScope) (e : Edge) : Decidable (s.Covers e) :=
  match s with
  | .all => inferInstanceAs (Decidable True)
  | .assertedOnly => inferInstanceAs (Decidable (e.derivation = []))
  | .derivedOnly => inferInstanceAs (Decidable (e.derivation ≠ []))
  | .unrecognized _ => inferInstanceAs (Decidable False)

theorem EdgeScope.admits_iff {s : EdgeScope} {e : Edge} :
    s.admits e.isDerived = true ↔ s.Covers e := by
  cases s <;> simp [admits, Covers, Edge.isDerived]

namespace EdgeFilter

/-- An edge is what a filter asks for. -/
structure Satisfied (f : EdgeFilter) (e : Edge) : Prop where
  scope : f.scope.Covers e
  /-- If types are asked for, the edge has one of them, or none if the filter is negated. -/
  types : askedNames f.types ≠ [] →
    if f.negated then ∀ name ∈ askedNames f.types, name ∉ e.types
    else ∃ name ∈ askedNames f.types, name ∈ e.types

instance (f : EdgeFilter) (e : Edge) : Decidable (f.Satisfied e) :=
  decidable_of_iff
    (f.scope.Covers e ∧ (askedNames f.types ≠ [] →
      if f.negated then ∀ name ∈ askedNames f.types, name ∉ e.types
      else ∃ name ∈ askedNames f.types, name ∈ e.types))
    ⟨fun ⟨scope, types⟩ => ⟨scope, types⟩, fun h => ⟨h.scope, h.types⟩⟩

/-- The test of a filter asks for what the filter asks for. -/
theorem satisfied_iff {f : EdgeFilter} {e : Edge} :
    f.Satisfied e ↔ (EdgeTest.of f).admits e.isDerived e.types = true := by
  have htypes : ∀ wanted : List String, (e.types.meets wanted != f.negated) = true ↔
      if f.negated then ∀ name ∈ wanted, name ∉ e.types else ∃ name ∈ wanted, name ∈ e.types := by
    intro wanted
    cases f.negated <;> simp [TypeSet.meets]
  rw [EdgeTest.admits, Bool.and_eq_true]
  simp only [EdgeTest.of, EdgeScope.admits_iff, all_wantedTypes, htypes]
  exact ⟨fun h => ⟨h.scope, h.types⟩, fun ⟨scope, types⟩ => ⟨scope, types⟩⟩

end EdgeFilter

end PatternGraph
