import PatternGraph.Edge.Basic
import PatternGraph.Proofs.Text.Lowercase
import PatternGraph.Vertex

/-!
# Normalized sets of type names

A set of type names is determined by its members, so reading a normalized set of names once more
gives the same set. What the store keeps is therefore left alone when it is put in again: a
normalized vertex and a normalized edge are their own normal forms.
-/

namespace PatternGraph

namespace TypeSet

theorem nodup_names (ts : TypeSet) : ts.names.Nodup := by
  change ts.names.Pairwise (· ≠ ·)
  refine ts.ascending.imp fun {a b} h => ?_
  rintro rfl
  exact String.lt_irrefl a h

@[ext] theorem ext {a b : TypeSet} (h : ∀ s, s ∈ a ↔ s ∈ b) : a = b := by
  have hperm : a.names.Perm b.names := (List.perm_ext_iff_of_nodup a.nodup_names b.nodup_names).2 h
  have hnames : a.names = b.names :=
    hperm.eq_of_pairwise (fun x y _ _ hxy hyx => absurd (String.lt_trans hxy hyx) (String.lt_irrefl x))
      a.ascending b.ascending
  obtain ⟨a, ha⟩ := a
  obtain ⟨b, hb⟩ := b
  obtain rfl : a = b := hnames
  rfl

@[simp] theorem ofList_names (ts : TypeSet) : ofList ts.names = ts := by
  ext s
  exact mem_ofList

theorem mem_normalizeNames {s : String} {names : List String} :
    s ∈ normalizeNames names ↔ s ≠ "" ∧ ∃ name ∈ names, normalizeName name = s := by
  rw [normalizeNames, List.mem_filter, List.mem_map, decide_eq_true_eq, and_comm]

theorem mem_normalized {s : String} {names : List String} :
    s ∈ normalized names ↔ s ≠ "" ∧ ∃ name ∈ names, normalizeName name = s := by
  rw [normalized, mem_ofList, mem_normalizeNames]

@[simp] theorem normalizeName_normalizeName (s : String) :
    normalizeName (normalizeName s) = normalizeName s := by
  rw [normalizeName, normalizeName, Text.trim_lowercase_trim, Text.lowercase_lowercase]

/-- Names that are read as they stand, and of which something is left, are all kept. -/
theorem normalizeNames_of_kept {names : List String}
    (h : ∀ name ∈ names, normalizeName name = name ∧ name ≠ "") : normalizeNames names = names := by
  have hmap : names.map normalizeName = names := by
    rw [List.map_congr_left fun name hname => (h name hname).1, List.map_id']
  rw [normalizeNames, hmap, List.filter_eq_self]
  exact fun name hname => by simpa using (h name hname).2

theorem normalized_of_kept {ts : TypeSet} (h : ∀ name ∈ ts, normalizeName name = name ∧ name ≠ "") :
    normalized ts.names = ts := by
  rw [normalized, normalizeNames_of_kept h, ofList_names]

theorem kept_of_mem_normalized {s : String} {names : List String} (h : s ∈ normalized names) :
    normalizeName s = s ∧ s ≠ "" := by
  obtain ⟨hne, name, -, rfl⟩ := mem_normalized.1 h
  exact ⟨normalizeName_normalizeName name, hne⟩

@[simp] theorem normalized_names_normalized (names : List String) :
    normalized (normalized names).names = normalized names :=
  normalized_of_kept fun _ h => kept_of_mem_normalized h

end TypeSet

@[simp] theorem Vertex.normalize_normalize (v : Vertex) : v.normalize.normalize = v.normalize := by
  simp only [Vertex.normalize, TypeSet.normalized_names_normalized]

@[simp] theorem Edge.normalize_normalize (e : Edge) : e.normalize.normalize = e.normalize := by
  simp only [Edge.normalize, TypeSet.normalized_names_normalized]

theorem Edge.id_eq_text_of_normalize_eq {e : Edge} (h : e.normalize = e) : e.id = e.key.text := by
  rw [← h]
  exact Edge.id_normalize e

theorem Edge.types_of_normalize_eq {e : Edge} (h : e.normalize = e) :
    TypeSet.normalized e.types.names = e.types := congrArg Edge.types h

theorem Edge.normalize_build (source target : String) (types : List String)
    (externalId : Option String) (derivation : List String) :
    (Edge.build source target types externalId derivation).normalize =
      Edge.build source target types externalId derivation := by
  simp only [Edge.normalize, Edge.build, TypeSet.normalized_names_normalized]

end PatternGraph
