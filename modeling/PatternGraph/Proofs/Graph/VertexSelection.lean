import PatternGraph.Proofs.Graph.Selection

/-!
# Selecting vertices is a scan

The vertices that a filter admits are found by id, by type or among all. The answer does not tell
which: it is what a scan finds, of the vertices of the ids in the order of these and each once, or
else of all vertices in the order in which they were put in.

`VertexFilter.Selects` says of a list of vertices that it is what a filter asks for of those that are
stored, without any way to find them; `Graph.selectVertices_after` says that this is what is selected.
Types of which nothing is left when they are trimmed, and an empty text, ask for nothing, as if they
were left out of the filter: `VertexFilter.stripped`.
-/

namespace PatternGraph

/-- Dropping what came before goes on with the members that are not the first one. -/
theorem eraseDups_induction {α : Type} [DecidableEq α] {motive : List α → Prop} (nil : motive [])
    (cons : ∀ a as, motive (as.filter (!· == a)) → motive (a :: as)) (as : List α) : motive as := by
  induction hn : as.length using Nat.strong_induction_on generalizing as with
  | _ n ih =>
    cases as with
    | nil => exact nil
    | cons a as =>
      refine cons a as (ih (as.filter (!· == a)).length ?_ _ rfl)
      rw [← hn]
      exact Nat.lt_succ_of_le (List.length_filter_le _ as)

/-- Looking up names, no two of which have one value, goes with dropping what came before. -/
theorem eraseDups_filterMap {α β : Type} [DecidableEq α] [DecidableEq β] {f : α → Option β}
    (hf : ∀ a a' b, f a = some b → f a' = some b → a = a') (as : List α) :
    (as.filterMap f).eraseDups = as.eraseDups.filterMap f := by
  induction as using eraseDups_induction with
  | nil => rfl
  | cons a as ih =>
    rw [List.eraseDups_cons]
    cases ha : f a with
    | none =>
      rw [List.filterMap_cons_none ha, List.filterMap_cons_none ha, ← ih, List.filterMap_filter]
      congr 1
      refine List.filterMap_congr fun a' _ => ?_
      by_cases he : a' = a
      · simp [he, ha]
      · simp [he]
    | some b =>
      rw [List.filterMap_cons_some ha, List.filterMap_cons_some ha, ← ih, List.eraseDups_cons,
        List.filterMap_filter, List.filter_filterMap]
      congr 2
      refine List.filterMap_congr fun a' _ => ?_
      by_cases he : a' = a
      · simp [he, ha]
      · cases ha' : f a' with
        | none => simp [he]
        | some b' =>
          have hne : b' ≠ b := fun e => he (hf a' a b (e ▸ ha') ha)
          simp [he, hne]

namespace Graph

variable {g : Graph}

/-- The vertices that a filter looks at: those of the ids, in the order of these and each once, or
else all vertices. -/
def lookedAt (g : Graph) : Option (List String) → List Vertex
  | some ids => g.verticesOf ids.eraseDups
  | none => g.allVertices

namespace WellFormed

/-- Without ids, the slots come out in ascending order. -/
theorem pairwise_vertexSlots {f : VertexFilter} (hids : f.ids = none) :
    (g.vertexSlots f).Pairwise (· < ·) := by
  unfold vertexSlots
  simp only [hids]
  split
  · exact (SlotSet.pairwise_toList _).filter _
  · exact (SlotSet.pairwise_toList _).filter _

/-- Without ids, the slots are those of the vertices that satisfy the filter, in their order. -/
theorem vertexSlots_eq (h : g.WellFormed) {f : VertexFilter} (hids : f.ids = none) :
    g.vertexSlots f =
      g.vertices.live.toList.filter fun slot => (g.vertices.get? slot).any fun v => f.Satisfied v := by
  refine SlotSet.eq_of_ascending (pairwise_vertexSlots hids) ((SlotSet.pairwise_toList _).filter _)
    fun slot => ?_
  rw [h.mem_vertexSlots, List.mem_filter, SlotSet.mem_toList, h.vertices.mem_live]
  cases g.vertices.get? slot <;> simp

theorem selectVertices_eq_scan (h : g.WellFormed) (f : VertexFilter) :
    g.selectVertices f = (g.lookedAt f.ids).filter fun v => f.Satisfied v := by
  unfold selectVertices
  cases hids : f.ids with
  | none =>
    rw [h.vertexSlots_eq hids, lookedAt, allVertices, List.filterMap_filter, List.filter_filterMap]
    refine List.filterMap_congr fun slot _ => ?_
    cases g.vertices.get? slot <;> simp [Option.filter]
  | some ids =>
    have hslots : g.vertexSlots f = (ids.eraseDups.filterMap g.vertices.slot?).filter
        fun slot => (g.vertices.get? slot).any (VertexTest.of f).admits := by
      unfold vertexSlots
      simp only [hids]
      rw [eraseDups_filterMap fun id id' slot hs hs' =>
        (h.vertices.indexed.slot_eq_iff hs hs').1 rfl]
    rw [hslots, lookedAt, verticesOf, List.filterMap_filter, List.filterMap_filterMap,
      List.filter_filterMap]
    refine List.filterMap_congr fun id hid => ?_
    unfold vertex?
    cases hs : g.vertices.slot? id with
    | none => simp
    | some slot =>
      obtain ⟨v, hget, hname, -⟩ := h.vertex?_of_slot? hs
      have hsat : f.Satisfied v ↔ (VertexTest.of f).admits v = true := by
        rw [VertexFilter.satisfied_iff, and_iff_right_iff_imp]
        intro _ ids' hids'
        obtain rfl := Option.some.inj (hids.symm.trans hids')
        exact hname ▸ List.mem_eraseDups.1 hid
      simp [hget, Option.filter, hsat]

end WellFormed

end Graph

/-! ### What is selected -/

/-- What comes first among some members of a list comes first in the list. -/
theorem idxOf_lt_of_filter {α : Type} [DecidableEq α] {p : α → Bool} {a b : α} (ha : p a = true)
    (hb : p b = true) {as : List α} (h : (as.filter p).idxOf a < (as.filter p).idxOf b) :
    as.idxOf a < as.idxOf b := by
  induction as with
  | nil => exact h
  | cons c as ih =>
    by_cases hca : c = a
    · subst hca
      rw [List.filter_cons_of_pos ha, List.idxOf_cons_self] at h
      have hcb : c ≠ b := by
        rintro rfl
        simp at h
      rw [List.idxOf_cons_self, List.idxOf_cons_ne as hcb]
      omega
    · by_cases hcb : c = b
      · subst hcb
        rw [List.filter_cons_of_pos hb, List.idxOf_cons_self] at h
        exact absurd h (Nat.not_lt_zero _)
      · rw [List.idxOf_cons_ne as hca, List.idxOf_cons_ne as hcb]
        refine Nat.succ_lt_succ (ih ?_)
        cases hc : p c with
        | true =>
          rw [List.filter_cons_of_pos hc, List.idxOf_cons_ne _ hca, List.idxOf_cons_ne _ hcb] at h
          omega
        | false => rwa [List.filter_cons_of_neg (by simp [hc])] at h

/-- The list without what came before is in the order in which its members first occur. -/
theorem pairwise_idxOf_eraseDups {α : Type} [DecidableEq α] (as : List α) :
    as.eraseDups.Pairwise fun a b => as.idxOf a < as.idxOf b := by
  induction as using eraseDups_induction with
  | nil => exact .nil
  | cons a as ih =>
    have hne : ∀ b ∈ (as.filter (!· == a)).eraseDups, a ≠ b := by
      rintro b hb rfl
      simpa using (List.mem_filter.1 (List.mem_eraseDups.1 hb)).2
    rw [List.eraseDups_cons]
    refine List.pairwise_cons.2 ⟨fun b hb => ?_, ih.imp_of_mem fun {b c} hb hc hlt => ?_⟩
    · rw [List.idxOf_cons_self, List.idxOf_cons_ne as (hne b hb)]
      exact Nat.succ_pos _
    · rw [List.idxOf_cons_ne as (hne b hb), List.idxOf_cons_ne as (hne c hc)]
      refine Nat.succ_lt_succ (idxOf_lt_of_filter ?_ ?_ hlt)
      · simpa using (hne b hb).symm
      · simpa using (hne c hc).symm

namespace VertexFilter

/-- Some vertices are what a filter asks for of those that are stored. -/
structure Selects (f : VertexFilter) (stored found : List Vertex) : Prop where
  /-- No vertex is found twice. -/
  nodup : (found.map Vertex.id).Nodup
  /-- Those are found that are stored and satisfy the filter. -/
  mem_iff : ∀ v, v ∈ found ↔ v ∈ stored ∧ f.Satisfied v
  /-- If ids are given, the vertices come in the order in which their ids first occur there, -/
  by_ids : ∀ ids ∈ f.ids, found.Pairwise fun v w => ids.idxOf v.id < ids.idxOf w.id
  /-- and else in the order in which they are stored. -/
  by_place : f.ids = none → found.Sublist stored

/-- The filter without the types that are blank and without an empty text. -/
def stripped (f : VertexFilter) : VertexFilter :=
  { f with
    types := (f.types.map (·.filter (Text.trim · ≠ ""))).filter (· ≠ [])
    searchTerm := f.searchTerm.filter (· ≠ "") }

theorem ids_stripped (f : VertexFilter) : f.stripped.ids = f.ids := rfl

theorem askedNames_stripped (f : VertexFilter) : askedNames f.stripped.types = askedNames f.types := by
  have hblank : ∀ types : List String, TypeSet.normalizeNames (types.filter (Text.trim · ≠ "")) =
      TypeSet.normalizeNames types := by
    intro types
    rw [TypeSet.normalizeNames, TypeSet.normalizeNames, List.filter_map, List.filter_map,
      List.filter_filter]
    refine congrArg (List.map TypeSet.normalizeName) (List.filter_congr fun t _ => ?_)
    simp [TypeSet.normalizeName, Text.lowercase_eq_empty]
  rw [askedNames, askedNames, stripped]
  cases f.types with
  | none => rfl
  | some types =>
    rw [Option.getD_some, ← hblank types, Option.map_some, Option.filter_some]
    split
    · rfl
    · next hnone =>
      have hnil : types.filter (Text.trim · ≠ "") = [] := by simpa using hnone
      rw [hnil]
      rfl

/-- A filter asks for nothing by a blank type or by an empty text. -/
theorem satisfied_stripped {f : VertexFilter} {v : Vertex} :
    f.stripped.Satisfied v ↔ f.Satisfied v := by
  have hname : (∀ term ∈ f.stripped.searchTerm,
        (Text.lowercase term).toList <:+: (Text.lowercase v.name).toList) ↔
      ∀ term ∈ f.searchTerm, (Text.lowercase term).toList <:+: (Text.lowercase v.name).toList := by
    rw [stripped]
    cases f.searchTerm with
    | none => rfl
    | some term =>
      by_cases hterm : term = ""
      · simp [hterm, Text.lowercase_eq_empty.2]
      · simp [hterm]
  constructor
  · rintro ⟨hids, htypes, hterm⟩
    rw [ids_stripped] at hids
    rw [askedNames_stripped] at htypes
    exact ⟨hids, htypes, hname.1 hterm⟩
  · rintro ⟨hids, htypes, hterm⟩
    rw [← ids_stripped] at hids
    rw [← askedNames_stripped] at htypes
    exact ⟨hids, htypes, hname.2 hterm⟩

end VertexFilter

namespace Graph.WellFormed

variable {g : Graph}

theorem mem_allVertices_iff (h : g.WellFormed) {v : Vertex} :
    v ∈ g.allVertices ↔ g.vertex? v.id = some v := by
  constructor
  · intro hv
    obtain ⟨slot, -, hget⟩ := List.mem_filterMap.1 hv
    exact vertex?_eq_some.2 ⟨slot, h.vertices.indexed.slot?_of_get? hget, hget⟩
  · exact h.mem_allVertices_of_vertex?

theorem mem_lookedAt (h : g.WellFormed) {ids : Option (List String)} {v : Vertex} :
    v ∈ g.lookedAt ids ↔ v ∈ g.allVertices ∧ ∀ l ∈ ids, v.id ∈ l := by
  cases ids with
  | none => simp [lookedAt]
  | some ids =>
    rw [lookedAt, verticesOf, List.mem_filterMap]
    constructor
    · rintro ⟨id, hid, hv⟩
      refine ⟨h.mem_allVertices_of_vertex? hv, ?_⟩
      rintro _ ⟨⟩
      rw [h.id_of_vertex? hv]
      exact List.mem_eraseDups.1 hid
    · rintro ⟨hv, hids⟩
      exact ⟨v.id, List.mem_eraseDups.2 (hids ids rfl), h.mem_allVertices_iff.1 hv⟩

/-- The vertices of some ids come in the order in which the ids first occur. -/
theorem pairwise_lookedAt (h : g.WellFormed) (ids : List String) :
    (g.lookedAt (some ids)).Pairwise fun v w => ids.idxOf v.id < ids.idxOf w.id := by
  rw [lookedAt, verticesOf, List.pairwise_filterMap]
  refine (pairwise_idxOf_eraseDups ids).imp fun {id id'} hlt v hv w hw => ?_
  rw [h.id_of_vertex? hv, h.id_of_vertex? hw]
  exact hlt

theorem nodup_lookedAt (h : g.WellFormed) (ids : Option (List String)) :
    ((g.lookedAt ids).map Vertex.id).Nodup := by
  cases ids with
  | none => exact h.vertices.indexed.nodup_map g.vertices.live
  | some ids =>
    refine List.pairwise_map.2 ((h.pairwise_lookedAt ids).imp fun hlt e => ?_)
    rw [e] at hlt
    exact Nat.lt_irrefl _ hlt

theorem selects (h : g.WellFormed) (f : VertexFilter) :
    f.Selects g.allVertices (g.selectVertices f) where
  nodup := by
    rw [h.selectVertices_eq_scan]
    exact (h.nodup_lookedAt f.ids).sublist (List.filter_sublist.map Vertex.id)
  mem_iff v := by
    rw [h.selectVertices_eq_scan, List.mem_filter, h.mem_lookedAt, decide_eq_true_eq]
    exact ⟨fun ⟨⟨hv, _⟩, hsat⟩ => ⟨hv, hsat⟩, fun ⟨hv, hsat⟩ => ⟨⟨hv, hsat.ids⟩, hsat⟩⟩
  by_ids ids hids := by
    rw [h.selectVertices_eq_scan, hids]
    exact (h.pairwise_lookedAt ids).filter _
  by_place hids := by
    rw [h.selectVertices_eq_scan, hids]
    exact List.filter_sublist

end Graph.WellFormed

/-- In every graph of a history, what is selected is what the filter asks for of the vertices that were
put in, in the order of the ids that are given, or else in the order in which the vertices were put in.
Blank types and an empty text ask for nothing, and of no ids there is no vertex. -/
theorem Graph.selectVertices_after (changes : List Change) (f : VertexFilter) :
    f.Selects (Listing.after changes).vertices ((after changes).selectVertices f) ∧
      (after changes).selectVertices f.stripped = (after changes).selectVertices f ∧
      (after changes).selectVertices { f with ids := some [] } = [] := by
  have h := wellFormed_after changes
  have hvertices : (after changes).allVertices = (Listing.after changes).vertices :=
    congrArg Listing.vertices (listing_after changes)
  rw [← hvertices]
  refine ⟨h.selects f, ?_, ?_⟩
  · rw [h.selectVertices_eq_scan, h.selectVertices_eq_scan]
    exact List.filter_congr fun v _ => decide_eq_decide.2 VertexFilter.satisfied_stripped
  · refine List.eq_nil_iff_forall_not_mem.2 fun v hv => ?_
    obtain ⟨-, hsat⟩ := ((h.selects _).mem_iff v).1 hv
    exact List.not_mem_nil (hsat.ids [] rfl)

end PatternGraph
