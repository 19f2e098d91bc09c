import PatternGraph.Proofs.Graph.Index

/-!
# The triple index as a set of registrations

Edges are put into the triple index and taken out of it in any order, and the triples of one edge are
those of others as well. The index is nevertheless no more than the set of the registrations that are
in force: `TripleIndex.Holds` pairs the two along the calls, and
`TripleIndex.Holds.candidates_registered` says that the candidates for some types are the edges whose
registration meets them, and that nothing is left in the index when the last edge is taken out.

To take an edge out undoes its share of each triple and no more, since no other edge in force has its
slot.
-/

namespace PatternGraph

/-- A tight index holds a key just if a slot is under one. -/
theorem SlotIndex.Tight.isEmpty_iff {κ : Type} {order : κ → κ → Ordering} [Std.TransCmp order]
    {index : SlotIndex κ order} (h : index.Tight) :
    index.entries.isEmpty = true ↔ ∀ key slot, slot ∉ index.lookup key := by
  rw [Std.TreeMap.isEmpty_iff_forall_not_mem]
  refine forall_congr' fun key => ?_
  rw [Std.TreeMap.mem_iff_isSome_getElem?, lookup, Std.TreeMap.getD_eq_getD_getElem?]
  cases hkey : index.entries[key]? with
  | none => simp
  | some slots =>
    have hne : ¬ ∀ slot, slot ∉ slots := fun hnone =>
      h key slots hkey (SlotSet.ext fun slot => iff_of_false (hnone slot) (SlotSet.not_mem_empty slot))
    simpa using hne

namespace TripleIndex

/-- An edge in the index, and the types under which it was put there. -/
structure Registration where
  slot : Slot
  source : List TypeId
  edge : List TypeId
  target : List TypeId

/-- The registrations in force after some calls, and the index after them. An edge is put in when its
slot is not in force, and taken out under the types under which it was put in. -/
inductive Holds : List Registration → TripleIndex → Prop where
  | empty : Holds [] ∅
  | insert {regs : List Registration} {t : TripleIndex} (h : Holds regs t) (r : Registration)
      (hnew : ∀ r' ∈ regs, r'.slot ≠ r.slot) :
      Holds (r :: regs) (t.insert r.slot r.source r.edge r.target)
  | erase {regs : List Registration} {t : TripleIndex} (h : Holds regs t) (r : Registration)
      (hmem : r ∈ regs) :
      Holds (regs.filter fun r' => r'.slot ≠ r.slot) (t.erase r.slot r.source r.edge r.target)

/-- Types are what a place asks for: any if it names none, and else one of those named. -/
def Meets (asked : Option (List TypeId)) (types : List TypeId) : Prop :=
  ∀ ids ∈ asked, ∃ id ∈ ids, id ∈ types

/-- An alternative for a place is among the places of the types just if these are what is asked for. -/
theorem exists_mem_places {asked : Option (List TypeId)} {types : List TypeId} :
    (∃ place ∈ alternatives asked, place ∈ places types) ↔ Meets asked types := by
  cases asked with
  | none => simp [alternatives, mem_places, Meets]
  | some ids =>
    simp only [alternatives, List.mem_map, mem_places, Meets, Option.mem_some, forall_eq']
    constructor
    · rintro ⟨_, ⟨id, hid, rfl⟩, hplace⟩
      exact ⟨id, hid, hplace id rfl⟩
    · rintro ⟨id, hid, hmem⟩
      exact ⟨some id, ⟨id, hid, rfl⟩, fun _ he => Option.some.inj he ▸ hmem⟩

namespace Holds

variable {regs : List Registration} {t : TripleIndex}

/-- A slot has one registration. -/
theorem eq_of_slot_eq (h : Holds regs t) :
    ∀ r ∈ regs, ∀ r' ∈ regs, r.slot = r'.slot → r = r' := by
  induction h with
  | empty => exact nofun
  | insert _ r hnew ih =>
    refine List.forall_mem_cons.2 ⟨List.forall_mem_cons.2 ⟨fun _ => rfl, fun r' hr' he => ?_⟩,
      fun r' hr' => List.forall_mem_cons.2 ⟨fun he => ?_, ih r' hr'⟩⟩
    · exact absurd he.symm (hnew r' hr')
    · exact absurd he (hnew r' hr')
  | erase _ r _ ih =>
    intro a ha b hb
    exact ih a (List.mem_filter.1 ha).1 b (List.mem_filter.1 hb).1

/-- Under a triple are the slots in force whose types give it. -/
theorem mem_lookup (h : Holds regs t) {slot : Slot} {key : TripleKey} :
    slot ∈ t.lookup key ↔ ∃ r ∈ regs, r.slot = slot ∧ key ∈ keys r.source r.edge r.target := by
  induction h with
  | empty =>
    have hnone : slot ∉ (∅ : TripleIndex).lookup key := by
      change slot ∉ (∅ : SlotIndex TripleKey TripleKey.order).lookup key
      simp
    simpa using hnone
  | insert _ r _ ih => simp [mem_lookup_insert, ih, eq_comm]
  | erase h r hmem ih =>
    rw [mem_lookup_erase, ih]
    constructor
    · rintro ⟨hnot, r', hr', rfl, hkey⟩
      refine ⟨r', List.mem_filter.2 ⟨hr', decide_eq_true fun he => hnot ⟨he, ?_⟩⟩, rfl, hkey⟩
      rwa [← h.eq_of_slot_eq r' hr' r hmem he]
    · rintro ⟨r', hr', rfl, hkey⟩
      obtain ⟨hr', hne⟩ := List.mem_filter.1 hr'
      exact ⟨fun hc => of_decide_eq_true hne hc.1, r', hr', rfl, hkey⟩

theorem tight (h : Holds regs t) : t.index.Tight := by
  induction h with
  | empty => exact SlotIndex.tight_empty
  | insert _ _ _ ih => exact ih.insertAll _ _
  | erase _ _ _ ih => exact ih.eraseAll _ _

/-- The candidates are the slots in force whose types are what is asked for in each place. -/
theorem mem_candidates (h : Holds regs t) {source edge target : Option (List TypeId)} {slot : Slot} :
    slot ∈ t.candidates source edge target ↔ ∃ r ∈ regs, r.slot = slot ∧
      Meets source r.source ∧ Meets edge r.edge ∧ Meets target r.target := by
  simp only [TripleIndex.mem_candidates, h.mem_lookup, ← exists_mem_places, mem_keys, mem_places]
  constructor
  · rintro ⟨⟨s, e, t⟩, ⟨hs, he, ht⟩, r, hr, hslot, hs', he', ht'⟩
    exact ⟨r, hr, hslot, ⟨s, hs, hs'⟩, ⟨e, he, he'⟩, t, ht, ht'⟩
  · rintro ⟨r, hr, hslot, ⟨s, hs, hs'⟩, ⟨e, he, he'⟩, t, ht, ht'⟩
    exact ⟨⟨s, e, t⟩, ⟨hs, he, ht⟩, r, hr, hslot, hs', he', ht'⟩

/-- Nothing is left in the index just if no edge is in force. -/
theorem isEmpty_iff (h : Holds regs t) : t.index.entries.isEmpty = true ↔ regs = [] := by
  rw [h.tight.isEmpty_iff]
  change (∀ key slot, slot ∉ t.lookup key) ↔ _
  simp only [h.mem_lookup]
  constructor
  · intro hnone
    refine List.eq_nil_iff_forall_not_mem.2 fun r hr => ?_
    -- every edge is under the triple in which all places are open
    exact hnone ⟨none, none, none⟩ r.slot ⟨r, hr, rfl, mem_keys.2 ⟨nofun, nofun, nofun⟩⟩
  · rintro rfl
    simp

/-- After any calls, the candidates for types asked for are the edges in force that have them, and the
index has no entries just if no edge is in force. -/
theorem candidates_registered (h : Holds regs t) :
    (∀ source edge target slot, slot ∈ t.candidates source edge target ↔ ∃ r ∈ regs, r.slot = slot ∧
        Meets source r.source ∧ Meets edge r.edge ∧ Meets target r.target) ∧
      (t.index.entries.isEmpty = true ↔ regs = []) :=
  ⟨fun _ _ _ _ => h.mem_candidates, h.isEmpty_iff⟩

/-- Two edges that share triples are put in, and one of them is taken out again. -/
theorem candidates_registered_sharedTriples :
    let b : Registration := ⟨2, [0, 2], [1], []⟩
    let t := ((∅ : TripleIndex).insert 1 [0] [1] [0]).insert 2 [0, 2] [1] []
    Holds [b] (t.erase 1 [0] [1] [0]) ∧
      (∀ source edge target slot, slot ∈ (t.erase 1 [0] [1] [0]).candidates source edge target ↔
        ∃ r ∈ [b], r.slot = slot ∧ Meets source r.source ∧ Meets edge r.edge ∧ Meets target r.target) ∧
      ((t.erase 1 [0] [1] [0]).index.entries.isEmpty = true ↔ [b] = []) := by
  intro b t
  have hboth : Holds [b, ⟨1, [0], [1], [0]⟩] t :=
    (Holds.empty.insert ⟨1, [0], [1], [0]⟩ nofun).insert b (by simp [b])
  have hone : Holds [b] (t.erase 1 [0] [1] [0]) := hboth.erase ⟨1, [0], [1], [0]⟩ (by simp)
  exact ⟨hone, candidates_registered hone⟩

end Holds

end TripleIndex

end PatternGraph
