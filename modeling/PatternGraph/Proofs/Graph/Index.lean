import PatternGraph.Graph.TripleIndex

/-!
# What an index holds

An index is seen through `lookup`: a slot is under a key exactly if it was registered there and not
taken back. This module says so for registering under many keys at once and for taking back under
many keys, which is what a table does with the types of a row, and it shows that an index stays
*tight*: no key is held without a slot under it.
-/

namespace PatternGraph

namespace SlotIndex

variable {κ : Type} {order : κ → κ → Ordering}

/-- No key is held without slots. -/
def Tight (index : SlotIndex κ order) : Prop :=
  ∀ (key : κ) (slots : SlotSet), index.entries[key]? = some slots → slots ≠ ∅

section

variable [Std.TransCmp order]

theorem tight_empty : (∅ : SlotIndex κ order).Tight := by
  intro key slots h
  change (∅ : Std.TreeMap κ SlotSet order)[key]? = some slots at h
  simp at h

theorem Tight.insert {index : SlotIndex κ order} (h : index.Tight) (key : κ) (slot : Slot) :
    (index.insert key slot).Tight := by
  intro k slots hk
  simp only [SlotIndex.insert, Std.TreeMap.getElem?_insert] at hk
  split at hk
  · obtain rfl := Option.some.inj hk
    intro he
    have : slot ∈ (index.lookup key).insert slot := SlotSet.mem_insert.2 (.inl rfl)
    rw [he] at this
    exact SlotSet.not_mem_empty slot this
  · exact h k slots hk

theorem Tight.erase {index : SlotIndex κ order} (h : index.Tight) (key : κ) (slot : Slot) :
    (index.erase key slot).Tight := by
  intro k slots hk
  simp only [SlotIndex.erase] at hk
  split at hk
  · rw [Std.TreeMap.getElem?_erase] at hk
    split at hk
    · cases hk
    · exact h k slots hk
  · next hne =>
    rw [Std.TreeMap.getElem?_insert] at hk
    split at hk
    · obtain rfl := Option.some.inj hk
      intro he
      exact hne (SlotSet.isEmpty_iff.2 he)
    · exact h k slots hk

theorem Tight.insertAll {index : SlotIndex κ order} (h : index.Tight) (keys : List κ) (slot : Slot) :
    (index.insertAll keys slot).Tight := by
  induction keys generalizing index with
  | nil => exact h
  | cons key keys ih => exact ih (h.insert key slot)

theorem Tight.eraseAll {index : SlotIndex κ order} (h : index.Tight) (keys : List κ) (slot : Slot) :
    (index.eraseAll keys slot).Tight := by
  induction keys generalizing index with
  | nil => exact h
  | cons key keys ih => exact ih (h.erase key slot)

end

section

variable [Std.TransCmp order] [Std.LawfulEqCmp order]

theorem mem_lookup_insert {index : SlotIndex κ order} {k key : κ} {s slot : Slot} :
    slot ∈ (index.insert k s).lookup key ↔ (slot = s ∧ key = k) ∨ slot ∈ index.lookup key := by
  rw [lookup_insert]
  split
  · next h =>
    obtain rfl := Std.LawfulEqCmp.eq_of_compare h
    simp
  · next h =>
    have hne : key ≠ k := fun e => h (e ▸ Std.ReflCmp.compare_self)
    simp [hne]

theorem mem_lookup_erase {index : SlotIndex κ order} {k key : κ} {s slot : Slot} :
    slot ∈ (index.erase k s).lookup key ↔ ¬ (slot = s ∧ key = k) ∧ slot ∈ index.lookup key := by
  rw [lookup_erase]
  split
  · next h =>
    obtain rfl := Std.LawfulEqCmp.eq_of_compare h
    simp
  · next h =>
    have hne : key ≠ k := fun e => h (e ▸ Std.ReflCmp.compare_self)
    simp [hne]

theorem mem_lookup_insertAll {index : SlotIndex κ order} {keys : List κ} {key : κ}
    {s slot : Slot} :
    slot ∈ (index.insertAll keys s).lookup key ↔
      (slot = s ∧ key ∈ keys) ∨ slot ∈ index.lookup key := by
  induction keys generalizing index with
  | nil => simp [insertAll]
  | cons k keys ih =>
    rw [insertAll, List.foldl_cons, ← insertAll, ih, mem_lookup_insert, List.mem_cons]
    grind

theorem mem_lookup_eraseAll {index : SlotIndex κ order} {keys : List κ} {key : κ}
    {s slot : Slot} :
    slot ∈ (index.eraseAll keys s).lookup key ↔
      ¬ (slot = s ∧ key ∈ keys) ∧ slot ∈ index.lookup key := by
  induction keys generalizing index with
  | nil => simp [eraseAll]
  | cons k keys ih =>
    rw [eraseAll, List.foldl_cons, ← eraseAll, ih, mem_lookup_erase, List.mem_cons]
    grind

end

end SlotIndex

namespace TripleIndex

theorem mem_places {types : List TypeId} {place : Option TypeId} :
    place ∈ places types ↔ ∀ id ∈ place, id ∈ types := by
  cases place with
  | none => simp [places]
  | some id => simp [places]

theorem mem_keys {source edge target : List TypeId} {key : TripleKey} :
    key ∈ keys source edge target ↔ (∀ id ∈ key.source, id ∈ source) ∧
      (∀ id ∈ key.edge, id ∈ edge) ∧ ∀ id ∈ key.target, id ∈ target := by
  simp only [keys, TripleKey.mem_product, mem_places]

theorem mem_lookup_insert {t : TripleIndex} {s slot : Slot} {source edge target : List TypeId}
    {key : TripleKey} :
    slot ∈ (t.insert s source edge target).lookup key ↔
      (slot = s ∧ key ∈ keys source edge target) ∨ slot ∈ t.lookup key :=
  SlotIndex.mem_lookup_insertAll

theorem mem_lookup_erase {t : TripleIndex} {s slot : Slot} {source edge target : List TypeId}
    {key : TripleKey} :
    slot ∈ (t.erase s source edge target).lookup key ↔
      ¬ (slot = s ∧ key ∈ keys source edge target) ∧ slot ∈ t.lookup key :=
  SlotIndex.mem_lookup_eraseAll

theorem mem_alternatives {types : Option (List TypeId)} {place : Option TypeId} :
    place ∈ alternatives types ↔
      match types with
      | none => place = none
      | some ids => ∃ id ∈ ids, place = some id := by
  cases types with
  | none => simp [alternatives]
  | some ids => simp [alternatives, eq_comm]

theorem mem_candidates {t : TripleIndex} {source edge target : Option (List TypeId)}
    {slot : Slot} :
    slot ∈ t.candidates source edge target ↔
      ∃ key : TripleKey, (key.source ∈ alternatives source ∧ key.edge ∈ alternatives edge ∧
        key.target ∈ alternatives target) ∧ slot ∈ t.lookup key := by
  simp only [candidates, SlotIndex.mem_lookupAll, TripleKey.mem_product, lookup]

end TripleIndex

end PatternGraph
