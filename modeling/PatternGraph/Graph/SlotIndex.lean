import Std.Data.TreeMap
import PatternGraph.Graph.SlotSet

/-!
# Indexes of slots

A `SlotIndex` maps each key to the set of slots registered under it. A key without slots is not
held, so an index from which all registrations are taken back is the empty one. `lookup` is the view
of an index: two lemmas say what registering and taking back do to it.
-/

namespace PatternGraph

/-- The slots registered under each key. -/
structure SlotIndex (κ : Type) (order : κ → κ → Ordering) where
  entries : Std.TreeMap κ SlotSet order := ∅

namespace SlotIndex

variable {κ : Type} {order : κ → κ → Ordering}

instance : EmptyCollection (SlotIndex κ order) := ⟨{}⟩

instance : Inhabited (SlotIndex κ order) := ⟨∅⟩

/-- The slots registered under a key. -/
def lookup (index : SlotIndex κ order) (key : κ) : SlotSet := index.entries.getD key ∅

/-- Registers a slot under a key. -/
def insert (index : SlotIndex κ order) (key : κ) (slot : Slot) : SlotIndex κ order :=
  ⟨index.entries.insert key ((index.lookup key).insert slot)⟩

/-- Takes a slot off a key, and the key out of the index if that was its last slot. -/
def erase (index : SlotIndex κ order) (key : κ) (slot : Slot) : SlotIndex κ order :=
  let rest := (index.lookup key).erase slot
  ⟨if rest.isEmpty then index.entries.erase key else index.entries.insert key rest⟩

/-- Registers a slot under several keys. -/
def insertAll (index : SlotIndex κ order) (keys : List κ) (slot : Slot) : SlotIndex κ order :=
  keys.foldl (fun index key => index.insert key slot) index

/-- Takes a slot off several keys. -/
def eraseAll (index : SlotIndex κ order) (keys : List κ) (slot : Slot) : SlotIndex κ order :=
  keys.foldl (fun index key => index.erase key slot) index

/-- The slots registered under one of several keys. -/
def lookupAll (index : SlotIndex κ order) (keys : List κ) : SlotSet :=
  keys.foldl (fun found key => found.union (index.lookup key)) ∅

@[simp] theorem lookup_empty [Std.TransCmp order] (key : κ) :
    (∅ : SlotIndex κ order).lookup key = ∅ :=
  Std.TreeMap.getD_emptyc

theorem lookup_insert [Std.TransCmp order] (index : SlotIndex κ order) (k key : κ) (slot : Slot) :
    (index.insert k slot).lookup key =
      if order k key = .eq then (index.lookup k).insert slot else index.lookup key := by
  simp [lookup, insert, Std.TreeMap.getD_insert]

theorem lookup_erase [Std.TransCmp order] (index : SlotIndex κ order) (k key : κ) (slot : Slot) :
    (index.erase k slot).lookup key =
      if order k key = .eq then (index.lookup k).erase slot else index.lookup key := by
  by_cases h : ((index.lookup k).erase slot).isEmpty = true
  · have h' : (index.erase k slot).lookup key = (index.entries.erase k).getD key ∅ := by
      rw [erase, if_pos h, lookup]
    rw [h', Std.TreeMap.getD_erase, SlotSet.isEmpty_iff.1 h]
    rfl
  · have h' : (index.erase k slot).lookup key =
        (index.entries.insert k ((index.lookup k).erase slot)).getD key ∅ := by
      rw [erase, if_neg h, lookup]
    rw [h', Std.TreeMap.getD_insert]
    rfl

theorem mem_lookupAll {index : SlotIndex κ order} {keys : List κ} {slot : Slot} :
    slot ∈ index.lookupAll keys ↔ ∃ key ∈ keys, slot ∈ index.lookup key := by
  suffices h : ∀ found : SlotSet,
      slot ∈ keys.foldl (fun found key => found.union (index.lookup key)) found ↔
        slot ∈ found ∨ ∃ key ∈ keys, slot ∈ index.lookup key by
    simpa [lookupAll] using h ∅
  induction keys with
  | nil => simp
  | cons key keys ih => simp [ih, or_assoc]

end SlotIndex

end PatternGraph
