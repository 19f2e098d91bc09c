import Mathlib.Data.List.Basic
import PatternGraph.Graph.SlotSet

/-!
# Rows and the look-up of rows

What the tables of vertices and of edges have in common. A column of rows is an array that is read at
a slot; reading after a row was put in or emptied gives the new value at its slot and the old values
elsewhere. `IndexedBy` says that a look-up by id finds exactly the rows; both changes keep it. The list
of the rows in their order gets the new one at its end, and is filtered by what is emptied.
-/

namespace PatternGraph

section Columns

variable {α : Type}

theorem join_getElem?_push (rows : Array (Option α)) (a : α) (slot : Slot) :
    (rows.push (some a))[slot]?.join = if slot = rows.size then some a else rows[slot]?.join := by
  rw [Array.getElem?_push]
  split <;> rfl

theorem join_getElem?_setIfInBounds (rows : Array (Option α)) (slot s : Slot) :
    (rows.setIfInBounds slot none)[s]?.join = if s = slot then none else rows[s]?.join := by
  rw [Array.getElem?_setIfInBounds]
  by_cases hs : s = slot
  · subst hs
    rw [if_pos rfl, if_pos rfl]
    split <;> rfl
  · rw [if_neg (Ne.symm hs), if_neg hs]

theorem getD_getElem?_push (column : Array (List α)) (as : List α) (slot : Slot) :
    (column.push as)[slot]?.getD [] = if slot = column.size then as else column[slot]?.getD [] := by
  rw [Array.getElem?_push]
  split <;> rfl

theorem getD_getElem?_setIfInBounds (column : Array (List α)) (slot s : Slot) :
    (column.setIfInBounds slot [])[s]?.getD [] = if s = slot then [] else column[s]?.getD [] := by
  rw [Array.getElem?_setIfInBounds]
  by_cases hs : s = slot
  · subst hs
    rw [if_pos rfl, if_pos rfl]
    split <;> rfl
  · rw [if_neg (Ne.symm hs), if_neg hs]

theorem lt_size_of_join_getElem? {rows : Array (Option α)} {slot : Slot} {a : α}
    (h : rows[slot]?.join = some a) : slot < rows.size := by
  refine Decidable.byContradiction fun hlt => ?_
  rw [Array.getElem?_eq_none (Nat.not_lt.1 hlt)] at h
  exact absurd h nofun

end Columns

/-- A look-up by id finds the slot of each row, and nothing else. -/
def IndexedBy {α : Type} (slot? : String → Option Slot) (get? : Slot → Option α)
    (name : α → String) : Prop :=
  ∀ id slot, slot? id = some slot ↔ ∃ a, get? slot = some a ∧ name a = id

namespace IndexedBy

variable {α : Type} {slot? slot?' : String → Option Slot} {get? get?' : Slot → Option α}
  {name : α → String}

theorem exists_get? (h : IndexedBy slot? get? name) {id : String} {slot : Slot}
    (hs : slot? id = some slot) : ∃ a, get? slot = some a ∧ name a = id := (h id slot).1 hs

theorem slot?_of_get? (h : IndexedBy slot? get? name) {slot : Slot} {a : α}
    (ha : get? slot = some a) : slot? (name a) = some slot := (h (name a) slot).2 ⟨a, ha, rfl⟩

/-- Two ids are at one slot if, and only if, they are the same id. -/
theorem slot_eq_iff (h : IndexedBy slot? get? name) {id id' : String} {s s' : Slot}
    (hs : slot? id = some s) (hs' : slot? id' = some s') : s = s' ↔ id = id' := by
  constructor
  · rintro rfl
    obtain ⟨a, ha, rfl⟩ := h.exists_get? hs
    obtain ⟨a', ha', rfl⟩ := h.exists_get? hs'
    rw [Option.some.inj (ha.symm.trans ha')]
  · rintro rfl
    exact Option.some.inj (hs.symm.trans hs')

/-- Two slots do not hold the same id. -/
theorem slot_unique (h : IndexedBy slot? get? name) {s s' : Slot} {a a' : α}
    (ha : get? s = some a) (ha' : get? s' = some a') (hname : name a = name a') : s = s' :=
  (h.slot_eq_iff (h.slot?_of_get? ha) (h.slot?_of_get? ha')).2 hname

/-- The rows that are left when the row of an id is emptied are those of other ids. -/
theorem get?_of_emptied (h : IndexedBy slot? get? name) {id : String} {slot : Slot}
    (hs : slot? id = some slot) (s : Slot) :
    (if s = slot then none else get? s) = (get? s).filter fun a => name a ≠ id := by
  cases ha : get? s with
  | none => simp
  | some a =>
    have hslot : s = slot ↔ name a = id := h.slot_eq_iff (h.slot?_of_get? ha) hs
    by_cases hname : name a = id
    · rw [if_pos (hslot.2 hname), Option.filter_some, if_neg (by simpa using hname)]
    · rw [if_neg fun hc => hname (hslot.1 hc), Option.filter_some, if_pos (by simpa using hname)]

/-- Putting in a row with a new id. -/
theorem insert (h : IndexedBy slot? get? name) {slot : Slot} {a : α} (hslot : get? slot = none)
    (hnew : slot? (name a) = none)
    (hslot?' : ∀ id, slot?' id = if id = name a then some slot else slot? id)
    (hget?' : ∀ s, get?' s = if s = slot then some a else get? s) : IndexedBy slot?' get?' name := by
  intro id s
  rw [hslot?', hget?']
  constructor
  · intro hs
    split at hs
    · next hid => exact ⟨a, if_pos (Option.some.inj hs).symm, hid.symm⟩
    · obtain ⟨b, hb, hname⟩ := h.exists_get? hs
      have hne : s ≠ slot := by
        rintro rfl
        exact absurd (hslot.symm.trans hb) nofun
      exact ⟨b, by rw [if_neg hne, hb], hname⟩
  · rintro ⟨b, hb, rfl⟩
    split at hb
    · next hs => rw [if_pos (congrArg name (Option.some.inj hb).symm), hs]
    · have hs := h.slot?_of_get? hb
      have hne : name b ≠ name a := by
        intro e
        rw [e, hnew] at hs
        exact absurd hs nofun
      rw [if_neg hne, hs]

/-- Emptying a row. -/
theorem erase (h : IndexedBy slot? get? name) {slot : Slot} {a : α} (hslot : get? slot = some a)
    (hslot?' : ∀ id, slot?' id = if id = name a then none else slot? id)
    (hget?' : ∀ s, get?' s = if s = slot then none else get? s) : IndexedBy slot?' get?' name := by
  intro id s
  rw [hslot?', hget?']
  constructor
  · intro hs
    split at hs
    · exact absurd hs nofun
    · next hid =>
      obtain ⟨b, hb, hname⟩ := h.exists_get? hs
      have hne : s ≠ slot := by
        rintro rfl
        rw [hslot] at hb
        exact hid (Option.some.inj hb ▸ hname.symm)
      exact ⟨b, by rw [if_neg hne, hb], hname⟩
  · rintro ⟨b, hb, rfl⟩
    split at hb
    · exact absurd hb nofun
    · next hne => rw [if_neg fun e => hne (h.slot_unique hb hslot e), h.slot?_of_get? hb]

/-- No id is listed twice. -/
theorem nodup_map (h : IndexedBy slot? get? name) (live : SlotSet) :
    ((live.toList.filterMap get?).map name).Nodup := by
  rw [List.map_filterMap]
  refine List.Pairwise.filterMap _ ?_ (SlotSet.pairwise_toList live)
  rintro s t hlt id hid id' hid' rfl
  rw [Option.map_eq_some_iff] at hid hid'
  obtain ⟨a, ha, rfl⟩ := hid
  obtain ⟨b, hb, hname⟩ := hid'
  exact Nat.ne_of_lt hlt (h.slot_unique ha hb hname.symm)

end IndexedBy

/-! ### The rows in order -/

section InOrder

variable {α : Type} {live live' : SlotSet} {get? get?' : Slot → Option α}

/-- A row behind all others comes last. -/
theorem filterMap_toList_insert {slot : Slot} {a : α} (hlast : ∀ s ∈ live, s < slot)
    (hget : ∀ s, get?' s = if s = slot then some a else get? s) :
    (live.insert slot).toList.filterMap get?' = live.toList.filterMap get? ++ [a] := by
  rw [SlotSet.toList_insert hlast, List.filterMap_append]
  congr 1
  · refine List.filterMap_congr fun s hs => ?_
    rw [hget, if_neg (Nat.ne_of_lt (hlast s (SlotSet.mem_toList.1 hs)))]
  · simp [hget]

/-- The rows that are left when some are emptied stay in their order. -/
theorem filterMap_toList_filter {p : α → Bool} (hlive : ∀ s, s ∈ live ↔ (get? s).isSome)
    (hlive' : ∀ s, s ∈ live' ↔ (get?' s).isSome) (hget : ∀ s, get?' s = (get? s).filter p) :
    live'.toList.filterMap get?' = (live.toList.filterMap get?).filter p := by
  have hslots : live'.toList = live.toList.filter fun s => (get?' s).isSome := by
    refine SlotSet.toList_eq ((SlotSet.pairwise_toList live).filter _) fun s => ?_
    rw [List.mem_filter, SlotSet.mem_toList, hlive, hlive', hget]
    cases get? s <;> simp
  rw [hslots, List.filterMap_filter, List.filter_filterMap]
  refine List.filterMap_congr fun s _ => ?_
  rw [← hget]
  cases get?' s <;> rfl

/-- Every occupied slot is read, so the slots are as many as the rows that are listed. -/
theorem length_filterMap_live (hlive : ∀ s, s ∈ live ↔ (get? s).isSome) :
    (live.toList.filterMap get?).length = live.size := by
  rw [SlotSet.size, List.length_filterMap_eq_countP, List.countP_eq_length]
  exact fun s hs => (hlive s).1 (SlotSet.mem_toList.1 hs)

end InOrder

end PatternGraph
