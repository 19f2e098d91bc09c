/-!
# Sets of slots

A slot is a place in a list of rows, counted from zero. A set of slots is held as a number whose
binary digits say which slots are in it, so that union is one operation on numbers and equal sets
are equal numbers. `toList` gives the members in ascending order.
-/

namespace PatternGraph

/-- A place in a list of rows. -/
abbrev Slot := Nat

/-- A finite set of slots. -/
structure SlotSet where
  /-- The number whose binary digit `i` says whether slot `i` is in the set. -/
  bits : Nat
deriving DecidableEq, Repr

namespace SlotSet

instance : EmptyCollection SlotSet := ⟨⟨0⟩⟩

instance : Inhabited SlotSet := ⟨∅⟩

/-- Whether a slot is in the set. -/
def contains (s : SlotSet) (i : Slot) : Bool := s.bits.testBit i

instance : Membership Slot SlotSet := ⟨fun s i => s.contains i = true⟩

instance (i : Slot) (s : SlotSet) : Decidable (i ∈ s) :=
  inferInstanceAs (Decidable (s.contains i = true))

/-- The set with one slot more. -/
def insert (s : SlotSet) (i : Slot) : SlotSet := ⟨s.bits ||| 1 <<< i⟩

/-- The set without a slot. -/
def erase (s : SlotSet) (i : Slot) : SlotSet :=
  if s.contains i then ⟨s.bits ^^^ 1 <<< i⟩ else s

/-- The slots that are in one of two sets. -/
def union (s t : SlotSet) : SlotSet := ⟨s.bits ||| t.bits⟩

/-- The set of the members of a list. -/
def ofList (slots : List Slot) : SlotSet := slots.foldl insert ∅

/-- The members in ascending order. -/
def toList (s : SlotSet) : List Slot := (List.range (s.bits.log2 + 1)).filter s.contains

/-- Whether there is no member. -/
def isEmpty (s : SlotSet) : Bool := s.bits == 0

/-- The number of members. -/
def size (s : SlotSet) : Nat := s.toList.length

theorem mem_def {i : Slot} {s : SlotSet} : i ∈ s ↔ s.bits.testBit i = true := Iff.rfl

@[ext] theorem ext {s t : SlotSet} (h : ∀ i, i ∈ s ↔ i ∈ t) : s = t := by
  obtain ⟨s⟩ := s
  obtain ⟨t⟩ := t
  congr 1
  exact Nat.eq_of_testBit_eq fun i => Bool.eq_iff_iff.2 (h i)

@[simp] theorem not_mem_empty (i : Slot) : ¬ i ∈ (∅ : SlotSet) := by
  change ¬ Nat.testBit 0 i = true
  simp

@[simp] theorem mem_insert {i j : Slot} {s : SlotSet} : j ∈ s.insert i ↔ j = i ∨ j ∈ s := by
  simp only [mem_def, insert, Nat.testBit_or, Nat.one_shiftLeft, Nat.testBit_two_pow,
    Bool.or_eq_true, decide_eq_true_eq]
  grind

@[simp] theorem mem_erase {i j : Slot} {s : SlotSet} : j ∈ s.erase i ↔ j ≠ i ∧ j ∈ s := by
  rw [erase]
  split
  · next h =>
    rw [contains] at h
    simp only [mem_def, Nat.testBit_xor, Nat.one_shiftLeft, Nat.testBit_two_pow]
    by_cases hij : i = j
    · subst hij
      simp [h]
    · simp [hij, Ne.symm hij]
  · next h =>
    constructor
    · intro hj
      exact ⟨fun e => h (e ▸ hj), hj⟩
    · exact And.right

@[simp] theorem mem_union {i : Slot} {s t : SlotSet} : i ∈ s.union t ↔ i ∈ s ∨ i ∈ t := by
  simp [mem_def, union, Nat.testBit_or]

@[simp] theorem mem_foldl_insert {i : Slot} {slots : List Slot} {s : SlotSet} :
    i ∈ slots.foldl insert s ↔ i ∈ s ∨ i ∈ slots := by
  induction slots generalizing s with
  | nil => simp
  | cons j slots ih =>
    rw [List.foldl_cons, ih, mem_insert, List.mem_cons]
    grind

@[simp] theorem mem_ofList {i : Slot} {slots : List Slot} : i ∈ ofList slots ↔ i ∈ slots := by
  simp [ofList]

@[simp] theorem mem_toList {i : Slot} {s : SlotSet} : i ∈ s.toList ↔ i ∈ s := by
  simp only [toList, List.mem_filter, List.mem_range]
  refine ⟨And.right, fun h => ⟨?_, h⟩⟩
  apply Decidable.byContradiction
  intro hi
  have hlt : s.bits < 2 ^ i :=
    Nat.lt_of_lt_of_le Nat.lt_log2_self (Nat.pow_le_pow_right (by decide) (Nat.not_lt.1 hi))
  rw [mem_def, Nat.testBit_lt_two_pow hlt] at h
  exact Bool.false_ne_true h

/-- The members are listed in ascending order, each once. -/
theorem pairwise_toList (s : SlotSet) : s.toList.Pairwise (· < ·) :=
  List.Pairwise.filter _ List.pairwise_lt_range

/-- Two ascending lists with the same members are the same list. -/
theorem eq_of_ascending {slots slots' : List Slot} (h : slots.Pairwise (· < ·))
    (h' : slots'.Pairwise (· < ·)) (hmem : ∀ i, i ∈ slots ↔ i ∈ slots') : slots = slots' := by
  have nodup : ∀ {l : List Slot}, l.Pairwise (· < ·) → l.Nodup := fun hl => hl.imp Nat.ne_of_lt
  have hperm : slots.Perm slots' := (List.perm_ext_iff_of_nodup (nodup h) (nodup h')).2 hmem
  exact hperm.eq_of_pairwise (fun a b _ _ hab hba => absurd hba (Nat.lt_asymm hab)) h h'

/-- An ascending list of the members is the list of the members. -/
theorem toList_eq {s : SlotSet} {slots : List Slot} (h : slots.Pairwise (· < ·))
    (hmem : ∀ i, i ∈ slots ↔ i ∈ s) : s.toList = slots :=
  eq_of_ascending (pairwise_toList s) h fun i => mem_toList.trans (hmem i).symm

/-- A slot behind all members comes last. -/
theorem toList_insert {s : SlotSet} {i : Slot} (h : ∀ j ∈ s, j < i) :
    (s.insert i).toList = s.toList ++ [i] := by
  refine toList_eq ?_ fun j => by simp [or_comm]
  refine List.pairwise_append.2 ⟨pairwise_toList s, List.pairwise_singleton _ _, ?_⟩
  intro j hj k hk
  exact List.mem_singleton.1 hk ▸ h j (mem_toList.1 hj)

theorem toList_erase (s : SlotSet) (i : Slot) : (s.erase i).toList = s.toList.filter (· != i) :=
  toList_eq ((pairwise_toList s).filter _) fun j => by simp [and_comm]

@[simp] theorem toList_empty : (∅ : SlotSet).toList = [] :=
  toList_eq .nil fun i => by simp

theorem isEmpty_iff {s : SlotSet} : s.isEmpty = true ↔ s = ∅ := by
  obtain ⟨s⟩ := s
  change (s == 0) = true ↔ (⟨s⟩ : SlotSet) = ⟨0⟩
  simp

end SlotSet

end PatternGraph
