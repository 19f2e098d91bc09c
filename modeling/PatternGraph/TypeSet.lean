import PatternGraph.Text.Blank
import PatternGraph.Text.Lowercase

/-!
# Sets of type names

A vertex or an edge carries a set of type names. The set is held as the list of its members in
strictly ascending order, by code points, so that equal sets are equal lists and the members are
always shown in one order.

`TypeSet.normalized` is how the store reads a list of type names: white space is taken off the ends,
the case is lowered, and a name of which nothing is left is dropped.
-/

namespace PatternGraph

/-- A set of type names. -/
structure TypeSet where
  /-- The members, in strictly ascending order. -/
  names : List String
  /-- The order of the members. -/
  ascending : names.Pairwise (· < ·)
deriving DecidableEq, Repr

namespace TypeSet

/-- Puts a name at its place in an ascending list, unless it is there already. -/
def insertName (s : String) : List String → List String
  | [] => [s]
  | t :: ts => if s < t then s :: t :: ts else if s = t then t :: ts else t :: insertName s ts

theorem mem_insertName {s x : String} {ts : List String} :
    x ∈ insertName s ts ↔ x = s ∨ x ∈ ts := by
  induction ts with
  | nil => simp [insertName]
  | cons t ts ih => grind [insertName]

theorem pairwise_insertName {s : String} {ts : List String} (h : ts.Pairwise (· < ·)) :
    (insertName s ts).Pairwise (· < ·) := by
  induction ts with
  | nil => simp [insertName]
  | cons t ts ih =>
    obtain ⟨ht, hts⟩ := List.pairwise_cons.1 h
    rw [insertName]
    split
    · next hst =>
      exact List.pairwise_cons.2 ⟨fun x hx => (List.mem_cons.1 hx).elim (fun e => e ▸ hst)
        (fun hx => String.lt_trans hst (ht x hx)), h⟩
    · split
      · exact h
      · next hst hne =>
        have hlt : t < s := Decidable.byContradiction fun hts' =>
          hne (String.le_antisymm (String.not_lt.1 hts') (String.not_lt.1 hst))
        refine List.pairwise_cons.2 ⟨fun x hx => ?_, ih hts⟩
        rcases mem_insertName.1 hx with rfl | hx
        · exact hlt
        · exact ht x hx

instance : EmptyCollection TypeSet := ⟨⟨[], .nil⟩⟩

instance : Inhabited TypeSet := ⟨∅⟩

instance : Membership String TypeSet := ⟨fun ts s => s ∈ ts.names⟩

instance (s : String) (ts : TypeSet) : Decidable (s ∈ ts) :=
  inferInstanceAs (Decidable (s ∈ ts.names))

/-- A set with one more member. -/
def insert (ts : TypeSet) (s : String) : TypeSet :=
  ⟨insertName s ts.names, pairwise_insertName ts.ascending⟩

/-- The set of the members of a list. -/
def ofList (names : List String) : TypeSet := names.foldr (fun s ts => ts.insert s) ∅

/-- Whether there is no member. -/
def isEmpty (ts : TypeSet) : Bool := ts.names.isEmpty

/-- The names that are in one of two sets. -/
def union (a b : TypeSet) : TypeSet := a.names.foldr (fun s ts => ts.insert s) b

/-- One type name as the store reads it. -/
def normalizeName (s : String) : String := Text.lowercase (Text.trim s)

/-- The names of a list as the store reads them, without those of which nothing is left. -/
def normalizeNames (names : List String) : List String :=
  (names.map normalizeName).filter (· ≠ "")

/-- The set that the store keeps for a list of type names. -/
def normalized (names : List String) : TypeSet := ofList (normalizeNames names)

/-- Whether a name of the list is in the set. -/
def meets (ts : TypeSet) (wanted : List String) : Bool := wanted.any (· ∈ ts)

theorem mem_def {s : String} {ts : TypeSet} : s ∈ ts ↔ s ∈ ts.names := Iff.rfl

@[simp] theorem names_empty : (∅ : TypeSet).names = [] := rfl

@[simp] theorem not_mem_empty (s : String) : ¬ s ∈ (∅ : TypeSet) := List.not_mem_nil

@[simp] theorem mem_insert {s x : String} {ts : TypeSet} : x ∈ ts.insert s ↔ x = s ∨ x ∈ ts :=
  mem_insertName

@[simp] theorem mem_ofList {s : String} {names : List String} : s ∈ ofList names ↔ s ∈ names := by
  induction names with
  | nil => simp [ofList]
  | cons a names ih => simpa [ofList] using or_congr_right ih

@[simp] theorem mem_union {s : String} {a b : TypeSet} : s ∈ a.union b ↔ s ∈ a ∨ s ∈ b := by
  obtain ⟨names, h⟩ := a
  change s ∈ names.foldr _ b ↔ s ∈ names ∨ s ∈ b
  clear h
  induction names with
  | nil => simp
  | cons a names ih => simp [ih, or_assoc]

theorem meets_iff {ts : TypeSet} {wanted : List String} :
    ts.meets wanted = true ↔ ∃ s ∈ wanted, s ∈ ts := by
  simp [meets]

end TypeSet

end PatternGraph
