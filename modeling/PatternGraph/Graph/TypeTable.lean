import Std.Data.TreeMap

/-!
# The table of type names

The indexes of a graph do not hold type names but numbers for them. A `TypeTable` hands the numbers
out, in the order in which names are first seen, starting at zero, and keeps both directions: from
the name to its number and from the number to its name. A name keeps its number for good.

A number is a natural number, so `TypeTable.intern` has one for every name. Where numbers have 32 bits,
a new name is refused once 2^32 names are in the table. That refusal is left out here, and so is its
error (see `GraphError`).
-/

namespace PatternGraph

/-- The number of a type name. -/
abbrev TypeId := Nat

/-- Type names and their numbers. -/
structure TypeTable where
  ids : Std.TreeMap String TypeId := ∅
  /-- The name of number `i` is at place `i`. -/
  names : Array String := #[]

namespace TypeTable

instance : EmptyCollection TypeTable := ⟨{}⟩

instance : Inhabited TypeTable := ⟨∅⟩

/-- The number of a name that is in the table. -/
def id? (t : TypeTable) (name : String) : Option TypeId := t.ids[name]?

/-- The name that has a number. -/
def name? (t : TypeTable) (id : TypeId) : Option String := t.names[id]?

/-- The number of names. -/
def size (t : TypeTable) : Nat := t.names.size

/-- Whether there is no name. -/
def isEmpty (t : TypeTable) : Bool := t.names.isEmpty

/-- The number of a name, which is put into the table if it is new. -/
def intern (t : TypeTable) (name : String) : TypeId × TypeTable :=
  match t.id? name with
  | some id => (id, t)
  | none => (t.size, ⟨t.ids.insert name t.size, t.names.push name⟩)

/-- The numbers of several names. -/
def internAll (t : TypeTable) : List String → List TypeId × TypeTable
  | [] => ([], t)
  | name :: names =>
    let (id, t) := t.intern name
    let (ids, t) := t.internAll names
    (id :: ids, t)

/-- The numbers of those names that are in the table. -/
def known (t : TypeTable) (names : List String) : List TypeId := names.filterMap t.id?

end TypeTable

end PatternGraph
