import PatternGraph.Graph.SlotIndex
import PatternGraph.Graph.TypeTable

/-!
# The triple index

An edge is looked up by a triple: a type of its source, a type of its own and a type of its target.
Each place of the triple may also be left open. An edge is registered under every triple that its
types give, with each place filled or open, so an edge from a `server` to a `db` with the type
`hosts` is found under `(server, hosts, db)`, under `(server, _, db)` and so on to `(_, _, _)`.

`candidates` gives the edges registered under one of several alternatives for each place.
-/

namespace PatternGraph

/-- A triple of types, each of which may be left open. -/
structure TripleKey where
  source : Option TypeId
  edge : Option TypeId
  target : Option TypeId
deriving DecidableEq, Repr

namespace TripleKey

/-- The order of the keys: by source, then by edge, then by target. -/
def order : TripleKey → TripleKey → Ordering :=
  compareLex (compareOn source) (compareLex (compareOn edge) (compareOn target))

instance : Std.TransCmp order :=
  inferInstanceAs
    (Std.TransCmp (compareLex (compareOn source) (compareLex (compareOn edge) (compareOn target))))

instance : Std.LawfulEqCmp order where
  eq_of_compare {x y} h := by
    obtain ⟨a, b, c⟩ := x
    obtain ⟨a', b', c'⟩ := y
    simp [order, compareLex, compareOn, Ordering.then_eq_eq] at h
    simp_all

/-- The keys made from alternatives for each place. -/
def product (source edge target : List (Option TypeId)) : List TripleKey :=
  source.flatMap fun s => edge.flatMap fun e => target.map fun t => ⟨s, e, t⟩

@[simp] theorem mem_product {key : TripleKey} {source edge target : List (Option TypeId)} :
    key ∈ product source edge target ↔
      key.source ∈ source ∧ key.edge ∈ edge ∧ key.target ∈ target := by
  obtain ⟨s, e, t⟩ := key
  simp only [product, List.mem_flatMap, List.mem_map, mk.injEq]
  grind

end TripleKey

/-- The edges registered under each triple. -/
structure TripleIndex where
  index : SlotIndex TripleKey TripleKey.order := ∅

namespace TripleIndex

instance : EmptyCollection TripleIndex := ⟨{}⟩

instance : Inhabited TripleIndex := ⟨∅⟩

/-- A place that is open, or filled with one of the types. -/
def places (types : List TypeId) : List (Option TypeId) := none :: types.map some

/-- The triples under which an edge with these types is registered. -/
def keys (source edge target : List TypeId) : List TripleKey :=
  TripleKey.product (places source) (places edge) (places target)

/-- The edges registered under a triple. -/
def lookup (t : TripleIndex) (key : TripleKey) : SlotSet := t.index.lookup key

/-- Registers an edge under all triples of its types. -/
def insert (t : TripleIndex) (slot : Slot) (source edge target : List TypeId) : TripleIndex :=
  ⟨t.index.insertAll (keys source edge target) slot⟩

/-- Takes an edge off all triples of its types. -/
def erase (t : TripleIndex) (slot : Slot) (source edge target : List TypeId) : TripleIndex :=
  ⟨t.index.eraseAll (keys source edge target) slot⟩

/-- The alternatives for a place: the types asked for, or the open place if none are named. -/
def alternatives : Option (List TypeId) → List (Option TypeId)
  | none => [none]
  | some types => types.map some

/-- The edges registered under one of the alternatives for each place. -/
def candidates (t : TripleIndex) (source edge target : Option (List TypeId)) : SlotSet :=
  t.index.lookupAll
    (TripleKey.product (alternatives source) (alternatives edge) (alternatives target))

end TripleIndex

end PatternGraph
