import PatternGraph.Edge.Key

/-!
# Edges

A directed edge between two vertices. An edge that a rule derived holds how it came about: the label
of the rule, then the ids of the edges that the rule matched. An edge that was asserted holds
nothing there.
-/

namespace PatternGraph

/-- A directed, typed edge. -/
structure Edge where
  /-- The text of the edge's key, once the edge is stored. -/
  id : String := ""
  source : String
  target : String
  types : TypeSet := ∅
  /-- The rule and the edges that the edge was derived from; empty for an asserted edge. -/
  derivation : List String := []
  /-- The name of the edge in another system. -/
  externalId : Option String := none
deriving DecidableEq, Repr, Inhabited

namespace Edge

/-- What the edge is known by. -/
def key (e : Edge) : EdgeKey := ⟨e.source, e.types, e.target⟩

/-- Whether a rule derived the edge. -/
def isDerived (e : Edge) : Bool := !e.derivation.isEmpty

/-- The edge as the store keeps it: with normalized types, and named by its key. -/
def normalize (e : Edge) : Edge :=
  let types := TypeSet.normalized e.types.names
  { e with types, id := EdgeKey.text ⟨e.source, types, e.target⟩ }

/-- The edge between two vertices with the types that the store reads from a list. -/
def build (source target : String) (types : List String) (externalId : Option String)
    (derivation : List String) : Edge :=
  let types := TypeSet.normalized types
  { id := EdgeKey.text ⟨source, types, target⟩, source, target, types, derivation, externalId }

/-- An asserted edge without a name in another system. -/
def of (source target : String) (types : List String) : Edge := build source target types none []

@[simp] theorem source_normalize (e : Edge) : e.normalize.source = e.source := rfl

@[simp] theorem target_normalize (e : Edge) : e.normalize.target = e.target := rfl

@[simp] theorem types_normalize (e : Edge) :
    e.normalize.types = .normalized e.types.names := rfl

@[simp] theorem derivation_normalize (e : Edge) : e.normalize.derivation = e.derivation := rfl

theorem id_normalize (e : Edge) : e.normalize.id = e.normalize.key.text := rfl

end Edge

end PatternGraph
