import PatternGraph.TypeSet

/-!
# Vertices

A vertex has an identity, a display name and a set of types. `Vertex.of` makes one from a list of
type names as they were written.
-/

namespace PatternGraph

/-- A labelled vertex. -/
structure Vertex where
  id : String
  name : String
  types : TypeSet := ∅
deriving DecidableEq, Repr, Inhabited

namespace Vertex

/-- The vertex with the types that the store reads from a list. -/
def of (id name : String) (types : List String) : Vertex := ⟨id, name, .normalized types⟩

/-- The vertex as the store keeps it. -/
def normalize (v : Vertex) : Vertex := { v with types := .normalized v.types.names }

@[simp] theorem id_normalize (v : Vertex) : v.normalize.id = v.id := rfl

@[simp] theorem name_normalize (v : Vertex) : v.normalize.name = v.name := rfl

end Vertex

end PatternGraph
