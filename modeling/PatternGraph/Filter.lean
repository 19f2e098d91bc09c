import PatternGraph.Edge.Basic
import PatternGraph.Text.Search
import PatternGraph.Vertex

/-!
# Filters

A vertex filter asks for up to three things: that the id is in a list, that one of the types is in a
list, that the name holds a text. An edge filter asks for up to two: that one of the types is in a
list, or that none is, and that the edge is in scope.

Types and texts are asked for as the store reads them. A list of types of which nothing is left, and
an empty text, ask for nothing. An empty list of ids is not that: no vertex has an id in it.
-/

namespace PatternGraph

/-- The types that a list asks for, unless it asks for none. -/
def wantedTypes (types : Option (List String)) : Option (List String) :=
  match TypeSet.normalizeNames (types.getD []) with
  | [] => none
  | names => some names

/-- What a vertex is asked for. -/
structure VertexFilter where
  /-- The vertex has one of these ids. -/
  ids : Option (List String) := none
  /-- The vertex has one of these types. -/
  types : Option (List String) := none
  /-- The name of the vertex holds this text, letter case aside. -/
  searchTerm : Option String := none
deriving DecidableEq, Repr, Inhabited

namespace VertexFilter

/-- The types that are asked for, as the store reads them. -/
def wantedTypes (f : VertexFilter) : Option (List String) := PatternGraph.wantedTypes f.types

/-- The text that the name has to hold, in lower case. -/
def wantedName (f : VertexFilter) : Option String :=
  (f.searchTerm.map Text.lowercase).filter (· ≠ "")

/-- Whether the filter asks for nothing. -/
def isEmpty (f : VertexFilter) : Bool :=
  f.ids.isNone && f.wantedTypes.isNone && f.wantedName.isNone

end VertexFilter

/-- What a vertex filter asks for beside the id, as the store reads it. -/
structure VertexTest where
  types : Option (List String)
  name : Option String

namespace VertexTest

/-- What a filter asks for beside the id. -/
def of (f : VertexFilter) : VertexTest := ⟨f.wantedTypes, f.wantedName⟩

/-- Whether a vertex has one of the types and holds the text in its name. -/
def admits (t : VertexTest) (v : Vertex) : Bool :=
  (t.types.all fun wanted => v.types.meets wanted) &&
    (t.name.all fun name => Text.holds (Text.lowercase v.name) name)

end VertexTest

/-- Which edges are looked at. -/
inductive EdgeScope where
  | all
  | assertedOnly
  | derivedOnly
  /-- A name that is not known: no edge is in this scope. -/
  | unrecognized (name : String)
deriving DecidableEq, Repr, Inhabited

namespace EdgeScope

/-- The name of a scope. -/
def name : EdgeScope → String
  | all => "ALL"
  | assertedOnly => "NON_DERIVED_ONLY"
  | derivedOnly => "DERIVED_ONLY"
  | unrecognized name => name

/-- The scope of a name, in which the case of the letters `a` to `z` does not matter. -/
def ofName (s : String) : EdgeScope :=
  let upper := Text.asciiUppercase s
  if upper = "ALL" then all
  else if upper = "NON_DERIVED_ONLY" then assertedOnly
  else if upper = "DERIVED_ONLY" then derivedOnly
  else unrecognized s

/-- Whether the name of the scope is known. -/
def isKnown : EdgeScope → Bool
  | unrecognized _ => false
  | _ => true

/-- Whether an edge is in scope, by whether it is derived. -/
def admits (s : EdgeScope) (derived : Bool) : Bool :=
  match s with
  | all => true
  | assertedOnly => !derived
  | derivedOnly => derived
  | unrecognized _ => false

end EdgeScope

/-- What an edge is asked for. -/
structure EdgeFilter where
  /-- The edge has one of these types; none of them, if the filter is negated. -/
  types : Option (List String) := none
  scope : EdgeScope := .all
  negated : Bool := false
deriving DecidableEq, Repr, Inhabited

/-- What an edge filter asks for beside the ends, as the store reads it. -/
structure EdgeTest where
  types : Option (List String)
  scope : EdgeScope
  negated : Bool

namespace EdgeTest

/-- What a filter asks for. -/
def of (f : EdgeFilter) : EdgeTest := ⟨wantedTypes f.types, f.scope, f.negated⟩

/-- Whether an edge is in scope and has one of the types, or none of them for a negated filter. -/
def admits (t : EdgeTest) (derived : Bool) (types : TypeSet) : Bool :=
  t.scope.admits derived && t.types.all fun wanted => types.meets wanted != t.negated

end EdgeTest

end PatternGraph
