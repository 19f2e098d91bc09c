import PatternGraph.Edge.Basic

/-!
# Edge builders

A builder makes the edge that a rule derives from its two ends, its types, its name in another
system and how it came about. It may decline. A builder of the caller's own is tried once on sample
values before it is used; the edge that it gives has to have an id, the ends that were asked for,
and types.
-/

namespace PatternGraph

/-- A way to make a derived edge: from its source, target, types, name in another system and
derivation. -/
abbrev EdgeBuilder :=
  String → String → TypeSet → Option String → List String → Option Edge

/-- What is wrong with a builder. -/
inductive BuilderFault where
  | noEdge
  | emptyId
  | wrongEnds
  | noTypes
deriving DecidableEq, Repr

/-- The message of a fault. -/
def BuilderFault.message : BuilderFault → String
  | noEdge => "InvalidEdgeBuilder: builder returned no edge"
  | emptyId => "InvalidEdgeBuilder: edge has an empty id"
  | wrongEnds => "InvalidEdgeBuilder: edge endpoints do not match the requested ones"
  | noTypes => "InvalidEdgeBuilder: edge has no types"

namespace EdgeBuilder

/-- The builder that is used if there is no other. -/
def standard : EdgeBuilder := fun source target types externalId derivation =>
  some (Edge.build source target types.names externalId derivation)

/-- What is wrong with the edge that a builder gives for the sample values. -/
def check (build : EdgeBuilder) : Except BuilderFault Unit :=
  match build "probe-source" "probe-target" (.ofList ["probe"]) (some "probe-external")
      ["probe-rule"] with
  | none => .error .noEdge
  | some e =>
    if e.id = "" then .error .emptyId
    else if e.source ≠ "probe-source" ∨ e.target ≠ "probe-target" then .error .wrongEnds
    else if e.types.isEmpty then .error .noTypes
    else .ok ()

end EdgeBuilder

end PatternGraph
