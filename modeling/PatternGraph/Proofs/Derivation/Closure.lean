import PatternGraph.Proofs.Graph.EdgeIdentity
import PatternGraph.Rule.Grammar

/-!
# What rules demand

The edges that rules demand, said without the engine: of a set of keys and the vertices of a graph.
A rule matches two keys and three vertices if the keys lead from the first vertex over the middle one
to the last, each in the direction of its hop, and if all types are as the rule asks. It demands the
key between the two vertices that its effect names, unless they are the same vertex.

A set of keys is *closed* under some rules if it holds every key that one of them demands of it. The
more keys there are, the more a rule demands.
-/

namespace PatternGraph

/-- A set of types is what a list of types asks for: an empty list asks for nothing, and else one of
its names is in the set. -/
def TypeSet.Allows (wanted types : TypeSet) : Prop :=
  wanted = ∅ ∨ ∃ name ∈ wanted, name ∈ types

/-- A vertex is stored that has the types asked for. -/
def Graph.Holds (g : Graph) (id : String) (wanted : TypeSet) : Prop :=
  ∃ v, g.vertex? id = some v ∧ wanted.Allows v.types

/-- The vertex at a place of a rule. -/
def RulePart.pick (first middle last : String) : RulePart → String
  | .first => first
  | .middle => middle
  | .last => last

/-- A hop takes an edge of this key from the vertex on its left to the one on its right. -/
structure Hop.Leads (hop : Hop) (k : EdgeKey) (left right : String) : Prop where
  ends : match hop.direction with
    | .forward => k.source = left ∧ k.target = right
    | .backward => k.source = right ∧ k.target = left
  types : hop.edgeTypes.Allows k.types

namespace Rule

/-- Two keys of a set that lead from a first vertex over a middle one to a last, as a rule asks. -/
structure Matches (r : Rule) (g : Graph) (S : Set EdgeKey) (k₁ k₂ : EdgeKey)
    (first middle last : String) : Prop where
  mem_first : k₁ ∈ S
  mem_second : k₂ ∈ S
  leads_first : r.condition.first.Leads k₁ first middle
  leads_second : r.condition.second.Leads k₂ middle last
  holds_first : g.Holds first r.condition.first.vertexTypes
  holds_middle : g.Holds middle r.condition.middleTypes
  holds_last : g.Holds last r.condition.second.vertexTypes

/-- A rule demands a key of a set of keys: the one that its effect names, for a match with two
different ends. -/
def Demands (r : Rule) (g : Graph) (S : Set EdgeKey) (k : EdgeKey) : Prop :=
  ∃ k₁ k₂ first middle last, r.Matches g S k₁ k₂ first middle last ∧
    r.effect.source.pick first middle last ≠ r.effect.target.pick first middle last ∧
    k = ⟨r.effect.source.pick first middle last, r.effect.types,
      r.effect.target.pick first middle last⟩

/-- A set holds every key that one of the rules demands of it. -/
def Closed (rules : List Rule) (g : Graph) (S : Set EdgeKey) : Prop :=
  ∀ r ∈ rules, ∀ k, r.Demands g S k → k ∈ S

/-- A larger set is demanded more of. -/
theorem Demands.mono {r : Rule} {g : Graph} {S T : Set EdgeKey} (hST : S ⊆ T) {k : EdgeKey}
    (h : r.Demands g S k) : r.Demands g T k := by
  obtain ⟨k₁, k₂, first, middle, last, hmatch, hne, rfl⟩ := h
  exact ⟨k₁, k₂, first, middle, last,
    { hmatch with mem_first := hST hmatch.mem_first, mem_second := hST hmatch.mem_second }, hne, rfl⟩

/-- A rule that was read from text, under its own label or another. -/
def FromText (r : Rule) : Prop :=
  ∃ condition effect parsed, Rule.parse condition effect = .ok parsed ∧ r = parsed.withLabel r.label

end Rule

end PatternGraph
