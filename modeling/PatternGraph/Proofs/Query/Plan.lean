import Mathlib.Data.List.Chain
import PatternGraph.Proofs.Pattern.Grammar
import PatternGraph.Query.Plan

/-!
# What a plan is made of

A pattern of several nodes is compiled by a walk over its chain, three members at a time. What comes out
is said here of the plan as a whole, without the walk.

* The steps fall into groups, one for each relationship in reading order. A relationship of one framing
  has a group of one step (`Step.Whole`), one whose sides differ has two (`Step.Halves`).
* Each step begins at the node at which the step before it ends. The nodes along the steps that have an
  alias are those of the pattern, in order and each once; every other node stands between the two halves
  of one relationship, asks for nothing and is not returned.

`Plan.unfolds_alternate` says this of every chain in which nodes and relationships take turns, and that
the chain of every pattern that is read from a text is one.
-/

namespace PatternGraph

/-- A chain in which nodes and relationships take turns. -/
def Pattern.alternate (first : PatternNode) (rest : List (PatternLink × PatternNode)) :
    List PatternElement :=
  .node first :: rest.flatMap fun part => [.link part.1, .node part.2]

/-- The sign of a direction that the arrow heads of a relationship give: minus one for a head on the
left side alone, one for a head on the right side alone, and zero for none or two. -/
structure Link.Points (l : Link) (sign : Int) : Prop where
  back : l.source.hasArrow = true → l.target.hasArrow = false → sign = -1
  forth : l.source.hasArrow = false → l.target.hasArrow = true → sign = 1
  either : l.source.hasArrow = l.target.hasArrow → sign = 0

theorem Link.points_ofConnectors (l : Link) :
    l.Points (Direction.ofConnectors l.source l.target).sign := by
  unfold Direction.ofConnectors
  constructor
  · intro hs ht
    simp [hs, ht, Direction.sign]
  · intro hs ht
    simp [hs, ht, Direction.sign]
  · intro heq
    cases ht : l.target.hasArrow <;> simp [heq, ht, Direction.sign]

namespace Step

/-- A step asks of its edge what a relationship names: it has the alias, the types and the negation of
the relationship. -/
structure Carries (l : PatternLink) (s : Step) : Prop where
  aliasName : s.link.aliasName = some l.aliasName
  types : ∀ name, name ∈ s.link.types ↔ name ∈ l.kind.types
  negated : s.link.negated = l.kind.isNegated

theorem carries_ofLink (l : PatternLink) (left right : NodeTest) (direction : Direction)
    (framing : Framing) : Carries l ⟨left, .ofLink l direction framing, right⟩ where
  aliasName := rfl
  types _ := TypeSet.mem_ofList
  negated := rfl

/-- The step of a relationship whose sides have one framing. -/
structure Whole (l : PatternLink) (s : Step) : Prop where
  framing : l.source.framing = l.target.framing
  carries : Carries l s
  /-- Derived edges will do if the framing is that of a path. -/
  derived : s.link.derived = true ↔ l.source.framing = .path
  points : l.Points s.link.direction.sign

/-- The two steps of a relationship whose sides differ. -/
structure Halves (l : PatternLink) (s s' : Step) : Prop where
  framing : l.source.framing ≠ l.target.framing
  carries : Carries l s ∧ Carries l s'
  /-- Derived edges will do for the half whose own side has the framing of a path. -/
  derived : (s.link.derived = true ↔ l.source.framing = .path) ∧
    (s'.link.derived = true ↔ l.target.framing = .path)
  /-- With two heads the halves lead away from the node between them. -/
  outwards : l.source.hasArrow = true → l.target.hasArrow = true →
    s.link.direction.sign = -1 ∧ s'.link.direction.sign = 1
  /-- With one head, or none, both have the direction of the relationship. -/
  points : ¬ (l.source.hasArrow = true ∧ l.target.hasArrow = true) →
    l.Points s.link.direction.sign ∧ l.Points s'.link.direction.sign
  joined : s.right = s'.left
  /-- The node between them has no name, asks for nothing and is not returned. -/
  between : s.right.aliasName = none ∧ s.right.isUnconstrained = true ∧ s.right.returned = false

/-- The steps of a relationship lead from the node on its left to the one on its right. -/
theorem ofLink_cases (left : NodeTest) (l : PatternLink) (right : NodeTest) :
    (∃ s, ofLink left l right = [s] ∧ Whole l s ∧ s.left = left ∧ s.right = right) ∨
      ∃ s s', ofLink left l right = [s, s'] ∧ Halves l s s' ∧ s.left = left ∧ s'.right = right := by
  by_cases h : l.source.framing = l.target.framing
  · have heq : ofLink left l right =
        [⟨left, .ofLink l (.ofConnectors l.source l.target) l.source.framing, right⟩] := by
      simp [ofLink, Link.isHomogeneous, h]
    refine .inl ⟨_, heq, ⟨h, carries_ofLink l left right _ _, ?_, l.points_ofConnectors⟩, rfl, rfl⟩
    simp [LinkTest.ofLink]
  · have heq : ofLink left l right =
        [⟨left, .ofLink l (splitDirections l.toLink).1 l.source.framing, .placeholder⟩,
          ⟨.placeholder, .ofLink l (splitDirections l.toLink).2 l.target.framing, right⟩] := by
      simp [ofLink, Link.isHomogeneous, h]
    refine .inr ⟨_, _, heq, ⟨h, ⟨carries_ofLink l .., carries_ofLink l ..⟩, ?_, ?_, ?_, rfl, rfl, rfl,
      rfl⟩, rfl, rfl⟩
    · simp [LinkTest.ofLink]
    · intro hs ht
      simp [splitDirections, LinkTest.ofLink, hs, ht, Direction.sign]
    · intro hnot
      have hsplit : splitDirections l.toLink =
          (.ofConnectors l.source l.target, .ofConnectors l.source l.target) := by
        simp [splitDirections, hnot]
      rw [hsplit]
      exact ⟨l.points_ofConnectors, l.points_ofConnectors⟩

/-- The nodes along some steps. -/
def stops : List Step → List NodeTest
  | [] => []
  | s :: steps => s.left :: (s :: steps).map Step.right

end Step

open Step

/-- A plan is made of the steps of a first node and the relationships and nodes that follow it. -/
structure Plan.Unfolds (first : PatternNode) (rest : List (PatternLink × PatternNode)) (p : Plan) :
    Prop where
  /-- One step for each relationship of one framing and two for each other one, in reading order, and
  nothing else. -/
  groups : ∃ groups : List (List Step), p.steps = groups.flatten ∧
    List.Forall₂ (fun part group => (∃ s, group = [s] ∧ Whole part.1 s) ∨
      ∃ s s', group = [s, s'] ∧ Halves part.1 s s') rest groups
  /-- A step begins where the one before ends. If that node has no alias, the two steps are the halves
  of one relationship. -/
  joined : p.steps.IsChain fun s s' =>
    s.right = s'.left ∧ (s.right.aliasName = none → ∃ part ∈ rest, Halves part.1 s s')
  /-- The nodes with an alias are the nodes of the pattern in order, -/
  nodes : (stops p.steps).filter (fun t => t.aliasName.isSome) =
    (first :: rest.map Prod.snd).map NodeTest.ofNode
  /-- and the two ends are among them. -/
  ends : ∀ t, t ∈ (stops p.steps).head? ∨ t ∈ (stops p.steps).getLast? → t.aliasName.isSome = true
  /-- No single node is asked for. -/
  filter : p.filter = none

/-! ### The steps of a chain -/

theorem NodeTest.aliasName_ofNode (n : PatternNode) : (ofNode n).aliasName = some n.aliasName := by
  unfold ofNode
  split <;> rfl

namespace Step

open Pattern (alternate)

variable {first : PatternNode} {rest : List (PatternLink × PatternNode)}

theorem ofChain_alternate_nil (first : PatternNode) : ofChain (alternate first []) = [] := rfl

theorem ofChain_alternate_cons (first : PatternNode) (part : PatternLink × PatternNode)
    (rest : List (PatternLink × PatternNode)) :
    ofChain (alternate first (part :: rest)) =
      ofLink (.ofNode first) part.1 (.ofNode part.2) ++ ofChain (alternate part.2 rest) := rfl

/-- There is a step behind the first node, and it begins there. -/
theorem exists_head_ofChain (first : PatternNode) (part : PatternLink × PatternNode)
    (rest : List (PatternLink × PatternNode)) :
    ∃ s steps, ofChain (alternate first (part :: rest)) = s :: steps ∧ s.left = .ofNode first := by
  rw [ofChain_alternate_cons]
  obtain ⟨s, heq, -, hleft, -⟩ | ⟨s, s', heq, -, hleft, -⟩ :=
    ofLink_cases (.ofNode first) part.1 (.ofNode part.2)
  · exact ⟨s, _, by rw [heq, List.singleton_append], hleft⟩
  · exact ⟨s, _, by rw [heq, List.cons_append], hleft⟩

theorem left_head_ofChain (first : PatternNode) (rest : List (PatternLink × PatternNode)) :
    ∀ s ∈ (ofChain (alternate first rest)).head?, s.left = .ofNode first := by
  cases rest with
  | nil => simp [ofChain_alternate_nil]
  | cons part rest =>
    obtain ⟨s, steps, heq, hleft⟩ := exists_head_ofChain first part rest
    simpa [heq] using hleft

theorem groups_ofChain (first : PatternNode) (rest : List (PatternLink × PatternNode)) :
    ∃ groups : List (List Step), ofChain (alternate first rest) = groups.flatten ∧
      List.Forall₂ (fun part group => (∃ s, group = [s] ∧ Whole part.1 s) ∨
        ∃ s s', group = [s, s'] ∧ Halves part.1 s s') rest groups := by
  induction rest generalizing first with
  | nil => exact ⟨[], rfl, .nil⟩
  | cons part rest ih =>
    obtain ⟨groups, hsteps, hgroups⟩ := ih part.2
    refine ⟨ofLink (.ofNode first) part.1 (.ofNode part.2) :: groups, ?_, .cons ?_ hgroups⟩
    · rw [ofChain_alternate_cons, hsteps, List.flatten_cons]
    · obtain ⟨s, heq, h, -⟩ | ⟨s, s', heq, h, -⟩ :=
        ofLink_cases (.ofNode first) part.1 (.ofNode part.2)
      · exact .inl ⟨s, heq, h⟩
      · exact .inr ⟨s, s', heq, h⟩

theorem joined_ofChain (first : PatternNode) (rest : List (PatternLink × PatternNode)) :
    (ofChain (alternate first rest)).IsChain fun s s' =>
      s.right = s'.left ∧ (s.right.aliasName = none → ∃ part ∈ rest, Halves part.1 s s') := by
  induction rest generalizing first with
  | nil => exact .nil
  | cons part rest ih =>
    -- what holds of the relationships behind this one holds of all
    have htail := (ih part.2).imp fun s s' h => And.imp_right
      (fun hhalves hnone => (hhalves hnone).imp fun _ hpart =>
        And.imp_left (List.mem_cons_of_mem part) hpart) h
    -- the last step of this relationship ends at a node of the pattern, where the next begins
    have hnext : ∀ s : Step, s.right = .ofNode part.2 →
        ∀ s' ∈ (ofChain (alternate part.2 rest)).head?, s.right = s'.left ∧
          (s.right.aliasName = none → ∃ p ∈ part :: rest, Halves p.1 s s') := by
      intro s hright s' hs'
      refine ⟨hright.trans (left_head_ofChain part.2 rest s' hs').symm, fun hnone => ?_⟩
      rw [hright, NodeTest.aliasName_ofNode] at hnone
      exact absurd hnone nofun
    rw [ofChain_alternate_cons]
    obtain ⟨s, heq, -, -, hright⟩ | ⟨s, s', heq, h, -, hright⟩ :=
      ofLink_cases (.ofNode first) part.1 (.ofNode part.2)
    · rw [heq]
      exact List.isChain_cons.2 ⟨hnext s hright, htail⟩
    · rw [heq]
      refine List.isChain_cons_cons.2 ⟨⟨h.joined, fun _ => ⟨part, List.mem_cons_self, h⟩⟩, ?_⟩
      exact List.isChain_cons.2 ⟨hnext s' hright, htail⟩

/-- Of the nodes at which the steps arrive, those with an alias are the nodes behind the first. -/
theorem rights_ofChain (first : PatternNode) (rest : List (PatternLink × PatternNode)) :
    ((ofChain (alternate first rest)).map Step.right).filter (fun t => t.aliasName.isSome) =
      rest.map fun part => .ofNode part.2 := by
  induction rest generalizing first with
  | nil => rfl
  | cons part rest ih =>
    rw [ofChain_alternate_cons, List.map_append, List.filter_append, ih, List.map_cons]
    obtain ⟨s, heq, -, -, hright⟩ | ⟨s, s', heq, h, -, hright⟩ :=
      ofLink_cases (.ofNode first) part.1 (.ofNode part.2)
    · simp [heq, hright, NodeTest.aliasName_ofNode]
    · simp [heq, h.between.1, hright, NodeTest.aliasName_ofNode]

/-- The steps end at a node of the pattern. -/
theorem right_getLast_ofChain (first : PatternNode) (rest : List (PatternLink × PatternNode)) :
    ∀ s ∈ (ofChain (alternate first rest)).getLast?, s.right.aliasName.isSome = true := by
  induction rest generalizing first with
  | nil => simp [ofChain_alternate_nil]
  | cons part rest ih =>
    have hlast : ∀ s ∈ (ofLink (.ofNode first) part.1 (.ofNode part.2)).getLast?,
        s.right = .ofNode part.2 := by
      obtain ⟨s, heq, -, -, hright⟩ | ⟨s, s', heq, -, -, hright⟩ :=
        ofLink_cases (.ofNode first) part.1 (.ofNode part.2)
      · simpa [heq] using hright
      · simpa [heq] using hright
    intro s hs
    rw [ofChain_alternate_cons, List.getLast?_append, Option.mem_def, Option.or_eq_some_iff] at hs
    rcases hs with hs | ⟨-, hs⟩
    · exact ih part.2 s hs
    · rw [hlast s hs, NodeTest.aliasName_ofNode]
      rfl

theorem stops_ofChain (first : PatternNode) (part : PatternLink × PatternNode)
    (rest : List (PatternLink × PatternNode)) :
    stops (ofChain (alternate first (part :: rest))) =
      .ofNode first :: (ofChain (alternate first (part :: rest))).map Step.right := by
  obtain ⟨s, steps, heq, hleft⟩ := exists_head_ofChain first part rest
  rw [heq, stops, hleft]

end Step

namespace Plan

open Pattern (alternate)

theorem plan_of_chain {p : Pattern} {first : PatternNode} {part : PatternLink × PatternNode}
    {rest : List (PatternLink × PatternNode)} (h : p.chain = alternate first (part :: rest)) :
    p.plan = ⟨ofChain (alternate first (part :: rest)), none⟩ := by
  unfold Pattern.plan
  rw [h]
  rfl

theorem unfolds_of_chain {p : Pattern} {first : PatternNode} {part : PatternLink × PatternNode}
    {rest : List (PatternLink × PatternNode)} (h : p.chain = alternate first (part :: rest)) :
    p.plan.Unfolds first (part :: rest) := by
  rw [plan_of_chain h]
  refine ⟨groups_ofChain first _, joined_ofChain first _, ?_, ?_, rfl⟩
  · rw [stops_ofChain, List.filter_cons_of_pos (by rw [NodeTest.aliasName_ofNode]; rfl), rights_ofChain]
    simp
  · intro t ht
    rw [stops_ofChain] at ht
    rcases ht with ht | ht
    · obtain rfl : NodeTest.ofNode first = t := by simpa using ht
      rw [NodeTest.aliasName_ofNode]
      rfl
    · rw [List.getLast?_cons, List.getLast?_map] at ht
      cases hlast : (ofChain (alternate first (part :: rest))).getLast? with
      | none =>
        rw [hlast] at ht
        obtain rfl : NodeTest.ofNode first = t := by simpa using ht
        rw [NodeTest.aliasName_ofNode]
        rfl
      | some s =>
        rw [hlast] at ht
        obtain rfl : s.right = t := by simpa using ht
        exact right_getLast_ofChain first _ s hlast

/-- Nodes and relationships take turns in the pattern of some parts. -/
theorem exists_alternate_ofParts (first : NodeKind) (rest : List (Link × NodeKind)) :
    ∃ (n : PatternNode) (parts : List (PatternLink × PatternNode)),
      (Pattern.ofParts first rest).chain = alternate n parts ∧ n.kind = first ∧
        parts.map (fun part => (part.1.toLink, part.2.kind)) = rest := by
  refine ⟨⟨Pattern.nodeAlias 0, first⟩, rest.zipIdx.map fun part =>
    (⟨part.1.1, Pattern.linkAlias ((rest.take part.2).map Prod.fst) part.1.1⟩,
      ⟨Pattern.nodeAlias (part.2 + 1), part.1.2⟩), ?_, rfl, ?_⟩
  · rw [Pattern.chain_ofParts, alternate, List.flatMap_map]
    rfl
  · rw [List.map_map]
    exact List.zipIdx_map_fst 0 rest

/-- The plan of a first node and at least one relationship has the steps of a chain. -/
theorem exists_chain_ofParts (first : NodeKind) {rest : List (Link × NodeKind)} (h : rest ≠ []) :
    ∃ (n : PatternNode) (part : PatternLink × PatternNode) (parts : List (PatternLink × PatternNode)),
      (Pattern.ofParts first rest).plan = ⟨ofChain (alternate n (part :: parts)), none⟩ ∧
        n.kind = first ∧ (part :: parts).map (fun part => (part.1.toLink, part.2.kind)) = rest := by
  obtain ⟨n, parts, hchain, hfirst, hrest⟩ := exists_alternate_ofParts first rest
  cases parts with
  | nil => exact absurd hrest.symm h
  | cons part parts => exact ⟨n, part, parts, plan_of_chain hchain, hfirst, hrest⟩

/-- Nodes and relationships take turns in a pattern that is read from a text. -/
theorem exists_alternate_of_parse {text : String} {p : Pattern} (h : Pattern.parse text = .ok p) :
    ∃ first rest, p.chain = alternate first rest := by
  obtain ⟨first, rest, -, -, -, rfl⟩ := Pattern.parse_eq_ok.1 h
  obtain ⟨n, parts, heq, -⟩ := exists_alternate_ofParts first rest
  exact ⟨n, parts, heq⟩

/-- In a chain of at least one relationship in which nodes and relationships take turns, each
relationship unfolds into its steps, in order and joined at the nodes; and in a pattern that is read
from a text nodes and relationships take turns. -/
theorem unfolds_alternate :
    (∀ (first : PatternNode) (part : PatternLink × PatternNode)
        (rest : List (PatternLink × PatternNode)) (terms : AliasTable),
      (Pattern.mk (alternate first (part :: rest)) terms).plan.Unfolds first (part :: rest)) ∧
    ∀ text p, Pattern.parse text = .ok p → ∃ first rest, p.chain = alternate first rest := by
  refine ⟨fun first part rest terms => unfolds_of_chain rfl, fun text p hparse => ?_⟩
  exact exists_alternate_of_parse hparse

/-- A relationship whose sides differ, between two nodes. -/
def mixedChain : List PatternElement :=
  alternate ⟨"n0", .typed ["a"]⟩
    [(⟨⟨.typed ["t"] false, ⟨.bonded, .absent⟩, ⟨.path, .right⟩⟩, "r0"⟩, ⟨"n1", .typed ["b"]⟩)]

/-- The relationship of a pattern that is read from a text has two halves. -/
theorem unfolds_alternate_mixed :
    Pattern.parse "?(a)-[t]=>(b)" = .ok ⟨mixedChain, ∅⟩ ∧
      (∃ first rest, mixedChain = alternate first rest) ∧
      (Pattern.mk mixedChain ∅).plan.Unfolds ⟨"n0", .typed ["a"]⟩
        [(⟨⟨.typed ["t"] false, ⟨.bonded, .absent⟩, ⟨.path, .right⟩⟩, "r0"⟩, ⟨"n1", .typed ["b"]⟩)] := by
  have hparse : Pattern.parse "?(a)-[t]=>(b)" = .ok ⟨mixedChain, ∅⟩ := by decide +kernel
  exact ⟨hparse, unfolds_alternate.2 _ _ hparse, unfolds_alternate.1 _ _ _ _⟩

end Plan

end PatternGraph
