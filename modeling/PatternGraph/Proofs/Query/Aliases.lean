import PatternGraph.Proofs.Query.Plan
import PatternGraph.Query.Run

/-!
# Aliases do not matter

Nodes and relationships are given aliases as they are read, and the steps of a plan carry them. A query
never looks at them: `Plan.run_unnamed` says that a plan without aliases gives the same answer in every
repository, be it a failure. So plans can be compared by their steps without aliases, and these depend
on no more than the nodes and the relationships of the pattern, `Plan.unnamed_ofParts`.
-/

namespace PatternGraph

/-- A node without its alias. -/
def NodeTest.unnamed (t : NodeTest) : NodeTest := { t with aliasName := none }

/-- A link without its alias. -/
def LinkTest.unnamed (t : LinkTest) : LinkTest := { t with aliasName := none }

/-- A step without aliases. -/
def Step.unnamed (s : Step) : Step := ⟨s.left.unnamed, s.link.unnamed, s.right.unnamed⟩

/-- A plan without aliases. -/
def Plan.unnamed (p : Plan) : Plan := ⟨p.steps.map Step.unnamed, p.filter.map NodeTest.unnamed⟩

/-! ### The steps of a pattern, without aliases -/

namespace Step

/-- The steps of a relationship between two nodes, without aliases. -/
def bareLink (left : NodeKind) (l : Link) (right : NodeKind) : List Step :=
  (ofLink (.ofNode ⟨"", left⟩) ⟨l, ""⟩ (.ofNode ⟨"", right⟩)).map unnamed

/-- The steps of a first node and the relationships and nodes behind it, without aliases. -/
def bare : NodeKind → List (Link × NodeKind) → List Step
  | _, [] => []
  | first, (l, kind) :: rest => bareLink first l kind ++ bare kind rest

theorem unnamed_ofNode (n : PatternNode) :
    (NodeTest.ofNode n).unnamed = (NodeTest.ofNode ⟨"", n.kind⟩).unnamed := by
  obtain ⟨aliasName, kind⟩ := n
  cases kind <;> rfl

theorem map_unnamed_ofLink (n : PatternNode) (l : PatternLink) (m : PatternNode) :
    (ofLink (.ofNode n) l (.ofNode m)).map unnamed = bareLink n.kind l.toLink m.kind := by
  obtain ⟨l, aliasName⟩ := l
  unfold bareLink ofLink
  cases hsame : l.isHomogeneous with
  | true =>
    simp only [if_true, List.map_cons, List.map_nil, unnamed]
    rw [unnamed_ofNode n, unnamed_ofNode m]
    rfl
  | false =>
    simp only [Bool.false_eq_true, if_false, List.map_cons, List.map_nil, unnamed]
    rw [unnamed_ofNode n, unnamed_ofNode m]
    rfl

theorem map_unnamed_ofChain (n : PatternNode) (parts : List (PatternLink × PatternNode)) :
    (ofChain (Pattern.alternate n parts)).map unnamed =
      bare n.kind (parts.map fun part => (part.1.toLink, part.2.kind)) := by
  induction parts generalizing n with
  | nil => rfl
  | cons part parts ih =>
    rw [ofChain_alternate_cons, List.map_append, map_unnamed_ofLink, ih]
    rfl

end Step

namespace Plan

theorem unnamed_ofParts (first : NodeKind) {rest : List (Link × NodeKind)} (h : rest ≠ []) :
    (Pattern.ofParts first rest).plan.unnamed = ⟨Step.bare first rest, none⟩ := by
  obtain ⟨n, part, parts, hplan, rfl, rfl⟩ := exists_chain_ofParts first h
  rw [hplan, unnamed, Step.map_unnamed_ofChain]
  rfl

end Plan

/-! ### Running without aliases -/

section

variable {σ : Type} [Repository σ]

theorem Step.run_unnamed (step : Step) (start : Option (List String)) :
    (step.unnamed.run start : Action σ (List Hit)) = step.run start := rfl

theorem Step.runAll_unnamed (steps : List Step) (start : Option (List String)) :
    (Step.runAll (steps.map Step.unnamed) start : Action σ _) = Step.runAll steps start := by
  induction steps generalizing start with
  | nil => rfl
  | cons step steps ih => simp only [List.map_cons, Step.runAll, Step.run_unnamed, ih]

namespace Plan

theorem returnedFlags_unnamed (steps : List Step) :
    returnedFlags (steps.map Step.unnamed) = returnedFlags steps := by
  cases steps with
  | nil => rfl
  | cons step steps =>
    rw [List.map_cons, returnedFlags, returnedFlags, ← List.map_cons, List.map_map]
    rfl

/-- A plan gives the same answer without aliases. -/
theorem run_unnamed (p : Plan) (mode : OutputMode) (start : Option (List String)) :
    (p.unnamed.run mode start : Action σ Answer) = p.run mode start := by
  have hsteps : p.unnamed.hasSteps = p.hasSteps := by simp [hasSteps, unnamed]
  have hfilter : p.unnamed.filter.map VertexFilter.ofNodeTest =
      p.filter.map VertexFilter.ofNodeTest := by
    rw [unnamed, Option.map_map]
    rfl
  simp only [run, hsteps, runSteps, runFilter, hfilter]
  simp only [unnamed, Step.runAll_unnamed, returnedFlags_unnamed]

/-- Plans that differ in aliases only give the same answers. -/
theorem run_of_unnamed {p p' : Plan} (h : p'.unnamed = p.unnamed) (mode : OutputMode)
    (start : Option (List String)) : (p'.run mode start : Action σ Answer) = p.run mode start := by
  rw [← run_unnamed p', h, run_unnamed]

end Plan

end

end PatternGraph
