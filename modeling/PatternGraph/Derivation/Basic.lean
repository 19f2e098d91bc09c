import PatternGraph.Derivation.Builder
import PatternGraph.Message
import PatternGraph.Repository.Basic
import PatternGraph.Rule.Grammar
import PatternGraph.Text.Lowercase

/-!
# Derivation

Rules are applied to a repository in passes. A pass applies each rule once, in order, and a rule
sees the edges that the rules before it have added. The passes end when one of them adds nothing, or
when as many have run as were allowed.

To apply a rule, its first hop is looked up, and then its second hop from the middle vertices that
the first has reached. Each pair of edges that meet in a middle vertex is a match. For a match whose
derived edge has two different ends, the edge is built and added; one that is there already stays as
it is. A failure concerns no more than what it happens to: if a hop cannot be looked up, the rule is
passed over for this time, and if an edge cannot be built or added, that match is.
-/

namespace PatternGraph

/-- The number of passes that are allowed if nobody says otherwise. -/
def defaultPasses : Nat := 5

/-- What a derivation reports. -/
inductive DerivationNotice where
  /-- A hop of the rule of this label could not be looked up. -/
  | ruleSkipped (label : String) (error : GraphError)
  /-- The builder made no edge between these two vertices. -/
  | declined (source target : String)
  /-- The edge between these two vertices was refused. -/
  | refused (source target : String) (error : GraphError)
  /-- The derivation is over. -/
  | finished (passes added skipped : Nat)
deriving DecidableEq, Repr

/-- The message of a notice. -/
def DerivationNotice.message : DerivationNotice → Message
  | ruleSkipped label error => ⟨.warning, "rule `" ++ label ++ "` skipped: " ++ error.message⟩
  | declined source target => ⟨.warning, "edge builder declined " ++ source ++ " -> " ++ target⟩
  | refused source target error =>
    ⟨.warning, "derived edge " ++ source ++ " -> " ++ target ++ " skipped: " ++ error.message⟩
  | finished passes added skipped =>
    ⟨.info, "derivation finished after " ++ Nat.repr passes ++ " pass(es): " ++ Nat.repr added ++
      " edge(s) added, " ++ Nat.repr skipped ++ " skipped"⟩

namespace Hop

/-- The edges that the hop asks for. -/
def edgeFilter (h : Hop) : EdgeFilter :=
  { types := if h.edgeTypes.isEmpty then none else some h.edgeTypes.names }

/-- The ends of an edge in reading order. -/
def ends (h : Hop) (e : Edge) : String × String :=
  match h.direction with
  | .forward => (e.source, e.target)
  | .backward => (e.target, e.source)

/-- The edges of the hop between vertices that two filters admit, in reading order. -/
def select {σ : Type} [Repository σ] (h : Hop) (left right : VertexFilter) : Action σ (List Edge) :=
  match h.direction with
  | .forward => Repository.selectEdges (some left) h.edgeFilter (some right)
  | .backward => Repository.selectEdges (some right) h.edgeFilter (some left)

end Hop

/-- The vertices that have one of some types, or all vertices if there are none. -/
def VertexFilter.ofTypes (types : TypeSet) : VertexFilter :=
  { types := if types.isEmpty then none else some types.names }

/-- Two edges that meet, and the three vertices at them. -/
structure Match where
  firstEdge : Edge
  secondEdge : Edge
  first : String
  middle : String
  last : String
deriving DecidableEq, Repr

/-- The vertex at a place of the rule. -/
def Match.vertex (m : Match) : RulePart → String
  | .first => m.first
  | .middle => m.middle
  | .last => m.last

namespace Rule

/-- The matches among the edges of the two hops, by the second edge and then by the first. -/
def matchesOf (r : Rule) (firstEdges secondEdges : List Edge) : List Match :=
  secondEdges.flatMap fun e₂ =>
    let (middle, last) := r.condition.second.ends e₂
    firstEdges.filterMap fun e₁ =>
      let (first, reached) := r.condition.first.ends e₁
      if reached = middle then some ⟨e₁, e₂, first, middle, last⟩ else none

/-- Whether the edge that the rule derives from a match has two different ends. -/
def applies (r : Rule) (m : Match) : Bool := m.vertex r.effect.source != m.vertex r.effect.target

/-- The middle vertices that the edges of the first hop reach, each once. -/
def middles (r : Rule) (firstEdges : List Edge) : List String :=
  (firstEdges.map fun e => (r.condition.first.ends e).2).eraseDups

end Rule

/-- A derivation under way. -/
structure DerivationRun (σ : Type) where
  store : σ
  /-- The number of edges added so far. -/
  added : Nat := 0
  /-- The number of matches so far whose edge could not be built or added. -/
  skipped : Nat := 0
  /-- The notices so far, in order. -/
  notices : List DerivationNotice := []

namespace DerivationRun

variable {σ : Type} [Repository σ]

/-- The run with one notice more. -/
def note (run : DerivationRun σ) (n : DerivationNotice) : DerivationRun σ :=
  { run with notices := run.notices ++ [n] }

/-- Builds and adds the edge that a rule derives from a match. -/
def addMatch (build : EdgeBuilder) (r : Rule) (run : DerivationRun σ) (m : Match) :
    DerivationRun σ :=
  let source := m.vertex r.effect.source
  let target := m.vertex r.effect.target
  match build source target r.effect.types none [r.label, m.firstEdge.id, m.secondEdge.id] with
  | none => { run.note (.declined source target) with skipped := run.skipped + 1 }
  | some e =>
    match Repository.addEdge e run.store with
    | (.ok result, store) =>
      { run with store, added := if result.inserted then run.added + 1 else run.added }
    | (.error error, store) =>
      { run.note (.refused source target error) with store, skipped := run.skipped + 1 }

/-- Applies a rule. -/
def applyRule (build : EdgeBuilder) (run : DerivationRun σ) (r : Rule) : DerivationRun σ :=
  let middle := VertexFilter.ofTypes r.condition.middleTypes
  match r.condition.first.select (.ofTypes r.condition.first.vertexTypes) middle run.store with
  | (.error error, store) => { run.note (.ruleSkipped r.label error) with store }
  | (.ok [], store) => { run with store }
  | (.ok firstEdges, store) =>
    let reached := { middle with ids := some (r.middles firstEdges) }
    match r.condition.second.select reached (.ofTypes r.condition.second.vertexTypes) store with
    | (.error error, store) => { run.note (.ruleSkipped r.label error) with store }
    | (.ok secondEdges, store) =>
      ((r.matchesOf firstEdges secondEdges).filter r.applies).foldl (addMatch build r)
        { run with store }

/-- Applies each rule once. -/
def pass (build : EdgeBuilder) (rules : List Rule) (run : DerivationRun σ) : DerivationRun σ :=
  rules.foldl (applyRule build) run

/-- Runs up to a number of passes, and tells how many it were. -/
def passes (build : EdgeBuilder) (rules : List Rule) : Nat → DerivationRun σ → Nat × DerivationRun σ
  | 0, run => (0, run)
  | n + 1, run =>
    let after := run.pass build rules
    if after.added = run.added then (1, after)
    else
      let (count, last) := passes build rules n after
      (count + 1, last)

end DerivationRun

/-- What came of a derivation. -/
structure DerivationReport where
  passes : Nat
  added : Nat
  skipped : Nat
deriving DecidableEq, Repr

/-- Why a derivation cannot start. -/
inductive DerivationError where
  | rule (e : RuleError)
  | builder (f : BuilderFault)
deriving DecidableEq, Repr

/-- The message of an error. -/
def DerivationError.message : DerivationError → String
  | rule e => e.message
  | builder f => f.message

/-- Rules and a way to build the edges that they derive. -/
structure Derivation where
  rules : List Rule
  build : EdgeBuilder

namespace Derivation

/-- A derivation with some rules. A builder of the caller's own is checked first. -/
def of (rules : List Rule) (build : Option EdgeBuilder) : Except DerivationError Derivation :=
  match build with
  | none => .ok ⟨rules, .standard⟩
  | some build =>
    match build.check with
    | .ok () => .ok ⟨rules, build⟩
    | .error f => .error (.builder f)

/-- A derivation with the rules that pairs of texts denote. -/
def parse (texts : List (String × String)) : Except DerivationError Derivation := do
  let rules ← texts.mapM fun (condition, effect) =>
    (Rule.parse condition effect).mapError DerivationError.rule
  of rules none

/-- The places in the list of those rules that look for edges of a type. Letter case does not matter
in the type. -/
def rulesFor (d : Derivation) (edgeType : String) : List Nat :=
  let name := Text.lowercase edgeType
  (d.rules.zipIdx.filter fun (r, _) => name ∈ r.edgeTypes).map Prod.snd

/-- Applies the rules in up to `maxPasses` passes. -/
def derive {σ : Type} [Repository σ] (d : Derivation) (maxPasses : Nat) (store : σ) :
    DerivationReport × List DerivationNotice × σ :=
  let (count, run) := DerivationRun.passes d.build d.rules maxPasses { store }
  (⟨count, run.added, run.skipped⟩, run.notices ++ [.finished count run.added run.skipped],
    run.store)

end Derivation

end PatternGraph
