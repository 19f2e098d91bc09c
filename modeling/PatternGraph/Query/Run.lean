import PatternGraph.Message
import PatternGraph.Query.Answer
import PatternGraph.Query.Plan
import PatternGraph.Repository.Basic

/-!
# Running a query

The steps of a plan are run from left to right. A step asks for the edges between the vertices of
its two ends; from the second step on, the vertices to start from are those at which the step before
arrived. A step that finds nothing ends the query. The edges found are then joined to walks, each of
which goes on with every edge that starts where it has arrived.

Of the walks that return the same vertices only the first is kept. A kept walk becomes a path: the
vertices that are returned, and all edges.

A plan without steps selects the vertices of its only node.
-/

namespace PatternGraph

/-- The members of a list with the first of each key. -/
def firstOfEach {α κ : Type} [DecidableEq κ] (key : α → κ) : List α → List κ → List α
  | [], _ => []
  | a :: as, seen =>
    let k := key a
    if k ∈ seen then firstOfEach key as seen else a :: firstOfEach key as (k :: seen)

/-- What a node test asks for, as a filter. -/
def VertexFilter.ofNodeTest (t : NodeTest) : VertexFilter :=
  { types := if t.types.isEmpty then none else some t.types.names
    searchTerm := t.searchTerm }

/-- What a link test asks for, as a filter. -/
def EdgeFilter.ofLinkTest (t : LinkTest) : EdgeFilter :=
  { types := if t.types.isEmpty then none else some t.types.names
    scope := if t.derived then .all else .assertedOnly
    negated := t.negated }

/-- An edge that a step found, and its ends in the direction of the walk. -/
structure Hit where
  edge : Edge
  entry : String
  exit : String
deriving DecidableEq, Repr

/-- An edge walked from its source to its target. -/
def Hit.along (e : Edge) : Hit := ⟨e, e.source, e.target⟩

/-- An edge walked from its target to its source. -/
def Hit.against (e : Edge) : Hit := ⟨e, e.target, e.source⟩

namespace Action

variable {σ α β : Type}

/-- One step and then another that depends on its result. -/
def andThen (first : Action σ α) (next : α → Action σ β) : Action σ β := fun s =>
  match first s with
  | (.ok a, s) => next a s
  | (.error e, s) => (.error e, s)

/-- A step that does nothing and gives a value. -/
def give (a : α) : Action σ α := fun s => (.ok a, s)

end Action

namespace Step

variable {σ : Type} [Repository σ]

/-- The edges of a step in one direction, if the step goes that way. -/
def lookAlong (wanted : Bool) (source : VertexFilter) (edge : EdgeFilter) (target : VertexFilter) :
    Action σ (List Edge) :=
  if wanted then Repository.selectEdges (some source) edge (some target) else .give []

/-- The edges that a step finds, from the vertices of some ids or from any. An edge found in both
directions from the same vertex counts once. -/
def run (step : Step) (start : Option (List String)) : Action σ (List Hit) :=
  let entry := { VertexFilter.ofNodeTest step.left with ids := start }
  let exit := VertexFilter.ofNodeTest step.right
  let edge := EdgeFilter.ofLinkTest step.link
  (lookAlong (step.link.direction != .left) entry edge exit).andThen fun forward =>
  (lookAlong (step.link.direction != .right) exit edge entry).andThen fun backward =>
  .give (firstOfEach (fun h => (h.edge.id, h.entry))
    (forward.map .along ++ backward.map .against) [])

/-- The edges that each of some steps finds, unless one of them finds none. -/
def runAll : List Step → Option (List String) → Action σ (Option (List (List Hit)))
  | [], _ => .give (some [])
  | step :: steps, start =>
    (step.run start).andThen fun hits =>
    if hits.isEmpty then .give none
    else (runAll steps (some (hits.map Hit.exit).eraseDups)).andThen fun rest =>
      .give (rest.map (hits :: ·))

end Step

/-- A walk: edges each of which starts where the one before arrives. -/
abbrev Walk := List Hit

namespace Walk

/-- The walks that take one edge of each stage, and that start at a vertex if one is given. -/
def all : List (List Hit) → Option String → List Walk
  | [], _ => [[]]
  | stage :: stages, start =>
    (stage.filter fun h => start.all (h.entry == ·)).flatMap fun h =>
      (all stages (some h.exit)).map (h :: ·)

/-- The ids of the vertices of a walk. -/
def vertexIds : Walk → List String
  | [] => []
  | h :: hs => h.entry :: (h :: hs).map Hit.exit

/-- The ids of the vertices that are returned. A flag for each vertex says whether it is. -/
def returnedIds (returned : List Bool) (w : Walk) : List String :=
  ((returned.zip (vertexIds w)).filter Prod.fst).map Prod.snd

/-- The vertex at a place of a path, if it is returned and known. -/
def place (known : String → Option Vertex) (returned : Bool) (id : String) : List PathElement :=
  if returned then (known id).toList.map .vertex else []

/-- The path behind the first vertex of a walk. -/
def pathRest (known : String → Option Vertex) : List Bool → Walk → List PathElement
  | returned :: flags, h :: hs =>
    .edge h.edge :: place known returned h.exit ++ pathRest known flags hs
  | _, _ => []

/-- The path that a walk gives. -/
def path (known : String → Option Vertex) : List Bool → Walk → MatchedPath
  | returned :: flags, h :: hs =>
    ⟨place known returned h.entry ++ pathRest known flags (h :: hs)⟩
  | _, _ => ⟨[]⟩

end Walk

namespace Answer

/-- The answer that paths give. -/
def ofPaths (mode : OutputMode) (found : List MatchedPath) : Answer :=
  match mode with
  | .paths => paths found
  | .scopeList => scopeList (firstOfEach Vertex.id (found.flatMap MatchedPath.vertices) [])

end Answer

/-- Why a query fails. -/
inductive QueryError where
  | pattern (e : PatternError)
  | graph (e : GraphError)
deriving DecidableEq, Repr

/-- The message of an error. -/
def QueryError.message : QueryError → String
  | pattern e => e.message
  | graph e => e.message

namespace Plan

variable {σ : Type} [Repository σ]

/-- Whether each vertex along the steps is returned. -/
def returnedFlags : List Step → List Bool
  | [] => []
  | step :: steps => step.left.returned :: (step :: steps).map (·.right.returned)

/-- The answer that walks give. -/
def answerOf (mode : OutputMode) (returned : List Bool) (walks : List Walk) : Action σ Answer :=
  let ids := (walks.flatMap (Walk.returnedIds returned)).eraseDups
  (Repository.verticesOf ids).andThen fun vertices =>
  let known := fun id => vertices.find? (·.id == id)
  .give (.ofPaths mode
    ((firstOfEach (Walk.returnedIds returned) walks []).map (Walk.path known returned)))

/-- The answer of the steps. -/
def runSteps (mode : OutputMode) (steps : List Step) (start : Option (List String)) :
    Action σ Answer :=
  (Step.runAll steps start).andThen fun
    | none => .give (.empty mode)
    | some stages => answerOf mode (returnedFlags steps) (Walk.all stages none)

/-- The answer of a plan without steps. -/
def runFilter (mode : OutputMode) (filter : Option NodeTest) (start : Option (List String)) :
    Action σ Answer :=
  let f := (filter.map VertexFilter.ofNodeTest).getD {}
  (Repository.selectVertices { f with ids := start }).andThen fun vertices =>
  .give (match mode with
    | .paths => .paths (vertices.map .single)
    | .scopeList => .scopeList vertices)

/-- The answer of a plan. `start` names the vertices that the first step starts from, or those among
which the only node is looked for. -/
def run (p : Plan) (mode : OutputMode) (start : Option (List String)) : Action σ Answer :=
  if p.hasSteps then runSteps mode p.steps start else runFilter mode p.filter start

/-- What a query reports when it is answered. -/
def notice (p : Plan) (a : Answer) : Message :=
  ⟨.info, "query over " ++ Nat.repr p.steps.length ++ " triple(s) returned " ++ Nat.repr a.size ++
    " result(s)"⟩

end Plan

end PatternGraph
