import PatternGraph.CommandLine.Arguments
import PatternGraph.CommandLine.Files
import PatternGraph.CommandLine.Render
import PatternGraph.Form.Answer
import PatternGraph.Form.Pattern
import PatternGraph.Form.Plan
import PatternGraph.Query.Run
import PatternGraph.RuleFile
import PatternGraph.Snapshot

/-!
# Running a command

What a command does to the files, and what it writes to the terminal. Results go to the standard
output; counts and errors go to the standard error output, and an error ends the command with the
status one.

A derivation is told about before its graph is saved, so a graph that cannot be saved is an error
behind the counts.
-/

namespace PatternGraph

/-- What is left when a command has run. -/
structure Outcome where
  status : Nat := 0
  stdout : String := ""
  stderr : String := ""
  files : Files
deriving Repr

/-- Why a command fails. -/
inductive CommandError where
  /-- The file of a graph cannot be read, or is no snapshot. -/
  | graphFile (path : String)
  /-- The snapshot in a file gives no graph. -/
  | badGraph (path : String) (error : GraphError)
  | unreadableRules (path : String) (error : FileError)
  /-- A file is no rule file. -/
  | ruleFile (path : String)
  /-- An entry of a rule file is no rule. -/
  | badRule (index : Nat) (error : RuleError)
  | derivation (error : DerivationError)
  | pattern (error : PatternError)
  | query (error : QueryError)
  | unwritable (path : String) (error : FileError)
deriving DecidableEq, Repr

namespace CommandError

/-- The message of an error. What is wrong inside a file of JSON is not told. -/
def message : CommandError → String
  | graphFile path => "failed to load graph " ++ path
  | badGraph path error => "invalid graph " ++ path ++ ": " ++ error.message ++ "\n"
  | unreadableRules path error =>
    "failed to read rule file " ++ path ++ ": " ++ error.message ++ "\n"
  | ruleFile path => "failed to parse rule file " ++ path
  | badRule index error => "rule #" ++ Nat.repr index ++ ": " ++ error.message ++ "\n"
  | derivation error => error.message ++ "\n"
  | pattern error => error.message ++ "\n"
  | query error => error.message ++ "\n"
  | unwritable path error => "failed to write " ++ path ++ ": " ++ error.message ++ "\n"

end CommandError

namespace Command

/-- The lines of a text, each with its line end. -/
def unlines (lines : List String) : String := String.join (lines.map (· ++ "\n"))

/-- The graph in a file. -/
def loadGraph (files : Files) (path : String) : Except CommandError Graph := do
  let text ← (files.read path).mapError fun _ => .graphFile path
  let snapshot ← (Snapshot.parse text).mapError fun _ => .graphFile path
  snapshot.toGraph.mapError (.badGraph path)

/-- The rules in a file. -/
def loadRules (files : Files) (path : String) : Except CommandError (List Rule) := do
  let text ← (files.read path).mapError (.unreadableRules path)
  let file ← (RuleFile.parse text).mapError fun _ => .ruleFile path
  file.toRules.mapError fun (index, error) => .badRule index error

/-- The graph with the edges that rules derive, and how it went. -/
def deriveGraph (g : Graph) (rules : List Rule) (passes : Nat) :
    Except CommandError (DerivationReport × Graph) := do
  let d ← (Derivation.of rules none).mapError .derivation
  let (report, _, g) := d.derive passes g
  return (report, g)

/-- What `parse` shows: the pattern and its plan. -/
def runParse (pattern : String) : Except CommandError String := do
  let p ← (Pattern.parse pattern).mapError .pattern
  return (Json.obj [("input", p.toJson), ("query", p.plan.toJson)]).sortKeys.pretty ++ "\n"

/-- The graph that `derive` gives, how it went and the number of rules. -/
def runDerive (files : Files) (graph rules : String) (passes : Nat) :
    Except CommandError (Nat × DerivationReport × Graph) := do
  let g ← loadGraph files graph
  let rules ← loadRules files rules
  let (report, g) ← deriveGraph g rules passes
  return (rules.length, report, g)

/-- What `derive` tells about a derivation. -/
def deriveSummary (rules : Nat) (report : DerivationReport) : String :=
  "derived " ++ Nat.repr rules ++ " rule(s), " ++ Nat.repr report.passes ++ " pass(es): " ++
    Nat.repr report.added ++ " edge(s) added, " ++ Nat.repr report.skipped ++ " skipped"

/-- What `derive` tells about a graph. -/
def graphSummary (g : Graph) : String :=
  "vertices: " ++ Nat.repr g.vertexCount ++ "  edges: " ++ Nat.repr g.edgeCount ++ "  derived: " ++
    Nat.repr g.derivedCount

/-- The answer that `query` shows. -/
def runQuery (files : Files) (r : QueryRequest) : Except CommandError Answer := do
  let g ← loadGraph files r.graph
  let g ← match r.rules with
    | none => pure g
    | some rules => do
      let rules ← loadRules files rules
      let (_, g) ← deriveGraph g rules r.passes
      pure g
  let plan ← (Plan.parse r.pattern).mapError fun e => .query (.pattern e)
  let start := if r.start.isEmpty then none else some r.start
  let answer ← (plan.run r.mode start g).1.mapError fun e => .query (.graph e)
  return match r.limit with
    | none => answer
    | some limit => answer.take limit

/-- The outcome of a command that failed. -/
def failed (files : Files) (e : CommandError) : Outcome :=
  { status := 1, stderr := "error: " ++ e.message, files }

/-- Runs a command. -/
def run (files : Files) : Command → Outcome
  | parse pattern =>
    match runParse pattern with
    | .error e => failed files e
    | .ok stdout => { stdout, files }
  | derive graph rules passes out =>
    match runDerive files graph rules passes with
    | .error e => failed files e
    | .ok (rules, report, g) =>
      let stdout := unlines [graphSummary g]
      let told := unlines [deriveSummary rules report]
      match out with
      | none => { stdout, stderr := told, files }
      | some path =>
        match files.write path (Snapshot.ofGraph g).text with
        | .ok files => { stdout, stderr := told ++ unlines ["wrote " ++ path], files }
        | .error e =>
          let failure := failed files (.unwritable path e)
          { failure with stdout, stderr := told ++ failure.stderr }
  | query request =>
    match runQuery files request with
    | .error e => failed files e
    | .ok answer =>
      if request.json then { stdout := answer.toJson.pretty ++ "\n", files }
      else { stdout := unlines answer.lines, stderr := unlines [answer.summary], files }

end Command

/-- The name and version of the program. -/
def versionLine : String := "amaql 0.1.0\n"

/-- What is told about wrong arguments. -/
def usageText : String := Command.unlines
  ["Usage: " ++ HelpTopic.program.usage, "", "For more information, try '--help'."]

/-- Runs the program with its arguments. Wrong arguments end it with the status two. -/
def runProgram (files : Files) (args : List String) : Outcome :=
  match Command.ofArguments args with
  | .ok command => command.run files
  | .error .usage => { status := 2, stderr := usageText, files }
  | .error (.help topic) => { stdout := Command.unlines topic.page.lines, files }
  | .error .version => { stdout := versionLine, files }

end PatternGraph
