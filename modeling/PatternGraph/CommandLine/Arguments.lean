import PatternGraph.CommandLine.Help
import PatternGraph.Query.Answer

/-!
# Arguments

The arguments of the program: options of the program itself, the name of a command, and the options
and the pattern of the command.

* An option with a value is written `--name value` or `--name=value`. In the first form the value
  does not start with a dash, unless it is a single one.
* An option without a value is written `--name`. `-v`, `-h` and `-V` are short forms, and may share
  one dash.
* Behind `--` nothing is an option.

Only `--start` may be given more than once. Arguments are looked at from left to right, so an error
in front of `--help` is an error. What is missing is found at the end.
-/

namespace PatternGraph

/-- What a query is asked for on the command line. -/
structure QueryRequest where
  graph : String
  rules : Option String
  passes : Nat
  mode : OutputMode
  limit : Option Nat
  start : List String
  json : Bool
  pattern : String
deriving DecidableEq, Repr

/-- What the program is asked to do. -/
inductive Command where
  /-- Show a pattern and its plan. -/
  | parse (pattern : String)
  /-- Derive edges and count what there is then. -/
  | derive (graph rules : String) (passes : Nat) (out : Option String)
  /-- Run a pattern. -/
  | query (request : QueryRequest)
deriving DecidableEq, Repr

/-- The paths of the files that a command reads. -/
def Command.reads : Command → List String
  | parse _ => []
  | derive graph rules _ _ => [graph, rules]
  | query request => request.graph :: request.rules.toList

/-- The path of the file that a command writes. -/
def Command.writes : Command → Option String
  | derive _ _ _ out => out
  | parse _ | query _ => none

/-- Why arguments give no command. -/
inductive Refusal where
  /-- The arguments are wrong. -/
  | usage
  /-- Help is asked for. -/
  | help (topic : HelpTopic)
  /-- The version is asked for. -/
  | version
deriving DecidableEq, Repr

/-- What follows the name of an option. -/
inductive OptionKind where
  /-- Nothing. -/
  | flag
  /-- The path of a file, which is not empty. -/
  | path
  /-- A number. -/
  | count
  /-- Any text. The option may be given more than once. -/
  | texts
deriving DecidableEq, Repr

/-- The value of a text of decimal digits, with a plus sign in front or none, that is below
`2 ^ 64`. -/
def readCount (text : String) : Option Nat :=
  let digits :=
    match text.toList with
    | '+' :: ds => ds
    | ds => ds
  let n := digits.foldl (fun n d => 10 * n + (d.toNat - 48)) 0
  if digits ≠ [] && digits.all Char.isDigit && n < 1 <<< 64 then some n else none

namespace OptionKind

/-- Whether a text may follow the name of the option. -/
def accepts (kind : OptionKind) (value : String) : Bool :=
  match kind with
  | flag => false
  | path => value ≠ ""
  | count => (readCount value).isSome
  | texts => true

end OptionKind

/-- The options of a command by name. -/
abbrev OptionTable := List (String × OptionKind)

/-- The arguments that a command takes. -/
structure Accepted where
  /-- What its help is about. -/
  topic : HelpTopic
  options : OptionTable
  /-- Whether there is a pattern among them. -/
  pattern : Bool
deriving Repr

/-- The arguments of a command that have been looked at. -/
structure Given where
  /-- The options with their values, in order. -/
  options : List (String × String) := []
  /-- The argument that is no option. -/
  pattern : Option String := none
deriving Repr

namespace Given

/-- Whether an option is given. -/
def has (g : Given) (name : String) : Bool := (g.options.lookup name).isSome

/-- The value of an option. -/
def get? (g : Given) (name : String) : Option String := g.options.lookup name

/-- The values of an option in order. -/
def getAll (g : Given) (name : String) : List String :=
  (g.options.filter (·.1 == name)).map Prod.snd

/-- The number that an option gives. -/
def count? (g : Given) (name : String) : Option Nat := g.get? name >>= readCount

/-- One more option with its value. -/
def addOption (g : Given) (name : String) (kind : OptionKind) (value : String) :
    Except Refusal Given :=
  if !kind.accepts value || (kind != .texts && g.has name) then .error .usage
  else .ok { g with options := g.options ++ [(name, value)] }

/-- One more option without a value. -/
def addFlag (g : Given) (name : String) : Except Refusal Given :=
  if g.has name then .error .usage else .ok { g with options := g.options ++ [(name, "")] }

/-- The argument that is no option, of which there is at most one, and none unless the command takes
a pattern. -/
def addPattern (accepted : Accepted) (g : Given) (text : String) : Except Refusal Given :=
  if accepted.pattern && g.pattern.isNone then .ok { g with pattern := some text }
  else .error .usage

/-- Options by their short names. Only the program itself has a version. -/
def addShort (topic : HelpTopic) : Given → List Char → Except Refusal Given
  | g, [] => .ok g
  | g, c :: cs =>
    if c = 'v' then do addShort topic (← g.addFlag "verbose") cs
    else if c = 'h' then .error (.help topic)
    else if c = 'V' && topic = .program then .error .version
    else .error .usage

end Given

/-- The sort of an argument. -/
inductive ArgumentSort where
  /-- `--` -/
  | separator
  /-- `--name` or `--name=value` -/
  | long (name : String) (value : Option String)
  /-- `-abc` -/
  | short (letters : List Char)
  | plain
deriving DecidableEq, Repr

/-- The sort of an argument in front of `--`. -/
def ArgumentSort.of (arg : String) : ArgumentSort :=
  match arg.toList with
  | '-' :: '-' :: [] => separator
  | '-' :: '-' :: cs =>
    let name := String.ofList (cs.takeWhile (· != '='))
    match cs.dropWhile (· != '=') with
    | [] => long name none
    | _ :: value => long name (some (String.ofList value))
  | '-' :: c :: cs => short (c :: cs)
  | _ => plain

/-- The arguments of a command. -/
def scanArguments (accepted : Accepted) : Given → List String → Except Refusal Given
  | g, [] => .ok g
  | g, arg :: args =>
    match ArgumentSort.of arg with
    | .separator => args.foldlM (Given.addPattern accepted) g
    | .plain => do scanArguments accepted (← g.addPattern accepted arg) args
    | .short letters => do scanArguments accepted (← g.addShort accepted.topic letters) args
    | .long name value =>
      match accepted.options.lookup name, value with
      | some .flag, none => do scanArguments accepted (← g.addFlag name) args
      | some .flag, some _ => .error .usage
      | some kind, some value => do scanArguments accepted (← g.addOption name kind value) args
      | some kind, none =>
        match args with
        | [] => .error .usage
        | value :: args =>
          if ArgumentSort.of value = .plain then do
            scanArguments accepted (← g.addOption name kind value) args
          else .error .usage
      | none, none => .error (if name = "help" then .help accepted.topic else .usage)
      | none, some _ => .error .usage

namespace Command

/-- What `parse` takes. -/
def parseArguments : Accepted where
  topic := .parse
  options := [("verbose", .flag)]
  pattern := true

/-- What `derive` takes. -/
def deriveArguments : Accepted where
  topic := .derive
  options :=
    [("verbose", .flag), ("graph", .path), ("rules", .path), ("passes", .count), ("out", .path)]
  pattern := false

/-- What `query` takes. -/
def queryArguments : Accepted where
  topic := .query
  options :=
    [("verbose", .flag), ("graph", .path), ("rules", .path), ("passes", .count),
     ("scope-list", .flag), ("limit", .count), ("start", .texts), ("json", .flag)]
  pattern := true

/-- The command `parse` with its arguments. -/
def ofParse (args : List String) : Except Refusal Command := do
  let given ← scanArguments parseArguments {} args
  match given.pattern with
  | some pattern => .ok (.parse pattern)
  | none => .error .usage

/-- The command `derive` with its arguments. -/
def ofDerive (args : List String) : Except Refusal Command := do
  let given ← scanArguments deriveArguments {} args
  match given.get? "graph", given.get? "rules" with
  | some graph, some rules =>
    .ok (.derive graph rules ((given.count? "passes").getD defaultPasses) (given.get? "out"))
  | _, _ => .error .usage

/-- The command `query` with its arguments. A number of passes needs rules. -/
def ofQuery (args : List String) : Except Refusal Command := do
  let given ← scanArguments queryArguments {} args
  if given.has "passes" && !given.has "rules" then .error .usage
  match given.get? "graph", given.pattern with
  | some graph, some pattern =>
    .ok (.query
      { graph, pattern, rules := given.get? "rules"
        passes := (given.count? "passes").getD defaultPasses
        mode := if given.has "scope-list" then .scopeList else .paths
        limit := given.count? "limit"
        start := given.getAll "start"
        json := given.has "json" })
  | _, _ => .error .usage

/-- What the command `help` gives, which may be followed by the name of a command. -/
def ofHelp (args : List String) : Refusal :=
  match args with
  | [] => .help .program
  | [name] =>
    match HelpTopic.ofName? name with
    | some topic => .help topic
    | none => .usage
  | _ => .usage

/-- The command that arguments give, behind options of the program. -/
def ofArgumentsAfter : Given → List String → Except Refusal Command
  | _, [] => .error .usage
  | g, arg :: args =>
    match ArgumentSort.of arg with
    | .separator => .error .usage
    | .short letters => do ofArgumentsAfter (← g.addShort .program letters) args
    | .long name none =>
      if name = "verbose" then do ofArgumentsAfter (← g.addFlag name) args
      else if name = "help" then .error (.help .program)
      else if name = "version" then .error .version
      else .error .usage
    | .long _ (some _) => .error .usage
    | .plain =>
      if arg = "parse" then ofParse args
      else if arg = "derive" then ofDerive args
      else if arg = "query" then ofQuery args
      else if arg = "help" then .error (ofHelp args)
      else .error .usage

/-- The command that the arguments of the program give. -/
def ofArguments (args : List String) : Except Refusal Command := ofArgumentsAfter {} args

end Command

end PatternGraph
