import PatternGraph.Derivation.Basic

/-!
# Help

The help page of the program and of each of its commands. A page says what the command does and how
it is called, and explains what may be written in two columns. The second column starts two places
behind the longest entry of the first.
-/

namespace PatternGraph

/-- What help is asked about. -/
inductive HelpTopic where
  | program
  | parse
  | derive
  | query
  | help
deriving DecidableEq, Repr

/-- A part of a page: what may be written, and what it means. -/
structure HelpSection where
  heading : String
  rows : List (String × String)
deriving DecidableEq, Repr

/-- A help page. -/
structure HelpPage where
  about : String
  usage : String
  sections : List HelpSection
deriving DecidableEq, Repr

namespace HelpSection

/-- The place at which the second column starts. -/
def column (s : HelpSection) : Nat := s.rows.foldl (fun n row => max n row.1.length) 0 + 2

/-- The lines of a part of a page. -/
def lines (s : HelpSection) : List String :=
  (s.heading ++ ":") :: s.rows.map fun (term, meaning) =>
    "  " ++ term ++ String.ofList (List.replicate (s.column - term.length) ' ') ++ meaning

end HelpSection

/-- The lines of a page. -/
def HelpPage.lines (p : HelpPage) : List String :=
  [p.about, "", "Usage: " ++ p.usage] ++ p.sections.flatMap fun s => "" :: s.lines

namespace HelpTopic

/-- The commands with what they do. -/
def commands : List (HelpTopic × String × String) :=
  [(parse, "parse", "Print the input descriptor and compiled query descriptor as JSON"),
   (derive, "derive", "Derive edges from rules and report graph statistics"),
   (query, "query", "Run a pattern against a graph snapshot"),
   (help, "help", "Print this message or the help of the given subcommand(s)")]

/-- The topic of the name of a command. -/
def ofName? (name : String) : Option HelpTopic :=
  (commands.find? fun (_, key, _) => key == name).map Prod.fst

/-- What a topic is about. -/
def about (t : HelpTopic) : String :=
  match commands.lookup t with
  | some (_, text) => text
  | none => "AMAQL: pattern queries over labeled graphs"

/-- The row of the option that all commands have. -/
def verboseRow : String × String := ("-v, --verbose", "Debug-level logging (overrides AMAQL_LOG)")

/-- The row of the option that asks for help. -/
def helpRow : String × String := ("-h, --help", "Print help")

/-- What stands for the number of passes if none is given. -/
def passesDefault : String := "[default: " ++ Nat.repr defaultPasses ++ "]"

/-- How a topic is written on the command line. -/
def usage : HelpTopic → String
  | program => "amaql [OPTIONS] <COMMAND>"
  | parse => "amaql parse [OPTIONS] <QUERY>"
  | derive => "amaql derive [OPTIONS] --graph <GRAPH> --rules <RULES>"
  | query => "amaql query [OPTIONS] --graph <GRAPH> <QUERY>"
  | help => "amaql help [COMMAND]..."

/-- What is explained about a topic. -/
def sections : HelpTopic → List HelpSection
  | program =>
    [⟨"Commands", commands.map Prod.snd⟩,
     ⟨"Options", [verboseRow, helpRow, ("-V, --version", "Print version")]⟩]
  | parse =>
    [⟨"Arguments", [("<QUERY>", "Pattern, e.g. `?(node)-[realization]->(*)`")]⟩,
     ⟨"Options", [verboseRow, helpRow]⟩]
  | derive =>
    [⟨"Options",
      [("    --graph <GRAPH>", "Graph snapshot (JSON)"), verboseRow,
       ("    --rules <RULES>", "Rule file (JSON)"),
       ("    --passes <PASSES>", "Maximum derivation passes " ++ passesDefault),
       ("    --out <OUT>", "Write the derived graph here"), helpRow]⟩]
  | query =>
    [⟨"Arguments", [("<QUERY>", "")]⟩,
     ⟨"Options",
      [("    --graph <GRAPH>", "Graph snapshot (JSON)"), verboseRow,
       ("    --rules <RULES>", "Derive edges from these rules before querying"),
       ("    --passes <PASSES>", passesDefault),
       ("    --scope-list", "Return unique vertices instead of paths"),
       ("    --limit <LIMIT>", "Keep at most N results"),
       ("    --start <ID>", "Bind the first stage to these vertex ids (repeatable)"),
       ("    --json", "Print results as JSON"), helpRow]⟩]
  | help => [⟨"Arguments", [("[COMMAND]...", "Print help for the subcommand(s)")]⟩]

/-- The page on a topic. -/
def page (t : HelpTopic) : HelpPage := ⟨t.about, t.usage, t.sections⟩

end HelpTopic

end PatternGraph
