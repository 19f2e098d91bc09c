import PatternGraph.Json.Decoder
import PatternGraph.Rule.Grammar

/-!
# Rule files

A rule file is a JSON text with a list of rules, each given by the texts of its condition and its
effect and by a label, if it is to have one of its own.
-/

namespace PatternGraph

open Json (Record Decoder Document Fault)

/-- A rule as it is written in a file. -/
structure RuleEntry where
  condition : String
  effect : String
  label : Option String := none
deriving DecidableEq, Repr

namespace RuleEntry

/-- Reads an entry. -/
def decoder : Decoder RuleEntry :=
  ((((Record.pure RuleEntry.mk).field "conditional" .string).field "effect" .string).field "label"
    (.option .string) (.anywhere none)).decode

/-- The rule of an entry. -/
def toRule (e : RuleEntry) : Except RuleError Rule := do
  let rule ← Rule.parse e.condition e.effect
  return match e.label with
    | none => rule
    | some label => rule.withLabel label

end RuleEntry

/-- What a rule file holds. -/
structure RuleFile where
  rules : List RuleEntry := []
deriving DecidableEq, Repr

namespace RuleFile

/-- Reads the content of a rule file. -/
def decoder : Decoder RuleFile :=
  ((Record.pure RuleFile.mk).field "rules" (.list RuleEntry.decoder) (.anywhere [])).decode

/-- The content of a rule file from its text. -/
def parse (text : String) : Except Fault RuleFile := (Document.read text).decode decoder

/-- The rules of some entries, counted from `index`, or the number and error of the first that is no
rule. -/
def rulesFrom : Nat → List RuleEntry → Except (Nat × RuleError) (List Rule)
  | _, [] => .ok []
  | index, entry :: entries => do
    let rule ← entry.toRule.mapError fun e => (index, e)
    let rules ← rulesFrom (index + 1) entries
    return rule :: rules

/-- The rules of the file, or the number and error of the first entry that is no rule. -/
def toRules (f : RuleFile) : Except (Nat × RuleError) (List Rule) := rulesFrom 0 f.rules

end RuleFile

end PatternGraph
