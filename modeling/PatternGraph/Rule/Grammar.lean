import PatternGraph.Rule.Basic
import PatternGraph.Text.TypeNames

/-!
# The text of a rule

`Condition.parse` reads what a rule looks for, as in `(t1)[e1]>(t2)<[e2](t3)`: three groups of
vertex types in parentheses and between them two groups of edge types in brackets. A group may be
empty. An edge group has an arrow on one side, `]>` or `<[`, with no space between the arrow and the
bracket.

`Effect.parse` reads what a rule derives, as in `(1)[e](3)`: the places of two different vertices
and between them the types of the edge, of which there is at least one.

`Rule.parse` puts the two together. Without a label of its own a rule is labelled with its two
texts.
-/

namespace PatternGraph

/-- What is wrong with the text of a condition. -/
inductive ConditionFault where
  /-- The text cannot be read on after so many bytes. -/
  | unreadable (offset : Nat)
  /-- There are so many vertex and edge groups. -/
  | wrongCounts (vertices edges : Nat)
  /-- Two groups of the same sort stand side by side. -/
  | notAlternating
  /-- An edge group has two arrows. -/
  | twoArrows
  /-- An edge group has no arrow. -/
  | noArrow
deriving DecidableEq, Repr

/-- What is wrong with the text of an effect. -/
inductive EffectFault where
  /-- There is an arrow. -/
  | arrow
  /-- The text cannot be read on after so many bytes. -/
  | unreadable (offset : Nat)
  /-- Both ends are the same vertex. -/
  | sameVertex
deriving DecidableEq, Repr

/-- A text that is no rule, and why. -/
inductive RuleError where
  | condition (text : String) (fault : ConditionFault)
  | effect (text : String) (fault : EffectFault)
deriving DecidableEq, Repr

/-- The message of an error. -/
def RuleError.message : RuleError → String
  | condition text fault =>
    "InvalidRuleConditional: " ++
      (match fault with
        | .unreadable offset => "unexpected input at offset " ++ Nat.repr offset ++ " in `"
        | .wrongCounts vertices edges =>
          "expected 3 vertex groups and 2 edge groups, found " ++ Nat.repr vertices ++ " and " ++
            Nat.repr edges ++ " in `"
        | .notAlternating => "vertex and edge groups must alternate in `"
        | .twoArrows => "bidirectional edge group in `"
        | .noArrow => "edge group without direction glyph in `") ++ text ++ "`"
  | effect text fault =>
    "InvalidRuleEffect: " ++
      (match fault with
        | .arrow => "direction glyphs are not allowed in effect `"
        | .unreadable offset =>
          "expected `(#)[types](#)`, unexpected input at offset " ++ Nat.repr offset ++
            " in `"
        | .sameVertex => "source and target reference the same element in `") ++ text ++ "`"

open Text
open Text.Parser

/-- A group of types in a condition. -/
inductive RuleGroup where
  | vertex (types : List String)
  | edge (backward : Bool) (types : List String) (forward : Bool)
deriving DecidableEq, Repr

namespace RuleGroup

/-- Whether the group is one of vertex types. -/
def isVertex : RuleGroup → Bool
  | vertex _ => true
  | edge _ _ _ => false

/-- Vertex types in parentheses, if there are any. -/
def vertexParser : Parser RuleGroup := do
  spaced (char '(')
  let types ← optional (spaced typeNames)
  spaced (char ')')
  return .vertex (types.getD [])

/-- Edge types in brackets, if there are any, with arrows. -/
def edgeParser : Parser RuleGroup := do
  gaps
  let backward ← optional (char '<')
  char '['
  let types ← optional (spaced typeNames)
  char ']'
  let forward ← optional (char '>')
  gaps
  return .edge backward.isSome (types.getD []) forward.isSome

/-- The groups of a condition. -/
def groups : Parser (List RuleGroup) := many (orElse vertexParser edgeParser)

end RuleGroup

/-- The direction that the arrows of an edge group give. -/
def HopDirection.ofArrows (backward forward : Bool) : Except ConditionFault HopDirection :=
  match backward, forward with
  | false, true => .ok .forward
  | true, false => .ok .backward
  | true, true => .error .twoArrows
  | false, false => .error .noArrow

/-- The condition that five groups give, or else the first fault from left to right. -/
def Condition.ofGroups : List RuleGroup → Except ConditionFault Condition
  | .vertex first :: .edge backward types forward :: rest => do
    let direction ← HopDirection.ofArrows backward forward
    match rest with
    | .vertex middle :: .edge backward types' forward :: rest => do
      let direction' ← HopDirection.ofArrows backward forward
      match rest with
      | [.vertex last] =>
        return ⟨⟨.ofList first, .ofList types, direction⟩, .ofList middle,
          ⟨.ofList last, .ofList types', direction'⟩⟩
      | _ => .error .notAlternating
    | _ => .error .notAlternating
  | _ => .error .notAlternating

/-- The condition that a text denotes. -/
def Condition.parse (text : String) : Except RuleError Condition :=
  match parseAll RuleGroup.groups text with
  | .error offset => .error (.condition text (.unreadable offset))
  | .ok groups =>
    let vertices := (groups.filter RuleGroup.isVertex).length
    let edges := groups.length - vertices
    if vertices ≠ 3 ∨ edges ≠ 2 then .error (.condition text (.wrongCounts vertices edges))
    else (Condition.ofGroups groups).mapError (.condition text)

namespace Effect

/-- The place of a vertex in parentheses. -/
def position : Parser RulePart := do
  spaced (char '(')
  let part ← spaced (firstOf [value .first (char '1'), value .middle (char '2'),
    value .last (char '3')])
  spaced (char ')')
  return part

/-- The text of an effect. -/
def parts : Parser Effect := do
  let source ← position
  char '['
  let types ← spaced typeNames
  char ']'
  let target ← position
  return ⟨source, target, .ofList types⟩

/-- The effect that a text denotes. -/
def parse (text : String) : Except RuleError Effect :=
  if text.toList.any fun c => c == '<' || c == '>' then .error (.effect text .arrow)
  else
    match parseAll parts text with
    | .error offset => .error (.effect text (.unreadable offset))
    | .ok e => if e.source = e.target then .error (.effect text .sameVertex) else .ok e

end Effect

/-- The rule that the texts of its condition and its effect denote, labelled with the two. -/
def Rule.parse (condition effect : String) : Except RuleError Rule := do
  let label := trim condition ++ " => " ++ trim effect
  let condition ← Condition.parse condition
  let effect ← Effect.parse effect
  return ⟨label, condition, effect⟩

end PatternGraph
