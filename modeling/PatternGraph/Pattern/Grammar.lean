import PatternGraph.Pattern.Basic
import PatternGraph.Text.TypeNames

/-!
# The text of a pattern

`Pattern.parse` reads a pattern. The text starts with `?`; then come nodes in parentheses with a
relationship between each two. Space may stand between all of these and inside parentheses and
brackets, but not between the sign of a side and the bracket.

| node              | kind         |
|-------------------|--------------|
| `('name')`        | `identified` |
| `('name' t or u)` | `described`  |
| `(t or u)`        | `typed`      |
| `(*)`             | `group`      |
| `()`              | `anonymous`  |

A name stands in single or double quotes, and a backslash escapes the backslash, the quote, `n` and
`t`; there has to be something between the quotes. A relationship is one of eight bare signs, or has
types in brackets between two signs.

What can be read need not be a pattern: `startFault` and `linkFault` say what is wrong beyond the
text.
-/

namespace PatternGraph

/-- What is wrong with the text of a pattern. -/
inductive PatternFault where
  /-- The text cannot be read on after so many bytes. -/
  | unreadable (offset : Nat)
  /-- The only node is `(*)`. -/
  | loneGroup
  /-- The only node is `()`. -/
  | loneAnonymous
  /-- The first node is `(*)` or `()`. -/
  | badStart
  /-- The relationship of this alias has no arrow head, and its sides differ in framing. -/
  | mixedUndirected (link : String)
  /-- The relationship of this alias has types and no arrow head. -/
  | typedUndirected (link : String)
deriving DecidableEq, Repr

/-- A text that is no pattern, and why. -/
structure PatternError where
  text : String
  fault : PatternFault
deriving DecidableEq, Repr

/-- What is wrong, in words. -/
def PatternFault.reason : PatternFault → String
  | unreadable offset => "syntax error at offset " ++ Nat.repr offset
  | loneGroup => "a group node `(*)` cannot stand alone"
  | loneAnonymous => "a non-described node `()` cannot stand alone"
  | badStart => "pattern must start with a typed, described or identified node"
  | mixedUndirected link =>
    "relationship " ++ link ++ " mixes bonded and path framing without a direction"
  | typedUndirected link => "typed relationship " ++ link ++ " needs at least one arrowhead"

/-- The message of an error. -/
def PatternError.message (e : PatternError) : String :=
  "InvalidQuery: " ++ e.fault.reason ++ " (in `" ++ e.text ++ "`)"

namespace Pattern

open Text
open Text.Parser

/-- The character that a backslash and another character stand for between quotes. -/
def unescape (quote c : Char) : Option Char :=
  if c = '\\' ∨ c = quote then some c
  else if c = 'n' then some '\n'
  else if c = 't' then some '\t'
  else none

/-- The characters up to the closing quote. -/
def quotedRest (quote : Char) : Parser (List Char)
  | [] => .error []
  | ['\\'] => .error ['\\']
  | '\\' :: c :: rest =>
    match unescape quote c with
    | none => .error (c :: rest)
    | some e => (quotedRest quote rest).map fun (cs, rest) => (e :: cs, rest)
  | c :: rest =>
    if c = quote then .ok ([], rest)
    else (quotedRest quote rest).map fun (cs, rest) => (c :: cs, rest)

/-- A name between quotes of one kind, of which something is written. -/
def quotedWith (quote : Char) : Parser String := do
  char quote
  fun cs =>
    if cs.head? = some quote then .error cs
    else (quotedRest quote cs).map fun (name, rest) => (String.ofList name, rest)

/-- A name between double or single quotes. -/
def quotedName : Parser String := orElse (quotedWith '"') (quotedWith '\'')

/-- A name, and types behind it if there are any. -/
def namedNode : Parser NodeKind := do
  let name ← quotedName
  let types ← optional do
    orElse (spaced (char ':')) someGaps
    typeNames
  match types with
  | some types => return .described name types
  | none => return .identified name

/-- What stands between the parentheses of a node. -/
def nodeBody : Parser NodeKind :=
  firstOf [value .group (char '*'), namedNode, NodeKind.typed <$> typeNames, value .anonymous gaps]

/-- A node. -/
def nodeElement : Parser NodeKind := do
  spaced (char '(')
  let kind ← nodeBody
  spaced (char ')')
  return kind

/-- A choice of signs, each with what it means. -/
def signs {α : Type} (table : List (String × α)) : Parser α :=
  firstOf (table.map fun (sign, a) => value a (word sign.toList))

/-- The sign to the left of the bracket. -/
def sourceSign : Parser Connector :=
  signs [("<-", ⟨.bonded, .left⟩), ("<=", ⟨.path, .left⟩), ("-", ⟨.bonded, .absent⟩),
    ("=", ⟨.path, .absent⟩)]

/-- The sign to the right of the bracket. -/
def targetSign : Parser Connector :=
  signs [("->", ⟨.bonded, .right⟩), ("=>", ⟨.path, .right⟩), ("-", ⟨.bonded, .absent⟩),
    ("=", ⟨.path, .absent⟩)]

/-- A bare sign, the longest that fits. -/
def bareSign : Parser (Connector × Connector) :=
  signs [("<->", ⟨.bonded, .left⟩, ⟨.bonded, .right⟩), ("<=>", ⟨.path, .left⟩, ⟨.path, .right⟩),
    ("<-", ⟨.bonded, .left⟩, ⟨.bonded, .absent⟩), ("<=", ⟨.path, .left⟩, ⟨.path, .absent⟩),
    ("->", ⟨.bonded, .absent⟩, ⟨.bonded, .right⟩), ("=>", ⟨.path, .absent⟩, ⟨.path, .right⟩),
    ("-", ⟨.bonded, .absent⟩, ⟨.bonded, .absent⟩), ("=", ⟨.path, .absent⟩, ⟨.path, .absent⟩)]

/-- A relationship with types in brackets. -/
def typedLink : Parser Link := do
  let source ← sourceSign
  char '['
  let negation ← spaced (optional (char '!'))
  let types ← spaced typeNames
  char ']'
  let target ← targetSign
  return ⟨.typed types negation.isSome, source, target⟩

/-- A relationship without brackets. -/
def bareLink : Parser Link := do
  let (source, target) ← bareSign
  return ⟨.short, source, target⟩

/-- A relationship. -/
def linkElement : Parser Link := orElse typedLink bareLink

/-- The first node of a pattern, and the relationships and nodes that follow it. -/
def parts : Parser (NodeKind × List (Link × NodeKind)) := do
  gaps
  char '?'
  let first ← spaced nodeElement
  let rest ← many do
    let l ← spaced linkElement
    let kind ← spaced nodeElement
    return (l, kind)
  gaps
  return (first, rest)

/-- What is wrong with a relationship beyond its text. -/
def linkFault (l : PatternLink) : Option PatternFault :=
  if l.isUndirected && !l.isHomogeneous then some (.mixedUndirected l.aliasName)
  else if l.isUndirected && !l.kind.isShort then some (.typedUndirected l.aliasName)
  else none

/-- What is wrong with the nodes: one that cannot be first is first, or is the only one. -/
def startFault (first : NodeKind) (alone : Bool) : Option PatternFault :=
  match first, alone with
  | .group, true => some .loneGroup
  | .anonymous, true => some .loneAnonymous
  | .group, false | .anonymous, false => some .badStart
  | .typed _, _ | .described _ _, _ | .identified _, _ => none

/-- The pattern that a text denotes. -/
def parse (text : String) : Except PatternError Pattern :=
  match parseAll parts text with
  | .error offset => .error ⟨text, .unreadable offset⟩
  | .ok (first, rest) =>
    let p := ofParts first rest
    match startFault first rest.isEmpty <|> p.links.findSome? linkFault with
    | some fault => .error ⟨text, fault⟩
    | none => .ok p

end Pattern

end PatternGraph
