import PatternGraph.TypeSet

/-!
# Edge keys

An edge is known by its source, its set of types and its target. `EdgeKey.text` writes the three as
`source-[t1,t2]->target`, with the types in ascending order, and `EdgeKey.parse` reads such a text.

Reading cuts at the first `-[` and, in what follows, at the last `]->`. Both ends have to be
non-empty. The types between are split at commas; there may be none, but none may be blank. A vertex
id that holds one of the two marks therefore need not be read back.
-/

namespace PatternGraph

/-- What an edge is known by. -/
structure EdgeKey where
  source : String
  types : TypeSet
  target : String
deriving DecidableEq, Repr

namespace EdgeKey

/-- The mark that ends the source. -/
def opening : List Char := ['-', '[']

/-- The mark that starts the target. -/
def closing : List Char := [']', '-', '>']

/-- The text of a key. -/
def text (k : EdgeKey) : String :=
  k.source ++ "-[" ++ ",".intercalate k.types.names ++ "]->" ++ k.target

/-- What stands before and after the first occurrence of a non-empty mark. -/
def cutFirst (mark : List Char) : List Char → Option (List Char × List Char)
  | [] => none
  | c :: cs =>
    if mark.isPrefixOf (c :: cs) then some ([], (c :: cs).drop mark.length)
    else (cutFirst mark cs).map fun (before, after) => (c :: before, after)

/-- What stands before and after the last occurrence of a non-empty mark. -/
def cutLast (mark : List Char) : List Char → Option (List Char × List Char)
  | [] => none
  | c :: cs =>
    match cutLast mark cs with
    | some (before, after) => some (c :: before, after)
    | none => if mark.isPrefixOf (c :: cs) then some ([], (c :: cs).drop mark.length) else none

/-- The pieces between commas; one more than there are commas. -/
def splitCommas : List Char → List (List Char)
  | [] => [[]]
  | c :: cs =>
    match splitCommas cs with
    | [] => [[c]]
    | piece :: pieces => if c = ',' then [] :: piece :: pieces else (c :: piece) :: pieces

/-- The types written between the marks, unless one of them is blank. -/
def readTypes (cs : List Char) : Option TypeSet :=
  if cs = [] then some ∅
  else
    let pieces := splitCommas cs
    if pieces.any fun piece => Text.trimChars piece = [] then none
    else some (.normalized (pieces.map String.ofList))

/-- The key that a text denotes. -/
def parse (s : String) : Option EdgeKey := do
  let (source, rest) ← cutFirst opening s.toList
  let (types, target) ← cutLast closing rest
  if source = [] ∨ target = [] then none
  let types ← readTypes types
  return ⟨String.ofList source, types, String.ofList target⟩

end EdgeKey

end PatternGraph
