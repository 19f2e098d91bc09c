import PatternGraph.Query.Answer

/-!
# Answers on a terminal

A path is one line: its number, its vertices as `(id 'name' t1|t2)` and its edges as `-[t1,t2]-`, or
`=[t1,t2]=` for derived ones. A vertex of a scope list is one line behind a bullet.
-/

namespace PatternGraph

/-- A vertex in a line. -/
def Vertex.label (v : Vertex) : String :=
  "(" ++ v.id ++ " '" ++ v.name ++ "' " ++ "|".intercalate v.types.names ++ ")"

/-- An edge in a line. -/
def Edge.label (e : Edge) : String :=
  let sign := if e.isDerived then "=" else "-"
  sign ++ "[" ++ ",".intercalate e.types.names ++ "]" ++ sign

/-- A member of a path in a line. -/
def PathElement.label : PathElement → String
  | vertex v => v.label
  | edge e => e.label

/-- A path in a line. -/
def MatchedPath.line (p : MatchedPath) : String :=
  " ".intercalate (p.elements.map PathElement.label)

namespace Answer

/-- A number with a point behind it, in at least three places and the point. -/
def ordinal (n : Nat) : String :=
  let digits := Nat.toDigits 10 n
  String.ofList (List.replicate (3 - digits.length) ' ' ++ digits ++ ['.'])

/-- The lines of an answer. -/
def lines : Answer → List String
  | paths results => results.zipIdx.map fun (p, i) => ordinal (i + 1) ++ " " ++ p.line
  | scopeList results => results.map fun v => "• " ++ v.label

/-- The line that counts the results. -/
def summary (a : Answer) : String :=
  "ok " ++ Nat.repr a.size ++
    (match a with
      | paths _ => " path(s)"
      | scopeList _ => " vertex(es)")

end Answer

end PatternGraph
