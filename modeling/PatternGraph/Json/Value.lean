/-!
# JSON values

The values that a JSON text denotes. Numbers are integers, since the program writes no others. An
object keeps its fields in the order in which they are written; `sortKeys` puts them in ascending
order of their names, at every depth.
-/

namespace PatternGraph

/-- A JSON value. -/
inductive Json where
  | null
  | bool (b : Bool)
  | int (n : Int)
  | str (s : String)
  | arr (items : List Json)
  | obj (fields : List (String × Json))
deriving Repr, Inhabited

namespace Json

/-- A number that counts something. -/
def nat (n : Nat) : Json := .int n

/-- A list of texts. -/
def strings (texts : List String) : Json := .arr (texts.map .str)

/-- A text, or null where there is none. -/
def optStr : Option String → Json
  | none => .null
  | some s => .str s

/-- Puts a field at its place among fields in ascending order, after those of the same name. -/
def insertField (field : String × Json) : List (String × Json) → List (String × Json)
  | [] => [field]
  | f :: fs => if field.1 < f.1 then field :: f :: fs else f :: insertField field fs

mutual

/-- The value with the fields of every object in ascending order of their names. -/
def sortKeys : Json → Json
  | .null => .null
  | .bool b => .bool b
  | .int n => .int n
  | .str s => .str s
  | .arr items => .arr (sortItems items)
  | .obj fields => .obj (sortFields fields)

/-- The items of a list, each with its fields in order. -/
def sortItems : List Json → List Json
  | [] => []
  | j :: js => j.sortKeys :: sortItems js

/-- The fields of an object in order, each value with its own fields in order. -/
def sortFields : List (String × Json) → List (String × Json)
  | [] => []
  | (name, j) :: fields => insertField (name, j.sortKeys) (sortFields fields)

end

end Json

end PatternGraph
