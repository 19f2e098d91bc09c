import PatternGraph.Text.Lowercase
import PatternGraph.Text.Parser

/-!
# Lists of type names in patterns and rules

A type name starts with letters or underscores and goes on with letters, digits, underscores and
points, all of them ASCII. The names of a list are joined by a comma, with white space around it or
none, or by the word `or` in any letter case, with white space around it. A list has at least one
name. Its names are lowered, and a name that was there before is dropped.
-/

namespace PatternGraph.Text

/-- Whether a type name may start with a character. -/
def isNameStart (c : Char) : Bool := c.isAlpha || c == '_'

/-- Whether a type name may go on with a character. -/
def isNamePart (c : Char) : Bool := c.isAlpha || c.isDigit || c == '_' || c == '.'

theorem isNamePart_of_isNameStart {c : Char} (h : isNameStart c = true) : isNamePart c = true := by
  rw [isNameStart, Bool.or_eq_true] at h
  rcases h with h | h <;> simp [isNamePart, h]

namespace Parser

/-- A type name as it is written. -/
def typeName : Parser String
  | c :: rest =>
    if isNameStart c then
      .ok (String.ofList (c :: rest.takeWhile isNamePart), rest.dropWhile isNamePart)
    else .error (c :: rest)
  | [] => .error []

/-- The word `or` between two names. -/
def orWord : Parser Unit := do
  someGaps
  let _ ← oneOf ['o', 'O']
  let _ ← oneOf ['r', 'R']
  someGaps

/-- What joins two names. -/
def nameSeparator : Parser Unit := orElse orWord (spaced (char ','))

/-- A list of type names. -/
def typeNames : Parser (List String) := do
  let first ← typeName
  let others ← many (do nameSeparator; typeName)
  return ((first :: others).map asciiLowercase).eraseDups

end Parser

end PatternGraph.Text
