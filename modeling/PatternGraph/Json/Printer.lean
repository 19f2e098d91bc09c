import PatternGraph.Json.Value

/-!
# Writing JSON

A layout says what stands between the tokens of a list or an object. `compact` puts nothing there.
`pretty` puts each item and each field on a line of its own, two spaces further in than the bracket
that holds it, and a space behind the colon; an empty list or object stays `[]` or `{}` in both.

In a text, a quote, a backslash and the characters below the space are escaped, with a short escape
where JSON has one.
-/

namespace PatternGraph.Json

/-- What stands between tokens. -/
structure Layout where
  /-- What stands before an item or a closing bracket at a depth. -/
  gap : Nat → List Char
  /-- What stands after the colon of a field. -/
  afterColon : List Char

/-- Nothing between tokens. -/
def Layout.compact : Layout := ⟨fun _ => [], []⟩

/-- One item or field a line. -/
def Layout.pretty : Layout := ⟨fun depth => '\n' :: List.replicate (2 * depth) ' ', [' ']⟩

/-- The lowercase hexadecimal digit of a number below sixteen. -/
def hexDigit (n : Nat) : Char := if n < 10 then Char.ofNat (48 + n) else Char.ofNat (87 + n)

/-- A character as it stands between the quotes of a text. -/
def writeChar (c : Char) : List Char :=
  if c == '"' then ['\\', '"']
  else if c == '\\' then ['\\', '\\']
  else if c == '\x08' then ['\\', 'b']
  else if c == '\x0c' then ['\\', 'f']
  else if c == '\n' then ['\\', 'n']
  else if c == '\r' then ['\\', 'r']
  else if c == '\t' then ['\\', 't']
  else if c < ' ' then ['\\', 'u', '0', '0', hexDigit (c.toNat / 16), hexDigit (c.toNat % 16)]
  else [c]

/-- A text in quotes. -/
def writeString (s : String) : List Char := '"' :: s.toList.flatMap writeChar ++ ['"']

/-- A number in decimal digits, with a sign when it is negative. -/
def writeInt (n : Int) : List Char :=
  if n < 0 then '-' :: Nat.toDigits 10 n.natAbs else Nat.toDigits 10 n.natAbs

mutual

/-- The text of a value at a depth. -/
def write (layout : Layout) (depth : Nat) : Json → List Char
  | .null => ['n', 'u', 'l', 'l']
  | .bool true => ['t', 'r', 'u', 'e']
  | .bool false => ['f', 'a', 'l', 's', 'e']
  | .int n => writeInt n
  | .str s => writeString s
  | .arr [] => ['[', ']']
  | .arr (j :: js) =>
    '[' :: layout.gap (depth + 1) ++ write layout (depth + 1) j ++
      writeItems layout (depth + 1) js ++ layout.gap depth ++ [']']
  | .obj [] => ['\x7b', '\x7d']
  | .obj ((name, j) :: fields) =>
    '\x7b' :: layout.gap (depth + 1) ++ writeString name ++ ':' :: layout.afterColon ++
      write layout (depth + 1) j ++ writeFields layout (depth + 1) fields ++
      layout.gap depth ++ ['\x7d']

/-- The items behind the first, each led by its comma. -/
def writeItems (layout : Layout) (depth : Nat) : List Json → List Char
  | [] => []
  | j :: js => ',' :: layout.gap depth ++ write layout depth j ++ writeItems layout depth js

/-- The fields behind the first, each led by its comma. -/
def writeFields (layout : Layout) (depth : Nat) : List (String × Json) → List Char
  | [] => []
  | (name, j) :: fields =>
    ',' :: layout.gap depth ++ writeString name ++ ':' :: layout.afterColon ++
      write layout depth j ++ writeFields layout depth fields

end

/-- The text of a value with nothing between its tokens. -/
def compact (j : Json) : String := String.ofList (j.write .compact 0)

/-- The text of a value with one item or field a line. -/
def pretty (j : Json) : String := String.ofList (j.write .pretty 0)

end PatternGraph.Json
