import PatternGraph.Text.Range

/-!
# White space

Two notions of white space are in use. `isBlank` is the Unicode property `White_Space`; it is what
trimming removes from the ends of a type name. `isGap` is the white space that patterns, rules and
JSON texts allow between their tokens: space, tab, carriage return and line feed.
-/

namespace PatternGraph.Text

/-- The code points with the property `White_Space`. -/
def blankRanges : List (Nat × Nat) :=
  [(0x9, 0xD), (0x20, 0x20), (0x85, 0x85), (0xA0, 0xA0), (0x1680, 0x1680), (0x2000, 0x200A),
   (0x2028, 0x2029), (0x202F, 0x202F), (0x205F, 0x205F), (0x3000, 0x3000)]

/-- Whether a character is white space. -/
def isBlank (c : Char) : Bool := inRanges blankRanges c.toNat

/-- Whether a character may stand between two tokens. -/
def isGap (c : Char) : Bool := c == ' ' || c == '\t' || c == '\n' || c == '\r'

/-- The characters left when white space is taken off both ends. -/
def trimChars (cs : List Char) : List Char :=
  ((cs.dropWhile isBlank).reverse.dropWhile isBlank).reverse

/-- A text without the white space at its two ends. -/
def trim (s : String) : String := String.ofList (trimChars s.toList)

end PatternGraph.Text
