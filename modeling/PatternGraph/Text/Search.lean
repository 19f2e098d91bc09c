/-!
# Search in a text

Whether one text stands somewhere inside another.
-/

namespace PatternGraph.Text

/-- Whether the characters `needle` stand in a row in a list of characters. -/
def holdsChars (needle : List Char) : List Char → Bool
  | [] => needle.isEmpty
  | c :: cs => needle.isPrefixOf (c :: cs) || holdsChars needle cs

/-- Whether a text holds another. -/
def holds (text needle : String) : Bool := holdsChars needle.toList text.toList

theorem holdsChars_iff {needle cs : List Char} : holdsChars needle cs = true ↔ needle <:+: cs := by
  induction cs with
  | nil => simp [holdsChars]
  | cons c cs ih => simp [holdsChars, ih, List.infix_cons_iff]

end PatternGraph.Text
