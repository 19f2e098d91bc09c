/-!
# The size of a text

Places in a text are counted in bytes of its UTF-8 form.
-/

namespace PatternGraph.Text

/-- The number of bytes that characters take. -/
def byteSize : List Char → Nat
  | [] => 0
  | c :: cs => c.utf8Size + byteSize cs

end PatternGraph.Text
