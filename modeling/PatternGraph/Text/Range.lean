/-!
# Ranges of code points

A character class is a table of code point ranges, lowest first. Looking a character up stops at
the first range that starts above it.
-/

namespace PatternGraph.Text

/-- Whether `n` lies in one of the ranges `(first, last)` of a table sorted by `first`. -/
def inRanges : List (Nat × Nat) → Nat → Bool
  | [], _ => false
  | (first, last) :: rest, n => first ≤ n && (n ≤ last || inRanges rest n)

theorem inRanges_cons (r : Nat × Nat) (rest : List (Nat × Nat)) (n : Nat) :
    inRanges (r :: rest) n = (decide (r.1 ≤ n) && (decide (n ≤ r.2) || inRanges rest n)) := rfl

end PatternGraph.Text
