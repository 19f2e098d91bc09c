import PatternGraph.Text.CaseTable
import PatternGraph.Text.Range

/-!
# Lowercase

Two ways of lowering the case of a text. `lowercase` is the full mapping of Unicode: `İ` becomes two
characters, and a capital sigma becomes a final sigma at the end of a word, so the image of a
character may depend on its neighbours. `asciiLowercase` changes only the letters `A` to `Z`.

A word ends at a sigma when, skipping characters that case ignores, a cased character stands before
it and none after it.
-/

namespace PatternGraph.Text

/-- The lowercase form in a table of runs sorted by `first`, or the code point itself. -/
def lowerIn : List CaseRun → Nat → Nat
  | [], n => n
  | r :: rest, n =>
    if n < r.first then n
    else if n ≤ r.last && (n - r.first) % r.step == 0 then (n + r.shift).toNat
    else lowerIn rest n

/-- The lowercase form of a character on its own. -/
def lowerChar (c : Char) : List Char :=
  if c == 'İ' then ['i', '\u0307'] else [Char.ofNat (lowerIn caseRuns c.toNat)]

/-- Whether a character is a letter with case. -/
def isCased (c : Char) : Bool := inRanges casedRanges c.toNat

/-- Whether a character is skipped when the context of a letter is looked at. -/
def isCaseIgnorable (c : Char) : Bool := inRanges caseIgnorableRanges c.toNat

/-- Whether the first character that case does not ignore is a cased one. -/
def leadsToCased (cs : List Char) : Bool :=
  match cs.dropWhile isCaseIgnorable with
  | [] => false
  | c :: _ => isCased c

/-- The lowercase form of a capital sigma between `before`, nearest character first, and `after`. -/
def lowerSigma (before after : List Char) : Char :=
  if leadsToCased before && !leadsToCased after then 'ς' else 'σ'

/-- Lowercase of the characters that follow `before`, which is held nearest character first. -/
def lowercaseAfter (before : List Char) : List Char → List Char
  | [] => []
  | c :: rest =>
    (if c == 'Σ' then [lowerSigma before rest] else lowerChar c) ++
      lowercaseAfter (c :: before) rest

/-- The lowercase form of a text. -/
def lowercase (s : String) : String := String.ofList (lowercaseAfter [] s.toList)

/-- A text with the letters `A` to `Z` lowered and all else kept. -/
def asciiLowercase (s : String) : String := String.ofList (s.toList.map Char.toLower)

/-- A text with the letters `a` to `z` raised and all else kept. -/
def asciiUppercase (s : String) : String := String.ofList (s.toList.map Char.toUpper)

theorem lowercaseAfter_nil (before : List Char) : lowercaseAfter before [] = [] := rfl

theorem lowercaseAfter_cons (before : List Char) (c : Char) (rest : List Char) :
    lowercaseAfter before (c :: rest) =
      (if c == 'Σ' then [lowerSigma before rest] else lowerChar c) ++
        lowercaseAfter (c :: before) rest := rfl

end PatternGraph.Text
