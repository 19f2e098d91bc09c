import PatternGraph.Text.Blank
import PatternGraph.Text.Size

/-!
# Parsers

A parser takes a text apart from its front. It gives a value and the rest of the text, or the rest
at which it failed. Where parts follow one another, the failure is that of the part that failed; a
choice fails as its last alternative does; a repetition stops before the part that failed, and so
does an optional part, which then counts as absent.

The place of a failure is told by the number of bytes before it.
-/

namespace PatternGraph.Text

/-- A way to take a value off the front of a text. -/
def Parser (α : Type) := List Char → Except (List Char) (α × List Char)

namespace Parser

variable {α β : Type}

instance : Monad Parser where
  pure a := fun cs => .ok (a, cs)
  bind p f := fun cs =>
    match p cs with
    | .error at_ => .error at_
    | .ok (a, rest) => f a rest

/-- Fails where it stands. -/
def fail : Parser α := fun cs => .error cs

/-- One character. -/
def char (c : Char) : Parser Unit
  | d :: rest => if d = c then .ok ((), rest) else .error (d :: rest)
  | [] => .error []

/-- One of some characters. -/
def oneOf (chars : List Char) : Parser Char
  | d :: rest => if d ∈ chars then .ok (d, rest) else .error (d :: rest)
  | [] => .error []

/-- The characters of a word, in order. -/
def word (chars : List Char) : Parser Unit := fun cs =>
  if chars.isPrefixOf cs then .ok ((), cs.drop chars.length) else .error cs

/-- The white space between tokens, if there is any. -/
def gaps : Parser Unit := fun cs => .ok ((), cs.dropWhile isGap)

/-- The white space between tokens, of which there is some. -/
def someGaps : Parser Unit
  | c :: rest => if isGap c then .ok ((), rest.dropWhile isGap) else .error (c :: rest)
  | [] => .error []

/-- A part with white space around it. -/
def spaced (p : Parser α) : Parser α := do
  gaps
  let a ← p
  gaps
  return a

/-- The first of two parts that can be taken. -/
def orElse (p q : Parser α) : Parser α := fun cs =>
  match p cs with
  | .error _ => q cs
  | .ok r => .ok r

/-- A value whose text is a word. -/
def value (a : α) (p : Parser β) : Parser α := do
  let _ ← p
  return a

/-- The first of some parts that can be taken. -/
def firstOf : List (Parser α) → Parser α
  | [] => fail
  | [p] => p
  | p :: ps => orElse p (firstOf ps)

/-- A part that may be absent. -/
def optional (p : Parser α) : Parser (Option α) := fun cs =>
  match p cs with
  | .error _ => .ok (none, cs)
  | .ok (a, rest) => .ok (some a, rest)

/-- Up to `n` parts in a row, as many as can be taken. -/
def manyUpTo (p : Parser α) : Nat → Parser (List α)
  | 0, cs => .ok ([], cs)
  | n + 1, cs =>
    match p cs with
    | .error _ => .ok ([], cs)
    | .ok (a, rest) =>
      match manyUpTo p n rest with
      | .error at_ => .error at_
      | .ok (as, rest) => .ok (a :: as, rest)

/-- Parts in a row, as many as can be taken. Each takes at least one character, so there are at most
as many parts as characters. -/
def many (p : Parser α) : Parser (List α) := fun cs => manyUpTo p cs.length cs

/-- The value of a whole text, or the number of bytes before the place of the failure. Text that is
left over fails where it starts. -/
def parseAll (p : Parser α) (text : String) : Except Nat α :=
  let cs := text.toList
  match p cs with
  | .ok (a, []) => .ok a
  | .ok (_, rest) => .error (byteSize cs - byteSize rest)
  | .error rest => .error (byteSize cs - byteSize rest)

end Parser

end PatternGraph.Text
