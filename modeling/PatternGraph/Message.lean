/-!
# Messages

What derivation and queries report while they run, beside their results.
-/

namespace PatternGraph

/-- How much a message matters. -/
inductive Level where
  | info
  | warning
deriving DecidableEq, Repr

/-- A message for whoever watches. -/
structure Message where
  level : Level
  text : String
deriving DecidableEq, Repr

/-- The message on one line, behind its level. -/
def Message.line (m : Message) : String :=
  (match m.level with
    | .info => "info: "
    | .warning => "warn: ") ++ m.text

end PatternGraph
