import PatternGraph.Json.Value

/-!
# What a text holds, as far as it can be read

A JSON text may be broken, may end early, or may hold a value of the wrong shape. Which of these is
reported depends on which comes first from left to right, and on whether the broken place belongs to
a value that is used or to one that is skipped. So reading a text gives a `Draft`: a tree that
records what was read and where reading stopped. Decoding a draft then walks it from left to right
and reports the first fault that it meets.

A value that is skipped is checked less strictly than one that is used: its texts may hold lone
surrogates and its numbers may be of any size. A `Stop` therefore has a fault for each of the two.

`Draft.ofJson` is the draft of a text that holds a value and nothing else.
-/

namespace PatternGraph.Json

/-- Why a text does not give the value that is asked for. -/
inductive Fault where
  /-- The text is no JSON text. -/
  | malformed
  /-- The text ends before the value does. -/
  | truncated
  /-- The value has the wrong shape. -/
  | mismatch
deriving DecidableEq, Repr

/-- A place where reading stopped: the fault of it in a value that is used, and in one that is
skipped. -/
structure Stop where
  used : Fault
  skipped : Fault
deriving DecidableEq, Repr

/-- A place that is faulty in the same way in both kinds of values. -/
def Stop.both (f : Fault) : Stop := ⟨f, f⟩

/-- A value as far as it could be read. -/
inductive Draft where
  | null
  | bool (b : Bool)
  /-- A number, or why it can only be skipped. It is given if it is written with digits alone. -/
  | num (n : Except Fault (Option Nat))
  /-- A text, or why it can only be skipped. -/
  | str (s : Except Fault String)
  /-- A list, and where reading stopped if it did not come to the closing bracket. -/
  | arr (items : List Draft) (stop : Option Stop)
  /-- An object, and where reading stopped if it did not come to the closing brace. A name is given,
  or why its field can only be skipped. -/
  | obj (fields : List (Except Fault String × Draft)) (stop : Option Stop)
  /-- No value: reading stopped here. -/
  | cut (stop : Stop)

instance : Inhabited Draft := ⟨.null⟩

namespace Draft

mutual

/-- The draft of a text that holds a value and nothing else. -/
def ofJson : Json → Draft
  | .null => .null
  | .bool b => .bool b
  | .int n => .num (.ok (if n < 0 then none else some n.toNat))
  | .str s => .str (.ok s)
  | .arr items => .arr (ofItems items) none
  | .obj fields => .obj (ofFields fields) none

/-- The drafts of the items of a list. -/
def ofItems : List Json → List Draft
  | [] => []
  | j :: js => ofJson j :: ofItems js

/-- The drafts of the fields of an object. -/
def ofFields : List (String × Json) → List (Except Fault String × Draft)
  | [] => []
  | (name, j) :: fields => (.ok name, ofJson j) :: ofFields fields

end

mutual

/-- The first fault met when the value is skipped. -/
def skipFault : Draft → Option Fault
  | .null | .bool _ | .num _ | .str _ => none
  | .arr items stop => skipItems items <|> stop.map Stop.skipped
  | .obj fields stop => skipFields fields <|> stop.map Stop.skipped
  | .cut stop => some stop.skipped

/-- The first fault met when the items are skipped. -/
def skipItems : List Draft → Option Fault
  | [] => none
  | d :: ds => skipFault d <|> skipItems ds

/-- The first fault met when the fields are skipped. -/
def skipFields : List (Except Fault String × Draft) → Option Fault
  | [] => none
  | (_, d) :: fields => skipFault d <|> skipFields fields

end

/-- The fault of a value that is not of the kind asked for. A number or a text is read to its end
before it is found to be of the wrong kind; a list or an object is not. -/
def wrongKind : Draft → Fault
  | .num (.error f) => f
  | .str (.error f) => f
  | .cut stop => stop.used
  | _ => .mismatch

end Draft

end PatternGraph.Json
