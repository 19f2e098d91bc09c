import PatternGraph.Json.Reader

/-!
# Decoding

A decoder takes a draft to a value or to the first fault met from left to right. `Record` describes
a structure with named fields. Such a structure may be given in two ways.

* As an object: its fields in any order, each at most once; other fields are skipped. A field is
  decoded where it stands, and a missing field is found at the closing brace.
* As a list of its fields in the order of the description. A list that goes on behind the last field
  is no text of the structure.

`Presence` says which fields may be left out, in which of the two ways.

One of a few values is given by its name. `oneOf` also takes an object whose only field has that
name, `numbered` also takes the position of the value. `tagged` describes a structure of several
kinds, one of whose fields says which kind it is.
-/

namespace PatternGraph.Json

/-- A way to take a draft to a value. -/
abbrev Decoder (α : Type) := Draft → Except Fault α

/-- The value that a whole text holds. -/
def Document.decode {α : Type} (d : Document) (dec : Decoder α) : Except Fault α := do
  let a ← dec d.root
  if d.trailing then .error .malformed else .ok a

namespace Decoder

variable {α β : Type}

/-- Decodes, then turns the result into another value. -/
def map (f : α → β) (dec : Decoder α) : Decoder β := fun d => f <$> dec d

/-- Decodes, and refuses the value unless the function gives one for it. -/
def filterMap (f : α → Option β) (dec : Decoder α) : Decoder β := fun d => do
  match f (← dec d) with
  | some b => .ok b
  | none => .error .mismatch

/-- A text. -/
def string : Decoder String
  | .str s => s
  | d => .error d.wrongKind

/-- A truth value. -/
def bool : Decoder Bool
  | .bool b => .ok b
  | d => .error d.wrongKind

/-- A number written with digits alone that is below a bound. -/
def natBelow (bound : Nat) : Decoder Nat
  | .num (.ok (some n)) => if n < bound then .ok n else .error .mismatch
  | d => .error d.wrongKind

/-- A value, or null where there is none. -/
def option (dec : Decoder α) : Decoder (Option α)
  | .null => .ok none
  | d => some <$> dec d

/-- The values of the items of a list. -/
def items (dec : Decoder α) : List Draft → Option Stop → Except Fault (List α)
  | [], none => .ok []
  | [], some stop => .error stop.used
  | d :: ds, stop => do
    let a ← dec d
    let as ← items dec ds stop
    return a :: as

/-- A list. -/
def list (dec : Decoder α) : Decoder (List α)
  | .arr ds stop => items dec ds stop
  | d => .error d.wrongKind

/-- The values of the fields of an object, with their names. -/
def entries (dec : Decoder α) :
    List (Except Fault String × Draft) → Option Stop → Except Fault (List (String × α))
  | [], none => .ok []
  | [], some stop => .error stop.used
  | (name, d) :: fields, stop => do
    let name ← name
    let a ← dec d
    let rest ← entries dec fields stop
    return (name, a) :: rest

/-- An object whose fields all hold values of one kind. -/
def table (dec : Decoder α) : Decoder (List (String × α))
  | .obj fields stop => entries dec fields stop
  | d => .error d.wrongKind

/-- Null. -/
def null : Decoder Unit
  | .null => .ok ()
  | d => .error d.wrongKind

/-- Null, or an object without fields. -/
def nothing : Decoder Unit
  | .obj [] none => .ok ()
  | d => null d

/-- One of a few values, given by its name. -/
def named (values : List (String × α)) : Decoder α := string.filterMap fun s => values.lookup s

/-- One of a few values, given by its name or by its position among them. -/
def numbered (values : List (String × α)) : Decoder α
  | .num n =>
    (natBelow values.length).filterMap (fun i => values[i]?.map Prod.snd) (.num n)
  | d => named values d

/-- One of a few values, given by its name, or by an object whose only field has that name and holds
what `content` reads. -/
def oneOf (values : List (String × α)) (content : Decoder Unit := null) : Decoder α
  | .obj [] (some stop) => .error stop.used
  | .obj ((name, d) :: fields) stop => do
    let a ← named values (.str name)
    content d
    match fields, stop with
    | [], none => .ok a
    | [], some stop => .error stop.used
    | _ :: _, _ => .error .malformed
  | d => named values d

/-- A list of exactly two values. -/
def pair (first : Decoder α) (second : Decoder β) : Decoder (α × β)
  | .arr [a, b] none => do return (← first a, ← second b)
  | d => .error d.wrongKind

end Decoder

/-- Whether a field of a structure may be left out, and what it is then. -/
inductive Presence (α : Type) where
  /-- The field has to be given. -/
  | required
  /-- The field may be left out of an object. -/
  | inObject (value : α)
  /-- The field may be left out of an object, and at the end of a list. -/
  | anywhere (value : α)

namespace Presence

variable {α : Type}

/-- What a field is that an object leaves out. -/
def whenMissing : Presence α → Option α
  | required => none
  | inObject value | anywhere value => some value

/-- What a field is that a list leaves out at its end. -/
def whenShort : Presence α → Option α
  | required | inObject _ => none
  | anywhere value => some value

end Presence

/-- How to decode a structure with named fields. -/
structure Record (α : Type) where
  /-- What is known of the fields while an object is read. -/
  Known : Type
  start : Known
  /-- Takes note of a field, if the structure has one of that name. -/
  note : String → Draft → Known → Option (Except Fault Known)
  /-- The structure with the fields that are known. -/
  finish : Known → Except Fault α
  /-- The structure with its fields taken from a list in order, and what is left of the list. -/
  take : List Draft → Option Stop → Except Fault (α × List Draft)

namespace Record

variable {α β : Type}

/-- A structure without fields. -/
def pure (a : α) : Record α where
  Known := Unit
  start := ()
  note _ _ _ := none
  finish _ := .ok a
  take items _ := .ok (a, items)

/-- A structure with one field more. -/
def field (r : Record (α → β)) (name : String) (dec : Decoder α)
    (presence : Presence α := .required) : Record β where
  Known := r.Known × Option α
  start := (r.start, none)
  note key d known :=
    match r.note key d known.1 with
    | some result => some (result.map fun k => (k, known.2))
    | none =>
      if key = name then
        match known.2 with
        | some _ => some (.error .mismatch)
        | none => some ((dec d).map fun a => (known.1, some a))
      else none
  finish known := do
    let f ← r.finish known.1
    match known.2 <|> presence.whenMissing with
    | some a => .ok (f a)
    | none => .error .mismatch
  take items stop := do
    let (f, rest) ← r.take items stop
    match rest with
    | d :: rest => return (f (← dec d), rest)
    | [] =>
      match stop with
      | some stop => .error stop.used
      | none =>
        match presence.whenShort with
        | some a => .ok (f a, [])
        | none => .error .mismatch

/-- What is known once all fields of an object are read. -/
def noteAll (r : Record α) :
    List (Except Fault String × Draft) → Option Stop → r.Known → Except Fault r.Known
  | [], none, known => .ok known
  | [], some stop, _ => .error stop.used
  | (name, d) :: fields, stop, known => do
    let name ← name
    match r.note name d known with
    | some result => noteAll r fields stop (← result)
    | none =>
      match d.skipFault with
      | some f => .error f
      | none => noteAll r fields stop known

/-- The structure that an object or a list gives. -/
def decode (r : Record α) : Decoder α
  | .obj fields stop => do r.finish (← r.noteAll fields stop r.start)
  | .arr items stop => do
    let (a, rest) ← r.take items stop
    match rest, stop with
    | [], none => .ok a
    | [], some stop => .error stop.used
    | _ :: _, _ => .error .malformed
  | d => .error d.wrongKind

end Record

/-- The value of the first field of a name, and the other fields. -/
def takeField (name : String) :
    List (Except Fault String × Draft) → Option (Draft × List (Except Fault String × Draft))
  | [] => none
  | (.ok key, d) :: fields =>
    if key = name then some (d, fields)
    else (takeField name fields).map fun (found, rest) => (found, (.ok key, d) :: rest)
  | (.error f, d) :: fields =>
    (takeField name fields).map fun (found, rest) => (found, (.error f, d) :: rest)

/-- One of several kinds of structure. An object names its kind in the field `tag`; a list names it
in front of the fields. -/
def Decoder.tagged {α : Type} (tag : String) (inField : Decoder (Decoder α))
    (inFront : Decoder (Decoder α) := inField) : Decoder α
  | .obj fields stop => do
    match takeField tag fields with
    | some (kind, rest) => (← inField kind) (.obj rest stop)
    | none => .error .mismatch
  | .arr (kind :: items) stop => do (← inFront kind) (.arr items stop)
  | d => .error d.wrongKind

/-- A kind that has no fields of its own; other fields are skipped. -/
def Decoder.bare {α : Type} (a : α) : Decoder α := (Record.pure a).decode

end PatternGraph.Json
