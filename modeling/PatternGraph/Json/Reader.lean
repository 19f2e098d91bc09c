import PatternGraph.Json.Double
import PatternGraph.Json.Draft
import PatternGraph.Text.Blank
import PatternGraph.Text.Size

/-!
# Reading JSON

`Document.read` reads a text as far as it goes. Between tokens stand spaces, tabs and line ends.

* A text in quotes is read in two steps. `scanString` finds its end and splits it into pieces;
  `assemble` puts the pieces together, and refuses a surrogate that is not half of a pair.
* A number may have a fraction and an exponent. One that is too large for a double is refused where
  it would be used.
* The parts of a list or an object are read in order; the first part that cannot be read ends the
  draft.

Reading takes fuel for its recursion. Each bracket and each comma takes at most two units, so twice
the length of the text is enough.
-/

namespace PatternGraph.Json

open Text (byteSize isGap)

/-- A part of a text in quotes: a character, or a code unit written with `\u`. -/
inductive Piece where
  | char (c : Char)
  | unit (n : Nat)
deriving DecidableEq, Repr

/-- The value of a hexadecimal digit. -/
def hexValue? (c : Char) : Option Nat :=
  if '0' ≤ c ∧ c ≤ '9' then some (c.toNat - 48)
  else if 'a' ≤ c ∧ c ≤ 'f' then some (c.toNat - 87)
  else if 'A' ≤ c ∧ c ≤ 'F' then some (c.toNat - 55)
  else none

/-- The value of four hexadecimal digits. -/
def hexUnit? (a b c d : Char) : Option Nat := do
  return (((← hexValue? a) * 16 + (← hexValue? b)) * 16 + (← hexValue? c)) * 16 + (← hexValue? d)

/-- The character that a short escape stands for. -/
def shortEscape? (c : Char) : Option Char :=
  if c == '"' ∨ c == '\\' ∨ c == '/' then some c
  else if c == 'b' then some '\x08'
  else if c == 'f' then some '\x0c'
  else if c == 'n' then some '\n'
  else if c == 'r' then some '\r'
  else if c == 't' then some '\t'
  else none

/-- The fault of an escape that is not finished before `rest` ends: four bytes have to follow `\u`
before their digits are looked at. -/
def escapeFault (c : Char) (rest : List Char) : Fault :=
  if c == 'u' ∧ byteSize rest < 4 then .truncated else .malformed

/-- One more piece in front. -/
def addPiece (p : Piece) (r : List Piece × Except Fault (List Char)) :
    List Piece × Except Fault (List Char) := (p :: r.1, r.2)

/-- The pieces of a text up to its closing quote, and what follows the quote, or why there is none.
-/
def scanString : List Char → List Piece × Except Fault (List Char)
  | [] => ([], .error .truncated)
  | '\\' :: 'u' :: a :: b :: c :: d :: rest =>
    match hexUnit? a b c d with
    | some n => addPiece (.unit n) (scanString rest)
    | none => ([], .error .malformed)
  | '\\' :: c :: rest =>
    match shortEscape? c with
    | some e => addPiece (.char e) (scanString rest)
    | none => ([], .error (escapeFault c rest))
  | ['\\'] => ([], .error .truncated)
  | c :: rest =>
    if c == '"' then ([], .ok rest)
    else if c < ' ' then ([], .error .malformed)
    else addPiece (.char c) (scanString rest)

/-- Whether a code unit is the first half of a surrogate pair. -/
def isHighSurrogate (n : Nat) : Bool := 0xD800 ≤ n && n ≤ 0xDBFF

/-- Whether a code unit is the second half of a surrogate pair. -/
def isLowSurrogate (n : Nat) : Bool := 0xDC00 ≤ n && n ≤ 0xDFFF

/-- The character of a surrogate pair. -/
def pairChar (high low : Nat) : Char :=
  Char.ofNat ((high - 0xD800) * 0x400 + (low - 0xDC00) + 0x10000)

/-- The characters of a text from its pieces. `ending` is the fault that ended the text, if it did
not come to its closing quote. -/
def assemble (ending : Option Fault) : List Piece → Except Fault (List Char)
  | [] =>
    match ending with
    | none => .ok []
    | some f => .error f
  | .char c :: pieces => (c :: ·) <$> assemble ending pieces
  | [.unit n] =>
    if isHighSurrogate n then .error (ending.getD .malformed)
    else if isLowSurrogate n then .error .malformed
    else (Char.ofNat n :: ·) <$> assemble ending []
  | .unit n :: .unit m :: pieces =>
    if isHighSurrogate n then
      if isLowSurrogate m then (pairChar n m :: ·) <$> assemble ending pieces else .error .malformed
    else if isLowSurrogate n then .error .malformed
    else (Char.ofNat n :: ·) <$> assemble ending (.unit m :: pieces)
  | .unit n :: .char c :: pieces =>
    if isHighSurrogate n || isLowSurrogate n then .error .malformed
    else (Char.ofNat n :: ·) <$> assemble ending (.char c :: pieces)

/-- The fault that ended a text, if there is one. -/
def faultOf {α : Type} : Except Fault α → Option Fault
  | .ok _ => none
  | .error f => some f

/-- A text in quotes whose opening quote is read. -/
def readString (cs : List Char) : Draft × Option (List Char) :=
  let (pieces, ending) := scanString cs
  let chars := assemble (faultOf ending) pieces
  match ending with
  | .ok rest => (.str (String.ofList <$> chars), some rest)
  | .error f => (.cut ⟨(faultOf chars).getD f, f⟩, none)

/-- The rest of a word that stands for a value. -/
def readWord (value : Draft) : List Char → List Char → Draft × Option (List Char)
  | [], rest => (value, some rest)
  | _ :: _, [] => (.cut (.both .truncated), none)
  | w :: word, c :: rest =>
    if c == w then readWord value word rest else (.cut (.both .malformed), none)

/-- The parts of a number. -/
structure Numeral where
  negative : Bool
  whole : List Char
  /-- The digits behind the point, if there is a point. -/
  fraction : Option (List Char)
  exponent : Option Int
deriving Repr

/-- The value of a run of decimal digits. -/
def digitsValue (ds : List Char) : Nat := ds.foldl (fun n d => 10 * n + digitValue d) 0

/-- Where a number breaks off before `rest`. If the text ends there, a value that is used is
truncated; one that is skipped is malformed in any case. -/
def numberStop : List Char → Stop
  | [] => ⟨.truncated, .malformed⟩
  | _ :: _ => .both .malformed

/-- The digits before the point, at least one and without a leading zero. -/
def readWhole (cs : List Char) : Except Stop (List Char × List Char) :=
  let ds := cs.takeWhile Char.isDigit
  let rest := cs.dropWhile Char.isDigit
  match ds with
  | [] => .error (numberStop rest)
  | '0' :: _ :: _ => .error (.both .malformed)
  | _ => .ok (ds, rest)

/-- A point and the digits behind it, at least one. -/
def readFraction : List Char → Except Stop (Option (List Char) × List Char)
  | '.' :: cs =>
    let ds := cs.takeWhile Char.isDigit
    let rest := cs.dropWhile Char.isDigit
    if ds = [] then .error (numberStop rest) else .ok (some ds, rest)
  | cs => .ok (none, cs)

/-- The sign of an exponent: whether it is negative. -/
def readSign : List Char → Bool × List Char
  | '+' :: cs => (false, cs)
  | '-' :: cs => (true, cs)
  | cs => (false, cs)

/-- An exponent: the letter, a sign or none, and at least one digit. -/
def readExponent (cs : List Char) : Except Stop (Option Int × List Char) :=
  match cs with
  | [] => .ok (none, [])
  | c :: after =>
    if c == 'e' || c == 'E' then
      let (negative, cs) := readSign after
      let ds := cs.takeWhile Char.isDigit
      let rest := cs.dropWhile Char.isDigit
      if ds = [] then .error (numberStop rest)
      else
        let n : Int := digitsValue ds
        .ok (some (if negative then -n else n), rest)
    else .ok (none, cs)

namespace Numeral

/-- The digits of the number as a significand below `2 ^ 64`, with the power of ten that belongs to
it. A digit before the point that is not taken in counts as a zero; one behind the point is dropped.
-/
def scaled (n : Numeral) : Nat × Int :=
  let fraction := n.fraction.getD []
  let (head, dropped) := absorb 0 n.whole
  let (significand, unused) := absorb head fraction
  (significand, dropped.length - (fraction.length - unused.length) + n.exponent.getD 0)

/-- Whether the number is too large for a double. -/
def overflows (n : Numeral) : Bool :=
  let (significand, exponent) := n.scaled
  !fitsDouble significand exponent

/-- The number, if it is written with digits alone. -/
def toNat? (n : Numeral) : Option Nat :=
  if n.negative || n.fraction.isSome || n.exponent.isSome then none
  else some (digitsValue n.whole)

end Numeral

/-- The parts of a number. -/
def readNumeral (cs : List Char) : Except Stop (Numeral × List Char) := do
  let (negative, cs) :=
    match cs with
    | '-' :: cs => (true, cs)
    | cs => (false, cs)
  let (whole, cs) ← readWhole cs
  let (fraction, cs) ← readFraction cs
  let (exponent, cs) ← readExponent cs
  return (⟨negative, whole, fraction, exponent⟩, cs)

/-- A number. -/
def readNumber (cs : List Char) : Draft × Option (List Char) :=
  match readNumeral cs with
  | .error stop => (.cut stop, none)
  | .ok (n, rest) => (.num (if n.overflows then .error .malformed else .ok n.toNat?), some rest)

/-- The items of a list as far as they could be read, where reading stopped, and what follows. -/
abbrev ItemsDraft := List Draft × Option Stop × Option (List Char)

/-- The fields of an object as far as they could be read, where reading stopped, and what follows.
-/
abbrev FieldsDraft := List (Except Fault String × Draft) × Option Stop × Option (List Char)

mutual

/-- A value, and what follows it if it could be read to its end. -/
def readValue : Nat → List Char → Draft × Option (List Char)
  | 0, _ => (.cut (.both .truncated), none)
  | fuel + 1, cs =>
    match cs.dropWhile isGap with
    | [] => (.cut (.both .truncated), none)
    | c :: cs =>
      if c == '"' then readString cs
      else if c == '[' then
        match cs.dropWhile isGap with
        | [] => (.arr [] (some (.both .truncated)), none)
        | ']' :: rest => (.arr [] none, some rest)
        | cs =>
          let (items, stop, rest) := readItems fuel cs
          (.arr items stop, rest)
      else if c == '\x7b' then
        match cs.dropWhile isGap with
        | '\x7d' :: rest => (.obj [] none, some rest)
        | cs =>
          let (fields, stop, rest) := readFields fuel cs
          (.obj fields stop, rest)
      else if c == 'n' then readWord .null ['u', 'l', 'l'] cs
      else if c == 't' then readWord (.bool true) ['r', 'u', 'e'] cs
      else if c == 'f' then readWord (.bool false) ['a', 'l', 's', 'e'] cs
      else if c == '-' || c.isDigit then readNumber (c :: cs)
      else (.cut (.both .malformed), none)

/-- The items of a list, the first of which starts here. -/
def readItems : Nat → List Char → ItemsDraft
  | 0, _ => ([], some (.both .truncated), none)
  | fuel + 1, cs =>
    match readValue fuel cs with
    | (d, none) => ([d], none, none)
    | (d, some cs) =>
      match cs.dropWhile isGap with
      | [] => ([d], some (.both .truncated), none)
      | c :: cs =>
        if c == ',' then
          let (ds, stop, rest) := readItems fuel cs
          (d :: ds, stop, rest)
        else if c == ']' then ([d], none, some cs)
        else ([d], some (.both .malformed), none)

/-- The fields of an object, the first of which starts here. -/
def readFields : Nat → List Char → FieldsDraft
  | 0, _ => ([], some (.both .truncated), none)
  | fuel + 1, cs =>
    match cs.dropWhile isGap with
    | [] => ([], some (.both .truncated), none)
    | '"' :: cs =>
      match readString cs with
      | (.str name, some cs) =>
        match cs.dropWhile isGap with
        | [] => ([(name, .cut (.both .truncated))], none, none)
        | ':' :: cs =>
          match readValue fuel cs with
          | (d, none) => ([(name, d)], none, none)
          | (d, some cs) =>
            match cs.dropWhile isGap with
            | [] => ([(name, d)], some (.both .truncated), none)
            | c :: cs =>
              if c == ',' then
                let (fields, stop, rest) := readFields fuel cs
                ((name, d) :: fields, stop, rest)
              else if c == '\x7d' then ([(name, d)], none, some cs)
              else ([(name, d)], some (.both .malformed), none)
        | _ => ([(name, .cut (.both .malformed))], none, none)
      | (.cut stop, _) => ([], some stop, none)
      | _ => ([], some (.both .malformed), none)
    | _ => ([], some (.both .malformed), none)

end

/-- What a whole text holds. -/
structure Document where
  root : Draft
  /-- Whether something other than white space follows the value. -/
  trailing : Bool

/-- Reads a whole text. -/
def Document.read (text : String) : Document :=
  let cs := text.toList
  let (root, rest) := readValue (2 * cs.length + 2) cs
  ⟨root, (rest.getD []).any fun c => !isGap c⟩

/-- The document of a text that holds a value and nothing else. -/
def Document.ofJson (j : Json) : Document := ⟨.ofJson j, false⟩

end PatternGraph.Json
