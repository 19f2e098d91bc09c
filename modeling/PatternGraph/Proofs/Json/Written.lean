import PatternGraph.Json.Printer
import PatternGraph.Json.Reader
import PatternGraph.Proofs.Text.Layout

/-!
# What is written is read

The text that is written for a value without numbers is read as that value and nothing else, whatever
characters its texts hold and whatever white space the layout puts between the tokens.

* Each character of a text is written as one piece that spells it, and the pieces that spell some
  characters are assembled to these.
* A value is read off its text with any text behind it, `Json.NumberFree.readsBack`, by induction on the
  value. For a list and an object a second induction goes over what follows the first part: a comma
  leads each further part, and the bracket or brace ends it. Each part needs no more fuel than its text
  is long.
-/

namespace PatternGraph.Json

open Text (isGap Gap Solid)

/-! ### Texts in quotes -/

/-- A piece that stands for a character alone, whatever is beside it. -/
inductive Piece.Spells : Piece → Char → Prop where
  | char (c : Char) : Spells (.char c) c
  /-- A code unit that is not half of a pair. -/
  | unit {c : Char} (h : c.toNat < 0xD800) : Spells (.unit c.toNat) c

/-- Below the space a character is written with two hexadecimal digits. -/
theorem hexUnit?_writeChar {n : Nat} (h : n < 32) :
    hexUnit? '0' '0' (hexDigit (n / 16)) (hexDigit (n % 16)) = some n := by
  have hall : ∀ n < 32, hexUnit? '0' '0' (hexDigit (n / 16)) (hexDigit (n % 16)) = some n := by decide
  exact hall n h

theorem scanString_plain {c : Char} (hquote : c ≠ '"') (hescape : c ≠ '\\') (hspace : ¬ c < ' ')
    (cs : List Char) : scanString (c :: cs) = addPiece (.char c) (scanString cs) := by
  rw [scanString.eq_def]
  split
  case h_5 c' _ _ _ _ heq =>
    obtain ⟨rfl, rfl⟩ := List.cons.inj heq
    rw [if_neg (by simpa using hquote), if_neg hspace]
  all_goals simp_all

/-- The characters that are written with a short escape. -/
def shortEscaped : List Char := ['"', '\\', '\x08', '\x0c', '\n', '\r', '\t']

/-- A character is written as one piece that spells it. -/
theorem exists_piece (c : Char) : ∃ p : Piece, p.Spells c ∧
    ∀ rest, scanString (writeChar c ++ rest) = addPiece p (scanString rest) := by
  by_cases hshort : c ∈ shortEscaped
  · simp only [shortEscaped, List.mem_cons, List.not_mem_nil, or_false] at hshort
    rcases hshort with rfl | rfl | rfl | rfl | rfl | rfl | rfl <;>
      exact ⟨.char _, .char _, fun _ => rfl⟩
  · simp only [shortEscaped, List.mem_cons, List.not_mem_nil, or_false, not_or] at hshort
    obtain ⟨hquote, hescape, hb, hf, hn, hr, ht⟩ := hshort
    by_cases hspace : c < ' '
    · have hlt : c.toNat < 32 := hspace
      refine ⟨.unit c.toNat, .unit (by omega), fun rest => ?_⟩
      simp [writeChar, hquote, hescape, hb, hf, hn, hr, ht, hspace, scanString,
        hexUnit?_writeChar hlt]
    · refine ⟨.char c, .char c, fun rest => ?_⟩
      simp [writeChar, hquote, hescape, hb, hf, hn, hr, ht, hspace,
        scanString_plain hquote hescape hspace]

/-- Some characters and a quote behind them are read as pieces that spell the characters. -/
theorem exists_pieces (cs rest : List Char) : ∃ ps : List Piece, List.Forall₂ Piece.Spells ps cs ∧
    scanString (cs.flatMap writeChar ++ '"' :: rest) = (ps, .ok rest) := by
  induction cs with
  | nil => exact ⟨[], .nil, rfl⟩
  | cons c cs ih =>
    obtain ⟨p, hp, hscan⟩ := exists_piece c
    obtain ⟨ps, hps, hrest⟩ := ih
    refine ⟨p :: ps, .cons hp hps, ?_⟩
    rw [List.flatMap_cons, List.append_assoc, hscan, hrest]
    rfl

theorem assemble_unit {n : Nat} (h : n < 0xD800) (ps : List Piece) :
    assemble none (.unit n :: ps) = (Char.ofNat n :: ·) <$> assemble none ps := by
  have hhigh : isHighSurrogate n = false := by simp [isHighSurrogate]; omega
  have hlow : isLowSurrogate n = false := by simp [isLowSurrogate]; omega
  cases ps with
  | nil => simp [assemble, hhigh, hlow]
  | cons p ps => cases p <;> simp [assemble, hhigh, hlow]

/-- Pieces that spell some characters are assembled to these. -/
theorem assemble_of_spells {ps : List Piece} {cs : List Char} (h : List.Forall₂ Piece.Spells ps cs) :
    assemble none ps = .ok cs := by
  induction h with
  | nil => rfl
  | cons hp _ ih =>
    cases hp with
    | char c => rw [assemble, ih]; rfl
    | unit hc => rw [assemble_unit hc, ih, Char.ofNat_toNat]; rfl

/-- A text is read off between its quotes. -/
theorem readString_flatMap (s : String) (rest : List Char) :
    readString (s.toList.flatMap writeChar ++ '"' :: rest) = (.str (.ok s), some rest) := by
  obtain ⟨ps, hps, hscan⟩ := exists_pieces s.toList rest
  unfold readString
  simp only [hscan, faultOf, assemble_of_spells hps]
  simp

theorem writeString_append (s : String) (rest : List Char) :
    writeString s ++ rest = '"' :: (s.toList.flatMap writeChar ++ '"' :: rest) := by
  simp [writeString]

/-! ### Layouts -/

/-- Only white space stands between the tokens. -/
structure Layout.Blank (layout : Layout) : Prop where
  gap : ∀ depth, Gap (layout.gap depth)
  afterColon : Gap layout.afterColon

theorem Layout.blank_compact : Layout.compact.Blank where
  gap _ := List.forall_mem_nil _
  afterColon := List.forall_mem_nil _

theorem Layout.blank_pretty : Layout.pretty.Blank where
  gap depth := by simp [Gap, Layout.pretty, isGap]
  afterColon := by simp [Gap, Layout.pretty, isGap]

section Gaps

variable {gap : List Char}

theorem readValue_gap (h : Gap gap) (fuel : Nat) (cs : List Char) :
    readValue fuel (gap ++ cs) = readValue fuel cs := by
  cases fuel with
  | zero => simp [readValue]
  | succ fuel => simp only [readValue, List.dropWhile_append_of_pos h]

theorem readItems_gap (h : Gap gap) (fuel : Nat) (cs : List Char) :
    readItems fuel (gap ++ cs) = readItems fuel cs := by
  cases fuel with
  | zero => simp [readItems]
  | succ fuel => simp only [readItems, readValue_gap h]

theorem readFields_gap (h : Gap gap) (fuel : Nat) (cs : List Char) :
    readFields fuel (gap ++ cs) = readFields fuel cs := by
  cases fuel with
  | zero => simp [readFields]
  | succ fuel => simp only [readFields, List.dropWhile_append_of_pos h]

end Gaps

/-! ### Lists and objects around what they hold -/

section Parts

variable {fuel : Nat} {d : Draft} {items : List Draft} {fields : List (Except Fault String × Draft)}
  {stop : Option Stop} {name : String} {gap cs more : List Char} {rest : Option (List Char)}

/-- A bracket ends a list. -/
theorem readItems_last {last : List Char} (hd : readValue fuel cs = (d, some (gap ++ ']' :: last)))
    (hgap : Gap gap) : readItems (fuel + 1) cs = ([d], none, some last) := by
  simp only [readItems, hd, List.dropWhile_append_of_pos hgap]
  rfl

/-- A comma leads a further item. -/
theorem readItems_further (hd : readValue fuel cs = (d, some (',' :: more)))
    (hmore : readItems fuel more = (items, stop, rest)) :
    readItems (fuel + 1) cs = (d :: items, stop, rest) := by
  simp only [readItems, hd]
  rw [List.dropWhile_cons_of_neg (by decide)]
  simp only [hmore]
  rfl

/-- A brace ends an object. -/
theorem readFields_last {last : List Char} (hd : readValue fuel cs = (d, some (gap ++ '\x7d' :: last)))
    (hgap : Gap gap) :
    readFields (fuel + 1) (writeString name ++ ':' :: cs) = ([(.ok name, d)], none, some last) := by
  simp only [readFields, writeString_append]
  rw [List.dropWhile_cons_of_neg (by decide)]
  simp only [readString_flatMap]
  rw [List.dropWhile_cons_of_neg (by decide)]
  simp only [hd, List.dropWhile_append_of_pos hgap]
  rfl

/-- A comma leads a further field. -/
theorem readFields_further (hd : readValue fuel cs = (d, some (',' :: more)))
    (hmore : readFields fuel more = (fields, stop, rest)) :
    readFields (fuel + 1) (writeString name ++ ':' :: cs) = ((.ok name, d) :: fields, stop, rest) := by
  simp only [readFields, writeString_append]
  rw [List.dropWhile_cons_of_neg (by decide)]
  simp only [readString_flatMap]
  rw [List.dropWhile_cons_of_neg (by decide)]
  simp only [hd]
  rw [List.dropWhile_cons_of_neg (by decide)]
  simp only [hmore]
  rfl

/-- A list is read that is not empty. -/
theorem readValue_items {c : Char} (hgap : Gap gap) (hc : isGap c = false) (hne : c ≠ ']')
    (hitems : readItems fuel (c :: cs) = (items, stop, rest)) :
    readValue (fuel + 1) ('[' :: (gap ++ c :: cs)) = (.arr items stop, rest) := by
  simp only [readValue]
  rw [List.dropWhile_cons_of_neg (by decide)]
  simp only [List.dropWhile_append_of_pos hgap]
  rw [List.dropWhile_cons_of_neg (by simp [hc])]
  simp [hitems, hne]

/-- An object is read that is not empty. -/
theorem readValue_fields (hgap : Gap gap)
    (hfields : readFields fuel (writeString name ++ cs) = (fields, stop, rest)) :
    readValue (fuel + 1) ('\x7b' :: (gap ++ (writeString name ++ cs))) = (.obj fields stop, rest) := by
  rw [writeString_append] at hfields ⊢
  simp only [readValue]
  rw [List.dropWhile_cons_of_neg (by decide)]
  simp only [List.dropWhile_append_of_pos hgap]
  rw [List.dropWhile_cons_of_neg (by decide)]
  simp [hfields]

end Parts

/-! ### Values -/

/-- There is no number in the value. -/
inductive NumberFree : Json → Prop where
  | null : NumberFree .null
  | bool (b : Bool) : NumberFree (.bool b)
  | str (s : String) : NumberFree (.str s)
  | arr {items : List Json} (h : ∀ j ∈ items, NumberFree j) : NumberFree (.arr items)
  | obj {fields : List (String × Json)} (h : ∀ f ∈ fields, NumberFree f.2) : NumberFree (.obj fields)

/-- A value is read off its text, with as much fuel as the text is long. -/
def ReadsBack (layout : Layout) (j : Json) : Prop :=
  ∀ depth fuel rest, (write layout depth j).length ≤ fuel →
    readValue fuel (write layout depth j ++ rest) = (.ofJson j, some rest)

variable {layout : Layout}

/-- The first character of the text of a value is no white space and ends no list. -/
theorem NumberFree.write_eq_cons {j : Json} (h : j.NumberFree) (layout : Layout) (depth : Nat) :
    ∃ c cs, write layout depth j = c :: cs ∧ isGap c = false ∧ c ≠ ']' := by
  cases h with
  | null => exact ⟨'n', _, rfl, by decide, by decide⟩
  | bool b => cases b <;> exact ⟨_, _, rfl, by decide, by decide⟩
  | str s => exact ⟨'"', _, rfl, by decide, by decide⟩
  | @arr items _ => cases items <;> exact ⟨'[', _, rfl, by decide, by decide⟩
  | @obj fields _ => cases fields <;> exact ⟨'\x7b', _, rfl, by decide, by decide⟩

/-- The items of a list are read off up to the bracket. -/
theorem readItems_write (hl : layout.Blank) {j : Json} {js : List Json} (hj : ReadsBack layout j)
    (hjs : ∀ k ∈ js, ReadsBack layout k) {gap : List Char} (hgap : Gap gap) (depth : Nat)
    (rest : List Char) {fuel : Nat}
    (hfuel : (write layout depth j).length + (writeItems layout depth js).length < fuel) :
    readItems fuel (write layout depth j ++ (writeItems layout depth js ++ (gap ++ ']' :: rest))) =
      (Draft.ofItems (j :: js), none, some rest) := by
  induction js generalizing j fuel with
  | nil =>
    obtain ⟨fuel, rfl⟩ : ∃ n, fuel = n + 1 := ⟨fuel - 1, by omega⟩
    exact readItems_last (hj depth fuel _ (by omega)) hgap
  | cons k js ih =>
    obtain ⟨hk, hjs⟩ := List.forall_mem_cons.1 hjs
    obtain ⟨fuel, rfl⟩ : ∃ n, fuel = n + 1 := ⟨fuel - 1, by omega⟩
    simp only [writeItems, List.length_cons, List.length_append] at hfuel
    simp only [writeItems, List.cons_append, List.append_assoc]
    refine readItems_further (hj depth fuel _ (by omega)) ?_
    rw [readItems_gap (hl.gap depth)]
    exact ih hk hjs (by omega)

/-- A value is read off behind the colon of its field. -/
theorem ReadsBack.afterColon {j : Json} (hj : ReadsBack layout j) (hl : layout.Blank) {depth fuel : Nat}
    (rest : List Char) (hfuel : (write layout depth j).length ≤ fuel) :
    readValue fuel (layout.afterColon ++ (write layout depth j ++ rest)) = (.ofJson j, some rest) := by
  rw [readValue_gap hl.afterColon, hj depth fuel rest hfuel]

/-- The fields of an object are read off up to the brace. -/
theorem readFields_write (hl : layout.Blank) (name : String) {j : Json}
    {fields : List (String × Json)} (hj : ReadsBack layout j)
    (hfields : ∀ f ∈ fields, ReadsBack layout f.2) {gap : List Char} (hgap : Gap gap) (depth : Nat)
    (rest : List Char) {fuel : Nat}
    (hfuel : (write layout depth j).length + (writeFields layout depth fields).length < fuel) :
    readFields fuel (writeString name ++ ':' :: (layout.afterColon ++ (write layout depth j ++
        (writeFields layout depth fields ++ (gap ++ '\x7d' :: rest))))) =
      (Draft.ofFields ((name, j) :: fields), none, some rest) := by
  induction fields generalizing name j fuel with
  | nil =>
    obtain ⟨fuel, rfl⟩ : ∃ n, fuel = n + 1 := ⟨fuel - 1, by omega⟩
    exact readFields_last (hj.afterColon hl _ (by omega)) hgap
  | cons f fields ih =>
    obtain ⟨key, k⟩ := f
    obtain ⟨hk, hfields⟩ := List.forall_mem_cons.1 hfields
    change ReadsBack layout k at hk
    obtain ⟨fuel, rfl⟩ : ∃ n, fuel = n + 1 := ⟨fuel - 1, by omega⟩
    simp only [writeFields, List.length_cons, List.length_append] at hfuel
    simp only [writeFields, List.cons_append, List.append_assoc]
    refine readFields_further (hj.afterColon hl _ (by omega)) ?_
    rw [readFields_gap (hl.gap depth)]
    exact ih key hk hfields (show _ < fuel by omega)

/-- A value without numbers is read off its text. -/
theorem NumberFree.readsBack (hl : layout.Blank) {j : Json} (h : j.NumberFree) :
    ReadsBack layout j := by
  induction h with
  | null =>
    intro depth fuel rest hfuel
    obtain ⟨fuel, rfl⟩ : ∃ n, fuel = n + 1 := ⟨fuel - 1, by simp [write] at hfuel; omega⟩
    simp [readValue, write, readWord, isGap, Draft.ofJson]
  | bool b =>
    intro depth fuel rest hfuel
    obtain ⟨fuel, rfl⟩ : ∃ n, fuel = n + 1 :=
      ⟨fuel - 1, by cases b <;> simp [write] at hfuel <;> omega⟩
    cases b <;> simp [readValue, write, readWord, isGap, Draft.ofJson]
  | str s =>
    intro depth fuel rest hfuel
    obtain ⟨fuel, rfl⟩ : ∃ n, fuel = n + 1 :=
      ⟨fuel - 1, by simp [write, writeString] at hfuel; omega⟩
    simp only [readValue, write, writeString_append]
    rw [List.dropWhile_cons_of_neg (by decide)]
    simp only [readString_flatMap]
    rfl
  | @arr items hitems ih =>
    intro depth fuel rest hfuel
    cases items with
    | nil =>
      obtain ⟨fuel, rfl⟩ : ∃ n, fuel = n + 1 := ⟨fuel - 1, by simp [write] at hfuel; omega⟩
      simp [readValue, write, isGap, Draft.ofJson, Draft.ofItems]
    | cons j js =>
      obtain ⟨hj, hjs⟩ := List.forall_mem_cons.1 ih
      obtain ⟨fuel, rfl⟩ : ∃ n, fuel = n + 1 := ⟨fuel - 1, by simp [write] at hfuel; omega⟩
      simp only [write, List.length_cons, List.length_append, List.length_nil] at hfuel
      have hread := readItems_write hl hj hjs (hl.gap depth) (depth + 1) rest
        (show _ < fuel by omega)
      obtain ⟨c, cs, hwrite, hc, hne⟩ :=
        (hitems j List.mem_cons_self).write_eq_cons layout (depth + 1)
      simp only [write, hwrite, List.cons_append, List.append_assoc, List.nil_append] at hread ⊢
      exact readValue_items (hl.gap _) hc hne hread
  | @obj fields hfields ih =>
    intro depth fuel rest hfuel
    cases fields with
    | nil =>
      obtain ⟨fuel, rfl⟩ : ∃ n, fuel = n + 1 := ⟨fuel - 1, by simp [write] at hfuel; omega⟩
      simp [readValue, write, isGap, Draft.ofJson, Draft.ofFields]
    | cons f fields =>
      obtain ⟨name, j⟩ := f
      obtain ⟨hj, hfields⟩ := List.forall_mem_cons.1 ih
      change ReadsBack layout j at hj
      obtain ⟨fuel, rfl⟩ : ∃ n, fuel = n + 1 := ⟨fuel - 1, by simp [write] at hfuel; omega⟩
      simp only [write, List.length_cons, List.length_append, List.length_nil] at hfuel
      have hread := readFields_write hl name hj hfields (hl.gap depth) (depth + 1) rest
        (show _ < fuel by omega)
      simp only [write, List.cons_append, List.append_assoc, List.nil_append]
      exact readValue_fields (hl.gap _) hread

/-- The whole text of a value is read as the value. -/
theorem NumberFree.read_write (hl : layout.Blank) {j : Json} (h : j.NumberFree) :
    Document.read (String.ofList (j.write layout 0)) = .ofJson j := by
  have hread := h.readsBack hl 0 (2 * (write layout 0 j).length + 2) [] (by omega)
  rw [List.append_nil] at hread
  simp [Document.read, hread, Document.ofJson]

theorem NumberFree.read_pretty {j : Json} (h : j.NumberFree) : Document.read j.pretty = .ofJson j :=
  h.read_write Layout.blank_pretty

end PatternGraph.Json
