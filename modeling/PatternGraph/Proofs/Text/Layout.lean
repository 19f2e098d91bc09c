import Mathlib.Data.List.DropRight
import Mathlib.Data.List.Forall2
import PatternGraph.Proofs.Text.Success

/-!
# Words laid out in a text

A grammar says which words make up a text; where white space may stand is said once, here. A text
*lays out* some words if it has them in their order, with white space in front of them, between them
and behind them, or none. A word does not start with white space, and no word is broken up, so two
signs between which there may be no white space are one word.

What a parser has in hand after it skipped white space starts with the next word, `Laid.skip_cons`;
and a text that starts with a word in front of laid-out words lays out one word more, `Laid.word`.
A grammar gives the words of each value of a parser. `Parser.Lays` says that whatever the parser reads
is laid out so, and `Parser.Reads` that it reads whatever is laid out so; both go over to repetitions.
-/

namespace PatternGraph.Text

/-- White space, or nothing. -/
def Gap (cs : List Char) : Prop := ∀ c ∈ cs, isGap c = true

/-- The text starts with a character that is no white space. -/
def Solid (cs : List Char) : Prop := ∃ c ∈ cs.head?, isGap c = false

/-- The text has the words in their order, and white space around them or none. -/
inductive Laid : List (List Char) → List Char → Prop where
  | nil {gap : List Char} (h : Gap gap) : Laid [] gap
  | cons {gap word : List Char} {words : List (List Char)} {cs : List Char} (h : Gap gap)
      (hword : Solid word) (hs : Laid words cs) : Laid (word :: words) (gap ++ word ++ cs)

variable {cs gap w : List Char} {words : List (List Char)}

theorem gap_nil : Gap [] := nofun

theorem Gap.append {gap' : List Char} (h : Gap gap) (h' : Gap gap') : Gap (gap ++ gap') :=
  List.forall_mem_append.2 ⟨h, h'⟩

theorem gap_takeWhile (cs : List Char) : Gap (cs.takeWhile isGap) :=
  fun _ hc => List.mem_takeWhile_imp hc

theorem takeWhile_append_skip (cs : List Char) : cs.takeWhile isGap ++ skip cs = cs :=
  List.takeWhile_append_dropWhile

theorem Solid.append (h : Solid w) (cs : List Char) : Solid (w ++ cs) := by
  obtain ⟨c, hc, hgap⟩ := h
  cases w with
  | nil => exact absurd hc nofun
  | cons d w => exact ⟨c, hc, hgap⟩

theorem Solid.ne_nil (h : Solid w) : w ≠ [] := by
  rintro rfl
  obtain ⟨c, hc, -⟩ := h
  exact absurd hc nofun

theorem solid_cons {c : Char} (h : isGap c = false) (cs : List Char) : Solid (c :: cs) := ⟨c, rfl, h⟩

/-! ### Skipping -/

theorem skip_gap (h : Gap gap) (cs : List Char) : skip (gap ++ cs) = skip cs :=
  List.dropWhile_append_of_pos h

theorem skip_cons_of_gap {c : Char} (h : isGap c = true) (cs : List Char) : skip (c :: cs) = skip cs :=
  List.dropWhile_cons_of_pos h

@[simp] theorem skip_of_gap (h : Gap gap) : skip gap = [] := List.dropWhile_eq_nil_iff.2 h

theorem skip_of_solid (h : Solid cs) : skip cs = cs := by
  obtain ⟨c, hc, hgap⟩ := h
  cases cs with
  | nil => exact absurd hc nofun
  | cons d cs =>
    obtain rfl := Option.some.inj hc
    exact List.dropWhile_cons_of_neg (by simp [hgap])

@[simp] theorem skip_skip (cs : List Char) : skip (skip cs) = skip cs :=
  List.dropWhile_idempotent _ cs

namespace Laid

theorem of_gap_append (hgap : Gap gap) (h : Laid words cs) : Laid words (gap ++ cs) := by
  cases h with
  | nil h => exact .nil (hgap.append h)
  | @cons gap' w words cs h hw hs =>
    rw [← List.append_assoc, ← List.append_assoc]
    exact .cons (hgap.append h) hw hs

/-- White space in front of laid-out words does not matter. -/
theorem of_skip (h : Laid words (skip cs)) : Laid words cs := by
  rw [← takeWhile_append_skip cs]
  exact h.of_gap_append (gap_takeWhile cs)

theorem word (h : Laid words cs) (hw : Solid w) : Laid (w :: words) (w ++ cs) := .cons gap_nil hw h

theorem skip_nil (h : Laid [] cs) : skip cs = [] := by
  cases h with
  | nil h => exact skip_of_gap h

theorem skip_cons (h : Laid (w :: words) cs) : ∃ rest, skip cs = w ++ rest ∧ Laid words rest := by
  cases h with
  | @cons gap w words rest hgap hw hs =>
    refine ⟨rest, ?_, hs⟩
    rw [List.append_assoc, skip_gap hgap, skip_of_solid (hw.append rest)]

theorem solid (h : Laid (w :: words) cs) : Solid w := by
  cases h with
  | cons _ hw _ => exact hw

protected theorem skip (h : Laid words cs) : Laid words (skip cs) := by
  cases words with
  | nil => exact h.skip_nil ▸ .nil gap_nil
  | cons w words =>
    obtain ⟨rest, hskip, hs⟩ := h.skip_cons
    exact hskip ▸ hs.word h.solid

/-- A text that does not start with white space starts as its first word does. -/
theorem head?_eq (h : Laid (w :: words) cs) {c : Char} (hc : cs.head? = some c)
    (hgap : isGap c = false) : w.head? = some c := by
  obtain ⟨rest, hskip, -⟩ := h.skip_cons
  rw [skip_of_solid ⟨c, hc, hgap⟩] at hskip
  obtain ⟨d, hd, -⟩ := h.solid
  rw [hskip, List.head?_append, Option.mem_def.1 hd] at hc
  exact hd.trans hc

theorem forall_solid (h : Laid words cs) : ∀ w ∈ words, Solid w := by
  induction h with
  | nil _ => exact List.forall_mem_nil _
  | cons _ hw _ ih => exact List.forall_mem_cons.2 ⟨hw, ih⟩

/-- Words side by side are laid out. -/
theorem of_solid (h : ∀ w ∈ words, Solid w) : Laid words words.flatten := by
  induction words with
  | nil => exact .nil gap_nil
  | cons w words ih =>
    obtain ⟨hw, hwords⟩ := List.forall_mem_cons.1 h
    exact (ih hwords).word hw

/-- A character of a text is white space or one of a word. -/
theorem mem (h : Laid words cs) {c : Char} (hc : c ∈ cs) :
    isGap c = true ∨ ∃ w ∈ words, c ∈ w := by
  induction h with
  | nil hgap => exact .inl (hgap c hc)
  | @cons gap w words rest hgap _ hs ih =>
    rcases List.mem_append.1 hc with hc | hc
    · rcases List.mem_append.1 hc with hc | hc
      · exact .inl (hgap c hc)
      · exact .inr ⟨w, List.mem_cons_self, hc⟩
    · rcases ih hc with hc | ⟨w', hw, hc⟩
      · exact .inl hc
      · exact .inr ⟨w', List.mem_cons_of_mem _ hw, hc⟩

end Laid

/-! ### Parts with white space around them -/

section Spaced

variable {α : Type} {p : Parser α} {a : α} {rest : List Char}

/-- What is taken off with the white space around it is one word more. -/
theorem Parser.Takes.laid {W : α → List Char → Prop} (hp : p.Takes W) (hW : ∀ a w, W a w → Solid w)
    (h : Parser.spaced p cs = .ok (a, rest)) (hs : Laid words rest) :
    ∃ w, W a w ∧ Laid (w :: words) cs := by
  obtain ⟨mid, hmid, rfl⟩ := Parser.spaced_eq_ok.1 h
  obtain ⟨w, hw, hskip⟩ := hp _ a mid hmid
  refine ⟨w, hw, .of_skip ?_⟩
  rw [hskip]
  exact hs.of_skip.word (hW a w hw)

theorem Laid.of_spaced_char {c : Char} {u : Unit} (hc : isGap c = false)
    (h : Parser.spaced (Parser.char c) cs = .ok (u, rest)) (hs : Laid words rest) :
    Laid ([c] :: words) cs := by
  obtain ⟨_, rfl, hlaid⟩ := (Parser.takes_char c).laid (fun _ _ hw => hw ▸ solid_cons hc []) h hs
  exact hlaid

/-- The next word is taken off with the white space around it. -/
theorem Laid.spaced (h : Laid (w :: words) cs)
    (hp : ∀ rest, Laid words rest → p (w ++ rest) = .ok (a, rest)) :
    ∃ mid, Parser.spaced p cs = .ok (a, skip mid) ∧ Laid words mid := by
  obtain ⟨mid, hskip, hs⟩ := h.skip_cons
  exact ⟨mid, Parser.spaced_eq_ok.2 ⟨mid, hskip ▸ hp mid hs, rfl⟩, hs⟩

theorem Laid.spaced_char {c : Char} (h : Laid ([c] :: words) cs) :
    ∃ mid, Parser.spaced (Parser.char c) cs = .ok ((), skip mid) ∧ Laid words mid :=
  h.spaced fun _ _ => Parser.char_eq_ok.2 rfl

end Spaced

/-! ### Parsers of words -/

namespace Parser

variable {α : Type} {p : Parser α} {W : α → List (List Char) → Prop} {Next : List (List Char) → Prop}
  {as : List α} {rest : List Char}

/-- What the parser reads is laid out, in front of what is laid out behind it. -/
def Lays (p : Parser α) (W : α → List (List Char) → Prop) : Prop :=
  ∀ cs a rest words, p cs = .ok (a, rest) → Laid words rest → ∃ ws, W a ws ∧ Laid (ws ++ words) cs

/-- What is laid out is read, with the white space behind it, in front of words that may follow. -/
def Reads (p : Parser α) (W : α → List (List Char) → Prop) (Next : List (List Char) → Prop) : Prop :=
  ∀ cs a ws words, W a ws → Next words → Laid (ws ++ words) cs →
    ∃ mid, p cs = .ok (a, skip mid) ∧ Laid words mid

theorem Lays.spaced (hp : p.Lays W) : (spaced p).Lays W := by
  intro cs a rest words h hs
  obtain ⟨mid, hmid, rfl⟩ := spaced_eq_ok.1 h
  obtain ⟨ws, hws, hlaid⟩ := hp _ a mid words hmid hs.of_skip
  exact ⟨ws, hws, hlaid.of_skip⟩

theorem Reads.spaced (hp : p.Reads W Next) : (spaced p).Reads W Next := by
  intro cs a ws words hws hnext hs
  obtain ⟨mid, hmid, hs⟩ := hp _ a ws words hws hnext hs.skip
  exact ⟨mid, spaced_eq_ok.2 ⟨_, hmid, skip_skip mid⟩, hs⟩

/-- What is read part after part is laid out part after part. -/
theorem Lays.of_run (hp : p.Lays W) (h : Run p as cs rest) (hs : Laid [] rest) :
    ∃ words, List.Forall₂ W as words ∧ Laid words.flatten cs := by
  induction h with
  | stop _ => exact ⟨[], .nil, hs⟩
  | step h _ ih =>
    obtain ⟨words, hwords, hlaid⟩ := ih hs
    obtain ⟨ws, hws, hlaid⟩ := hp _ _ _ _ h hlaid
    exact ⟨ws :: words, .cons hws hwords, hlaid⟩

/-- What may follow the parts may follow parts in a row. -/
theorem next_flatten (hnil : Next []) (hcons : ∀ a ws words, W a ws → Next (ws ++ words))
    {words : List (List (List Char))} (h : List.Forall₂ W as words) : Next words.flatten := by
  cases h with
  | nil => exact hnil
  | cons ha _ => exact hcons _ _ _ ha

/-- What is laid out part after part is read part after part, up to the end of the text. -/
theorem Reads.run (hp : p.Reads W Next) (hnil : Next [])
    (hcons : ∀ a ws words, W a ws → Next (ws ++ words)) (hfails : Fails p [])
    {words : List (List (List Char))} (h : List.Forall₂ W as words) (hs : Laid words.flatten cs) :
    Run p as (skip cs) [] := by
  induction h generalizing cs with
  | nil =>
    rw [hs.skip_nil]
    exact .stop hfails
  | cons ha has ih =>
    obtain ⟨mid, hread, hs⟩ := hp _ _ _ _ ha (next_flatten hnil hcons has) hs.skip
    exact .step hread (ih hs)

end Parser

end PatternGraph.Text
