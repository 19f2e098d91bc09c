import PatternGraph.Proofs.Pattern.Grammar

/-!
# What can be spelled

Some parts are spelled by a text exactly if there are words for each of them that can stand side by
side, `Pattern.exists_spells_iff_parts`. It does not matter which node stands beside which relationship,
`Pattern.exists_spells_iff`.
-/

namespace PatternGraph.Pattern

open Text

variable {first : NodeKind} {rest : List (Link × NodeKind)} {l : Link} {ws : List (List Char)}

/-- There are words that can stand side by side. -/
def Writable (W : List (List Char) → Prop) : Prop := ∃ ws, W ws ∧ ∀ w ∈ ws, Solid w

theorem writable_partWords {part : Link × NodeKind} :
    Writable (PartWords part) ↔ Writable (LinkWords part.1) ∧ Writable (NodeWords part.2) := by
  constructor
  · rintro ⟨_, ⟨link, node, hlink, hnode, rfl⟩, hsolid⟩
    obtain ⟨hl, hn⟩ := List.forall_mem_append.1 hsolid
    exact ⟨⟨link, hlink, hl⟩, node, hnode, hn⟩
  · rintro ⟨⟨link, hlink, hl⟩, node, hnode, hn⟩
    exact ⟨_, ⟨link, node, hlink, hnode, rfl⟩, List.forall_mem_append.2 ⟨hl, hn⟩⟩

theorem exists_words_iff : (∃ words, List.Forall₂ PartWords rest words ∧ ∀ w ∈ words.flatten, Solid w) ↔
    ∀ part ∈ rest, Writable (PartWords part) := by
  induction rest with
  | nil => exact iff_of_true ⟨[], .nil, nofun⟩ nofun
  | cons part rest ih =>
    rw [List.forall_mem_cons, ← ih]
    constructor
    · rintro ⟨_, hwords, hsolid⟩
      obtain ⟨ws, words, hpart, hrest, rfl⟩ := List.forall₂_cons_left_iff.1 hwords
      rw [List.flatten_cons] at hsolid
      obtain ⟨hs, hsolid⟩ := List.forall_mem_append.1 hsolid
      exact ⟨⟨ws, hpart, hs⟩, words, hrest, hsolid⟩
    · rintro ⟨⟨ws, hpart, hs⟩, words, hrest, hsolid⟩
      refine ⟨ws :: words, .cons hpart hrest, ?_⟩
      rw [List.flatten_cons]
      exact List.forall_mem_append.2 ⟨hs, hsolid⟩

/-- Parts are spelled by a text exactly if there are words for each of them. -/
theorem exists_spells_iff_parts : (∃ text : String, Spells first rest text.toList) ↔
    Writable (NodeWords first) ∧ ∀ part ∈ rest, Writable (PartWords part) := by
  rw [← exists_words_iff]
  constructor
  · rintro ⟨text, node, words, hnode, hwords, hs⟩
    obtain ⟨hn, hw⟩ := List.forall_mem_append.1 hs.forall_solid
    exact ⟨⟨node, hnode, (List.forall_mem_cons.1 hn).2⟩, words, hwords, hw⟩
  · rintro ⟨⟨node, hnode, hn⟩, words, hwords, hw⟩
    have hsolid : ∀ w ∈ ['?'] :: node ++ words.flatten, Solid w :=
      List.forall_mem_append.2 ⟨List.forall_mem_cons.2 ⟨solid_cons rfl [], hn⟩, hw⟩
    refine ⟨.ofList (['?'] :: node ++ words.flatten).flatten, node, words, hnode, hwords, ?_⟩
    rw [String.toList_ofList]
    exact .of_solid hsolid

/-- It does not matter which node stands beside which relationship. -/
theorem exists_spells_iff : (∃ text : String, Spells first rest text.toList) ↔
    (∀ kind ∈ first :: rest.map Prod.snd, Writable (NodeWords kind)) ∧
      ∀ l ∈ rest.map Prod.fst, Writable (LinkWords l) := by
  rw [exists_spells_iff_parts]
  simp only [List.forall_mem_cons, List.forall_mem_map, writable_partWords]
  exact ⟨fun ⟨hfirst, h⟩ => ⟨⟨hfirst, fun part hp => (h part hp).2⟩, fun part hp => (h part hp).1⟩,
    fun ⟨⟨hfirst, hnodes⟩, hlinks⟩ => ⟨hfirst, fun part h => ⟨hlinks part h, hnodes part h⟩⟩⟩

/-- A relationship that is written with brackets can be written with other signs around them. -/
theorem LinkWords.resigned (h : LinkWords l ws) (htyped : l.kind.isShort = false)
    {source target : Connector} {left right : List Char} (hs : SourceSign source left)
    (ht : TargetSign target right) : Writable (LinkWords ⟨l.kind, source, target⟩) := by
  have hclose : Solid (']' :: right) := solid_cons rfl right
  cases h with
  | bare _ => exact absurd htyped nofun
  | typed _ hlist _ =>
    refine ⟨_, .typed hs hlist ht, ?_⟩
    simp only [List.forall_mem_cons]
    exact ⟨hs.solid.append _, hlist.solid, hclose, nofun⟩
  | negated _ hlist _ =>
    refine ⟨_, .negated hs hlist ht, ?_⟩
    simp only [List.forall_mem_cons]
    exact ⟨hs.solid.append _, solid_cons rfl [], hlist.solid, hclose, nofun⟩

/-- A text spells one first node and one row of relationships and nodes behind it. -/
theorem Spells.unique {text : String} {first' : NodeKind} {rest' : List (Link × NodeKind)}
    (h : Spells first rest text.toList) (h' : Spells first' rest' text.toList) :
    first' = first ∧ rest' = rest :=
  Prod.mk.inj (Except.ok.inj ((parseAll_parts_iff.2 h').symm.trans (parseAll_parts_iff.2 h)))

/-- What is known of the parts of a pattern that is read from a text. -/
theorem Spells.of_parse {text : String} {p : Pattern} (hspells : Spells first rest text.toList)
    (hparse : Pattern.parse text = .ok p) :
    first.canStart = true ∧ (∀ part ∈ rest, Admissible part.1) ∧ p = ofParts first rest := by
  obtain ⟨first₀, rest₀, hparts, h⟩ := Pattern.parse_eq_ok.1 hparse
  obtain ⟨rfl, rfl⟩ := hspells.unique (parseAll_parts_iff.1 hparts)
  exact h

end PatternGraph.Pattern
