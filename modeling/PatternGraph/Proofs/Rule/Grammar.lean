import PatternGraph.Proofs.Text.TypeList
import PatternGraph.Rule.Grammar

/-!
# The grammar of rules

The words of a group, of a condition and of an effect are written down without a parser, and a text
denotes a condition or an effect exactly if it lays these words out. An arrow and its bracket are one
word, and so are the two brackets of an edge group of no types; white space may stand anywhere else.

The parser of conditions takes any groups in any order and with any arrows, and only then looks
whether they make up a condition. So there are two steps: which groups a text spells,
`RuleGroup.parseAll_groups_iff`, and which groups make up a condition, `Condition.ofGroups_eq_ok`.
-/

namespace PatternGraph

open Text
open Text.Parser

namespace RuleGroup

/-! ### The groups of a condition -/

/-- The bracket in front of the types of an edge group, with the arrow. -/
def opening : Bool → List Char
  | true => ['<', '[']
  | false => ['[']

/-- The bracket behind the types of an edge group, with the arrow. -/
def closing : Bool → List Char
  | true => [']', '>']
  | false => [']']

/-- The words of a group. -/
inductive Words : RuleGroup → List (List Char) → Prop where
  | noVertexTypes : Words (.vertex []) [['('], [')']]
  | vertexTypes {types : List String} {list : List Char} (h : TypeList types list) :
      Words (.vertex types) [['('], list, [')']]
  | noEdgeTypes (backward forward : Bool) :
      Words (.edge backward [] forward) [opening backward ++ closing forward]
  | edgeTypes {types : List String} {list : List Char} (backward forward : Bool)
      (h : TypeList types list) :
      Words (.edge backward types forward) [opening backward, list, closing forward]

/-- The text lays out the words of the groups, one group after the other. -/
def Spells (groups : List RuleGroup) (cs : List Char) : Prop :=
  ∃ words, List.Forall₂ Words groups words ∧ Laid words.flatten cs

/-- The word starts as a group does. -/
def Starting (w : List Char) : Prop := ∃ c ∈ w.head?, c = '(' ∨ c = '[' ∨ c = '<'

/-- A group comes next, or nothing. -/
def Next (words : List (List Char)) : Prop := ∀ w ∈ words.head?, Starting w

variable {cs rest w : List Char} {words ws : List (List Char)} {group : RuleGroup}
  {groups : List RuleGroup} {types : List String} {backward forward : Bool}

theorem Starting.solid (h : Starting w) : Solid w := by
  obtain ⟨c, hc, hstart⟩ := h
  exact ⟨c, hc, by rcases hstart with rfl | rfl | rfl <;> decide⟩

theorem starting_opening (backward : Bool) (cs : List Char) : Starting (opening backward ++ cs) := by
  cases backward with
  | true => exact ⟨'<', rfl, .inr (.inr rfl)⟩
  | false => exact ⟨'[', rfl, .inr (.inl rfl)⟩

theorem solid_opening (backward : Bool) (cs : List Char) : Solid (opening backward ++ cs) :=
  (starting_opening backward cs).solid

theorem closing_closing (forward : Bool) : Closing (closing forward) := by
  cases forward <;> exact closing_bracket _

theorem next_nil : Next [] := nofun

theorem Words.next (h : Words group ws) (words : List (List Char)) : Next (ws ++ words) := by
  intro w hw
  cases h with
  | noVertexTypes => exact Option.some.inj hw ▸ ⟨'(', rfl, .inl rfl⟩
  | vertexTypes _ => exact Option.some.inj hw ▸ ⟨'(', rfl, .inl rfl⟩
  | noEdgeTypes backward forward => exact Option.some.inj hw ▸ starting_opening backward _
  | edgeTypes backward _ _ =>
    exact Option.some.inj hw ▸ by simpa using starting_opening backward []

/-! ### What is read is laid out -/

theorem laid_of_optional_typeNames {types : Option (List String)} {mid : List Char}
    (h : optional (spaced typeNames) cs = .ok (types, mid)) (hs : Laid words mid) :
    types = none ∧ cs = mid ∨
      ∃ names list, types = some names ∧ TypeList names list ∧ Laid (list :: words) cs := by
  cases types with
  | none => exact .inl ⟨rfl, (optional_eq_none.1 h).2⟩
  | some names =>
    obtain ⟨list, hlist, hlaid⟩ := laid_of_spaced_typeNames (optional_eq_some.1 h) hs
    exact .inr ⟨names, list, rfl, hlist, hlaid⟩

theorem lays_vertexParser : vertexParser.Lays Words := by
  intro cs group rest words h hs
  simp only [vertexParser, bind_eq_ok, pure_eq_ok] at h
  obtain ⟨_, mid, hopen, types, mid', htypes, _, _, hclose, rfl, rfl⟩ := h
  have hclose := Laid.of_spaced_char rfl hclose hs
  rcases laid_of_optional_typeNames htypes hclose with ⟨rfl, rfl⟩ | ⟨names, list, rfl, hlist, hlaid⟩
  · exact ⟨_, .noVertexTypes, .of_spaced_char rfl hopen hclose⟩
  · exact ⟨_, .vertexTypes hlist, .of_spaced_char rfl hopen hlaid⟩

theorem optional_char_cases {c : Char} {o : Option Unit} (h : optional (char c) cs = .ok (o, rest)) :
    o.isSome = true ∧ cs = c :: rest ∨ o.isSome = false ∧ cs = rest := by
  cases o with
  | none => exact .inr ⟨rfl, (optional_eq_none.1 h).2⟩
  | some u => exact .inl ⟨rfl, char_eq_ok.1 (optional_eq_some.1 h)⟩

theorem lays_edgeParser : edgeParser.Lays Words := by
  intro cs group rest words h hs
  simp only [edgeParser, bind_eq_ok, pure_eq_ok, gaps_eq_ok, char_eq_ok] at h
  obtain ⟨_, _, rfl, backward, mid, hbackward, _, mid₁, rfl, types, mid₂, htypes, _, mid₃, rfl,
    forward, mid₄, hforward, _, _, rfl, rfl, rfl⟩ := h
  -- an arrow that was read or missed and the bracket beside it make up one word
  have hopen : skip cs = opening backward.isSome ++ mid₁ := by
    rcases optional_char_cases hbackward with ⟨hb, h⟩ | ⟨hb, h⟩ <;> rw [hb, h] <;> rfl
  have hclose : ']' :: mid₃ = closing forward.isSome ++ mid₄ := by
    rcases optional_char_cases hforward with ⟨hf, h⟩ | ⟨hf, h⟩ <;> rw [hf, h] <;> rfl
  rw [hclose] at htypes
  have hlaid := hs.of_skip.word (closing_closing forward.isSome).solid
  rcases laid_of_optional_typeNames htypes hlaid with ⟨rfl, rfl⟩ | ⟨names, list, rfl, hlist, hlaid⟩
  · refine ⟨_, .noEdgeTypes backward.isSome forward.isSome, .of_skip ?_⟩
    rw [hopen, ← List.append_assoc]
    exact hs.of_skip.word (solid_opening _ _)
  · refine ⟨_, .edgeTypes backward.isSome forward.isSome hlist, .of_skip ?_⟩
    rw [hopen]
    exact hlaid.word (by simpa using solid_opening backward.isSome [])

theorem lays_group : (orElse vertexParser edgeParser).Lays Words := by
  intro cs group rest words h hs
  rcases orElse_eq_ok.1 h with h | ⟨-, h⟩
  · exact lays_vertexParser cs group rest words h hs
  · exact lays_edgeParser cs group rest words h hs

/-! ### What is laid out is read -/

theorem vertexParser_of_laid (h : Words (.vertex types) ws) (hs : Laid (ws ++ words) cs) :
    ∃ mid, vertexParser cs = .ok (.vertex types, skip mid) ∧ Laid words mid := by
  simp only [vertexParser, bind_eq_ok, pure_eq_ok]
  cases h with
  | noVertexTypes =>
    obtain ⟨mid, hopen, hs⟩ := Laid.spaced_char hs
    have hnone := fails_spaced_typeNames ((closing_parenthesis []).of_laid hs.skip)
    obtain ⟨mid', hclose, hs'⟩ := hs.skip.spaced_char
    exact ⟨mid', ⟨(), _, hopen, none, _, optional_eq_none.2 ⟨hnone, rfl⟩, (), _, hclose, rfl, rfl⟩, hs'⟩
  | vertexTypes hlist =>
    obtain ⟨mid, hopen, hs⟩ := Laid.spaced_char hs
    obtain ⟨mid', htypes, hs⟩ := spaced_typeNames hlist (closing_parenthesis []) hs.skip
    obtain ⟨mid'', hclose, hs⟩ := hs.skip.spaced_char
    exact ⟨mid'', ⟨(), _, hopen, some types, _, optional_eq_some.2 htypes, (), _, hclose, rfl, rfl⟩, hs⟩

/-- Where a group follows, or nothing, there is no arrow in front. -/
theorem head?_ne_of_laid (hnext : Next words) (hs : Laid words cs) : cs.head? ≠ some '>' := by
  intro hc
  cases words with
  | nil =>
    obtain ⟨tail, rfl⟩ := List.head?_eq_some_iff.1 hc
    have hskip := skip_of_solid (solid_cons (c := '>') rfl tail)
    exact absurd (hskip ▸ hs.skip_nil) (List.cons_ne_nil _ _)
  | cons w words =>
    obtain ⟨c, hstart, hcases⟩ := hnext w rfl
    obtain rfl := Option.some.inj ((hs.head?_eq hc rfl).symm.trans hstart)
    exact absurd hcases (by decide)

theorem optional_opening (backward : Bool) (cs : List Char) :
    ∃ o, o.isSome = backward ∧ optional (char '<') (opening backward ++ cs) = .ok (o, '[' :: cs) := by
  cases backward with
  | true => exact ⟨some (), rfl, rfl⟩
  | false => exact ⟨none, rfl, rfl⟩

theorem optional_closing (forward : Bool) (h : cs.head? ≠ some '>') :
    ∃ o rest, o.isSome = forward ∧ closing forward ++ cs = ']' :: rest ∧
      optional (char '>') rest = .ok (o, cs) := by
  cases forward with
  | true => exact ⟨some (), _, rfl, rfl, rfl⟩
  | false =>
    exact ⟨none, cs, rfl, rfl, optional_eq_none.2 ⟨fails_char h, rfl⟩⟩

theorem edgeParser_of_laid (h : Words (.edge backward types forward) ws)
    (hnext : Next words) (hs : Laid (ws ++ words) cs) :
    ∃ mid, edgeParser cs = .ok (.edge backward types forward, skip mid) ∧ Laid words mid := by
  simp only [edgeParser, bind_eq_ok, pure_eq_ok, gaps_eq_ok, char_eq_ok]
  cases h with
  | noEdgeTypes =>
    obtain ⟨mid, hskip, hrest⟩ := Laid.skip_cons hs
    obtain ⟨b, rfl, hopen⟩ := optional_opening backward (closing forward ++ mid)
    obtain ⟨f, rest, rfl, hclose, harrow⟩ := optional_closing forward (head?_ne_of_laid hnext hrest)
    have hnone : Fails (spaced typeNames) (']' :: rest) := by
      rw [← hclose]
      exact fails_spaced_typeNames ((closing_closing f.isSome).append mid).skip
    rw [List.append_assoc] at hskip
    rw [← hskip, hclose] at hopen
    exact ⟨mid, ⟨(), _, rfl, b, _, hopen, (), _, rfl, none, _, optional_eq_none.2 ⟨hnone, rfl⟩, (), _,
      rfl, f, mid, harrow, (), _, rfl, rfl, rfl⟩, hrest⟩
  | edgeTypes _ _ hlist =>
    obtain ⟨mid₁, hskip₁, hs₁⟩ := Laid.skip_cons hs
    obtain ⟨mid₂, htypes, hs₂⟩ := spaced_typeNames hlist (closing_closing forward) hs₁
    obtain ⟨mid₃, hskip₃, hs₃⟩ := hs₂.skip_cons
    obtain ⟨b, rfl, hopen⟩ := optional_opening backward mid₁
    obtain ⟨f, rest, rfl, hclose, harrow⟩ := optional_closing forward (head?_ne_of_laid hnext hs₃)
    rw [← hskip₁] at hopen
    exact ⟨mid₃, ⟨(), _, rfl, b, _, hopen, (), _, rfl, some types, _, optional_eq_some.2 htypes, (), _,
      hskip₃.trans hclose, f, mid₃, harrow, (), _, rfl, rfl, rfl⟩, hs₃⟩

theorem fails_vertexParser (h : (skip cs).head? ≠ some '(') : Fails vertexParser cs :=
  (fails_char h).spaced.bind

theorem reads_group : (orElse vertexParser edgeParser).Reads Words Next := by
  intro cs group ws words h hnext hs
  cases group with
  | vertex types =>
    obtain ⟨mid, hread, hs⟩ := vertexParser_of_laid h hs
    exact ⟨mid, orElse_eq_ok.2 (.inl hread), hs⟩
  | edge backward types forward =>
    -- the text starts with a bracket or an arrow, which the parser of vertex groups gives up at once
    have hhead : (skip cs).head? ≠ some '(' := by
      obtain ⟨rest, hskip⟩ : ∃ rest, skip cs = opening backward ++ rest := by
        cases h with
        | noEdgeTypes =>
          obtain ⟨rest, hskip, -⟩ := Laid.skip_cons hs
          exact ⟨_, hskip.trans (List.append_assoc _ _ _)⟩
        | edgeTypes =>
          obtain ⟨rest, hskip, -⟩ := Laid.skip_cons hs
          exact ⟨_, hskip⟩
      rw [hskip]
      cases backward <;> exact nofun
    obtain ⟨mid, hread, hs⟩ := edgeParser_of_laid h hnext hs
    exact ⟨mid, orElse_eq_ok.2 (.inr ⟨fails_vertexParser hhead, hread⟩), hs⟩

theorem consumes_group : Consumes (orElse vertexParser edgeParser) := by
  have htypes : Shrinks (optional (spaced typeNames)) := takes_typeNames.shrinks.spaced.optional
  have hchar : ∀ c, Shrinks (char c) := fun c => (consumes_char c).shrinks
  refine Consumes.orElse ?_ ?_
  · exact (consumes_char '(').spaced.bind fun _ => htypes.bind fun _ =>
      (hchar ')').spaced.bind fun _ => shrinks_pure _
  · exact shrinks_gaps.bind_consumes fun _ => (hchar '<').optional.bind_consumes fun _ =>
      (consumes_char '[').bind fun _ => htypes.bind fun _ => (hchar ']').bind fun _ =>
        (hchar '>').optional.bind fun _ => shrinks_gaps.bind fun _ => shrinks_pure _

theorem run_of_laid {words : List (List (List Char))} (h : List.Forall₂ Words groups words)
    (hs : Laid words.flatten cs) : Run (orElse vertexParser edgeParser) groups (skip cs) [] :=
  reads_group.run next_nil (fun _ _ _ h => h.next _) consumes_group.fails_nil h hs

/-! ### The groups of a text -/

theorem parseAll_groups {text : String} : parseAll RuleGroup.groups text = .ok groups ↔
    Run (orElse vertexParser edgeParser) groups text.toList [] :=
  parseAll_eq_ok.trans (many_eq_ok_iff consumes_group)

theorem spells_of_parseAll {text : String} (h : parseAll RuleGroup.groups text = .ok groups) :
    Spells groups text.toList :=
  lays_group.of_run (parseAll_groups.1 h) (.nil gap_nil)

/-- The groups that are read from a text are those that it spells. -/
theorem parseAll_groups_iff {text : String} (hne : groups ≠ []) :
    parseAll RuleGroup.groups text = .ok groups ↔ Spells groups text.toList := by
  refine ⟨spells_of_parseAll, fun ⟨words, hwords, hs⟩ => parseAll_groups.2 ?_⟩
  cases hwords with
  | nil => exact absurd rfl hne
  | cons hgroup hgroups =>
    have hnext := next_flatten next_nil (fun _ _ _ h => h.next _) hgroups
    obtain ⟨mid, hread, hs⟩ := reads_group _ _ _ _ hgroup hnext hs
    exact .step hread (run_of_laid hgroups hs)

/-- A text spells at most one list of groups. -/
theorem Spells.unique {groups' : List RuleGroup} (h : Spells groups cs) (h' : Spells groups' cs) :
    groups = groups' := by
  obtain ⟨words, hwords, hs⟩ := h
  obtain ⟨words', hwords', hs'⟩ := h'
  have hmany := (many_eq_ok_iff consumes_group).2 (run_of_laid hwords hs)
  have hmany' := (many_eq_ok_iff consumes_group).2 (run_of_laid hwords' hs')
  exact (Prod.mk.inj (Except.ok.inj (hmany.symm.trans hmany'))).1

end RuleGroup

/-! ### Conditions -/

/-- An edge group of some types with one arrow. -/
def HopDirection.group (types : List String) : HopDirection → RuleGroup
  | forward => .edge false types true
  | backward => .edge true types false

theorem HopDirection.ofArrows_eq_ok {backward forward : Bool} {d : HopDirection} :
    HopDirection.ofArrows backward forward = .ok d ↔
      ∀ types, RuleGroup.edge backward types forward = d.group types := by
  cases backward <;> cases forward <;> cases d <;> simp [ofArrows, group]

namespace Condition

/-- The groups of a condition: three of vertex types and between them two of edge types, each with
one arrow. -/
inductive Groups : List RuleGroup → Condition → Prop where
  | mk (first middle last edges edges' : List String) (direction direction' : HopDirection) :
      Groups [.vertex first, direction.group edges, .vertex middle, direction'.group edges', .vertex last]
        ⟨⟨.ofList first, .ofList edges, direction⟩, .ofList middle,
          ⟨.ofList last, .ofList edges', direction'⟩⟩

theorem groups_of_ofGroups {groups : List RuleGroup} {c : Condition}
    (h : Condition.ofGroups groups = .ok c) : Groups groups c := by
  rw [Condition.ofGroups.eq_def] at h
  split at h
  · next first backward types forward rest =>
    cases hdir : HopDirection.ofArrows backward forward with
    | error f => simp [hdir, bind, Except.bind] at h
    | ok direction =>
      simp only [hdir, bind, Except.bind] at h
      split at h
      · next middle backward' types' forward' rest' =>
        cases hdir' : HopDirection.ofArrows backward' forward' with
        | error f => simp [hdir'] at h
        | ok direction' =>
          simp only [hdir'] at h
          split at h
          · next last =>
            obtain rfl := Except.ok.inj h
            rw [HopDirection.ofArrows_eq_ok.1 hdir, HopDirection.ofArrows_eq_ok.1 hdir']
            exact .mk first middle last types types' direction direction'
          · exact absurd h nofun
      · exact absurd h nofun
  · exact absurd h nofun

theorem ofGroups_eq_ok {groups : List RuleGroup} {c : Condition} :
    Condition.ofGroups groups = .ok c ↔ Groups groups c := by
  refine ⟨groups_of_ofGroups, fun h => ?_⟩
  obtain ⟨first, middle, last, edges, edges', direction, direction'⟩ := h
  cases direction <;> cases direction' <;> rfl

theorem exists_groups_of_parse {text : String} {c : Condition} (h : Condition.parse text = .ok c) :
    ∃ groups, parseAll RuleGroup.groups text = .ok groups ∧ Condition.ofGroups groups = .ok c := by
  rw [Condition.parse] at h
  split at h
  · exact absurd h nofun
  · next groups hgroups =>
    refine ⟨groups, hgroups, ?_⟩
    simp only at h
    split at h
    · exact absurd h nofun
    · cases hc : Condition.ofGroups groups with
      | error f => simp [hc, Except.mapError] at h
      | ok c' =>
        rw [hc] at h
        exact congrArg _ (Except.ok.inj h)

theorem parse_of_groups {text : String} {groups : List RuleGroup} {c : Condition}
    (hgroups : parseAll RuleGroup.groups text = .ok groups) (h : Groups groups c) :
    Condition.parse text = .ok c := by
  have hof := ofGroups_eq_ok.2 h
  obtain ⟨first, middle, last, edges, edges', direction, direction'⟩ := h
  simp only [Condition.parse, hgroups, hof]
  cases direction <;> cases direction' <;> rfl

theorem parse_eq_ok {text : String} {c : Condition} : Condition.parse text = .ok c ↔
    ∃ groups, RuleGroup.Spells groups text.toList ∧ Groups groups c := by
  constructor
  · intro h
    obtain ⟨groups, hgroups, hof⟩ := exists_groups_of_parse h
    exact ⟨groups, RuleGroup.spells_of_parseAll hgroups, groups_of_ofGroups hof⟩
  · rintro ⟨groups, hspells, hgroups⟩
    have hne : groups ≠ [] := by
      obtain ⟨⟩ := hgroups
      exact List.cons_ne_nil _ _
    exact parse_of_groups ((RuleGroup.parseAll_groups_iff hne).2 hspells) hgroups

/-- A text that denotes no condition gives an error about the condition. -/
theorem exists_fault {text : String} (h : ∀ c, Condition.parse text ≠ .ok c) :
    ∃ fault, Condition.parse text = .error (.condition text fault) := by
  rw [Condition.parse] at h ⊢
  split at h
  · exact ⟨_, rfl⟩
  · next groups hgroups =>
    simp only at h ⊢
    split at h
    · next hcounts => exact ⟨_, if_pos hcounts⟩
    · next hcounts =>
      rw [if_neg hcounts]
      cases hc : Condition.ofGroups groups with
      | error fault => exact ⟨fault, rfl⟩
      | ok c => exact absurd (congrArg _ hc) (h c)

end Condition

/-! ### Effects -/

/-- The digit that a vertex has in the text of an effect. -/
def RulePart.digit (p : RulePart) : List Char := [Nat.digitChar p.position]

namespace Effect

/-- The words of an effect: the places of two vertices and between them some types. -/
inductive Words : Effect → List (List Char) → Prop where
  | mk {types : List String} {list : List Char} (source target : RulePart) (h : TypeList types list) :
      Words ⟨source, target, .ofList types⟩
        [['('], source.digit, [')'], ['['], list, [']'], ['('], target.digit, [')']]

variable {cs rest : List Char} {words : List (List Char)} {part : RulePart} {e : Effect}
  {text : String}

/-! #### Reading the words -/

theorem value_char_eq_ok {b : RulePart} {c : Char} :
    value b (char c) cs = .ok (part, rest) ↔ b = part ∧ cs = c :: rest := by
  simp only [value_eq_ok, char_eq_ok, exists_const]

theorem digit_eq_ok :
    firstOf [value .first (char '1'), value .middle (char '2'), value .last (char '3')] cs =
      .ok (part, rest) ↔ cs = part.digit ++ rest := by
  simp only [firstOf, orElse_eq_ok, value_char_eq_ok]
  constructor
  · rintro (⟨rfl, rfl⟩ | ⟨-, ⟨rfl, rfl⟩ | ⟨-, rfl, rfl⟩⟩) <;> rfl
  · rintro rfl
    have hfails : ∀ {b : RulePart} {c d : Char}, d ≠ c → Fails (value b (char c)) (d :: rest) :=
      fun hne => (fails_char (by simpa using hne)).value
    cases part with
    | first => exact .inl ⟨rfl, rfl⟩
    | middle => exact .inr ⟨hfails (by decide), .inl ⟨rfl, rfl⟩⟩
    | last => exact .inr ⟨hfails (by decide), .inr ⟨hfails (by decide), rfl, rfl⟩⟩

theorem solid_digit (part : RulePart) : Solid part.digit := by
  cases part <;> exact solid_cons rfl []

theorem laid_of_position (h : position cs = .ok (part, rest)) (hs : Laid words rest) :
    Laid (['('] :: part.digit :: [')'] :: words) cs := by
  simp only [position, bind_eq_ok, pure_eq_ok] at h
  obtain ⟨_, mid, hopen, _, mid', hdigit, _, _, hclose, rfl, rfl⟩ := h
  obtain ⟨_, rfl, hlaid⟩ := Takes.laid (W := fun part w => w = part.digit)
    (fun _ part _ h => ⟨part.digit, rfl, digit_eq_ok.1 h⟩) (fun part _ hw => hw ▸ solid_digit part)
    hdigit (.of_spaced_char rfl hclose hs)
  exact .of_spaced_char rfl hopen hlaid

theorem position_of_laid (hs : Laid (['('] :: part.digit :: [')'] :: words) cs) :
    ∃ mid, position cs = .ok (part, skip mid) ∧ Laid words mid := by
  simp only [position, bind_eq_ok, pure_eq_ok]
  obtain ⟨mid, hopen, hs⟩ := hs.spaced_char
  obtain ⟨mid', hdigit, hs⟩ := hs.skip.spaced fun rest _ => digit_eq_ok.2 rfl
  obtain ⟨mid'', hclose, hs⟩ := hs.skip.spaced_char
  exact ⟨mid'', ⟨(), _, hopen, part, _, hdigit, (), _, hclose, rfl, rfl⟩, hs⟩

theorem laid_of_parts (h : parts cs = .ok (e, [])) : ∃ words, Words e words ∧ Laid words cs := by
  simp only [parts, bind_eq_ok, pure_eq_ok, char_eq_ok] at h
  obtain ⟨source, _, hsource, _, mid, rfl, types, _, htypes, _, mid', rfl, target, _, htarget, rfl,
    rfl⟩ := h
  have hlaid := (laid_of_position htarget (.nil gap_nil)).word (solid_cons (c := ']') rfl [])
  obtain ⟨list, hlist, hlaid⟩ := laid_of_spaced_typeNames htypes hlaid
  exact ⟨_, .mk source target hlist,
    laid_of_position hsource (hlaid.word (solid_cons (c := '[') rfl []))⟩

theorem parts_of_laid (h : Words e words) (hs : Laid words cs) : parts cs = .ok (e, []) := by
  simp only [parts, bind_eq_ok, pure_eq_ok, char_eq_ok]
  obtain ⟨source, target, hlist⟩ := h
  obtain ⟨mid, hsource, hs⟩ := position_of_laid hs
  obtain ⟨mid', hopen, hs⟩ := hs.skip_cons
  obtain ⟨mid'', htypes, hs⟩ := spaced_typeNames hlist (closing_bracket []) hs
  obtain ⟨rest, hclose, hs⟩ := hs.skip_cons
  obtain ⟨last, htarget, hs⟩ := position_of_laid hs
  rw [hs.skip_nil] at htarget
  exact ⟨source, _, hsource, (), mid', hopen, _, _, htypes, (), rest, hclose, target, [], htarget,
    rfl, rfl⟩

/-- There is no arrow in the text of an effect. -/
theorem Words.not_arrow (h : Words e words) (hs : Laid words cs) :
    (cs.any fun c => c == '<' || c == '>') = false := by
  have hwords : ∀ w ∈ words, ∀ c ∈ w, c ≠ '<' ∧ c ≠ '>' := by
    obtain @⟨types, list, source, target, hlist⟩ := h
    have hdigit : ∀ part : RulePart, ∀ c ∈ part.digit, c ≠ '<' ∧ c ≠ '>' := by
      intro part
      cases part <;> simp [RulePart.digit, RulePart.position, Nat.digitChar]
    have htypes : ∀ c ∈ list, c ≠ '<' ∧ c ≠ '>' := by
      intro c hc
      refine ⟨?_, ?_⟩ <;> rintro rfl <;> exact absurd (hlist.mem hc) (by decide)
    simp only [List.forall_mem_cons]
    exact ⟨⟨by decide, nofun⟩, hdigit source, ⟨by decide, nofun⟩, ⟨by decide, nofun⟩, htypes,
      ⟨by decide, nofun⟩, ⟨by decide, nofun⟩, hdigit target, ⟨by decide, nofun⟩, nofun⟩
  refine List.any_eq_false.2 fun c hc => ?_
  have hne : c ≠ '<' ∧ c ≠ '>' := by
    rcases hs.mem hc with hgap | ⟨w, hw, hcw⟩
    · rcases gap_cases hgap with rfl | rfl | rfl | rfl <;> decide
    · exact hwords w hw c hcw
  simp [hne]

/-! #### Effects that are read -/

theorem parseAll_parts_of_parse (h : Effect.parse text = .ok e) :
    parseAll parts text = .ok e ∧ e.source ≠ e.target := by
  rw [Effect.parse] at h
  split at h
  · exact absurd h nofun
  · split at h
    · exact absurd h nofun
    · next e' he =>
      split at h
      · exact absurd h nofun
      · next hne =>
        obtain rfl := Except.ok.inj h
        exact ⟨he, hne⟩

theorem parse_eq_ok : Effect.parse text = .ok e ↔
    (∃ words, Words e words ∧ Laid words text.toList) ∧ e.source ≠ e.target := by
  constructor
  · intro h
    obtain ⟨hparts, hne⟩ := parseAll_parts_of_parse h
    exact ⟨laid_of_parts (parseAll_eq_ok.1 hparts), hne⟩
  · rintro ⟨⟨words, hwords, hs⟩, hne⟩
    have hparts := parseAll_eq_ok.2 (parts_of_laid hwords hs)
    rw [Effect.parse, hwords.not_arrow hs, if_neg Bool.false_ne_true, hparts]
    exact if_neg hne

/-- A text that denotes no effect gives an error about the effect. -/
theorem exists_fault (h : ∀ e, Effect.parse text ≠ .ok e) :
    ∃ fault, Effect.parse text = .error (.effect text fault) := by
  rw [Effect.parse] at h ⊢
  split at h
  · next harrow => exact ⟨_, if_pos harrow⟩
  · next harrow =>
    rw [if_neg harrow]
    split at h
    · exact ⟨_, rfl⟩
    · next e _ =>
      split at h
      · next heq => exact ⟨_, if_pos heq⟩
      · exact absurd rfl (h e)

end Effect

/-! ### Both texts of a rule -/

/-- A text is read as a condition exactly if it spells the groups of one, and as an effect exactly if
it lays out the words of one between two different vertices; what is read is what it spells. Any other
text is refused with an error about its condition or its effect, and so is a text that spells groups,
however many and in whichever order, that are not the groups of a condition. -/
theorem Rule.texts_parse_iff (text : String) :
    (∀ c, Condition.parse text = .ok c ↔
      ∃ groups, RuleGroup.Spells groups text.toList ∧ Condition.Groups groups c) ∧
    (∀ groups, RuleGroup.Spells groups text.toList → (∀ c, ¬ Condition.Groups groups c) →
      ∃ fault, Condition.parse text = .error (.condition text fault)) ∧
    ((∀ c, Condition.parse text ≠ .ok c) →
      ∃ fault, Condition.parse text = .error (.condition text fault)) ∧
    (∀ e, Effect.parse text = .ok e ↔
      (∃ words, Effect.Words e words ∧ Laid words text.toList) ∧ e.source ≠ e.target) ∧
    ((∀ e, Effect.parse text ≠ .ok e) →
      ∃ fault, Effect.parse text = .error (.effect text fault)) := by
  refine ⟨fun _ => Condition.parse_eq_ok, fun groups hspells hgroups => ?_, Condition.exists_fault,
    fun _ => Effect.parse_eq_ok, Effect.exists_fault⟩
  refine Condition.exists_fault fun c hc => ?_
  obtain ⟨groups', hspells', hgroups'⟩ := Condition.parse_eq_ok.1 hc
  exact hgroups c (hspells.unique hspells' ▸ hgroups')

end PatternGraph
