import PatternGraph.Proofs.Pattern.Decoding
import PatternGraph.Proofs.Pattern.Links
import PatternGraph.Proofs.Pattern.Nodes

/-!
# The grammar of patterns

A text spells a first node and relationships with the nodes behind them if it lays out a question mark
and then their words. What is read from a text is what it spells, `Pattern.parseAll_parts_iff`.

Not all that can be spelled is a pattern: the first node has to ask for something, and a relationship
with types has to have a direction. The parser also refuses a relationship without a direction whose
sides differ in framing, but no such relationship without types can be spelled.
-/

namespace PatternGraph.Pattern

open Text
open Text.Parser

/-- The words of a relationship and the node behind it. -/
def PartWords (part : Link × NodeKind) (ws : List (List Char)) : Prop :=
  ∃ link node, LinkWords part.1 link ∧ NodeWords part.2 node ∧ ws = link ++ node

/-- The text lays out a question mark, a first node, and relationships with the nodes behind them. -/
def Spells (first : NodeKind) (rest : List (Link × NodeKind)) (cs : List Char) : Prop :=
  ∃ node words, NodeWords first node ∧ List.Forall₂ PartWords rest words ∧
    Laid (['?'] :: node ++ words.flatten) cs

variable {cs : List Char} {first : NodeKind} {rest : List (Link × NodeKind)}

/-! ### Relationships with the nodes behind them -/

/-- A relationship and the node behind it. -/
def linkAndNode : Parser (Link × NodeKind) := do
  let l ← spaced linkElement
  let kind ← spaced nodeElement
  return (l, kind)

theorem consumes_linkAndNode : Consumes linkAndNode :=
  consumes_linkElement.spaced.bind fun _ => shrinks_nodeElement.spaced.bind fun _ => shrinks_pure _

theorem lays_linkAndNode : linkAndNode.Lays PartWords := by
  intro cs part rest words h hs
  simp only [linkAndNode, bind_eq_ok, pure_eq_ok] at h
  obtain ⟨l, mid, hl, kind, _, hkind, rfl, rfl⟩ := h
  obtain ⟨node, hnode, hlaid⟩ := lays_nodeElement.spaced _ _ _ _ hkind hs
  obtain ⟨link, hlink, hlaid⟩ := lays_linkElement.spaced _ _ _ _ hl hlaid
  exact ⟨link ++ node, ⟨link, node, hlink, hnode, rfl⟩, by rwa [List.append_assoc]⟩

theorem NodeWords.nodeNext {kind : NodeKind} {ws : List (List Char)} (h : NodeWords kind ws)
    (words : List (List Char)) : NodeNext (ws ++ words) := by
  obtain ⟨body, -, rfl⟩ := h
  exact ⟨['('], rfl, rfl⟩

theorem reads_linkAndNode : linkAndNode.Reads PartWords fun _ => True := by
  rintro cs ⟨l, kind⟩ _ words ⟨link, node, hlink, hnode, rfl⟩ - hs
  rw [List.append_assoc] at hs
  obtain ⟨mid, hl, hs⟩ := reads_linkElement _ _ _ _ hlink (hnode.nodeNext words) hs
  obtain ⟨mid', hkind, hs⟩ := reads_nodeElement.spaced _ _ _ _ hnode trivial hs.skip
  simp only [linkAndNode, bind_eq_ok, pure_eq_ok]
  exact ⟨mid', ⟨l, _, hl, kind, _, hkind, rfl, rfl⟩, hs⟩

/-! ### Whole texts -/

theorem parts_eq_ok : parts cs = .ok ((first, rest), []) ↔
    ∃ mid mid' mid'', skip cs = '?' :: mid ∧ spaced nodeElement mid = .ok (first, mid') ∧
      Run linkAndNode rest mid' mid'' ∧ skip mid'' = [] := by
  have hparts : parts = do
    gaps
    char '?'
    let first ← spaced nodeElement
    let rest ← many linkAndNode
    gaps
    return (first, rest) := rfl
  simp only [hparts, bind_eq_ok, pure_eq_ok, gaps_eq_ok, char_eq_ok,
    many_eq_ok_iff consumes_linkAndNode]
  constructor
  · rintro ⟨_, _, rfl, _, mid, hmark, _, mid', hfirst, _, mid'', hrest, _, _, rfl, heq, hend⟩
    obtain ⟨rfl, rfl⟩ := Prod.mk.inj heq
    exact ⟨mid, mid', mid'', hmark, hfirst, hrest, hend⟩
  · rintro ⟨mid, mid', mid'', hmark, hfirst, hrest, hend⟩
    exact ⟨(), _, rfl, (), mid, hmark, first, mid', hfirst, rest, mid'', hrest, (), _, rfl, rfl, hend⟩

/-- What is read from a text is what it spells. -/
theorem parseAll_parts_iff {text : String} :
    parseAll parts text = .ok (first, rest) ↔ Spells first rest text.toList := by
  rw [parseAll_eq_ok, parts_eq_ok]
  constructor
  · rintro ⟨mid, mid', mid'', hmark, hfirst, hrest, hend⟩
    have hnil : Laid [] mid'' := .of_skip (hend ▸ .nil gap_nil)
    obtain ⟨words, hwords, hlaid⟩ := lays_linkAndNode.of_run hrest hnil
    obtain ⟨node, hnode, hlaid⟩ := lays_nodeElement.spaced _ _ _ _ hfirst hlaid
    refine ⟨node, words, hnode, hwords, .of_skip ?_⟩
    rw [hmark]
    exact hlaid.word (w := ['?']) (solid_cons rfl [])
  · rintro ⟨node, words, hnode, hwords, hs⟩
    obtain ⟨mid, hmark, hs⟩ := Laid.skip_cons hs
    obtain ⟨mid', hfirst, hs⟩ := reads_nodeElement.spaced _ _ _ _ hnode trivial hs
    have hrest := reads_linkAndNode.run trivial (fun _ _ _ _ => trivial)
      consumes_linkAndNode.fails_nil hwords hs
    exact ⟨mid, skip mid', [], hmark, hfirst, hrest, rfl⟩

/-! ### Patterns -/

theorem startFault_eq_none (first : NodeKind) (alone : Bool) :
    startFault first alone = none ↔ first.canStart = true := by
  cases first <;> cases alone <;> simp [startFault, NodeKind.canStart]

/-- A relationship is admissible if it has an arrow head, or else is bare and of one framing. -/
def Admissible (l : Link) : Prop :=
  l.isUndirected = false ∨ l.isHomogeneous = true ∧ l.kind.isShort = true

theorem linkFault_eq_none {l : PatternLink} : linkFault l = none ↔ Admissible l.toLink := by
  rw [linkFault, Admissible]
  cases l.isUndirected <;> cases l.isHomogeneous <;> cases l.kind.isShort <;> simp

theorem findSome?_linkFault (first : NodeKind) (rest : List (Link × NodeKind)) :
    (ofParts first rest).links.findSome? linkFault = none ↔ ∀ part ∈ rest, Admissible part.1 := by
  have hmap := map_toLink_links (chain_ofParts first rest)
  rw [List.findSome?_eq_none_iff]
  simp only [linkFault_eq_none]
  rw [← List.forall_mem_map (P := Admissible), hmap, List.forall_mem_map]

theorem parse_eq_ok {text : String} {p : Pattern} : Pattern.parse text = .ok p ↔
    ∃ first rest, parseAll parts text = .ok (first, rest) ∧ first.canStart = true ∧
      (∀ part ∈ rest, Admissible part.1) ∧ p = ofParts first rest := by
  rw [Pattern.parse]
  split
  · next offset herror => simp [herror]
  · next first rest hok =>
    have hfault : (startFault first rest.isEmpty <|>
        (ofParts first rest).links.findSome? linkFault) = none ↔
        first.canStart = true ∧ ∀ part ∈ rest, Admissible part.1 := by
      rw [← startFault_eq_none first rest.isEmpty, ← findSome?_linkFault first]
      cases startFault first rest.isEmpty <;> simp
    constructor
    · intro h
      simp only at h
      split at h
      · exact absurd h nofun
      · next hnone =>
        obtain ⟨hstart, hlinks⟩ := hfault.1 hnone
        exact ⟨first, rest, hok, hstart, hlinks, (Except.ok.inj h).symm⟩
    · rintro ⟨first', rest', hok', hstart, hlinks, rfl⟩
      obtain ⟨rfl, rfl⟩ := Prod.mk.inj (Except.ok.inj (hok.symm.trans hok'))
      simp only [hfault.2 ⟨hstart, hlinks⟩]

/-- The sides of a bare relationship that can be spelled have one framing. -/
theorem LinkWords.isHomogeneous {l : Link} {ws : List (List Char)} (h : LinkWords l ws)
    (hshort : l.kind.isShort = true) : l.isHomogeneous = true := by
  cases h with
  | bare hsign => cases hsign <;> simp [Link.isHomogeneous]
  | typed _ _ _ => exact absurd hshort nofun
  | negated _ _ _ => exact absurd hshort nofun

theorem Spells.isHomogeneous (h : Spells first rest cs) :
    ∀ part ∈ rest, part.1.kind.isShort = true → part.1.isHomogeneous = true := by
  obtain ⟨node, words, -, hwords, -⟩ := h
  induction hwords with
  | nil => exact List.forall_mem_nil _
  | cons hpart _ ih =>
    obtain ⟨link, node, hlink, -, -⟩ := hpart
    exact List.forall_mem_cons.2 ⟨hlink.isHomogeneous, ih⟩

/-- Of a relationship that can be spelled only one with types can be without direction. -/
theorem admissible_iff {l : Link} (h : l.kind.isShort = true → l.isHomogeneous = true) :
    Admissible l ↔ (l.kind.isShort = false → l.source.hasArrow = true ∨ l.target.hasArrow = true) := by
  have harrow : l.isUndirected = false ↔ l.source.hasArrow = true ∨ l.target.hasArrow = true := by
    rw [Link.isUndirected]
    cases l.source.hasArrow <;> cases l.target.hasArrow <;> simp
  rw [Admissible, harrow]
  cases hshort : l.kind.isShort with
  | true => simp [h hshort]
  | false => simp

/-- A text is read as a pattern exactly if it spells a first node that asks for something and
relationships with the nodes behind them, of which those with types have an arrow head, and then the
pattern is the one that stands for these parts. -/
theorem parse_iff_spells (text : String) (p : Pattern) :
    Pattern.parse text = .ok p ↔
      ∃ first rest, Spells first rest text.toList ∧ first.canStart = true ∧
        (∀ part ∈ rest, part.1.kind.isShort = false →
          part.1.source.hasArrow = true ∨ part.1.target.hasArrow = true) ∧
        Denotes p first rest := by
  rw [parse_eq_ok]
  refine exists_congr fun first => exists_congr fun rest => ?_
  rw [parseAll_parts_iff, denotes_iff]
  refine and_congr_right fun hspells => and_congr_right fun _ => and_congr_left fun _ => ?_
  exact forall₂_congr fun part hpart => admissible_iff (hspells.isHomogeneous part hpart)

end PatternGraph.Pattern
