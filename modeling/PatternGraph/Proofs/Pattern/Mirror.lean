import PatternGraph.Proofs.Pattern.Spelling

/-!
# Patterns read backwards

The mirror image of a pattern has its nodes in reverse order, and between them the relationships in
reverse order, each with its two sides exchanged. A head that stands at the left side stands at the
right one then, and points the other way; framing, types and negation are kept.

Every sign of a left side has one of a right side beside it. So if a text spells some parts, there is a
text that spells their mirror image, `Pattern.Mirrored.exists_spells`. And a relationship is admissible
either way or not at all. So every such text is a pattern if the last node may be the first,
`Pattern.Mirrored.parse_eq_ok`.
-/

namespace PatternGraph

/-- The head seen from the other side. -/
def ArrowHead.mirror : ArrowHead → ArrowHead
  | absent => absent
  | left => right
  | right => left

/-- A side of a relationship as the other side. -/
def Connector.mirror (c : Connector) : Connector := ⟨c.framing, c.head.mirror⟩

/-- A relationship read backwards. -/
def Link.mirror (l : Link) : Link := ⟨l.kind, l.target.mirror, l.source.mirror⟩

@[simp] theorem Connector.framing_mirror (c : Connector) : c.mirror.framing = c.framing := rfl

@[simp] theorem Connector.hasArrow_mirror (c : Connector) : c.mirror.hasArrow = c.hasArrow := by
  obtain ⟨framing, head⟩ := c
  cases head <;> rfl

namespace Link

@[simp] theorem kind_mirror (l : Link) : l.mirror.kind = l.kind := rfl

@[simp] theorem source_mirror (l : Link) : l.mirror.source = l.target.mirror := rfl

@[simp] theorem target_mirror (l : Link) : l.mirror.target = l.source.mirror := rfl

@[simp] theorem isHomogeneous_mirror (l : Link) : l.mirror.isHomogeneous = l.isHomogeneous := by
  simp only [isHomogeneous, source_mirror, target_mirror, Connector.framing_mirror]
  exact Bool.beq_comm

@[simp] theorem isUndirected_mirror (l : Link) : l.mirror.isUndirected = l.isUndirected := by
  simp only [isUndirected, source_mirror, target_mirror, Connector.hasArrow_mirror]
  exact Bool.and_comm ..

end Link

namespace Pattern

open Text

/-- A first node and the relationships and nodes behind it are the mirror image of others. -/
structure Mirrored (first : NodeKind) (rest : List (Link × NodeKind)) (first' : NodeKind)
    (rest' : List (Link × NodeKind)) : Prop where
  nodes : first' :: rest'.map Prod.snd = (first :: rest.map Prod.snd).reverse
  links : rest'.map Prod.fst = ((rest.map Prod.fst).map Link.mirror).reverse

/-- Parts are read backwards in front of others, to which their first node belongs. -/
def mirrorOnto (first : NodeKind) (behind : List (Link × NodeKind)) :
    List (Link × NodeKind) → NodeKind × List (Link × NodeKind)
  | [] => (first, behind)
  | (l, kind) :: rest => mirrorOnto kind ((l.mirror, first) :: behind) rest

variable {first first' : NodeKind} {rest rest' : List (Link × NodeKind)}

theorem nodes_mirrorOnto (first : NodeKind) (behind rest : List (Link × NodeKind)) :
    (mirrorOnto first behind rest).1 :: (mirrorOnto first behind rest).2.map Prod.snd =
      (first :: rest.map Prod.snd).reverse ++ behind.map Prod.snd := by
  induction rest generalizing first behind with
  | nil => rfl
  | cons part rest ih =>
    obtain ⟨l, kind⟩ := part
    rw [mirrorOnto, ih]
    simp

theorem links_mirrorOnto (first : NodeKind) (behind rest : List (Link × NodeKind)) :
    (mirrorOnto first behind rest).2.map Prod.fst =
      ((rest.map Prod.fst).map Link.mirror).reverse ++ behind.map Prod.fst := by
  induction rest generalizing first behind with
  | nil => rfl
  | cons part rest ih =>
    obtain ⟨l, kind⟩ := part
    rw [mirrorOnto, ih]
    simp

/-- Parts have a mirror image, and only one. -/
theorem mirrored_iff :
    Mirrored first rest first' rest' ↔ mirrorOnto first [] rest = (first', rest') := by
  have hnodes := nodes_mirrorOnto first [] rest
  have hlinks := links_mirrorOnto first [] rest
  rw [List.map_nil, List.append_nil] at hnodes hlinks
  constructor
  · rintro ⟨hnodes', hlinks'⟩
    obtain ⟨hfirst, hrest⟩ := List.cons.inj (hnodes.trans hnodes'.symm)
    refine Prod.ext hfirst ?_
    rw [← List.zip_unzip (mirrorOnto first [] rest).2, ← List.zip_unzip rest', List.unzip_eq_map,
      List.unzip_eq_map, hrest, hlinks.trans hlinks'.symm]
  · intro h
    rw [h] at hnodes hlinks
    exact ⟨hnodes, hlinks⟩

theorem exists_mirrored (first : NodeKind) (rest : List (Link × NodeKind)) :
    ∃ first' rest', Mirrored first rest first' rest' := ⟨_, _, mirrored_iff.2 rfl⟩

namespace Mirrored

theorem ne_nil (h : Mirrored first rest first' rest') (hrest : rest ≠ []) : rest' ≠ [] := by
  rintro rfl
  have hlength := congrArg List.length h.links
  simp only [List.length_map, List.length_reverse, List.length_nil] at hlength
  exact hrest (List.length_eq_zero_iff.1 hlength.symm)

/-- The first node of the mirror image is the last node. -/
theorem getLast?_nodes (h : Mirrored first rest first' rest') :
    (first :: rest.map Prod.snd).getLast? = some first' := by
  rw [List.getLast?_eq_head?_reverse, ← h.nodes]
  rfl

end Mirrored

/-! ### What can be spelled -/

variable {c : Connector} {l : Link} {w : List Char} {ws : List (List Char)}

theorem SourceSign.mirror (h : SourceSign c w) : ∃ w', TargetSign c.mirror w' := by
  cases h with
  | plain f => exact ⟨_, .plain f⟩
  | arrow f => exact ⟨_, .arrow f⟩

theorem TargetSign.mirror (h : TargetSign c w) : ∃ w', SourceSign c.mirror w' := by
  cases h with
  | plain f => exact ⟨_, .plain f⟩
  | arrow f => exact ⟨_, .arrow f⟩

theorem BareSign.mirror {source target : Connector} (h : BareSign (source, target) w) :
    ∃ w', BareSign (target.mirror, source.mirror) w' := by
  cases h with
  | plain f => exact ⟨_, .plain f⟩
  | left f => exact ⟨_, .right f⟩
  | right f => exact ⟨_, .left f⟩
  | both f => exact ⟨_, .both f⟩

/-- A relationship that can be written can be written backwards. -/
theorem LinkWords.mirror (h : LinkWords l ws) : Writable (LinkWords l.mirror) := by
  cases h with
  | bare hsign =>
    obtain ⟨w', hsign'⟩ := hsign.mirror
    exact ⟨_, .bare hsign', List.forall_mem_singleton.2 hsign'.solid⟩
  | typed hs hlist ht =>
    obtain ⟨left, hs'⟩ := ht.mirror
    obtain ⟨right, ht'⟩ := hs.mirror
    exact (LinkWords.typed hs hlist ht).resigned rfl hs' ht'
  | negated hs hlist ht =>
    obtain ⟨left, hs'⟩ := ht.mirror
    obtain ⟨right, ht'⟩ := hs.mirror
    exact (LinkWords.negated hs hlist ht).resigned rfl hs' ht'

/-- The mirror image of parts that a text spells is spelled by a text. -/
theorem Mirrored.exists_spells (h : Mirrored first rest first' rest')
    (hspells : ∃ text : String, Spells first rest text.toList) :
    ∃ text : String, Spells first' rest' text.toList := by
  obtain ⟨hnodes, hlinks⟩ := exists_spells_iff.1 hspells
  refine exists_spells_iff.2 ⟨?_, ?_⟩
  · rw [h.nodes]
    exact fun kind hkind => hnodes kind (List.mem_reverse.1 hkind)
  · rw [h.links]
    intro l hl
    obtain ⟨l₀, hl₀, rfl⟩ := List.mem_map.1 (List.mem_reverse.1 hl)
    obtain ⟨ws, hws, -⟩ := hlinks l₀ hl₀
    exact hws.mirror

/-! ### What is a pattern -/

theorem admissible_mirror : Admissible l.mirror ↔ Admissible l := by
  rw [Admissible, Admissible, Link.isUndirected_mirror, Link.isHomogeneous_mirror, Link.kind_mirror]

/-- A text that spells the mirror image of a pattern is a pattern if the last node may be the first. -/
theorem Mirrored.parse_eq_ok {text text' : String} {p : Pattern} (h : Mirrored first rest first' rest')
    (hparse : Pattern.parse text = .ok p) (hspells : Spells first rest text.toList)
    (hstart : first'.canStart = true) (hspells' : Spells first' rest' text'.toList) :
    Pattern.parse text' = .ok (ofParts first' rest') := by
  obtain ⟨-, hlinks, -⟩ := hspells.of_parse hparse
  refine Pattern.parse_eq_ok.2 ⟨first', rest', parseAll_parts_iff.2 hspells', hstart, ?_, rfl⟩
  rw [← List.forall_mem_map (P := Admissible), h.links]
  intro l hl
  obtain ⟨l₀, hl₀, rfl⟩ := List.mem_map.1 (List.mem_reverse.1 hl)
  exact admissible_mirror.2 (List.forall_mem_map.2 hlinks l₀ hl₀)

end Pattern

end PatternGraph
