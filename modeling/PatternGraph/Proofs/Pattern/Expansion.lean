import PatternGraph.Proofs.Pattern.Spelling

/-!
# Relationships written out

A relationship whose sides differ in framing can be written as two, each of one framing, with `()`
between them. `Link.Halved` says which two: the first has the framing of the left side and the second
that of the right side, and the arrow heads lead on in the direction of the relationship, or with two
heads away from the node in the middle.

| whose sides differ | written out            |
|--------------------|------------------------|
| `-[t]=>`           | `-[t]->()=[t]=>`       |
| `=[t]->`           | `=[t]=>()-[t]->`       |
| `<-[t]=`           | `<-[t]-()<=[t]=`       |
| `<=[t]-`           | `<=[t]=()<-[t]-`       |
| `<-[t]=>`          | `<-[t]-()=[t]=>`       |
| `<=[t]->`          | `<=[t]=()-[t]->`       |

`Pattern.Expanded` writes out all such relationships of a pattern. What comes of it can be spelled,
`Pattern.Expanded.exists_spells`, and each text that spells it is a pattern,
`Pattern.Expanded.parse_eq_ok`.
-/

namespace PatternGraph

/-- A relationship whose sides differ in framing, and the two relationships that it is written out as. -/
inductive Link.Halved : Link → Link → Link → Prop where
  | forth (kind : LinkKind) {f f' : Framing} (h : f ≠ f') :
      Halved ⟨kind, ⟨f, .absent⟩, ⟨f', .right⟩⟩
        ⟨kind, ⟨f, .absent⟩, ⟨f, .right⟩⟩ ⟨kind, ⟨f', .absent⟩, ⟨f', .right⟩⟩
  | back (kind : LinkKind) {f f' : Framing} (h : f ≠ f') :
      Halved ⟨kind, ⟨f, .left⟩, ⟨f', .absent⟩⟩
        ⟨kind, ⟨f, .left⟩, ⟨f, .absent⟩⟩ ⟨kind, ⟨f', .left⟩, ⟨f', .absent⟩⟩
  | apart (kind : LinkKind) {f f' : Framing} (h : f ≠ f') :
      Halved ⟨kind, ⟨f, .left⟩, ⟨f', .right⟩⟩
        ⟨kind, ⟨f, .left⟩, ⟨f, .absent⟩⟩ ⟨kind, ⟨f', .absent⟩, ⟨f', .right⟩⟩

namespace Link.Halved

variable {l l₁ l₂ : Link}

theorem not_homogeneous (h : l.Halved l₁ l₂) : l.isHomogeneous = false := by
  cases h <;> simpa [isHomogeneous]

theorem isHomogeneous (h : l.Halved l₁ l₂) : l₁.isHomogeneous = true ∧ l₂.isHomogeneous = true := by
  cases h <;> simp [Link.isHomogeneous]

/-- Both halves have a direction. -/
theorem directed (h : l.Halved l₁ l₂) : l₁.isUndirected = false ∧ l₂.isUndirected = false := by
  cases h <;> simp [isUndirected, Connector.hasArrow]

end Link.Halved

namespace Pattern

open Text

/-- The relationships and nodes behind the first node, and what they are when every relationship whose
sides differ is written out. -/
inductive Expanded : List (Link × NodeKind) → List (Link × NodeKind) → Prop where
  | nil : Expanded [] []
  | whole {l : Link} {rest rest' : List (Link × NodeKind)} (h : l.isHomogeneous = true)
      (kind : NodeKind) (hrest : Expanded rest rest') :
      Expanded ((l, kind) :: rest) ((l, kind) :: rest')
  | halves {l l₁ l₂ : Link} {rest rest' : List (Link × NodeKind)} (h : l.Halved l₁ l₂)
      (kind : NodeKind) (hrest : Expanded rest rest') :
      Expanded ((l, kind) :: rest) ((l₁, .anonymous) :: (l₂, kind) :: rest')

variable {first : NodeKind} {rest rest' : List (Link × NodeKind)} {l l₁ l₂ : Link}
  {ws : List (List Char)}

/-! ### What is written out -/

/-- A relationship that can be written and has a direction can be written out if its sides differ. -/
theorem LinkWords.exists_halved (h : LinkWords l ws) (hadm : Admissible l)
    (hsides : l.isHomogeneous = false) : ∃ l₁ l₂, l.Halved l₁ l₂ := by
  have hhead : l.isUndirected = false := by simpa [Admissible, hsides] using hadm
  -- the signs in front of the bracket and behind it say where there is a head
  have hsigns : ∀ {kind : LinkKind} {source target : Connector} {left right : List Char},
      l = ⟨kind, source, target⟩ → SourceSign source left → TargetSign target right →
        ∃ l₁ l₂, l.Halved l₁ l₂ := by
    rintro kind source target left right rfl hs ht
    cases hs with
    | plain f =>
      cases ht with
      | plain f' => exact absurd hhead (by simp [Link.isUndirected, Connector.hasArrow])
      | arrow f' => exact ⟨_, _, .forth kind (by simpa [Link.isHomogeneous] using hsides)⟩
    | arrow f =>
      cases ht with
      | plain f' => exact ⟨_, _, .back kind (by simpa [Link.isHomogeneous] using hsides)⟩
      | arrow f' => exact ⟨_, _, .apart kind (by simpa [Link.isHomogeneous] using hsides)⟩
  cases h with
  | bare hsign => cases hsign <;> simp [Link.isHomogeneous] at hsides
  | typed hs _ ht => exact hsigns rfl hs ht
  | negated hs _ ht => exact hsigns rfl hs ht

/-- The halves of a relationship that can be written can be written. -/
theorem LinkWords.halves (hl : LinkWords l ws) (h : l.Halved l₁ l₂) :
    Writable (LinkWords l₁) ∧ Writable (LinkWords l₂) := by
  have htyped : l.kind.isShort = false :=
    Bool.eq_false_iff.2 fun hshort => by simpa [hl.isHomogeneous hshort] using h.not_homogeneous
  cases h with
  | forth _ _ =>
    exact ⟨hl.resigned htyped (.plain _) (.arrow _), hl.resigned htyped (.plain _) (.arrow _)⟩
  | back _ _ =>
    exact ⟨hl.resigned htyped (.arrow _) (.plain _), hl.resigned htyped (.arrow _) (.plain _)⟩
  | apart _ _ =>
    exact ⟨hl.resigned htyped (.arrow _) (.plain _), hl.resigned htyped (.plain _) (.arrow _)⟩

/-- `()` can be written. -/
theorem writable_anonymous : Writable (NodeWords .anonymous) := by
  refine ⟨_, ⟨[], .anonymous, rfl⟩, ?_⟩
  simp only [List.cons_append, List.nil_append, List.forall_mem_cons]
  exact ⟨solid_cons rfl [], solid_cons rfl [], nofun⟩

/-- The relationships of what can be spelled and is a pattern can be written out. -/
theorem exists_expanded (hwords : ∀ part ∈ rest, Writable (PartWords part))
    (hadm : ∀ part ∈ rest, Admissible part.1) : ∃ rest', Expanded rest rest' := by
  induction rest with
  | nil => exact ⟨[], .nil⟩
  | cons part rest ih =>
    obtain ⟨l, kind⟩ := part
    obtain ⟨hpart, hwords⟩ := List.forall_mem_cons.1 hwords
    obtain ⟨hl, hadm⟩ := List.forall_mem_cons.1 hadm
    obtain ⟨rest', hrest⟩ := ih hwords hadm
    obtain ⟨⟨ws, hlink, -⟩, -⟩ := writable_partWords.1 hpart
    cases hsides : l.isHomogeneous with
    | true => exact ⟨_, .whole hsides kind hrest⟩
    | false =>
      obtain ⟨l₁, l₂, hhalved⟩ := hlink.exists_halved hl hsides
      exact ⟨_, .halves hhalved kind hrest⟩

namespace Expanded

/-- What holds of a relationship that stays and of the halves of one that does not, holds of all that is
written out. -/
theorem forall_mem {P Q : Link × NodeKind → Prop} (h : Expanded rest rest')
    (hwhole : ∀ l kind, l.isHomogeneous = true → P (l, kind) → Q (l, kind))
    (hhalves : ∀ l l₁ l₂ kind, l.Halved l₁ l₂ → P (l, kind) → Q (l₁, .anonymous) ∧ Q (l₂, kind))
    (hrest : ∀ part ∈ rest, P part) : ∀ part ∈ rest', Q part := by
  induction h with
  | nil => exact List.forall_mem_nil _
  | whole h kind _ ih =>
    obtain ⟨hpart, hrest⟩ := List.forall_mem_cons.1 hrest
    exact List.forall_mem_cons.2 ⟨hwhole _ kind h hpart, ih hrest⟩
  | halves h kind _ ih =>
    obtain ⟨hpart, hrest⟩ := List.forall_mem_cons.1 hrest
    obtain ⟨h₁, h₂⟩ := hhalves _ _ _ kind h hpart
    exact List.forall_mem_cons.2 ⟨h₁, List.forall_mem_cons.2 ⟨h₂, ih hrest⟩⟩

/-- The two sides of each relationship have one framing. -/
theorem isHomogeneous (h : Expanded rest rest') : ∀ part ∈ rest', part.1.isHomogeneous = true :=
  h.forall_mem (P := fun _ => True) (fun _ _ hl _ => hl) (fun _ _ _ _ hl _ => hl.isHomogeneous)
    fun _ _ => trivial

theorem admissible (h : Expanded rest rest') (hadm : ∀ part ∈ rest, Admissible part.1) :
    ∀ part ∈ rest', Admissible part.1 := by
  refine h.forall_mem (fun _ _ _ hl => hl) (fun l l₁ l₂ _ hl _ => ?_) hadm
  obtain ⟨h₁, h₂⟩ := hl.directed
  exact ⟨.inl h₁, .inl h₂⟩

theorem writable (h : Expanded rest rest') (hwords : ∀ part ∈ rest, Writable (PartWords part)) :
    ∀ part ∈ rest', Writable (PartWords part) := by
  refine h.forall_mem (fun _ _ _ hpart => hpart) (fun l l₁ l₂ kind hl hpart => ?_) hwords
  obtain ⟨⟨ws, hlink, -⟩, hnode⟩ := writable_partWords.1 hpart
  obtain ⟨h₁, h₂⟩ := hlink.halves hl
  exact ⟨writable_partWords.2 ⟨h₁, writable_anonymous⟩, writable_partWords.2 ⟨h₂, hnode⟩⟩

/-- What a text spells is spelled by a text when it is written out. -/
theorem exists_spells (h : Expanded rest rest')
    (hspells : ∃ text : String, Spells first rest text.toList) :
    ∃ text : String, Spells first rest' text.toList := by
  obtain ⟨hfirst, hwords⟩ := exists_spells_iff_parts.1 hspells
  exact exists_spells_iff_parts.2 ⟨hfirst, h.writable hwords⟩

/-- A text that spells a pattern written out is a pattern. -/
theorem parse_eq_ok {text text' : String} {p : Pattern} (h : Expanded rest rest')
    (hparse : Pattern.parse text = .ok p) (hspells : Spells first rest text.toList)
    (hspells' : Spells first rest' text'.toList) :
    Pattern.parse text' = .ok (ofParts first rest') := by
  obtain ⟨hstart, hadm, -⟩ := hspells.of_parse hparse
  exact Pattern.parse_eq_ok.2
    ⟨first, rest', parseAll_parts_iff.2 hspells', hstart, h.admissible hadm, rfl⟩

end Expanded

end Pattern

end PatternGraph
