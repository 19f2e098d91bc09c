import PatternGraph.Proofs.Pattern.Expansion
import PatternGraph.Proofs.Query.Agreement
import PatternGraph.Proofs.Query.Aliases

/-!
# Queries written out

A relationship whose sides differ is planned as two steps with a placeholder between them. These are
the steps of the two relationships that it is written out as: the placeholder asks for what `()` asks
for, `Step.bareLink_halved`. So a pattern written out has the plan of the pattern up to aliases,
`Plan.unnamed_of_expanded`. There are more relationships and nodes to count in it, but a query never
looks at an alias, and the answers are the same, `Plan.expanded_after`.
-/

namespace PatternGraph

open Pattern (Spells Expanded)

namespace Step

/-- The steps of a relationship whose sides differ are those of its halves with `()` between them. -/
theorem bareLink_halved {l l₁ l₂ : Link} (h : l.Halved l₁ l₂) (left right : NodeKind) :
    bareLink left l right = bareLink left l₁ .anonymous ++ bareLink .anonymous l₂ right := by
  have hsides := h.not_homogeneous
  obtain ⟨h₁, h₂⟩ := h.isHomogeneous
  unfold bareLink ofLink
  simp only [hsides, h₁, h₂, if_true, Bool.false_eq_true, if_false]
  cases h <;> rfl

theorem bare_expanded {rest rest' : List (Link × NodeKind)} (h : Expanded rest rest')
    (first : NodeKind) : bare first rest' = bare first rest := by
  induction h generalizing first with
  | nil => rfl
  | whole _ kind _ ih => rw [bare, bare, ih]
  | halves h kind _ ih => rw [bare, bare, bare, ih, bareLink_halved h, List.append_assoc]

end Step

namespace Plan

/-- A pattern written out has the plan of the pattern, up to aliases. -/
theorem unnamed_of_expanded {rest rest' : List (Link × NodeKind)} (h : Expanded rest rest')
    (first : NodeKind) :
    (Pattern.ofParts first rest').plan.unnamed = (Pattern.ofParts first rest).plan.unnamed := by
  have hsteps := Step.bare_expanded h first
  cases h with
  | nil => rfl
  | whole _ _ _ | halves _ _ _ =>
    rw [unnamed_ofParts first (List.cons_ne_nil _ _), hsteps,
      unnamed_ofParts first (List.cons_ne_nil _ _)]

/-- In every graph of a history, for every text that is read as a pattern: the pattern can be written
out, with all its relationships of one framing on both sides. Some text spells it then, and each such
text is read as a pattern, whose query gives the same answer as the query of the pattern, from all
start ids and in both output modes. -/
theorem expanded_after (changes : List Change) {text : String} {p : Pattern}
    (hparse : Pattern.parse text = .ok p) :
    ∃ first rest, Spells first rest text.toList ∧ (∃ rest', Expanded rest rest') ∧
      ∀ rest', Expanded rest rest' →
        (∀ part ∈ rest', part.1.isHomogeneous = true) ∧
        (∃ text' : String, Spells first rest' text'.toList) ∧
        ∀ text' : String, Spells first rest' text'.toList →
          ∃ p', Pattern.parse text' = .ok p' ∧
            ∀ (mode : OutputMode) (start : Option (List String)), ∃ answer,
              p.plan.run mode start (Graph.after changes) = (.ok answer, Graph.after changes) ∧
              p'.plan.run mode start (Graph.after changes) = (.ok answer, Graph.after changes) := by
  obtain ⟨first, rest, hparts, -, hadm, rfl⟩ := Pattern.parse_eq_ok.1 hparse
  have hspells : Spells first rest text.toList := Pattern.parseAll_parts_iff.1 hparts
  have hwords := (Pattern.exists_spells_iff_parts.1 ⟨text, hspells⟩).2
  refine ⟨first, rest, hspells, Pattern.exists_expanded hwords hadm, fun rest' hexpanded => ?_⟩
  refine ⟨hexpanded.isHomogeneous, hexpanded.exists_spells ⟨text, hspells⟩, fun text' hspells' => ?_⟩
  refine ⟨_, hexpanded.parse_eq_ok hparse hspells hspells', fun mode start => ?_⟩
  have hwf := Graph.wellFormed_after changes
  obtain ⟨answer, hrun, -⟩ := run_of_listing hwf hwf rfl (Pattern.ofParts first rest).plan mode start
  exact ⟨answer, hrun, by rw [run_of_unnamed (unnamed_of_expanded hexpanded first), hrun]⟩

/-- A query for servers that host or read a database, with two relationships whose sides differ. The
second one is negated. -/
theorem expanded_after_reads :
    let changes : List Change :=
      [.addVertex (.of "a" "A" ["server"]), .addVertex (.of "b" "B" []),
        .addVertex (.of "c" "C" ["db"]), .addEdge (.of "a" "b" ["hosts"]),
        .addEdge (.of "b" "c" ["reads"])]
    ∃ p p', Pattern.parse "?(server)-[hosts or reads]=>(db)<=[!uses]-()" = .ok p ∧
      Pattern.parse "?(server)-[hosts or reads]->()=[hosts or reads]=>(db)<=[!uses]=()<-[!uses]-()" =
        .ok p' ∧
      ∀ (mode : OutputMode) (start : Option (List String)), ∃ answer,
        p.plan.run mode start (Graph.after changes) = (.ok answer, Graph.after changes) ∧
        p'.plan.run mode start (Graph.after changes) = (.ok answer, Graph.after changes) := by
  intro changes
  let forth : LinkKind := .typed ["hosts", "reads"] false
  let back : LinkKind := .typed ["uses"] true
  let parts : List (Link × NodeKind) :=
    [(⟨forth, ⟨.bonded, .absent⟩, ⟨.path, .right⟩⟩, .typed ["db"]),
      (⟨back, ⟨.path, .left⟩, ⟨.bonded, .absent⟩⟩, .anonymous)]
  let parts' : List (Link × NodeKind) :=
    [(⟨forth, ⟨.bonded, .absent⟩, ⟨.bonded, .right⟩⟩, .anonymous),
      (⟨forth, ⟨.path, .absent⟩, ⟨.path, .right⟩⟩, .typed ["db"]),
      (⟨back, ⟨.path, .left⟩, ⟨.path, .absent⟩⟩, .anonymous),
      (⟨back, ⟨.bonded, .left⟩, ⟨.bonded, .absent⟩⟩, .anonymous)]
  have hsides : Framing.bonded ≠ Framing.path := nofun
  have hexpanded : Expanded parts parts' :=
    .halves (.forth forth hsides) _ (.halves (.back back hsides.symm) _ .nil)
  have hspells : Spells (.typed ["server"]) parts
      "?(server)-[hosts or reads]=>(db)<=[!uses]-()".toList :=
    Pattern.parseAll_parts_iff.1 (by decide +kernel)
  have hspells' : Spells (.typed ["server"]) parts'
      "?(server)-[hosts or reads]->()=[hosts or reads]=>(db)<=[!uses]=()<-[!uses]-()".toList :=
    Pattern.parseAll_parts_iff.1 (by decide +kernel)
  have hparse : Pattern.parse "?(server)-[hosts or reads]=>(db)<=[!uses]-()" =
      .ok (.ofParts (.typed ["server"]) parts) := by
    decide +kernel
  obtain ⟨first, rest, hfirst, -, hall⟩ := expanded_after changes hparse
  obtain ⟨hkind, hrest⟩ := hspells.unique hfirst
  rw [hkind, hrest] at hall
  obtain ⟨-, -, hanswers⟩ := hall parts' hexpanded
  obtain ⟨p', hparse', hrun⟩ := hanswers _ hspells'
  exact ⟨_, p', hparse, hparse', hrun⟩

end Plan

end PatternGraph
