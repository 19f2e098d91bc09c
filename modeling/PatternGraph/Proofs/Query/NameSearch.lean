import PatternGraph.Proofs.Pattern.Spelling
import PatternGraph.Proofs.Query.Agreement
import PatternGraph.Proofs.Text.Substring

/-!
# Searching by name

A vertex can be searched by a part of its name: by a filter, or by a pattern whose only node names the
part between quotes. The two find the same vertices, `Plan.run_identified`, although the pattern lowers
the part once more than the filter.

The name and the part are lowered each on its own, and then the one is looked for in the other. That
need not find a part which stands in the name: a capital sigma at the end of the part becomes a final
sigma, which it is not in the name if letters follow it there, `Graph.not_found_of_finalSigma`. Only
the two small sigmas are ever mistaken for each other. A part is found if each of its capital sigmas has
the same form in the name, and so is every part without capital sigmas.
-/

namespace PatternGraph

open Text

variable {g : Graph} {s : String} {v : Vertex}

/-- It does not matter whether the text that is searched for was lowered before. -/
theorem Graph.WellFormed.selectVertices_lowercase (h : g.WellFormed) (f : VertexFilter) (s : String) :
    g.selectVertices { f with searchTerm := some (lowercase s) } =
      g.selectVertices { f with searchTerm := some s } := by
  rw [h.selectVertices_eq_scan, h.selectVertices_eq_scan]
  have hname : ∀ v : Vertex, (∀ term ∈ some (lowercase s),
        (lowercase term).toList <:+: (lowercase v.name).toList) ↔
      ∀ term ∈ some s, (lowercase term).toList <:+: (lowercase v.name).toList := by
    intro v
    simp
  refine List.filter_congr fun v _ => decide_eq_decide.2 ⟨fun hsat => ?_, fun hsat => ?_⟩
  · exact ⟨hsat.ids, hsat.types, (hname v).1 hsat.name⟩
  · exact ⟨hsat.ids, hsat.types, (hname v).2 hsat.name⟩

namespace Pattern

/-- All characters can be written between single quotes. -/
theorem exists_quoted (name : List Char) : ∃ cs, Quoted '\'' name cs := by
  induction name with
  | nil => exact ⟨[], .nil⟩
  | cons c name ih =>
    obtain ⟨cs, hcs⟩ := ih
    by_cases hslash : c = '\\'
    · rw [hslash]
      exact ⟨_, .escaped .backslash hcs⟩
    · by_cases hquote : c = '\''
      · rw [hquote]
        exact ⟨_, .escaped .quote hcs⟩
      · exact ⟨_, .plain hslash hquote hcs⟩

/-- A node can name every text that is not empty. -/
theorem exists_spells_identified (hs : s ≠ "") :
    ∃ text : String, Spells (.identified s) [] text.toList := by
  obtain ⟨cs, hcs⟩ := exists_quoted s.toList
  have hname : QuotedName s ('\'' :: cs ++ ['\'']) := by
    have hmk := QuotedName.mk (.inr rfl) (fun e => hs (String.toList_eq_nil_iff.1 e)) hcs
    rwa [String.ofList_toList] at hmk
  refine exists_spells_iff.2 ⟨?_, List.forall_mem_nil _⟩
  have hsolid : ∀ word ∈ [['('], '\'' :: cs ++ ['\''], [')']], Solid word := by
    simp only [List.forall_mem_cons]
    exact ⟨solid_cons rfl _, solid_cons rfl _, solid_cons rfl _, List.forall_mem_nil _⟩
  exact List.forall_mem_singleton.2 ⟨_, ⟨_, .identified hname, rfl⟩, hsolid⟩

end Pattern

/-- A pattern that names a text is answered with the vertices that a filter selects by the text. -/
theorem Plan.run_identified (h : g.WellFormed) {text : String}
    (hspells : Pattern.Spells (.identified s) [] text.toList) :
    ∃ p, Plan.parse text = .ok p ∧
      p.run .paths none g =
        (.ok (.paths ((g.selectVertices { searchTerm := some s }).map .single)), g) ∧
      p.run .scopeList none g =
        (.ok (.scopeList (g.selectVertices { searchTerm := some s })), g) := by
  have hparse : Pattern.parse text = .ok (.ofParts (.identified s) []) :=
    Pattern.parse_eq_ok.2 ⟨_, _, Pattern.parseAll_parts_iff.2 hspells, rfl, List.forall_mem_nil _, rfl⟩
  obtain ⟨hpaths, hlist⟩ :=
    Plan.run_of_node (g := g) (p := (Pattern.ofParts (.identified s) []).plan) rfl none
  have hselect : g.selectVertices ((Pattern.ofParts (.identified s) []).plan.nodeFilter none) =
      g.selectVertices { searchTerm := some s } := h.selectVertices_lowercase {} s
  rw [hselect] at hpaths hlist
  refine ⟨_, ?_, hpaths, hlist⟩
  rw [Plan.parse, hparse]
  rfl

/-- A vertex is found by a text: a filter selects it, and every pattern of a single node that names the
text answers with it. -/
structure Graph.FindsByName (g : Graph) (s : String) (v : Vertex) : Prop where
  selected : v ∈ g.selectVertices { searchTerm := some s }
  /-- There are such patterns, if the text is not empty, -/
  spelled : s ≠ "" → ∃ text : String, Pattern.Spells (.identified s) [] text.toList
  /-- and the vertex is in the answer, whether as a path or as a member of the list. -/
  answered : ∀ text : String, Pattern.Spells (.identified s) [] text.toList →
    ∃ p paths vertices, Plan.parse text = .ok p ∧ p.run .paths none g = (.ok (.paths paths), g) ∧
      .single v ∈ paths ∧ p.run .scopeList none g = (.ok (.scopeList vertices), g) ∧ v ∈ vertices

namespace Graph

/-- A vertex is found by a text just if the lowered text stands in the lowered name. -/
theorem WellFormed.findsByName_iff (h : g.WellFormed) (hv : v ∈ g.allVertices) :
    g.FindsByName s v ↔ (lowercase s).toList <:+: (lowercase v.name).toList := by
  constructor
  · intro hfinds
    obtain ⟨-, hsat⟩ := ((h.selects _).mem_iff v).1 hfinds.selected
    exact hsat.name s rfl
  · intro hs
    have hselected : v ∈ g.selectVertices { searchTerm := some s } := by
      refine ((h.selects _).mem_iff v).2 ⟨hv, nofun, fun hnone => absurd rfl hnone, ?_⟩
      rintro _ ⟨⟩
      exact hs
    refine ⟨hselected, Pattern.exists_spells_identified, fun text hspells => ?_⟩
    obtain ⟨p, hparse, hpaths, hlist⟩ := Plan.run_identified h hspells
    exact ⟨p, _, _, hparse, hpaths, List.mem_map_of_mem hselected, hlist, hselected⟩

/-- In every graph of a history, take a vertex and a part of its name. The vertex is found just if the
lowered part stands in the lowered name. That is so if the capital sigmas of the part keep their form,
and so for each part without any; and it is always so but for the difference between the two small
sigmas. -/
theorem finds_part_after (changes : List Change) (hv : v ∈ (Listing.after changes).vertices)
    {left right : List Char} (hname : v.name.toList = left ++ s.toList ++ right) :
    ((after changes).FindsByName s v ↔ (lowercase s).toList <:+: (lowercase v.name).toList) ∧
      (KeepsSigmas left.reverse s.toList right → (after changes).FindsByName s v) ∧
      ('Σ' ∉ s.toList → (after changes).FindsByName s v) ∧
      mergeSigmas (lowercase s).toList <:+: mergeSigmas (lowercase v.name).toList := by
  have h := wellFormed_after changes
  rw [← listing_after changes] at hv
  have hfinds : (after changes).FindsByName s v ↔
      (lowercase s).toList <:+: (lowercase v.name).toList := h.findsByName_iff hv
  refine ⟨hfinds, fun hkeeps => ?_, fun hs => ?_, mergeSigmas_occurs hname⟩
  · exact hfinds.2 (hkeeps.lowercase_occurs hname)
  · have hkeeps : KeepsSigmas left.reverse s.toList right := keepsSigmas_of_not_mem hs
    exact hfinds.2 (hkeeps.lowercase_occurs hname)

/-- The last three letters of a name of six, which end with a final sigma in the name as well. -/
theorem finds_part_after_finalSigma :
    let changes : List Change := [.addVertex (.of "a" "ΚΟΣΜΟΣ" [])]
    let v : Vertex := .of "a" "ΚΟΣΜΟΣ" []
    v ∈ (Listing.after changes).vertices ∧
      v.name.toList = "ΚΟΣ".toList ++ "ΜΟΣ".toList ++ [] ∧
      (after changes).FindsByName "ΜΟΣ" v := by
  intro changes v
  have hv : v ∈ (Listing.after changes).vertices := by decide +kernel
  have hkeeps : KeepsSigmas "ΚΟΣ".toList.reverse "ΜΟΣ".toList [] :=
    lowercaseBetween_eq_iff.1 (by decide +kernel)
  have hname : v.name.toList = "ΚΟΣ".toList ++ "ΜΟΣ".toList ++ [] := by decide +kernel
  exact ⟨hv, hname, (finds_part_after changes hv hname).2.1 hkeeps⟩

/-- The first three letters of the name are not found: they end with a final sigma only where they stand
alone. -/
theorem not_found_of_finalSigma :
    let changes : List Change := [.addVertex (.of "a" "ΚΟΣΜΟΣ" [])]
    let v : Vertex := .of "a" "ΚΟΣΜΟΣ" []
    v ∈ (Listing.after changes).vertices ∧ "ΚΟΣ".toList <:+: v.name.toList ∧
      (after changes).selectVertices { searchTerm := some "ΚΟΣ" } = [] ∧
      ∃ p, Plan.parse "?('ΚΟΣ')" = .ok p ∧
        p.run .paths none (after changes) = (.ok (.paths []), after changes) := by
  intro changes v
  have hnone : (after changes).selectVertices { searchTerm := some "ΚΟΣ" } = [] := by
    decide +kernel
  have hspells : Pattern.Spells (.identified "ΚΟΣ") [] "?('ΚΟΣ')".toList :=
    Pattern.parseAll_parts_iff.1 (by decide +kernel)
  obtain ⟨p, hparse, hpaths, -⟩ := Plan.run_identified (wellFormed_after changes) hspells
  rw [hnone] at hpaths
  exact ⟨by decide +kernel, by decide +kernel, hnone, p, hparse, hpaths⟩

end Graph

end PatternGraph
