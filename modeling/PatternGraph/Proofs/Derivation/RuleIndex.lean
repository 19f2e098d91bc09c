import PatternGraph.Derivation.Basic
import PatternGraph.Proofs.Derivation.FixedPoint

/-!
# The rules that look for a type

For an edge type a derivation tells the places of the rules that look for it. A hop of a rule finds an
edge if one of the types that the hop names, trimmed and lowered, is a type of the edge. The index reads
the names of a rule as they stand and lowers only the type that is asked for.

`Derivation.Indexes` says what comes of this. Every rule that is told looks for the type. All rules that
do are told, whatever type is asked for, just if no name of a rule is read otherwise than a name that
the rule has: then the index and the hops agree. So it is with rules that were read from text. A rule
that is given with the type `Hosts` finds edges of the type `hosts`, but is not told for it.
-/

namespace PatternGraph

namespace Rule

variable {r : Rule} {edgeType : String}

/-- A hop of the rule names the edge type, when both are read as the filter of the hop reads names. -/
def LooksFor (r : Rule) (edgeType : String) : Prop :=
  ∃ hop ∈ [r.condition.first, r.condition.second], ∃ name ∈ hop.edgeTypes,
    TypeSet.normalizeName name = TypeSet.normalizeName edgeType

/-- With each edge type the rule names the form in which it is read. -/
def NamesAsRead (r : Rule) : Prop := ∀ name ∈ r.edgeTypes, TypeSet.normalizeName name ∈ r.edgeTypes

theorem mem_edgeTypes {name : String} :
    name ∈ r.edgeTypes ↔ ∃ hop ∈ [r.condition.first, r.condition.second], name ∈ hop.edgeTypes := by
  simp [edgeTypes]

theorem looksFor_iff : r.LooksFor edgeType ↔
    ∃ name ∈ r.edgeTypes, TypeSet.normalizeName name = TypeSet.normalizeName edgeType := by
  simp only [LooksFor, mem_edgeTypes]
  constructor
  · rintro ⟨hop, hhop, name, hname, heq⟩
    exact ⟨name, ⟨hop, hhop, hname⟩, heq⟩
  · rintro ⟨name, ⟨hop, hhop, hname⟩, heq⟩
    exact ⟨hop, hhop, name, hname, heq⟩

/-- A rule looks for a type, unless it is blank, just if the filter of a hop asks for it. -/
theorem looksFor_iff_asked (h : TypeSet.normalizeName edgeType ≠ "") :
    r.LooksFor edgeType ↔ ∃ hop ∈ [r.condition.first, r.condition.second],
      TypeSet.normalizeName edgeType ∈ askedNames hop.edgeFilter.types := by
  refine exists_congr fun hop => and_congr_right fun _ => ?_
  rw [Hop.edgeFilter, askedNames_of_isEmpty, askedNames, TypeSet.mem_normalizeNames, and_iff_right h]
  rfl

theorem Written.namesAsRead (h : r.Written) : r.NamesAsRead := by
  intro name hname
  have hwritten : Text.Written name := (TypeSet.mem_union.1 hname).elim (h.firstEdge name)
    (h.secondEdge name)
  rwa [hwritten.normalizeName_eq]

end Rule

namespace Derivation

variable {d : Derivation} {rules : List Rule}

/-- The rules that are told for an edge type are those that name it in lower case as it stands. -/
theorem mem_rulesFor {edgeType : String} {i : Nat} :
    i ∈ d.rulesFor edgeType ↔ ∃ r ∈ d.rules[i]?, Text.lowercase edgeType ∈ r.edgeTypes := by
  simp only [rulesFor, List.mem_map, List.mem_filter, Prod.exists, List.mem_zipIdx_iff_getElem?,
    decide_eq_true_eq, Option.mem_def]
  constructor
  · rintro ⟨r, _, ⟨hr, hname⟩, rfl⟩
    exact ⟨r, hr, hname⟩
  · rintro ⟨r, hr, hname⟩
    exact ⟨r, i, ⟨hr, hname⟩, rfl⟩

theorem pairwise_rulesFor (d : Derivation) (edgeType : String) :
    (d.rulesFor edgeType).Pairwise (· < ·) := by
  have hplaces : (d.rules.zipIdx.map Prod.snd).Pairwise (· < ·) := by
    rw [List.zipIdx_map_snd]
    exact List.pairwise_lt_range'
  exact hplaces.sublist (List.filter_sublist.map Prod.snd)

/-- What a derivation tells about the rules that look for a type. -/
structure Indexes (d : Derivation) (rules : List Rule) : Prop where
  /-- The places are told in ascending order, each once. -/
  ascending : ∀ edgeType, (d.rulesFor edgeType).Pairwise (· < ·)
  /-- They are those of the rules that name the type in lower case as it stands. -/
  mem_iff : ∀ edgeType i,
    i ∈ d.rulesFor edgeType ↔ ∃ r ∈ rules[i]?, Text.lowercase edgeType ∈ r.edgeTypes
  /-- A rule that is told looks for the type, if this has no white space around it. -/
  sound : ∀ edgeType, Text.trim edgeType = edgeType →
    ∀ i ∈ d.rulesFor edgeType, ∃ r ∈ rules[i]?, r.LooksFor edgeType
  /-- The rules that are told are for all types those that look for them just if each rule names its
  types as they are read, too. -/
  agrees_iff : (∀ edgeType, Text.trim edgeType = edgeType →
      ∀ i, i ∈ d.rulesFor edgeType ↔ ∃ r ∈ rules[i]?, r.LooksFor edgeType) ↔
    ∀ r ∈ rules, r.NamesAsRead
  /-- For rules that were read from text it is so. -/
  agrees_of_text : (∀ r ∈ rules, r.FromText) → ∀ edgeType, Text.trim edgeType = edgeType →
    ∀ i, i ∈ d.rulesFor edgeType ↔ ∃ r ∈ rules[i]?, r.LooksFor edgeType
  /-- To look for a type that is not blank is to ask for it with the filter of a hop. -/
  asked : ∀ r ∈ rules, ∀ edgeType, TypeSet.normalizeName edgeType ≠ "" →
    (r.LooksFor edgeType ↔ ∃ hop ∈ [r.condition.first, r.condition.second],
      TypeSet.normalizeName edgeType ∈ askedNames hop.edgeFilter.types)

theorem looksFor_of_mem_rulesFor {edgeType : String} (ht : Text.trim edgeType = edgeType) {i : Nat}
    (hi : i ∈ d.rulesFor edgeType) : ∃ r ∈ d.rules[i]?, r.LooksFor edgeType := by
  obtain ⟨r, hr, hname⟩ := mem_rulesFor.1 hi
  have hread : TypeSet.normalizeName edgeType = Text.lowercase edgeType := by
    rw [TypeSet.normalizeName, ht]
  refine ⟨r, hr, Rule.looksFor_iff.2 ⟨_, hname, ?_⟩⟩
  rw [← hread, TypeSet.normalizeName_normalizeName]

theorem rulesFor_agrees_iff : (∀ edgeType, Text.trim edgeType = edgeType →
      ∀ i, i ∈ d.rulesFor edgeType ↔ ∃ r ∈ d.rules[i]?, r.LooksFor edgeType) ↔
    ∀ r ∈ d.rules, r.NamesAsRead := by
  constructor
  · intro hagrees r hr name hname
    obtain ⟨i, hi⟩ := List.mem_iff_getElem?.1 hr
    -- the type to ask for is the name without the white space around it
    have htrim : Text.trim (Text.trim name) = Text.trim name := by
      refine Text.trim_of_trimmed ?_
      rw [Text.trim, String.toList_ofList]
      exact Text.trimmed_trimChars name.toList
    have hlooks : r.LooksFor (Text.trim name) :=
      Rule.looksFor_iff.2 ⟨name, hname, by rw [TypeSet.normalizeName, TypeSet.normalizeName, htrim]⟩
    obtain ⟨r', hr', hmem⟩ := mem_rulesFor.1 ((hagrees _ htrim i).2 ⟨r, hi, hlooks⟩)
    obtain rfl := Option.some.inj (hi.symm.trans hr')
    exact hmem
  · intro hnames edgeType ht i
    refine ⟨looksFor_of_mem_rulesFor ht, ?_⟩
    rintro ⟨r, hr, hlooks⟩
    obtain ⟨name, hname, heq⟩ := Rule.looksFor_iff.1 hlooks
    have hmem := hnames r (List.mem_of_getElem? hr) name hname
    rw [heq, TypeSet.normalizeName, ht] at hmem
    exact mem_rulesFor.2 ⟨r, hr, hmem⟩

/-- For any rules, and whatever builder is given with them: the rules that are told for a type look for
it, and they are all that do if each rule names its types as they are read. -/
theorem indexes_of {build : Option EdgeBuilder} (h : Derivation.of rules build = .ok d) :
    d.Indexes rules := by
  obtain rfl : d.rules = rules := by
    unfold Derivation.of at h
    split at h
    · exact (Except.ok.inj h) ▸ rfl
    · split at h
      · exact (Except.ok.inj h) ▸ rfl
      · exact absurd h nofun
  exact
    { ascending := d.pairwise_rulesFor
      mem_iff := fun _ _ => mem_rulesFor
      sound := fun _ ht _ hi => looksFor_of_mem_rulesFor ht hi
      agrees_iff := rulesFor_agrees_iff
      agrees_of_text := fun htext => rulesFor_agrees_iff.2 fun r hr => (htext r hr).written.namesAsRead
      asked := fun _ _ _ hne => Rule.looksFor_iff_asked hne }

/-- Three rules, of which two share a type and the last names one in capitals. -/
theorem indexes_of_threeRules :
    let rule : List String → List String → Rule := fun types types' =>
      ⟨"rule", ⟨⟨∅, .ofList types, .forward⟩, ∅, ⟨∅, .ofList types', .backward⟩⟩,
        ⟨.first, .last, .ofList ["reaches"]⟩⟩
    let rules := [rule ["a"] ["b"], rule ["b"] ["c"], rule ["C"] []]
    Derivation.of rules none = .ok ⟨rules, .standard⟩ ∧ Indexes ⟨rules, .standard⟩ rules := by
  intro rule rules
  have h : Derivation.of rules none = .ok ⟨rules, .standard⟩ := rfl
  exact ⟨h, indexes_of h⟩

/-- A rule that names a type in capitals looks for the type, and is not told for it. -/
theorem not_mem_rulesFor_of_capitals :
    ∃ (r : Rule) (d : Derivation), Derivation.of [r] none = .ok d ∧ Text.trim "hosts" = "hosts" ∧
      r.LooksFor "hosts" ∧ "hosts" ∈ askedNames r.condition.first.edgeFilter.types ∧
        d.rulesFor "hosts" = [] := by
  refine ⟨⟨"rule", ⟨⟨∅, .ofList ["Hosts"], .forward⟩, ∅, ⟨∅, .ofList ["runs"], .forward⟩⟩,
    ⟨.first, .last, .ofList ["reaches"]⟩⟩, _, rfl, by decide +kernel, ?_, by decide +kernel,
    by decide +kernel⟩
  exact Rule.looksFor_iff.2 ⟨"Hosts", by decide +kernel, by decide +kernel⟩

end Derivation

end PatternGraph
