import PatternGraph.Proofs.Rule.Grammar
import PatternGraph.Proofs.Text.TypeNames

/-!
# The type names of a parsed rule

All type names of a rule that was read from text are written names. So the store reads them as they
stand: asking for the types of a rule asks for exactly these names, and the edge that a rule derives
has exactly the types that the rule names.
-/

namespace PatternGraph

/-- A set of written names. -/
def TypeSet.Written (ts : TypeSet) : Prop := ∀ name ∈ ts, Text.Written name

theorem TypeSet.written_ofList {names : List String} (h : ∀ name ∈ names, Text.Written name) :
    (TypeSet.ofList names).Written :=
  fun name hname => h name (TypeSet.mem_ofList.1 hname)

/-- The store keeps a set of written names as it is. -/
theorem TypeSet.Written.normalized_eq {ts : TypeSet} (h : ts.Written) :
    TypeSet.normalized ts.names = ts :=
  TypeSet.normalized_of_kept fun name hname =>
    ⟨(h name hname).normalizeName_eq, (h name hname).ne_empty⟩

theorem TypeSet.Written.normalizeNames_eq {ts : TypeSet} (h : ts.Written) :
    TypeSet.normalizeNames ts.names = ts.names :=
  TypeSet.normalizeNames_of_kept fun name hname =>
    ⟨(h name hname).normalizeName_eq, (h name hname).ne_empty⟩

/-- All sets of type names of a rule are written. -/
structure Rule.Written (r : Rule) : Prop where
  firstVertex : r.condition.first.vertexTypes.Written
  firstEdge : r.condition.first.edgeTypes.Written
  middle : r.condition.middleTypes.Written
  secondEdge : r.condition.second.edgeTypes.Written
  secondVertex : r.condition.second.vertexTypes.Written
  effect : r.effect.types.Written

open Text

/-- The names of a group of a condition are written. -/
def RuleGroup.Written : RuleGroup → Prop
  | vertex types => ∀ name ∈ types, Text.Written name
  | edge _ types _ => ∀ name ∈ types, Text.Written name

theorem HopDirection.written_group {types : List String} (d : HopDirection) :
    (d.group types).Written ↔ ∀ name ∈ types, Text.Written name := by
  cases d <;> exact Iff.rfl

theorem written_getD {types : Option (List String)}
    (h : ∀ names ∈ types, ∀ name ∈ names, Text.Written name) :
    ∀ name ∈ types.getD [], Text.Written name := by
  cases types with
  | none => exact nofun
  | some names => exact h names rfl

theorem RuleGroup.gives_vertexParser : RuleGroup.vertexParser.Gives RuleGroup.Written :=
  .after fun _ => .bind (.optional (.spaced gives_typeNames)) fun _ htypes =>
    .after fun _ => .pure (written_getD htypes)

theorem RuleGroup.gives_edgeParser : RuleGroup.edgeParser.Gives RuleGroup.Written :=
  .after fun _ => .after fun _ => .after fun _ =>
    .bind (.optional (.spaced gives_typeNames)) fun _ htypes =>
      .after fun _ => .after fun _ => .after fun _ => .pure (written_getD htypes)

theorem RuleGroup.gives_groups :
    RuleGroup.groups.Gives fun groups => ∀ group ∈ groups, group.Written :=
  .many (.orElse RuleGroup.gives_vertexParser RuleGroup.gives_edgeParser)

/-- What is known of the condition that groups of written names give. -/
theorem Condition.Groups.written {groups : List RuleGroup} {c : Condition} (h : Groups groups c)
    (hgroups : ∀ group ∈ groups, group.Written) :
    (c.first.vertexTypes.Written ∧ c.first.edgeTypes.Written) ∧ c.middleTypes.Written ∧
      c.second.edgeTypes.Written ∧ c.second.vertexTypes.Written := by
  obtain ⟨first, middle, last, edges, edges', direction, direction'⟩ := h
  simp only [List.forall_mem_cons] at hgroups
  obtain ⟨hfirst, hedge, hmiddle, hedge', hlast, -⟩ := hgroups
  exact ⟨⟨TypeSet.written_ofList hfirst, TypeSet.written_ofList (direction.written_group.1 hedge)⟩,
    TypeSet.written_ofList hmiddle, TypeSet.written_ofList (direction'.written_group.1 hedge'),
    TypeSet.written_ofList hlast⟩

theorem Effect.gives_parts : Effect.parts.Gives fun e => e.types.Written :=
  .after fun _ => .after fun _ => .bind (.spaced gives_typeNames) fun _ htypes =>
    .after fun _ => .after fun _ => .pure (TypeSet.written_ofList htypes)

theorem Effect.written_of_parse {text : String} {e : Effect} (h : Effect.parse text = .ok e) :
    e.types.Written :=
  Effect.gives_parts.parseAll (Effect.parseAll_parts_of_parse h).1

/-- The names of a rule that was read from text are written. -/
theorem Rule.written_of_parse {condition effect : String} {r : Rule}
    (h : Rule.parse condition effect = .ok r) : r.Written := by
  simp only [Rule.parse, bind, Except.bind] at h
  split at h
  · exact absurd h nofun
  · next c hc =>
    split at h
    · exact absurd h nofun
    · next e he =>
      obtain rfl := Except.ok.inj h
      obtain ⟨groups, hparse, hgroups⟩ := Condition.exists_groups_of_parse hc
      obtain ⟨⟨hfirst, hedge⟩, hmiddle, hedge', hlast⟩ :=
        (Condition.groups_of_ofGroups hgroups).written (RuleGroup.gives_groups.parseAll hparse)
      exact ⟨hfirst, hedge, hmiddle, hedge', hlast, Effect.written_of_parse he⟩

end PatternGraph
