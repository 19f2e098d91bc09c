import PatternGraph.Form.Answer
import PatternGraph.Form.Plan
import PatternGraph.Form.Rule
import PatternGraph.Proofs.Form.Pattern

/-!
# Plans, rules and answers are read as they were written

The JSON forms of the query side are decoded to what they were written from: a plan, whose absent
aliases, names and filter are null; a rule, whose parts are given by their names; and an answer, whose
paths mix vertices and edges, each with its own fields behind the name of its sort.

`Pattern.forms_lossless` is the result for all forms, patterns included: the text of each is read back,
and a pattern that goes through its text is compiled to the plan that it had before.
-/

namespace PatternGraph

open Json (Record Decoder Document Lossless)

/-! ### Plans -/

namespace NodeTest

theorem decodes_toJson (t : NodeTest) : decoder.Decodes t.toJson t := by
  have halias := (Record.Gives.pure NodeTest.mk).given "alias" (.inObject none) (by simp)
    (Decoder.decodes_optStr t.aliasName)
  have htypes := halias.given "types" .required (by simp) t.types.decodes_toJson
  have hterm := htypes.given "search_term" (.inObject none) (by simp)
    (Decoder.decodes_optStr t.searchTerm)
  have hreturned := hterm.given "should_be_returned" .required (by simp)
    (Decoder.decodes_bool t.returned)
  exact Record.Gives.decodes hreturned

theorem numberFree_toJson (t : NodeTest) : t.toJson.NumberFree := by
  simp [toJson, TypeSet.numberFree_toJson]

end NodeTest

namespace LinkTest

theorem decodes_toJson (t : LinkTest) : decoder.Decodes t.toJson t := by
  have hdirection : Direction.decoder.Decodes t.direction.toJson t.direction :=
    Decoder.decodes_oneOf .null t.direction.lookup_name
  have halias := (Record.Gives.pure LinkTest.mk).given "alias" (.inObject none) (by simp)
    (Decoder.decodes_optStr t.aliasName)
  have htypes := halias.given "types" .required (by simp) t.types.decodes_toJson
  have hdirected := htypes.given "direction" .required (by simp) hdirection
  have hnegated := hdirected.given "is_negated" .required (by simp) (Decoder.decodes_bool t.negated)
  have hderived := hnegated.given "is_derived" .required (by simp) (Decoder.decodes_bool t.derived)
  exact Record.Gives.decodes hderived

theorem numberFree_toJson (t : LinkTest) : t.toJson.NumberFree := by
  simp [toJson, TypeSet.numberFree_toJson, Direction.toJson]

end LinkTest

namespace Step

theorem decodes_toJson (s : Step) : decoder.Decodes s.toJson s := by
  have hleft := (Record.Gives.pure Step.mk).given "left_node" .required (by simp)
    s.left.decodes_toJson
  have hlink := hleft.given "relationship" .required (by simp) s.link.decodes_toJson
  have hright := hlink.given "right_node" .required (by simp) s.right.decodes_toJson
  exact Record.Gives.decodes hright

theorem numberFree_toJson (s : Step) : s.toJson.NumberFree := by
  simp [toJson, NodeTest.numberFree_toJson, LinkTest.numberFree_toJson]

end Step

namespace Plan

theorem decodes_toJson (p : Plan) : decoder.Decodes p.toJson p := by
  have hsteps := (Record.Gives.pure Plan.mk).given "query_chain" .required (by simp)
    (Decoder.Decodes.list fun s (_ : s ∈ p.steps) => s.decodes_toJson)
  have hfilter := hsteps.given "query_filter" (.inObject none) (by simp)
    (Decoder.Decodes.orNull NodeTest.decodes_toJson (fun _ => nofun) p.filter)
  exact Record.Gives.decodes hfilter

theorem numberFree_toJson (p : Plan) : p.toJson.NumberFree := by
  have hfilter : ((p.filter.map NodeTest.toJson).getD .null).NumberFree := by
    cases p.filter with
    | none => exact .null
    | some t => exact t.numberFree_toJson
  simp [toJson, Step.numberFree_toJson, hfilter]

end Plan

/-! ### Rules -/

namespace RulePart

theorem decodes_toJson (p : RulePart) : decoder.Decodes p.toJson p :=
  Decoder.decodes_oneOf .null p.lookup_name

end RulePart

namespace Hop

theorem decodes_toJson (h : Hop) : decoder.Decodes h.toJson h := by
  have hdirection : HopDirection.decoder.Decodes h.direction.toJson h.direction :=
    Decoder.decodes_oneOf .null h.direction.lookup_name
  have hvertices := (Record.Gives.pure Hop.mk).given "element_types" .required (by simp)
    h.vertexTypes.decodes_toJson
  have hedges := hvertices.given "edge_types" .required (by simp) h.edgeTypes.decodes_toJson
  have hdirected := hedges.given "direction" .required (by simp) hdirection
  exact Record.Gives.decodes hdirected

theorem numberFree_toJson (h : Hop) : h.toJson.NumberFree := by
  simp [toJson, TypeSet.numberFree_toJson, HopDirection.toJson]

end Hop

namespace Condition

theorem decodes_toJson (c : Condition) : decoder.Decodes c.toJson c := by
  have hfirst := (Record.Gives.pure Condition.mk).given "first_part" .required (by simp)
    c.first.decodes_toJson
  have hmiddle := hfirst.given "middle_element_types" .required (by simp) c.middleTypes.decodes_toJson
  have hsecond := hmiddle.given "second_part" .required (by simp) c.second.decodes_toJson
  exact Record.Gives.decodes hsecond

theorem numberFree_toJson (c : Condition) : c.toJson.NumberFree := by
  simp [toJson, TypeSet.numberFree_toJson, Hop.numberFree_toJson]

end Condition

namespace Effect

theorem decodes_toJson (e : Effect) : decoder.Decodes e.toJson e := by
  have hsource := (Record.Gives.pure Effect.mk).given "source" .required (by simp)
    e.source.decodes_toJson
  have htarget := hsource.given "target" .required (by simp) e.target.decodes_toJson
  have htypes := htarget.given "types" .required (by simp) e.types.decodes_toJson
  exact Record.Gives.decodes htypes

theorem numberFree_toJson (e : Effect) : e.toJson.NumberFree := by
  simp [toJson, TypeSet.numberFree_toJson, RulePart.toJson]

end Effect

namespace Rule

theorem decodes_toJson (r : Rule) : decoder.Decodes r.toJson r := by
  have hlabel := (Record.Gives.pure Rule.mk).given "label" .required (by simp)
    (Decoder.decodes_string r.label)
  have hcondition := hlabel.given "conditional" .required (by simp) r.condition.decodes_toJson
  have heffect := hcondition.given "effect" .required (by simp) r.effect.decodes_toJson
  exact Record.Gives.decodes heffect

theorem numberFree_toJson (r : Rule) : r.toJson.NumberFree := by
  simp [toJson, Condition.numberFree_toJson, Effect.numberFree_toJson]

end Rule

/-! ### Answers -/

namespace PathElement

theorem decodes_toJson (e : PathElement) : decoder.Decodes e.toJson e := by
  cases e with
  | vertex v => exact Decoder.Decodes.tagged (Decoder.decodes_named rfl) (v.decodes_toJson.map vertex)
  | edge e => exact Decoder.Decodes.tagged (Decoder.decodes_named rfl) (e.decodes_toJson.map edge)

theorem numberFree_toJson (e : PathElement) : e.toJson.NumberFree := by
  -- the fields of a vertex or an edge are those of its own form
  cases e with
  | vertex v =>
    have hv := v.numberFree_toJson
    simp only [Vertex.toJson, Json.numberFree_obj_iff] at hv
    simpa [toJson] using hv
  | edge e =>
    have he := e.numberFree_toJson
    simp only [Edge.toJson, Json.numberFree_obj_iff] at he
    simpa [toJson] using he

end PathElement

namespace MatchedPath

theorem decodes_toJson (p : MatchedPath) : decoder.Decodes p.toJson p := by
  have helements := (Record.Gives.pure MatchedPath.mk).given "elements" .required (by simp)
    (Decoder.Decodes.list fun e (_ : e ∈ p.elements) => e.decodes_toJson)
  exact Record.Gives.decodes helements

theorem numberFree_toJson (p : MatchedPath) : p.toJson.NumberFree := by
  simp [toJson, PathElement.numberFree_toJson]

end MatchedPath

namespace Answer

theorem decodes_toJson (a : Answer) : decoder.Decodes a.toJson a := by
  cases a with
  | paths results =>
    refine Decoder.Decodes.tagged (Decoder.decodes_oneOf .null rfl) ?_
    have hresults := (Record.Gives.pure paths).given "results" .required (by simp)
      (Decoder.Decodes.list fun p (_ : p ∈ results) => p.decodes_toJson)
    exact Record.Gives.decodes hresults
  | scopeList results =>
    refine Decoder.Decodes.tagged (Decoder.decodes_oneOf .null rfl) ?_
    have hresults := (Record.Gives.pure scopeList).given "results" .required (by simp)
      (Decoder.Decodes.list fun v (_ : v ∈ results) => v.decodes_toJson)
    exact Record.Gives.decodes hresults

theorem numberFree_toJson (a : Answer) : a.toJson.NumberFree := by
  cases a <;> simp [toJson, MatchedPath.numberFree_toJson, Vertex.numberFree_toJson]

end Answer

/-! ### All forms -/

namespace Pattern

theorem lossless_toJson (p : Pattern) : Lossless decoder p.toJson p :=
  p.decodes_toJson.lossless p.numberFree_toJson

/-- Every pattern, plan, rule and answer is read back from the text of its form. So a pattern that a
text denotes has the same plan when it is read back from its form. -/
theorem forms_lossless :
    (∀ p : Pattern, Lossless decoder p.toJson p) ∧
      (∀ p : Plan, Lossless Plan.decoder p.toJson p) ∧
      (∀ r : Rule, Lossless Rule.decoder r.toJson r) ∧
      (∀ a : Answer, Lossless Answer.decoder a.toJson a) ∧
      ∀ text p, parse text = .ok p → ∃ written,
        (Document.read p.toJson.compact).decode decoder = .ok written ∧
        (Document.read p.toJson.pretty).decode decoder = .ok written ∧
        Plan.parse text = .ok written.plan := by
  refine ⟨lossless_toJson, fun p => p.decodes_toJson.lossless p.numberFree_toJson,
    fun r => r.decodes_toJson.lossless r.numberFree_toJson,
    fun a => a.decodes_toJson.lossless a.numberFree_toJson, fun text p hparse => ?_⟩
  have hp := p.lossless_toJson
  refine ⟨p, hp.compact, hp.pretty, ?_⟩
  rw [Plan.parse, hparse]
  rfl

/-- A name that needs an escape in JSON, and a relationship whose types are excluded. -/
def escapedName : Pattern where
  chain :=
    [.node ⟨"n0", .described "Ann \"A\"" ["person"]⟩,
      .link ⟨⟨.typed ["knows", "likes"] true, ⟨.path, .left⟩, ⟨.path, .absent⟩⟩, "r0"⟩,
      .node ⟨"n1", .anonymous⟩]
  searchTerms := .ofList [("n0", "ann \"a\"")]

/-- A pattern with a quoted name has the same plan when it is read back from its form. -/
theorem forms_lossless_escapedName :
    parse "?('Ann \"A\"' person)<=[!knows, likes]=()" = .ok escapedName ∧ ∃ written,
      (Document.read escapedName.toJson.compact).decode decoder = .ok written ∧
      (Document.read escapedName.toJson.pretty).decode decoder = .ok written ∧
      Plan.parse "?('Ann \"A\"' person)<=[!knows, likes]=()" = .ok written.plan := by
  have hparse : parse "?('Ann \"A\"' person)<=[!knows, likes]=()" = .ok escapedName := by
    decide +kernel
  exact ⟨hparse, forms_lossless.2.2.2.2 _ _ hparse⟩

end Pattern

end PatternGraph
