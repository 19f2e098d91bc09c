import PatternGraph.Form.Pattern
import PatternGraph.Proofs.Form.Graph
import PatternGraph.Proofs.Json.Choices
import PatternGraph.Proofs.Pattern.Decoding

/-!
# Patterns are read as they were written

The JSON form of a pattern is decoded to the same pattern, whatever its chain holds: nodes and
relationships need not take turns. A member of the chain names its sort, and what it asks for names
its kind, one inside the other; the two names stand in different fields and so do not meet.
-/

namespace PatternGraph

open Json (Record Decoder)

namespace Connector

theorem decodes_innerDecoder (c : Connector) : innerDecoder.Decodes c.toJson c :=
  Decoder.decodes_oneOf .nothing c.lookup_name

end Connector

namespace NodeKind

theorem decodes_toJson (k : NodeKind) : decoder.Decodes k.toJson k := by
  cases k with
  | typed types =>
    refine Decoder.Decodes.tagged (Decoder.decodes_numbered rfl) ?_
    have htypes := (Record.Gives.pure typed).given "types" .required (by simp)
      (Decoder.decodes_strings types)
    exact Record.Gives.decodes htypes
  | described name types =>
    refine Decoder.Decodes.tagged (Decoder.decodes_numbered rfl) ?_
    have hname := (Record.Gives.pure described).given "name" .required (by simp)
      (Decoder.decodes_string name)
    have htypes := hname.given "types" .required (by simp) (Decoder.decodes_strings types)
    exact Record.Gives.decodes htypes
  | identified name =>
    refine Decoder.Decodes.tagged (Decoder.decodes_numbered rfl) ?_
    have hname := (Record.Gives.pure identified).given "name" .required (by simp)
      (Decoder.decodes_string name)
    exact Record.Gives.decodes hname
  | group => exact Decoder.Decodes.tagged (Decoder.decodes_numbered rfl) (Decoder.decodes_bare group)
  | anonymous =>
    exact Decoder.Decodes.tagged (Decoder.decodes_numbered rfl) (Decoder.decodes_bare anonymous)

theorem numberFree_toJson (k : NodeKind) : k.toJson.NumberFree := by
  cases k <;> simp [toJson, Json.numberFree_strings]

end NodeKind

namespace LinkKind

theorem decodes_toJson (k : LinkKind) : decoder.Decodes k.toJson k := by
  cases k with
  | short => exact Decoder.Decodes.tagged (Decoder.decodes_numbered rfl) (Decoder.decodes_bare short)
  | typed types negated =>
    refine Decoder.Decodes.tagged (Decoder.decodes_numbered rfl) ?_
    have htypes := (Record.Gives.pure typed).given "types" .required (by simp)
      (Decoder.decodes_strings types)
    have hnegated := htypes.given "negated" .required (by simp) (Decoder.decodes_bool negated)
    exact Record.Gives.decodes hnegated

theorem numberFree_toJson (k : LinkKind) : k.toJson.NumberFree := by
  cases k <;> simp [toJson, Json.numberFree_strings]

end LinkKind

namespace PatternNode

theorem decodes_fields (n : PatternNode) : decoder.Decodes (.obj n.fields) n := by
  have halias := (Record.Gives.pure PatternNode.mk).given "alias" .required (by simp)
    (Decoder.decodes_string n.aliasName)
  have hkind := halias.given "kind" .required (by simp) n.kind.decodes_toJson
  exact Record.Gives.decodes hkind

end PatternNode

namespace PatternLink

theorem decodes_fields (l : PatternLink) : decoder.Decodes (.obj l.fields) l := by
  have halias := (Record.Gives.pure PatternLink.of).given "alias" .required (by simp)
    (Decoder.decodes_string l.aliasName)
  have hkind := halias.given "kind" .required (by simp) l.kind.decodes_toJson
  have hsource := hkind.given "source" .required (by simp) l.source.decodes_innerDecoder
  have htarget := hsource.given "target" .required (by simp) l.target.decodes_innerDecoder
  exact Record.Gives.decodes htarget

end PatternLink

namespace PatternElement

theorem decodes_toJson (e : PatternElement) : decoder.Decodes e.toJson e := by
  cases e with
  | node n => exact Decoder.Decodes.tagged (Decoder.decodes_named rfl) (n.decodes_fields.map node)
  | link l => exact Decoder.Decodes.tagged (Decoder.decodes_named rfl) (l.decodes_fields.map link)

theorem numberFree_toJson (e : PatternElement) : e.toJson.NumberFree := by
  cases e with
  | node n => simp [toJson, PatternNode.fields, NodeKind.numberFree_toJson]
  | link l => simp [toJson, PatternLink.fields, LinkKind.numberFree_toJson, Connector.toJson]

end PatternElement

namespace AliasTable

/-- A table is the table of its own entries. -/
theorem ofList_entries (t : AliasTable) : ofList t.entries = t := by
  refine ext_get? fun key => Option.ext fun text => ?_
  rw [get?_ofList t.nodup_keys, get?, lookup_eq_some_of_nodup t.nodup_keys]

theorem decodes_toJson (t : AliasTable) : decoder.Decodes t.toJson t := by
  have h := (Decoder.decodes_table t.entries).map ofList
  rw [ofList_entries] at h
  exact h

theorem numberFree_toJson (t : AliasTable) : t.toJson.NumberFree := by
  refine .obj fun f hf => ?_
  obtain ⟨entry, -, rfl⟩ := List.mem_map.1 hf
  exact .str entry.2

end AliasTable

namespace Pattern

theorem decodes_toJson (p : Pattern) : decoder.Decodes p.toJson p := by
  have hchain := (Record.Gives.pure Pattern.mk).given "chain" .required (by simp)
    (Decoder.Decodes.list fun e (_ : e ∈ p.chain) => e.decodes_toJson)
  have hterms := hchain.given "identifiers" .required (by simp) p.searchTerms.decodes_toJson
  exact Record.Gives.decodes hterms

theorem numberFree_toJson (p : Pattern) : p.toJson.NumberFree := by
  simp [toJson, PatternElement.numberFree_toJson, AliasTable.numberFree_toJson]

end Pattern

end PatternGraph
