import PatternGraph.Form.Graph
import PatternGraph.Proofs.Json.Records
import PatternGraph.Proofs.Json.Written
import PatternGraph.Proofs.TypeSet

/-!
# Vertices and edges are read as they were written

The JSON form of a vertex or of an edge is decoded to the same vertex or edge. An edge is written
without what it has nothing of, and a field that is left out is read as nothing. The forms hold no
numbers.
-/

namespace PatternGraph

open Json (Record Decoder NumberFree)

theorem Json.numberFree_strings (texts : List String) : (Json.strings texts).NumberFree := by
  refine .arr fun j hj => ?_
  obtain ⟨s, -, rfl⟩ := List.mem_map.1 hj
  exact .str s

namespace TypeSet

theorem decodes_toJson (types : TypeSet) : decoder.Decodes types.toJson types := by
  have h := (Decoder.decodes_strings types.names).map ofList
  rw [ofList_names] at h
  exact h

theorem numberFree_toJson (types : TypeSet) : types.toJson.NumberFree := Json.numberFree_strings _

end TypeSet

namespace Vertex

theorem decodes_toJson (v : Vertex) : decoder.Decodes v.toJson v := by
  have hid := (Record.Gives.pure Vertex.mk).given "id" .required (by simp)
    (Decoder.decodes_string v.id)
  have hname := hid.given "name" .required (by simp) (Decoder.decodes_string v.name)
  have htypes := hname.given "types" (.anywhere ∅) (by simp) v.types.decodes_toJson
  exact Record.Gives.decodes htypes

theorem numberFree_toJson (v : Vertex) : v.toJson.NumberFree := by
  refine .obj fun f hf => ?_
  simp only [fields, List.mem_cons, List.not_mem_nil, or_false] at hf
  rcases hf with rfl | rfl | rfl
  · exact .str v.id
  · exact .str v.name
  · exact v.types.numberFree_toJson

end Vertex

namespace Edge

theorem fields_eq (e : Edge) : e.fields =
    [("id", .str e.id), ("source_id", .str e.source), ("target_id", .str e.target),
        ("types", e.types.toJson)] ++
      (if e.derivation.isEmpty then [] else [("derivation_path", .strings e.derivation)]) ++
      e.externalId.elim [] fun id => [("external_id", .str id)] := by
  unfold fields
  cases e.externalId <;> rfl

theorem decodes_toJson (e : Edge) : decoder.Decodes e.toJson e := by
  have hid := (Record.Gives.pure Edge.mk).given "id" (.anywhere "") (by simp)
    (Decoder.decodes_string e.id)
  have hsource := hid.given "source_id" .required (by simp) (Decoder.decodes_string e.source)
  have htarget := hsource.given "target_id" .required (by simp) (Decoder.decodes_string e.target)
  have htypes := htarget.given "types" (.anywhere ∅) (by simp) e.types.decodes_toJson
  have hderivation := htypes.givenUnless "derivation_path" (.anywhere []) (by simp)
    (fun he : e.derivation.isEmpty = true => by rw [List.isEmpty_iff.1 he]; rfl)
    fun _ => Decoder.decodes_strings e.derivation
  have hexternal := hderivation.givenIfSome "external_id" (.anywhere none) (by simp) rfl
    (fun id => (Decoder.decodes_string id).option nofun) e.externalId
  rw [toJson, fields_eq]
  exact hexternal.decodes

theorem numberFree_toJson (e : Edge) : e.toJson.NumberFree := by
  refine .obj fun f hf => ?_
  simp only [fields_eq, List.mem_append, List.mem_cons, List.not_mem_nil, or_false] at hf
  rcases hf with ((rfl | rfl | rfl | rfl) | hderivation) | hexternal
  · exact .str e.id
  · exact .str e.source
  · exact .str e.target
  · exact e.types.numberFree_toJson
  · split at hderivation
    · exact absurd hderivation List.not_mem_nil
    · rw [List.mem_singleton.1 hderivation]
      exact Json.numberFree_strings _
  · cases hid : e.externalId with
    | none => simp [hid] at hexternal
    | some id =>
      rw [hid] at hexternal
      rw [List.mem_singleton.1 hexternal]
      exact .str id

end Edge

end PatternGraph
