import Mathlib.Data.Finset.Prod
import PatternGraph.Proofs.Derivation.Budget

/-!
# How many edges can be derived

A derivation adds no vertex, and an edge only between two different vertices and with the types that one
of the rules gives. Two edges of one source, one target and one set of types have one id, and of one id
only one edge is stored. So there is an end to it, however cyclic the graph is and however the rules feed
each other: `Rule.derivableKeys` are all keys that can ever be added, and they are counted in
`Graph.WellFormed.length_le_of_mayDerive`.

Each pass but the last adds an edge. If more passes are allowed than edges can be added, the last of them
is idle, and for each match an edge of the same id is stored.
-/

namespace PatternGraph

namespace Rule

/-- The sets of types that some rules give to the edges they derive. -/
def effectTypes (rules : List Rule) : Finset TypeSet :=
  (rules.map fun r => TypeSet.normalized r.effect.types.names).toFinset

/-- The keys of the edges that rules may derive between some vertices. -/
def derivableKeys (rules : List Rule) (ids : Finset String) : Finset EdgeKey :=
  (ids.offDiag ×ˢ effectTypes rules).image fun p => ⟨p.1.1, p.2, p.1.2⟩

theorem MayDerive.key_mem_derivableKeys {rules : List Rule} {e : Edge} (h : MayDerive rules e)
    {ids : Finset String} (hsource : e.source ∈ ids) (htarget : e.target ∈ ids) :
    e.key ∈ derivableKeys rules ids := by
  obtain ⟨r, hr, htypes⟩ := h.types
  have hends : (e.source, e.target) ∈ ids.offDiag := Finset.mem_offDiag.2 ⟨hsource, htarget, h.differ⟩
  have hgiven : e.types ∈ effectTypes rules :=
    List.mem_toFinset.2 (List.mem_map.2 ⟨r, hr, htypes.symm⟩)
  exact Finset.mem_image.2 ⟨((e.source, e.target), e.types), Finset.mk_mem_product hends hgiven, rfl⟩

theorem card_derivableKeys_le (rules : List Rule) (ids : Finset String) :
    (derivableKeys rules ids).card ≤ ids.card * (ids.card - 1) * (effectTypes rules).card := by
  refine Finset.card_image_le.trans ?_
  rw [Finset.card_product, Finset.offDiag_card, Nat.mul_sub_one]

end Rule

namespace Graph.WellFormed

variable {g : Graph}

/-- No two of the stored edges have one key. -/
theorem nodup_keys (h : g.WellFormed) : (g.allEdges.map Edge.key).Nodup := by
  have hids : g.allEdges.map Edge.id = (g.allEdges.map Edge.key).map EdgeKey.text := by
    rw [List.map_map]
    exact List.map_congr_left fun e he => Edge.id_eq_text_of_normalize_eq (h.normalize_of_mem he)
  have hnodup := h.nodup_ids
  rw [hids] at hnodup
  exact hnodup.of_map

/-- Of the stored edges, only so many can have come from the rules. -/
theorem length_le_of_mayDerive (h : g.WellFormed) {rules : List Rule} {old new : List Edge}
    (hedges : g.allEdges = old ++ new) (hmay : ∀ e ∈ new, Rule.MayDerive rules e) :
    new.length ≤ g.vertexCount * (g.vertexCount - 1) * (Rule.effectTypes rules).card := by
  let ids := g.listing.vertexIds.toFinset
  have hcard : ids.card = g.vertexCount := by
    rw [List.toFinset_card_of_nodup h.distinct_listing.vertexIds, Listing.vertexIds, List.length_map]
    exact h.shows_listing.vertexCount.symm
  have hnodup : (new.map Edge.key).Nodup := by
    have hall := h.nodup_keys
    rw [hedges, List.map_append] at hall
    exact (List.nodup_append.1 hall).2.1
  have hmem : (new.map Edge.key).toFinset ⊆ Rule.derivableKeys rules ids := by
    intro k hk
    obtain ⟨e, he, rfl⟩ := List.mem_map.1 (List.mem_toFinset.1 hk)
    have hstored : e ∈ g.allEdges := by
      rw [hedges]
      exact List.mem_append_right old he
    obtain ⟨v, w, hv, hw⟩ := h.exists_ends hstored
    obtain ⟨source, hsource, -⟩ := vertex?_eq_some.1 hv
    obtain ⟨target, htarget, -⟩ := vertex?_eq_some.1 hw
    exact (hmay e he).key_mem_derivableKeys (List.mem_toFinset.2 (h.mem_vertexIds.2 ⟨source, hsource⟩))
      (List.mem_toFinset.2 (h.mem_vertexIds.2 ⟨target, htarget⟩))
  calc new.length = (new.map Edge.key).toFinset.card := by
        rw [List.toFinset_card_of_nodup hnodup, List.length_map]
    _ ≤ (Rule.derivableKeys rules ids).card := Finset.card_le_card hmem
    _ ≤ ids.card * (ids.card - 1) * (Rule.effectTypes rules).card := Rule.card_derivableKeys_le rules ids
    _ = g.vertexCount * (g.vertexCount - 1) * (Rule.effectTypes rules).card := by rw [hcard]

end Graph.WellFormed

namespace Derivation

variable {g : Graph} {rules : List Rule} {maxPasses : Nat}

/-- No derivation adds more edges than there are keys to derive. -/
theorem added_le (h : g.WellFormed) (rules : List Rule) (maxPasses : Nat) :
    ((standard rules).derive maxPasses g).1.added ≤
      g.vertexCount * (g.vertexCount - 1) * (Rule.effectTypes rules).card := by
  have hcontinues := @DerivationRun.continues_passes { store := g } h rules maxPasses
  obtain ⟨new, hnew, hcount, hmay⟩ := hcontinues.edges
  have hlength := hcontinues.wellFormed.length_le_of_mayDerive hnew hmay
  have hvertices : (DerivationRun.passes .standard rules maxPasses { store := g }).2.store.vertexCount =
      g.vertexCount := congrArg VertexTable.size hcontinues.vertices
  rw [hvertices] at hlength
  exact (hcount.trans (Nat.zero_add _)).trans_le hlength

/-- After an idle last pass, an edge of the same id is stored for each match of a rule. -/
theorem mem_ids_of_idle (h : g.WellFormed)
    (hidle : ((standard rules).gains maxPasses g).getLast? = some 0) :
    ∀ r ∈ rules, ∀ m ∈ r.matchesIn ((standard rules).derive maxPasses g).2.2,
      (DerivationRun.edgeOf r m).id ∈
        ((standard rules).derive maxPasses g).2.2.allEdges.map Edge.id := by
  obtain ⟨before, hbefore, hlast, hsame⟩ :=
    DerivationRun.exists_idle_pass (P := fun run : DerivationRun Graph => run.store.WellFormed)
      (fun _ hrun => (DerivationRun.continues_pass hrun rules).wellFormed) h hidle
  have hrun := hlast.trans ((DerivationRun.continues_pass hbefore rules).idle hsame)
  have hstore : ((standard rules).derive maxPasses g).2.2 = before.store :=
    congrArg DerivationRun.store hrun
  rw [hstore]
  intro r hr m hm
  exact hbefore.mem_edgeIds.2 (DerivationRun.exists_slot_of_idle_pass hbefore hsame r hr m hm)

/-- In every graph of a history, for any rules and any number of passes allowed: no more passes are run
than are allowed, each but the last adds an edge, and no more edges are added than there are pairs of
different vertices, once for each set of types that a rule gives. So if more passes are allowed than that,
the last one adds nothing, and the edge of each match of a rule is stored already. -/
theorem reaches_fixedPoint_after (changes : List Change) (rules : List Rule) (maxPasses : Nat) :
    let before := Graph.after changes
    let report := ((standard rules).derive maxPasses before).1
    let after := ((standard rules).derive maxPasses before).2.2
    let bound := before.vertexCount * (before.vertexCount - 1) * (Rule.effectTypes rules).card
    report.passes ≤ maxPasses ∧ report.passes ≤ report.added + 1 ∧ report.added ≤ bound ∧
      (bound < maxPasses → ((standard rules).gains maxPasses before).getLast? = some 0 ∧
        ∀ r ∈ rules, ∀ m ∈ r.matchesIn after,
          (DerivationRun.edgeOf r m).id ∈ after.allEdges.map Edge.id) := by
  intro before report after bound
  have h : before.WellFormed := Graph.wellFormed_after changes
  have hadded : report.added ≤ bound := added_le h rules maxPasses
  have hpasses : report.passes + 0 ≤ report.added + 1 :=
    DerivationRun.passes_le_added rules maxPasses { store := before }
  refine ⟨DerivationRun.passes_le rules maxPasses _, hpasses, hadded, fun henough => ?_⟩
  have hidle : ((standard rules).gains maxPasses before).getLast? = some 0 := by
    refine (DerivationRun.idle_or_spent rules maxPasses { store := before }).resolve_right ?_
    intro hspent
    exact absurd (hspent.trans hadded) (Nat.not_le_of_lt henough)
  exact ⟨hidle, mem_ids_of_idle h hidle⟩

/-- On a path of two edges no more than six edges can be derived, so seven passes are enough. -/
theorem reaches_fixedPoint_after_twoEdges :
    (Graph.after twoEdges).vertexCount * ((Graph.after twoEdges).vertexCount - 1) *
        (Rule.effectTypes [transitivity]).card = 6 ∧
      ((standard [transitivity]).gains 7 (Graph.after twoEdges)).getLast? = some 0 := by
  have hbound : (Graph.after twoEdges).vertexCount * ((Graph.after twoEdges).vertexCount - 1) *
      (Rule.effectTypes [transitivity]).card = 6 := by
    decide +kernel
  obtain ⟨-, -, -, henough⟩ := reaches_fixedPoint_after twoEdges [transitivity] 7
  refine ⟨hbound, (henough ?_).1⟩
  rw [hbound]
  decide

end Derivation

end PatternGraph
