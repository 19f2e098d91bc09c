import PatternGraph.Proofs.Derivation.Budget

/-!
# How far so many passes reach

The rule of transitivity joins an edge of a type and an edge of the type behind it to one that leads from
the first vertex to the last, `Rule.transitive`. Applied once, it joins edges that were stored before and
no others, so with each pass the walks that an edge may stand for get twice as long, but not longer: after
`n` passes an edge leads from one vertex to another exactly if a walk of at most `2 ^ n` edges led there
at the start.

* `DerivationRun.Sound.keys_applyRule` is the exact growth, for any rule: the keys that are added are
  those that the rule demands of the stored ones.
* `Graph.reachesWithin_double` is about walks alone. A walk that is up to twice as long is cut in two. If
  one of the parts leads back to where it began, the other one is all that is needed; so it does no harm
  that no edge from a vertex to itself is ever derived.
-/

namespace PatternGraph

open Text

/-! ### Walks of one type -/

namespace Graph

/-- A stored edge leads from one vertex to another and has the type, perhaps among others. -/
def Linked (g : Graph) (type a b : String) : Prop :=
  ∃ e ∈ g.allEdges, e.source = a ∧ e.target = b ∧ type ∈ e.types

instance (g : Graph) (type a b : String) : Decidable (g.Linked type a b) :=
  inferInstanceAs (Decidable (∃ e ∈ g.allEdges, e.source = a ∧ e.target = b ∧ type ∈ e.types))

/-- A walk of so many edges of the type leads from one vertex to another. -/
inductive Reaches (g : Graph) (type : String) : Nat → String → String → Prop where
  | stay (a : String) : Reaches g type 0 a a
  | step {n : Nat} {a m b : String} (h : g.Linked type a m) (hs : Reaches g type n m b) :
      Reaches g type (n + 1) a b

/-- A walk of at least one edge and at most so many. -/
def ReachesWithin (g : Graph) (type : String) (bound : Nat) (a b : String) : Prop :=
  ∃ n, 1 ≤ n ∧ n ≤ bound ∧ g.Reaches type n a b

variable {g : Graph} {type a b : String} {n n' bound : Nat}

/-- Walks are joined where they meet, and cut anywhere. -/
theorem reaches_add : g.Reaches type (n + n') a b ↔
    ∃ m, g.Reaches type n a m ∧ g.Reaches type n' m b := by
  induction n generalizing a with
  | zero =>
    rw [Nat.zero_add]
    constructor
    · exact fun h => ⟨a, .stay a, h⟩
    · rintro ⟨m, ⟨⟩, h⟩
      exact h
  | succ n ih =>
    rw [Nat.succ_add]
    constructor
    · rintro (_ | ⟨h, hs⟩)
      obtain ⟨m, hfirst, hlast⟩ := ih.1 hs
      exact ⟨m, .step h hfirst, hlast⟩
    · rintro ⟨m, _ | ⟨h, hs⟩, hlast⟩
      exact .step h (ih.2 ⟨m, hs, hlast⟩)

theorem reachesWithin_one : g.ReachesWithin type 1 a b ↔ g.Linked type a b := by
  constructor
  · rintro ⟨n, hpos, hle, hwalk⟩
    obtain rfl : n = 1 := Nat.le_antisymm hle hpos
    obtain _ | ⟨h, ⟨⟩⟩ := hwalk
    exact h
  · exact fun h => ⟨1, Nat.le_refl 1, Nat.le_refl 1, .step h (.stay b)⟩

theorem ReachesWithin.mono (h : g.ReachesWithin type n a b) (hle : n ≤ n') :
    g.ReachesWithin type n' a b := by
  obtain ⟨k, hpos, hk, hwalk⟩ := h
  exact ⟨k, hpos, hk.trans hle, hwalk⟩

/-- A walk between two vertices that is up to twice as long is a walk within the bound, or it is two of
them, over a vertex in between. -/
theorem reachesWithin_double : g.ReachesWithin type (2 * bound) a b ↔
    g.ReachesWithin type bound a b ∨
      ∃ m, m ≠ a ∧ m ≠ b ∧ g.ReachesWithin type bound a m ∧ g.ReachesWithin type bound m b := by
  constructor
  · rintro ⟨n, hpos, hle, hwalk⟩
    by_cases hshort : n ≤ bound
    · exact .inl ⟨n, hpos, hshort, hwalk⟩
    obtain ⟨rest, rfl⟩ := Nat.exists_eq_add_of_lt (Nat.lt_of_not_le hshort)
    -- cut off the first `bound` edges; what is left is a walk of one edge or more
    obtain ⟨m, hfirst, hlast⟩ := reaches_add.1 (show g.Reaches type (bound + (rest + 1)) a b from hwalk)
    have hfirst : g.ReachesWithin type bound a m := ⟨bound, by omega, Nat.le_refl _, hfirst⟩
    have hlast : g.ReachesWithin type bound m b := ⟨rest + 1, by omega, by omega, hlast⟩
    by_cases ha : m = a
    · exact .inl (ha ▸ hlast)
    by_cases hb : m = b
    · exact .inl (hb ▸ hfirst)
    exact .inr ⟨m, ha, hb, hfirst, hlast⟩
  · rintro (h | ⟨m, -, -, ⟨n, hpos, hle, hfirst⟩, ⟨n', -, hle', hlast⟩⟩)
    · exact h.mono (by omega)
    · exact ⟨n + n', by omega, by omega, reaches_add.2 ⟨m, hfirst, hlast⟩⟩

theorem linked_iff_exists_key :
    g.Linked type a b ↔ ∃ k ∈ g.keys, k.source = a ∧ k.target = b ∧ type ∈ k.types := by
  constructor
  · rintro ⟨e, he, hends⟩
    exact ⟨e.key, ⟨e, he, rfl⟩, hends⟩
  · rintro ⟨_, ⟨e, he, rfl⟩, hends⟩
    exact ⟨e, he, hends⟩

end Graph

/-! ### What one application adds -/

namespace DerivationRun

variable {g : Graph} {S : Set EdgeKey} {run : DerivationRun Graph} {r : Rule}

theorem Sound.keys_addMatch (hg : g.WellFormed) (hids : g.PlainIds) (hr : r.Written)
    (hs : Sound g S run) {m : Match} (hm : Anchored g m) :
    (run.addMatch .standard r m).store.keys = insert (r.keyOf m) run.store.keys := by
  rcases addMatch_cases (r := r) (hm.congr hs.vertices) with
    ⟨⟨slot, hslot⟩, heq⟩ | ⟨source, target, -, -, -, heq⟩
  · rw [id_edgeOf hr] at hslot
    rw [heq, Set.insert_eq_of_mem]
    exact hs.wellFormed.mem_keys_of_slot? hs.plain (plain_keyOf hg hids hr hm) hslot
  · rw [heq, ← key_edgeOf hr]
    exact hs.wellFormed.keys_withEdge _ _ _

theorem Sound.keys_foldl_addMatch (hg : g.WellFormed) (hids : g.PlainIds) (hr : r.Written)
    {ms : List Match} (hs : Sound g Set.univ run) (hms : ∀ m ∈ ms, Anchored g m) :
    (ms.foldl (DerivationRun.addMatch .standard r) run).store.keys =
      run.store.keys ∪ r.keyOf '' {m | m ∈ ms} := by
  induction ms generalizing run with
  | nil => simp
  | cons m ms ih =>
    obtain ⟨hm, hms⟩ := List.forall_mem_cons.1 hms
    have hnext := hs.addMatch hg hids hr hm (Set.mem_univ _)
    have hcons : {m' | m' ∈ m :: ms} = insert m {m' | m' ∈ ms} := Set.ext fun _ => List.mem_cons
    rw [List.foldl_cons, ih hnext hms, hs.keys_addMatch hg hids hr hm, hcons, Set.image_insert_eq,
      Set.union_insert, Set.insert_union]

/-- Applying a rule adds exactly the keys that the rule demands of those stored before. -/
theorem Sound.keys_applyRule (hg : g.WellFormed) (hids : g.PlainIds) (hr : r.Written)
    (hs : Sound g Set.univ run) :
    (run.applyRule .standard r).store.keys =
      run.store.keys ∪ {k | r.Demands run.store run.store.keys k} := by
  obtain ⟨ms, hms, heq⟩ := applyRule_eq hs.wellFormed hr
  rw [heq, hs.keys_foldl_addMatch hg hids hr fun m hm => (hs.of_finds ((hms m).1 hm)).1]
  simp only [hms, Rule.demands_keys_iff]
  rfl

end DerivationRun

/-! ### The rule of transitivity -/

/-- The rule that joins two edges of a type in a row to one. -/
def Rule.transitive (label type : String) : Rule where
  label := label
  condition := ⟨⟨∅, .ofList [type], .forward⟩, ∅, ⟨∅, .ofList [type], .forward⟩⟩
  effect := ⟨.first, .last, .ofList [type]⟩

/-- The texts of the condition and of the effect of the rule. -/
def Rule.transitiveTexts (type : String) : String × String :=
  ("()[" ++ type ++ "]>()[" ++ type ++ "]>()", "(1)[" ++ type ++ "](3)")

theorem TypeSet.allows_singleton {type : String} {types : TypeSet} :
    (TypeSet.ofList [type]).Allows types ↔ type ∈ types := by
  have hself : type ∈ TypeSet.ofList [type] := TypeSet.mem_ofList.2 (List.mem_singleton_self type)
  constructor
  · rintro (hempty | ⟨name, hname, hmem⟩)
    · rw [hempty] at hself
      exact absurd hself (TypeSet.not_mem_empty type)
    · obtain rfl := List.mem_singleton.1 (TypeSet.mem_ofList.1 hname)
      exact hmem
  · exact fun hmem => .inr ⟨type, hself, hmem⟩

namespace Rule

variable {g : Graph} {label type : String}

/-- What the rule demands of the stored keys leads from one vertex to another over a third. -/
theorem demands_transitive (h : g.WellFormed) {k : EdgeKey} :
    (transitive label type).Demands g g.keys k ↔ k.types = .ofList [type] ∧ k.source ≠ k.target ∧
      ∃ m, g.Linked type k.source m ∧ g.Linked type m k.target := by
  have hholds : ∀ {id : String}, (∃ v, g.vertex? id = some v) → g.Holds id ∅ := fun hv =>
    hv.imp fun _ hv => ⟨hv, .inl rfl⟩
  constructor
  · rintro ⟨_, _, first, middle, last, hmatch, hne, rfl⟩
    obtain ⟨⟨e₁, he₁, rfl⟩, ⟨e₂, he₂, rfl⟩, hlead, hlead', -, -, -⟩ := hmatch
    exact ⟨rfl, hne, middle,
      ⟨e₁, he₁, hlead.ends.1, hlead.ends.2, TypeSet.allows_singleton.1 hlead.types⟩,
      ⟨e₂, he₂, hlead'.ends.1, hlead'.ends.2, TypeSet.allows_singleton.1 hlead'.types⟩⟩
  · obtain ⟨a, types, b⟩ := k
    rintro ⟨rfl, hne, m, ⟨e₁, he₁, rfl, rfl, htype⟩, ⟨e₂, he₂, hmeet, rfl, htype'⟩⟩
    obtain ⟨v, w, hv, hw⟩ := h.exists_ends he₁
    obtain ⟨_, v', -, hv'⟩ := h.exists_ends he₂
    exact ⟨e₁.key, e₂.key, e₁.source, e₁.target, e₂.target,
      ⟨⟨e₁, he₁, rfl⟩, ⟨e₂, he₂, rfl⟩, ⟨⟨rfl, rfl⟩, TypeSet.allows_singleton.2 htype⟩,
        ⟨⟨hmeet, rfl⟩, TypeSet.allows_singleton.2 htype'⟩, hholds ⟨v, hv⟩, hholds ⟨w, hw⟩,
        hholds ⟨v', hv'⟩⟩, hne, rfl⟩

theorem condition_transitive (label : String) (hlist : TypeList [type] type.toList) :
    Condition.parse (transitiveTexts type).1 = .ok (transitive label type).condition := by
  have hvertex : RuleGroup.Words (.vertex []) [['('], [')']] := .noVertexTypes
  have hedge : RuleGroup.Words (.edge false [type] true) [['['], type.toList, [']', '>']] :=
    .edgeTypes false true hlist
  have hlaid := @Laid.of_solid [['('], [')'], ['['], type.toList, [']', '>'], ['('], [')'], ['['],
    type.toList, [']', '>'], ['('], [')']] (by simp [solid_cons, isGap, hlist.solid])
  have hspells : RuleGroup.Spells [.vertex [], .edge false [type] true, .vertex [],
      .edge false [type] true, .vertex []] (transitiveTexts type).1.toList := by
    refine ⟨_, .cons hvertex (.cons hedge (.cons hvertex (.cons hedge (.cons hvertex .nil)))), ?_⟩
    simpa [transitiveTexts] using hlaid
  exact Condition.parse_eq_ok.2 ⟨_, hspells, .mk [] [] [] [type] [type] .forward .forward⟩

theorem effect_transitive (label : String) (hlist : TypeList [type] type.toList) :
    Effect.parse (transitiveTexts type).2 = .ok (transitive label type).effect := by
  have hlaid := @Laid.of_solid [['('], ['1'], [')'], ['['], type.toList, [']'], ['('], ['3'], [')']]
    (by simp [solid_cons, isGap, hlist.solid])
  have hdiffer : RulePart.first ≠ RulePart.last := by decide
  refine Effect.parse_eq_ok.2 ⟨⟨_, .mk .first .last hlist, ?_⟩, hdiffer⟩
  simpa [transitiveTexts, RulePart.digit, RulePart.position, Nat.digitChar] using hlaid

/-- The two texts denote the rule. -/
theorem parse_transitiveTexts (hname : IsName type.toList) (hlower : asciiLowercase type = type) :
    ∃ label, parse (transitiveTexts type).1 (transitiveTexts type).2 = .ok (transitive label type) := by
  have hlist : TypeList [type] type.toList := by
    refine ⟨_, .one hname, ?_⟩
    rw [String.ofList_toList, List.map_singleton, hlower]
    rfl
  refine ⟨trim (transitiveTexts type).1 ++ " => " ++ trim (transitiveTexts type).2, ?_⟩
  rw [parse, condition_transitive "" hlist, effect_transitive "" hlist]
  rfl

end Rule

/-! ### Pass after pass -/

namespace Derivation

open DerivationRun

variable {g : Graph} {label type : String}

/-- One more pass, and two edges of the type in a row are joined. -/
theorem linked_pass {run : DerivationRun Graph} (hg : g.WellFormed) (hids : g.PlainIds)
    (hwritten : (Rule.transitive label type).Written) (hs : Sound g Set.univ run) {a b : String}
    (hne : a ≠ b) :
    (run.pass .standard [Rule.transitive label type]).store.Linked type a b ↔
      run.store.Linked type a b ∨
        ∃ m, m ≠ a ∧ m ≠ b ∧ run.store.Linked type a m ∧ run.store.Linked type m b := by
  rw [DerivationRun.pass, List.foldl_cons, List.foldl_nil, Graph.linked_iff_exists_key,
    hs.keys_applyRule hg hids hwritten]
  constructor
  · rintro ⟨k, hk | hk, rfl, rfl, htype⟩
    · exact .inl (Graph.linked_iff_exists_key.2 ⟨k, hk, rfl, rfl, htype⟩)
    · obtain ⟨-, -, m, hfirst, hlast⟩ := (Rule.demands_transitive hs.wellFormed).1 hk
      by_cases ha : m = k.source
      · exact .inl (ha ▸ hlast)
      by_cases hb : m = k.target
      · exact .inl (hb ▸ hfirst)
      exact .inr ⟨m, ha, hb, hfirst, hlast⟩
  · rintro (h | ⟨m, -, -, hfirst, hlast⟩)
    · obtain ⟨k, hk, hends⟩ := Graph.linked_iff_exists_key.1 h
      exact ⟨k, .inl hk, hends⟩
    · have hdemands : (Rule.transitive label type).Demands run.store run.store.keys
          ⟨a, .ofList [type], b⟩ :=
        (Rule.demands_transitive hs.wellFormed).2 ⟨rfl, hne, m, hfirst, hlast⟩
      exact ⟨_, .inr hdemands, rfl, rfl, TypeSet.mem_ofList.2 (List.mem_singleton_self type)⟩

theorem graph_derive_succ (h : g.WellFormed) (rules : List Rule) (n : Nat) :
    ((standard rules).derive (n + 1) g).2.2 =
      ((passes .standard rules n { store := g }).2.pass .standard rules).store := by
  rw [graph_derive h, Function.iterate_succ_apply', store_pass, store_passes h]

/-- How far a derivation by transitivity reaches. -/
theorem linked_derive (hg : g.WellFormed) (hids : g.PlainIds) (htypes : g.CommaFree)
    (hwritten : (Rule.transitive label type).Written) (maxPasses : Nat) {a b : String} (hne : a ≠ b) :
    ((standard [Rule.transitive label type]).derive maxPasses g).2.2.Linked type a b ↔
      g.ReachesWithin type (2 ^ maxPasses) a b := by
  induction maxPasses generalizing a b with
  | zero => exact Graph.reachesWithin_one.symm
  | succ n ih =>
    have hrun := sound_passes hg hids htypes (List.forall_mem_singleton.2 hwritten) n
    have hstep := linked_pass hg hids hwritten hrun hne
    rw [graph_derive_succ hg, hstep, Nat.pow_succ', Graph.reachesWithin_double]
    refine or_congr (ih hne) (exists_congr fun m => and_congr_right fun ha => ?_)
    exact and_congr_right fun hb => and_congr (ih (Ne.symm ha)) (ih hb)

/-- In every graph of a history whose vertex ids and edge types leave the texts of keys readable, and for
every type name in lower case: the texts of transitivity are accepted, and after up to `n` passes an edge
of the type leads from one vertex to another if, and only if, a walk of at least one and at most `2 ^ n`
edges of the type led there before. -/
theorem reach_after (changes : List Change) (hids : (Graph.after changes).PlainIds)
    (htypes : (Graph.after changes).CommaFree) {type : String} (hname : IsName type.toList)
    (hlower : asciiLowercase type = type) :
    ∃ d, Derivation.parse [Rule.transitiveTexts type] = .ok d ∧ ∀ maxPasses a b, a ≠ b →
      ((d.derive maxPasses (Graph.after changes)).2.2.Linked type a b ↔
        (Graph.after changes).ReachesWithin type (2 ^ maxPasses) a b) := by
  obtain ⟨label, hparse⟩ := Rule.parse_transitiveTexts hname hlower
  have hwritten : (Rule.transitive label type).Written := Rule.written_of_parse hparse
  refine ⟨standard [Rule.transitive label type], ?_, fun maxPasses a b hne => ?_⟩
  · simp only [Derivation.parse, List.mapM_cons, List.mapM_nil, hparse]
    rfl
  · exact linked_derive (Graph.wellFormed_after changes) hids htypes hwritten maxPasses hne

/-- A path of three edges. -/
def threeEdges : List Change :=
  [.addVertex (.of "a" "A" []), .addVertex (.of "b" "B" []), .addVertex (.of "c" "C" []),
    .addVertex (.of "d" "D" []), .addEdge (.of "a" "b" ["next"]), .addEdge (.of "b" "c" ["next"]),
    .addEdge (.of "c" "d" ["next", "last"])]

/-- Two passes join the three edges of a path. -/
theorem reach_after_threeEdges :
    ¬ (Graph.after threeEdges).Linked "next" "a" "d" ∧
      ∃ d, Derivation.parse [Rule.transitiveTexts "next"] = .ok d ∧
        (d.derive 2 (Graph.after threeEdges)).2.2.Linked "next" "a" "d" := by
  have hids : (Graph.after threeEdges).PlainIds := by
    rw [Graph.PlainIds]
    decide +kernel
  have htypes : (Graph.after threeEdges).CommaFree := by
    rw [Graph.CommaFree]
    decide +kernel
  have hname : IsName "next".toList :=
    isName_iff.2 ⟨'n', ['e', 'x', 't'], rfl, rfl, List.all_eq_true.1 rfl⟩
  have hlower : asciiLowercase "next" = "next" := by decide +kernel
  have hnone : ¬ (Graph.after threeEdges).Linked "next" "a" "d" := by decide +kernel
  have hedges : (Graph.after threeEdges).Linked "next" "a" "b" ∧
      (Graph.after threeEdges).Linked "next" "b" "c" ∧
        (Graph.after threeEdges).Linked "next" "c" "d" := by
    decide +kernel
  obtain ⟨d, hparse, hreach⟩ := reach_after threeEdges hids htypes hname hlower
  have hwalk : (Graph.after threeEdges).ReachesWithin "next" (2 ^ 2) "a" "d" :=
    ⟨3, by decide, by decide, .step hedges.1 (.step hedges.2.1 (.step hedges.2.2 (.stay "d")))⟩
  exact ⟨hnone, d, hparse, (hreach 2 "a" "d" (by decide)).2 hwalk⟩

end Derivation

end PatternGraph
