import Mathlib.Order.Bounds.Basic
import PatternGraph.Proofs.Derivation.Continuation

/-!
# The fixed point of a derivation

If the last pass of a derivation added nothing, the keys that are stored then are the least set that
holds the keys stored before and is closed under the rules. So nothing is derived that need not be,
nothing is missed, and the order of the rules does not matter.

* Soundness is an invariant of the whole run, `DerivationRun.Sound`: an edge that is added has a key
  that a rule demands of the keys that are stored already, and these lie in every closed set that
  holds the first ones.
* Completeness is what an idle pass tells. It adds no edge, so for each match the derived edge is
  refused as stored already, that is, its id is that of a stored edge. Ids are texts of keys, and of
  plain keys no two have one text; so its key is stored.

The keys are plain if no vertex id holds `-[` or `]->` and no edge type a comma.
-/

namespace PatternGraph

open DerivationRun

/-- What a rule demands depends on the vertices of the graph only. -/
theorem Rule.demands_congr {g g' : Graph} (h : g'.vertices = g.vertices) {r : Rule} {S : Set EdgeKey}
    {k : EdgeKey} : r.Demands g' S k ↔ r.Demands g S k := by
  have hholds : ∀ {id : String} {wanted : TypeSet}, g'.Holds id wanted ↔ g.Holds id wanted := by
    intro id wanted
    rw [Graph.Holds, Graph.Holds, Graph.vertex?_congr h]
  have hmatches : ∀ {k₁ k₂ : EdgeKey} {first middle last : String},
      r.Matches g' S k₁ k₂ first middle last ↔ r.Matches g S k₁ k₂ first middle last := by
    intro k₁ k₂ first middle last
    constructor
    · rintro ⟨h₁, h₂, hlead₁, hlead₂, hfirst, hmiddle, hlast⟩
      exact ⟨h₁, h₂, hlead₁, hlead₂, hholds.1 hfirst, hholds.1 hmiddle, hholds.1 hlast⟩
    · rintro ⟨h₁, h₂, hlead₁, hlead₂, hfirst, hmiddle, hlast⟩
      exact ⟨h₁, h₂, hlead₁, hlead₂, hholds.2 hfirst, hholds.2 hmiddle, hholds.2 hlast⟩
  simp only [Rule.Demands, hmatches]

theorem Rule.FromText.written {r : Rule} (h : r.FromText) : r.Written := by
  obtain ⟨condition, effect, parsed, hparse, heq⟩ := h
  have hparsed := Rule.written_of_parse hparse
  rw [heq]
  exact ⟨hparsed.firstVertex, hparsed.firstEdge, hparsed.middle, hparsed.secondEdge,
    hparsed.secondVertex, hparsed.effect⟩

namespace DerivationRun

variable {g : Graph} {S : Set EdgeKey} {run : DerivationRun Graph} {rules : List Rule} {r : Rule}

/-- A run that began with a graph: its store has the vertices and the keys of the graph, and no keys
outside of a set. -/
structure Sound (g : Graph) (S : Set EdgeKey) (run : DerivationRun Graph) : Prop where
  wellFormed : run.store.WellFormed
  vertices : run.store.vertices = g.vertices
  lower : g.keys ⊆ run.store.keys
  upper : run.store.keys ⊆ S
  plain : ∀ k ∈ run.store.keys, k.Plain

theorem sound_start (hg : g.WellFormed) (hids : g.PlainIds) (htypes : g.CommaFree)
    (hS : g.keys ⊆ S) : Sound g S { store := g } :=
  ⟨hg, rfl, subset_rfl, hS, fun _ hk => hg.plain_of_mem_keys hids htypes hk⟩

theorem plain_keyOf (hg : g.WellFormed) (hids : g.PlainIds) (hr : r.Written) {m : Match}
    (hm : Anchored g m) : (r.keyOf m).Plain where
  source := (hids.of_vertex? hg (hm r.effect.source)).1
  target := (hids.of_vertex? hg (hm r.effect.target)).2
  types name hname := ⟨(hr.effect name hname).ne_empty, (hr.effect name hname).comma_not_mem⟩

theorem id_edgeOf (hr : r.Written) (m : Match) : (edgeOf r m).id = (r.keyOf m).text := by
  rw [← key_edgeOf hr]
  rfl

/-! ### Nothing is derived that need not be -/

theorem Sound.addMatch (hg : g.WellFormed) (hids : g.PlainIds) (hr : r.Written) (hs : Sound g S run)
    {m : Match} (hm : Anchored g m) (hkey : r.keyOf m ∈ S) :
    Sound g S (run.addMatch .standard r m) := by
  rcases addMatch_cases (r := r) (hm.congr hs.vertices) with
    ⟨-, heq⟩ | ⟨source, target, hslot, hsource, htarget, heq⟩
  · rwa [heq]
  · have hkeys := hs.wellFormed.keys_withEdge (edgeOf r m) source target
    rw [key_edgeOf hr] at hkeys
    rw [heq]
    refine ⟨hs.wellFormed.withEdge hslot normalize_edgeOf hsource htarget, hs.vertices, ?_, ?_, ?_⟩
    · rw [hkeys]
      exact hs.lower.trans (Set.subset_insert _ _)
    · rw [hkeys]
      exact Set.insert_subset hkey hs.upper
    · rw [hkeys]
      rintro k (rfl | hk)
      · exact plain_keyOf hg hids hr hm
      · exact hs.plain k hk

theorem Sound.foldl_addMatch (hg : g.WellFormed) (hids : g.PlainIds) (hr : r.Written)
    {ms : List Match} (hs : Sound g S run) (hms : ∀ m ∈ ms, Anchored g m ∧ r.keyOf m ∈ S) :
    Sound g S (ms.foldl (DerivationRun.addMatch .standard r) run) := by
  induction ms generalizing run with
  | nil => exact hs
  | cons m ms ih =>
    obtain ⟨⟨hm, hkey⟩, hms⟩ := List.forall_mem_cons.1 hms
    exact ih (hs.addMatch hg hids hr hm hkey) hms

/-- The matches in the store are at vertices of the graph, and a rule demands their keys of the
stored ones. -/
theorem Sound.of_finds (hs : Sound g S run) {m : Match} (hm : r.Finds run.store m) :
    Anchored g m ∧ r.Demands g run.store.keys (r.keyOf m) := by
  constructor
  · intro part
    obtain ⟨v, hv⟩ := hm.exists_vertex part
    exact ⟨v, by rw [← Graph.vertex?_congr hs.vertices, hv]⟩
  · exact (Rule.demands_congr hs.vertices).1 (Rule.demands_keys_iff.2 ⟨m, hm, rfl⟩)

theorem Sound.applyRule (hg : g.WellFormed) (hids : g.PlainIds) (hr : r.Written)
    (hclosed : ∀ k, r.Demands g S k → k ∈ S) (hs : Sound g S run) :
    Sound g S (run.applyRule .standard r) := by
  obtain ⟨ms, hms, heq⟩ := applyRule_eq hs.wellFormed hr
  rw [heq]
  refine hs.foldl_addMatch hg hids hr fun m hm => ?_
  obtain ⟨hanchored, hdemands⟩ := hs.of_finds ((hms m).1 hm)
  exact ⟨hanchored, hclosed _ (hdemands.mono hs.upper)⟩

/-- A pass adds no key outside of a closed set. -/
theorem Sound.pass (hg : g.WellFormed) (hids : g.PlainIds) (hrules : ∀ r ∈ rules, r.Written)
    (hclosed : Rule.Closed rules g S) (hs : Sound g S run) :
    Sound g S (run.pass .standard rules) := by
  induction rules generalizing run with
  | nil => exact hs
  | cons r rules ih =>
    obtain ⟨hr, hrules⟩ := List.forall_mem_cons.1 hrules
    obtain ⟨hdemands, hclosed⟩ := List.forall_mem_cons.1 hclosed
    exact ih hrules hclosed (hs.applyRule hg hids hr hdemands)

/-- All passes that a derivation runs are sound. -/
theorem sound_passes (hg : g.WellFormed) (hids : g.PlainIds) (htypes : g.CommaFree)
    (hrules : ∀ r ∈ rules, r.Written) (maxPasses : Nat) :
    Sound g Set.univ (passes .standard rules maxPasses { store := g }).2 :=
  passes_preserve (fun _ hs => hs.pass hg hids hrules fun _ _ _ _ => Set.mem_univ _) maxPasses
    (sound_start hg hids htypes (Set.subset_univ _))

/-! ### What an idle pass tells -/

/-- After an idle pass the stored keys are closed under the rules. -/
theorem Sound.pass_idle (hg : g.WellFormed) (hids : g.PlainIds) (hrules : ∀ r ∈ rules, r.Written)
    (hs : Sound g S run) (hidle : (run.pass .standard rules).added = run.added) :
    run.pass .standard rules = run ∧ Rule.Closed rules g run.store.keys := by
  refine ⟨(continues_pass hs.wellFormed rules).idle hidle, fun r hr k hk => ?_⟩
  obtain ⟨m, hm, rfl⟩ := Rule.demands_keys_iff.1 ((Rule.demands_congr hs.vertices).2 hk)
  obtain ⟨slot, hslot⟩ := exists_slot_of_idle_pass hs.wellFormed hidle r hr m
    ((Rule.mem_matchesIn_iff_finds (hrules r hr)).2 hm)
  rw [id_edgeOf (hrules r hr)] at hslot
  exact hs.wellFormed.mem_keys_of_slot? hs.plain
    (plain_keyOf hg hids (hrules r hr) (hs.of_finds hm).1) hslot

end DerivationRun

/-! ### The least closed set -/

/-- A derivation with some rules and the standard builder. -/
def Derivation.standard (rules : List Rule) : Derivation := ⟨rules, .standard⟩

/-- If the last pass was idle, the keys stored then are the least closed set that holds the keys
stored before. -/
theorem Graph.WellFormed.isLeast_keys_derive {g : Graph} (h : g.WellFormed) (hids : g.PlainIds)
    (htypes : g.CommaFree) {rules : List Rule} (hrules : ∀ r ∈ rules, r.FromText) {maxPasses : Nat}
    (hidle : ((Derivation.standard rules).gains maxPasses g).getLast? = some 0) :
    IsLeast {S | g.keys ⊆ S ∧ Rule.Closed rules g S}
      ((Derivation.standard rules).derive maxPasses g).2.2.keys := by
  have hwritten : ∀ r ∈ rules, r.Written := fun r hr => (hrules r hr).written
  constructor
  · obtain ⟨before, hbefore, hlast, hsame⟩ := exists_idle_pass
      (fun run hs => Sound.pass h hids hwritten (fun _ _ _ _ => Set.mem_univ _) hs)
      (sound_start h hids htypes (Set.subset_univ _)) hidle
    obtain ⟨hpass, hclosed⟩ := hbefore.pass_idle h hids hwritten hsame
    have hstore : ((Derivation.standard rules).derive maxPasses g).2.2 = before.store :=
      congrArg DerivationRun.store (hlast.trans hpass)
    rw [hstore]
    exact ⟨hbefore.lower, hclosed⟩
  · rintro S ⟨hS, hclosed⟩
    exact (passes_preserve (fun run hs => Sound.pass h hids hwritten hclosed hs) maxPasses
      (sound_start h hids htypes hS)).upper

/-- In every graph of a history whose vertex ids and edge types leave the texts of keys readable, and
for rules that were read from text: if the last pass of a derivation was idle, the keys stored then
are the least set that holds the keys stored before and is closed under the rules. They are the same
for the rules in any other order, whatever the number of passes that it takes. -/
theorem Derivation.isLeast_keys_after (changes : List Change) (hids : (Graph.after changes).PlainIds)
    (htypes : (Graph.after changes).CommaFree) {rules : List Rule} (hrules : ∀ r ∈ rules, r.FromText)
    {maxPasses : Nat}
    (hidle : ((standard rules).gains maxPasses (Graph.after changes)).getLast? = some 0) :
    IsLeast {S | (Graph.after changes).keys ⊆ S ∧ Rule.Closed rules (Graph.after changes) S}
        ((standard rules).derive maxPasses (Graph.after changes)).2.2.keys ∧
      ∀ rules' maxPasses', rules'.Perm rules →
        ((standard rules').gains maxPasses' (Graph.after changes)).getLast? = some 0 →
        ((standard rules').derive maxPasses' (Graph.after changes)).2.2.keys =
          ((standard rules).derive maxPasses (Graph.after changes)).2.2.keys := by
  have h := Graph.wellFormed_after changes
  refine ⟨h.isLeast_keys_derive hids htypes hrules hidle, fun rules' maxPasses' hperm hidle' => ?_⟩
  have hleast' :=
    h.isLeast_keys_derive hids htypes (fun r hr => hrules r (hperm.mem_iff.1 hr)) hidle'
  have hclosed : ∀ S, Rule.Closed rules' (Graph.after changes) S ↔
      Rule.Closed rules (Graph.after changes) S := by
    intro S
    simp only [Rule.Closed, hperm.mem_iff]
  simp only [hclosed] at hleast'
  exact hleast'.unique (h.isLeast_keys_derive hids htypes hrules hidle)

/-- A path of two edges. -/
def Derivation.twoEdges : List Change :=
  [.addVertex (.of "a" "A" []), .addVertex (.of "b" "B" []), .addVertex (.of "c" "C" []),
    .addEdge (.of "a" "b" ["next"]), .addEdge (.of "b" "c" ["next"])]

/-- What follows what follows a vertex follows it. -/
def Derivation.transitivity : Rule where
  label := "()[next]>()[next]>() => (1)[next](3)"
  condition :=
    ⟨⟨∅, .ofList ["next"], .forward⟩, ∅, ⟨∅, .ofList ["next"], .forward⟩⟩
  effect := ⟨.first, .last, .ofList ["next"]⟩

/-- On a path of two edges the second pass is idle, and then the edges are transitive. -/
theorem Derivation.isLeast_keys_after_twoEdges :
    ((standard [transitivity]).gains 5 (Graph.after twoEdges)).getLast? = some 0 ∧
      IsLeast
        {S | (Graph.after twoEdges).keys ⊆ S ∧ Rule.Closed [transitivity] (Graph.after twoEdges) S}
        ((standard [transitivity]).derive 5 (Graph.after twoEdges)).2.2.keys ∧
      ∀ rules' maxPasses', rules'.Perm [transitivity] →
        ((standard rules').gains maxPasses' (Graph.after twoEdges)).getLast? = some 0 →
        ((standard rules').derive maxPasses' (Graph.after twoEdges)).2.2.keys =
          ((standard [transitivity]).derive 5 (Graph.after twoEdges)).2.2.keys := by
  have hids : (Graph.after twoEdges).PlainIds := by
    rw [Graph.PlainIds]
    decide +kernel
  have htypes : (Graph.after twoEdges).CommaFree := by
    rw [Graph.CommaFree]
    decide +kernel
  have hparse : Rule.parse "()[next]>()[next]>()" "(1)[next](3)" = .ok transitivity := by
    decide +kernel
  have hrules : ∀ r ∈ [transitivity], r.FromText :=
    List.forall_mem_singleton.2 ⟨_, _, _, hparse, rfl⟩
  have hidle : ((standard [transitivity]).gains 5 (Graph.after twoEdges)).getLast? = some 0 := by
    decide +kernel
  exact ⟨hidle, isLeast_keys_after twoEdges hids htypes hrules hidle⟩

end PatternGraph
