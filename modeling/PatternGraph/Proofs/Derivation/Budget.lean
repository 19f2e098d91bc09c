import Mathlib.Logic.Function.Iterate
import PatternGraph.Proofs.Derivation.FixedPoint
import PatternGraph.Proofs.Graph.Refinement

/-!
# Derivations in a row

A pass sees of a run only the store, so it takes one graph to another, `Derivation.advance`. A derivation
does that as often as passes are allowed, `Derivation.graph_derive`. It may stop early, but then the last
pass has left the graph as it was, and so would all further ones.

Therefore the numbers of passes of two derivations in a row can be added up, and the edges that they
have added are counted by the graphs.
-/

namespace PatternGraph

namespace DerivationRun

section
variable {σ : Type} [Repository σ] {build : EdgeBuilder} {run run' : DerivationRun σ}

theorem store_addMatch_congr (h : run.store = run'.store) (r : Rule) (m : Match) :
    (run.addMatch build r m).store = (run'.addMatch build r m).store := by
  simp only [addMatch, h]
  split
  · exact h
  · split <;> rfl

theorem store_foldl_addMatch_congr (h : run.store = run'.store) (r : Rule) (ms : List Match) :
    (ms.foldl (addMatch build r) run).store = (ms.foldl (addMatch build r) run').store := by
  induction ms generalizing run run' with
  | nil => exact h
  | cons m ms ih => exact ih (store_addMatch_congr h r m)

theorem store_applyRule_congr (h : run.store = run'.store) (r : Rule) :
    (run.applyRule build r).store = (run'.applyRule build r).store := by
  simp only [applyRule, h]
  split
  · rfl
  · rfl
  · split
    · rfl
    · next store' _ =>
      have hstart : ({ run with store := store' } : DerivationRun σ).store =
          ({ run' with store := store' } : DerivationRun σ).store := rfl
      exact store_foldl_addMatch_congr hstart r _

/-- What a pass makes of the store depends on the store only. -/
theorem store_pass_congr (h : run.store = run'.store) (rules : List Rule) :
    (run.pass build rules).store = (run'.pass build rules).store := by
  induction rules generalizing run run' with
  | nil => exact h
  | cons r rules ih => exact ih (store_applyRule_congr h r)

end

end DerivationRun

/-- The graph after one more pass of some rules. -/
def Derivation.advance (rules : List Rule) (g : Graph) : Graph :=
  (DerivationRun.pass .standard rules { store := g }).store

namespace DerivationRun

variable {rules : List Rule} {run : DerivationRun Graph}

theorem store_pass (rules : List Rule) (run : DerivationRun Graph) :
    (run.pass .standard rules).store = Derivation.advance rules run.store := by
  have hstore : run.store = ({ store := run.store } : DerivationRun Graph).store := rfl
  exact store_pass_congr hstore rules

/-- An idle pass leaves the graph as it is. -/
theorem advance_of_idle (h : run.store.WellFormed)
    (hidle : (run.pass .standard rules).added = run.added) : Derivation.advance rules run.store = run.store := by
  rw [← store_pass, (continues_pass h rules).idle hidle]

/-- The store after a number of passes, though the run stops once a pass is idle. -/
theorem store_passes (h : run.store.WellFormed) (n : Nat) :
    (passes .standard rules n run).2.store = (Derivation.advance rules)^[n] run.store := by
  induction n generalizing run with
  | zero => rfl
  | succ n ih =>
    rw [passes]
    by_cases hidle : (run.pass .standard rules).added = run.added
    · have hfixed := advance_of_idle h hidle
      rw [Function.iterate_fixed hfixed]
      simp only [if_pos hidle, store_pass, hfixed]
    · have hnext := (continues_pass h rules).wellFormed
      simp only [if_neg hidle]
      rw [ih hnext, store_pass, Function.iterate_succ_apply]

/-- A run that stopped before it had to, stopped where a further pass changes nothing. -/
theorem advance_of_stopped (h : run.store.WellFormed) {n : Nat}
    (hstopped : (passes .standard rules n run).1 < n) :
    Derivation.advance rules (passes .standard rules n run).2.store =
      (passes .standard rules n run).2.store := by
  induction n generalizing run with
  | zero => exact absurd hstopped (Nat.not_lt_zero _)
  | succ n ih =>
    have hnext := (continues_pass h rules).wellFormed
    rw [passes] at hstopped ⊢
    by_cases hidle : (run.pass .standard rules).added = run.added
    · have hfixed := advance_of_idle h hidle
      simp only [if_pos hidle, store_pass, hfixed]
    · simp only [if_neg hidle] at hstopped ⊢
      exact ih hnext (Nat.lt_of_succ_lt_succ hstopped)

end DerivationRun

namespace Derivation

variable {g : Graph}

/-- A derivation is so many passes. -/
theorem graph_derive (h : g.WellFormed) (rules : List Rule) (maxPasses : Nat) :
    ((standard rules).derive maxPasses g).2.2 = (advance rules)^[maxPasses] g :=
  DerivationRun.store_passes h maxPasses

theorem wellFormed_derive (h : g.WellFormed) (rules : List Rule) (maxPasses : Nat) :
    ((standard rules).derive maxPasses g).2.2.WellFormed :=
  (@DerivationRun.continues_passes { store := g } h rules maxPasses).wellFormed

/-- The edges are as many more as are reported. -/
theorem edgeCount_derive (h : g.WellFormed) (rules : List Rule) (maxPasses : Nat) :
    ((standard rules).derive maxPasses g).2.2.edgeCount =
      g.edgeCount + ((standard rules).derive maxPasses g).1.added := by
  have hcontinues := @DerivationRun.continues_passes { store := g } h rules maxPasses
  obtain ⟨new, hnew, hcount, -⟩ := hcontinues.edges
  have hadded : ((standard rules).derive maxPasses g).1.added = new.length :=
    hcount.trans (Nat.zero_add _)
  rw [(wellFormed_derive h rules maxPasses).shows_listing.edgeCount, h.shows_listing.edgeCount, hadded,
    ← List.length_append]
  exact congrArg List.length hnew

/-- In every graph of a history and for any rules: a derivation of up to `n` passes and then one of up to
`m` passes lead to the same graph as one of up to `n + m` passes, and together they add as many edges. If
the first of them stops before its passes are spent, no later one adds an edge or changes the graph. -/
theorem budgets_add_after (changes : List Change) (rules : List Rule) (n m : Nat) :
    let before := Graph.after changes
    let first := (standard rules).derive n before
    let second := (standard rules).derive m first.2.2
    let whole := (standard rules).derive (n + m) before
    second.2.2 = whole.2.2 ∧ first.1.added + second.1.added = whole.1.added ∧
      (first.1.passes < n → ∀ later, ((standard rules).derive later first.2.2).1.added = 0 ∧
        ((standard rules).derive later first.2.2).2.2 = first.2.2) := by
  intro before first second whole
  have h : before.WellFormed := Graph.wellFormed_after changes
  have hfirst : first.2.2.WellFormed := wellFormed_derive h rules n
  have hgraph : second.2.2 = whole.2.2 := by
    rw [graph_derive hfirst, graph_derive h, graph_derive h, Nat.add_comm, Function.iterate_add_apply]
  refine ⟨hgraph, ?_, fun hstopped later => ?_⟩
  · have hcount₁ : first.2.2.edgeCount = before.edgeCount + first.1.added := edgeCount_derive h rules n
    have hcount₂ : second.2.2.edgeCount = first.2.2.edgeCount + second.1.added :=
      edgeCount_derive hfirst rules m
    have hcount : whole.2.2.edgeCount = before.edgeCount + whole.1.added :=
      edgeCount_derive h rules (n + m)
    have hedges : second.2.2.edgeCount = whole.2.2.edgeCount := congrArg Graph.edgeCount hgraph
    omega
  · have hfixed : advance rules first.2.2 = first.2.2 := DerivationRun.advance_of_stopped h hstopped
    have hsame : ((standard rules).derive later first.2.2).2.2 = first.2.2 := by
      rw [graph_derive hfirst, Function.iterate_fixed hfixed]
    have hcount := edgeCount_derive hfirst rules later
    rw [hsame] at hcount
    exact ⟨Nat.left_eq_add.1 hcount, hsame⟩

/-- On a path of two edges, a derivation stops after two of five passes, and none adds an edge then. -/
theorem budgets_add_after_twoEdges :
    ((standard [transitivity]).derive 5 (Graph.after twoEdges)).1.passes = 2 ∧ ∀ later,
      ((standard [transitivity]).derive later
        ((standard [transitivity]).derive 5 (Graph.after twoEdges)).2.2).1.added = 0 := by
  have hpasses : ((standard [transitivity]).derive 5 (Graph.after twoEdges)).1.passes = 2 := by
    decide +kernel
  obtain ⟨-, -, hlater⟩ := budgets_add_after twoEdges [transitivity] 5 0
  refine ⟨hpasses, fun later => (hlater ?_ later).1⟩
  rw [hpasses]
  decide

end Derivation

end PatternGraph
