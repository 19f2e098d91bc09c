import Mathlib.Algebra.GroupWithZero.Nat
import PatternGraph.Derivation.Basic

/-!
# Passes

A derivation as a list of passes, over any repository and with any builder: `Derivation.gains` tells
how many edges each pass added. The passes and the edges that a derivation reports are the length and
the sum of the list. A pass never lowers the number of edges added so far, so the last pass is idle
if, and only if, it left that number as it was; `exists_idle_pass` gives the run before it. Each pass
but the last adds an edge, so either the last pass was idle or at least as many edges were added as
passes were allowed, `idle_or_spent`.

The passes together apply the rules over and over, as often as there were passes. So a derivation is
also a list of applications, each with the run before it, and `passes_eq_foldl` says that it ends as
they do.
-/

namespace PatternGraph

namespace DerivationRun

variable {σ : Type} [Repository σ] {build : EdgeBuilder}

/-- How many edges each pass adds. -/
def gains (build : EdgeBuilder) (rules : List Rule) : Nat → DerivationRun σ → List Nat
  | 0, _ => []
  | n + 1, run =>
    let after := run.pass build rules
    (after.added - run.added) ::
      if after.added = run.added then [] else gains build rules n after

theorem added_le_addMatch (r : Rule) (run : DerivationRun σ) (m : Match) :
    run.added ≤ (run.addMatch build r m).added := by
  rw [addMatch]
  split
  · exact Nat.le_refl _
  · split
    · next result store _ =>
      cases result.inserted with
      | false => exact Nat.le_refl _
      | true => exact Nat.le_succ _
    · exact Nat.le_refl _

theorem added_le_foldl_addMatch (r : Rule) (run : DerivationRun σ) (ms : List Match) :
    run.added ≤ (ms.foldl (addMatch build r) run).added := by
  induction ms generalizing run with
  | nil => exact Nat.le_refl _
  | cons m ms ih => exact Nat.le_trans (added_le_addMatch r run m) (ih _)

theorem added_le_applyRule (run : DerivationRun σ) (r : Rule) :
    run.added ≤ (run.applyRule build r).added := by
  rw [applyRule]
  split
  · exact Nat.le_refl _
  · exact Nat.le_refl _
  · simp only
    split
    · exact Nat.le_refl _
    · next store' _ => exact added_le_foldl_addMatch r { run with store := store' } _

theorem added_le_pass (rules : List Rule) (run : DerivationRun σ) :
    run.added ≤ (run.pass build rules).added := by
  induction rules generalizing run with
  | nil => exact Nat.le_refl _
  | cons r rules ih => exact Nat.le_trans (added_le_applyRule run r) (ih _)

theorem length_gains (rules : List Rule) (n : Nat) (run : DerivationRun σ) :
    (gains build rules n run).length = (passes build rules n run).1 := by
  induction n generalizing run with
  | zero => rfl
  | succ n ih =>
    rw [gains, passes]
    by_cases h : (run.pass build rules).added = run.added
    · simp [h]
    · simp [h, ih]

theorem sum_gains (rules : List Rule) (n : Nat) (run : DerivationRun σ) :
    run.added + (gains build rules n run).sum = (passes build rules n run).2.added := by
  induction n generalizing run with
  | zero => rfl
  | succ n ih =>
    have hle : run.added ≤ (run.pass build rules).added := added_le_pass rules run
    rw [gains, passes, List.sum_cons, ← Nat.add_assoc, Nat.add_sub_cancel' hle]
    by_cases h : (run.pass build rules).added = run.added
    · simp [h]
    · simp only [if_neg h]
      exact ih _

theorem passes_le (rules : List Rule) (n : Nat) (run : DerivationRun σ) :
    (passes build rules n run).1 ≤ n := by
  induction n generalizing run with
  | zero => exact Nat.le_refl _
  | succ n ih =>
    rw [passes]
    by_cases h : (run.pass build rules).added = run.added
    · simp only [if_pos h]
      exact Nat.succ_le_succ (Nat.zero_le n)
    · simp only [if_neg h]
      exact Nat.succ_le_succ (ih _)

/-- Each pass but the last adds an edge. -/
theorem passes_le_added (rules : List Rule) (n : Nat) (run : DerivationRun σ) :
    (passes build rules n run).1 + run.added ≤ (passes build rules n run).2.added + 1 := by
  induction n generalizing run with
  | zero =>
    rw [passes, Nat.zero_add]
    exact Nat.le_succ _
  | succ n ih =>
    have hle : run.added ≤ (run.pass build rules).added := added_le_pass rules run
    have hrest := ih (run.pass build rules)
    rw [passes]
    by_cases h : (run.pass build rules).added = run.added
    · simp only [if_pos h]
      omega
    · simp only [if_neg h]
      omega

/-- Either the last pass was idle, or all passes that were allowed have run and each has added an
edge. -/
theorem idle_or_spent (rules : List Rule) (n : Nat) (run : DerivationRun σ) :
    (gains build rules n run).getLast? = some 0 ∨ n + run.added ≤ (passes build rules n run).2.added := by
  induction n generalizing run with
  | zero => exact .inr (Nat.le_of_eq (Nat.zero_add _))
  | succ n ih =>
    have hle : run.added ≤ (run.pass build rules).added := added_le_pass rules run
    rw [gains, passes]
    by_cases h : (run.pass build rules).added = run.added
    · simp [h]
    · simp only [if_neg h]
      refine (ih (run.pass build rules)).imp (fun hidle => ?_) (fun hspent => by omega)
      rw [List.getLast?_cons, hidle]
      rfl

/-- If the last pass was idle, there is a run before it that has what all passes keep, and that the
pass leaves with as many edges added as before. -/
theorem exists_idle_pass {P : DerivationRun σ → Prop} {rules : List Rule}
    (hpass : ∀ run, P run → P (run.pass build rules)) {n : Nat} {run : DerivationRun σ} (hrun : P run)
    (hidle : (gains build rules n run).getLast? = some 0) :
    ∃ before, P before ∧ (passes build rules n run).2 = before.pass build rules ∧
      (before.pass build rules).added = before.added := by
  induction n generalizing run with
  | zero => exact absurd hidle nofun
  | succ n ih =>
    rw [gains] at hidle
    rw [passes]
    by_cases h : (run.pass build rules).added = run.added
    · exact ⟨run, hrun, by simp [h], h⟩
    · simp only [if_neg h] at hidle ⊢
      have hlt : (run.pass build rules).added - run.added ≠ 0 := by
        have hle : run.added ≤ (run.pass build rules).added := added_le_pass rules run
        omega
      refine ih (hpass run hrun) ?_
      cases hrest : gains build rules n (run.pass build rules) with
      | nil =>
        rw [hrest, List.getLast?_singleton] at hidle
        exact absurd (Option.some.inj hidle) hlt
      | cons gain rest => rwa [hrest, List.getLast?_cons_cons] at hidle

/-- What all passes keep, the last run has. -/
theorem passes_preserve {P : DerivationRun σ → Prop} {rules : List Rule}
    (hpass : ∀ run, P run → P (run.pass build rules)) (n : Nat) {run : DerivationRun σ}
    (hrun : P run) : P (passes build rules n run).2 := by
  induction n generalizing run with
  | zero => exact hrun
  | succ n ih =>
    rw [passes]
    by_cases h : (run.pass build rules).added = run.added
    · simpa [h] using hpass run hrun
    · simpa [h] using ih (hpass run hrun)

/-- The applications of some rules one after another, each with the run before it. -/
def applications (build : EdgeBuilder) :
    List Rule → DerivationRun σ → List (Rule × DerivationRun σ)
  | [], _ => []
  | r :: rules, run => (r, run) :: applications build rules (run.applyRule build r)

/-- What an application keeps holds before each of them. -/
theorem applications_preserve {P : DerivationRun σ → Prop}
    (happly : ∀ run r, P run → P (run.applyRule build r)) (rules : List Rule) {run : DerivationRun σ}
    (hrun : P run) : ∀ a ∈ applications build rules run, P a.2 := by
  induction rules generalizing run with
  | nil => exact nofun
  | cons r rules ih => exact List.forall_mem_cons.2 ⟨hrun, ih (happly run r hrun)⟩

/-- What an application keeps holds after all of them. -/
theorem foldl_applyRule_preserve {P : DerivationRun σ → Prop}
    (happly : ∀ run r, P run → P (run.applyRule build r)) (rules : List Rule) {run : DerivationRun σ}
    (hrun : P run) : P (rules.foldl (applyRule build) run) := by
  induction rules generalizing run with
  | nil => exact hrun
  | cons r rules ih => exact ih (happly run r hrun)

/-- Passes apply all rules, as often as there are passes. -/
theorem passes_eq_foldl (rules : List Rule) (n : Nat) (run : DerivationRun σ) :
    (passes build rules n run).2 =
      (List.replicate (passes build rules n run).1 rules).flatten.foldl (applyRule build) run := by
  induction n generalizing run with
  | zero => rfl
  | succ n ih =>
    rw [passes]
    by_cases h : (run.pass build rules).added = run.added
    · simp only [if_pos h, List.replicate_one, List.flatten_singleton]
      rfl
    · simp only [if_neg h]
      rw [ih, List.replicate_succ, List.flatten_cons, List.foldl_append]
      rfl

end DerivationRun

/-- How many edges each pass of a derivation adds. -/
def Derivation.gains {σ : Type} [Repository σ] (d : Derivation) (maxPasses : Nat) (store : σ) :
    List Nat :=
  DerivationRun.gains d.build d.rules maxPasses { store }

/-- A derivation reports as many passes as there are, and the edges that they added together. -/
theorem Derivation.report_eq {σ : Type} [Repository σ] (d : Derivation) (maxPasses : Nat)
    (store : σ) :
    (d.derive maxPasses store).1.passes = (d.gains maxPasses store).length ∧
      (d.derive maxPasses store).1.added = (d.gains maxPasses store).sum := by
  refine ⟨(DerivationRun.length_gains _ _ _).symm, ?_⟩
  rw [Derivation.gains, ← Nat.zero_add (List.sum _)]
  exact (DerivationRun.sum_gains d.rules maxPasses { store }).symm

end PatternGraph
