import PatternGraph.Proofs.Derivation.Matching

/-!
# How a derivation goes on

A run continues another, `DerivationRun.Continues`, if it has put edges behind those of the other and has
counted them: edges as the rules derive them, `Rule.MayDerive`. If it has counted none, it is the very
same run. A match continues the run in which it is tried; therefore a rule does, and a pass, and all
passes of a derivation.

So an idle pass leaves everything as it was. It also tells that nothing is left to be derived: of each
match of a rule, an edge of the same id is stored, `DerivationRun.exists_slot_of_idle_pass`.

The rules need not come from a text, and nothing is asked of ids and types.
-/

namespace PatternGraph

/-- An edge as rules derive it: between two different vertices, of the types that one of them gives, and
with an account of how it came about. -/
structure Rule.MayDerive (rules : List Rule) (e : Edge) : Prop where
  differ : e.source ≠ e.target
  types : ∃ r ∈ rules, e.types = .normalized r.effect.types.names
  derived : e.derivation ≠ []

namespace DerivationRun

variable {rules : List Rule} {run next last : DerivationRun Graph} {r : Rule} {m : Match}
  {ms : List Match}

/-- A run has added and counted some edges that the rules may derive, since it was another run. -/
structure Continues (rules : List Rule) (run next : DerivationRun Graph) : Prop where
  wellFormed : next.store.WellFormed
  vertices : next.store.vertices = run.store.vertices
  edges : ∃ new, next.store.allEdges = run.store.allEdges ++ new ∧
    next.added = run.added + new.length ∧ ∀ e ∈ new, Rule.MayDerive rules e
  /-- If no edge was added, nothing else has happened either. -/
  idle : next.added = run.added → next = run

theorem continues_refl (h : run.store.WellFormed) : Continues rules run run :=
  ⟨h, rfl, ⟨[], (List.append_nil _).symm, rfl, nofun⟩, fun _ => rfl⟩

theorem Continues.added_le (h : Continues rules run next) : run.added ≤ next.added := by
  obtain ⟨new, -, hcount, -⟩ := h.edges
  rw [hcount]
  exact Nat.le_add_right _ _

theorem Continues.trans (h : Continues rules run next) (h' : Continues rules next last) :
    Continues rules run last where
  wellFormed := h'.wellFormed
  vertices := h'.vertices.trans h.vertices
  edges := by
    obtain ⟨new, hnew, hcount, hmay⟩ := h.edges
    obtain ⟨new', hnew', hcount', hmay'⟩ := h'.edges
    refine ⟨new ++ new', ?_, ?_, List.forall_mem_append.2 ⟨hmay, hmay'⟩⟩
    · rw [hnew', hnew, List.append_assoc]
    · rw [hcount', hcount, List.length_append, Nat.add_assoc]
  idle hidle := by
    have hle := h.added_le
    have hle' := h'.added_le
    rw [h'.idle (by omega), h.idle (by omega)]

/-! ### What each step does -/

theorem continues_addMatch (h : run.store.WellFormed) (hr : r ∈ rules) (hm : Anchored run.store m)
    (hne : m.vertex r.effect.source ≠ m.vertex r.effect.target) :
    Continues rules run (run.addMatch .standard r m) := by
  rcases addMatch_cases (r := r) hm with ⟨-, heq⟩ | ⟨source, target, hslot, hsource, htarget, heq⟩
  · rw [heq]
    exact continues_refl h
  · rw [heq]
    have hmay : Rule.MayDerive rules (edgeOf r m) := ⟨hne, ⟨r, hr, rfl⟩, List.cons_ne_nil _ _⟩
    exact ⟨h.withEdge hslot normalize_edgeOf hsource htarget, rfl,
      ⟨[edgeOf r m], h.allEdges_withEdge _ _ _, rfl, List.forall_mem_singleton.2 hmay⟩,
      fun hidle => absurd hidle (Nat.succ_ne_self _)⟩

theorem continues_foldl_addMatch (h : run.store.WellFormed) (hr : r ∈ rules)
    (hms : ∀ m ∈ ms, Anchored run.store m ∧ m.vertex r.effect.source ≠ m.vertex r.effect.target) :
    Continues rules run (ms.foldl (addMatch .standard r) run) := by
  induction ms generalizing run with
  | nil => exact continues_refl h
  | cons m ms ih =>
    obtain ⟨⟨hm, hne⟩, hms⟩ := List.forall_mem_cons.1 hms
    have hfirst := continues_addMatch h hr hm hne
    refine hfirst.trans (ih hfirst.wellFormed fun m' hm' => ?_)
    exact ⟨(hms m' hm').1.congr hfirst.vertices, (hms m' hm').2⟩

theorem anchored_and_differ (hm : m ∈ r.matchesIn run.store) :
    Anchored run.store m ∧ m.vertex r.effect.source ≠ m.vertex r.effect.target :=
  ⟨Rule.anchored_of_mem_matchesIn hm, (Rule.mem_matchesIn.1 hm).2⟩

theorem continues_applyRule (h : run.store.WellFormed) (hr : r ∈ rules) :
    Continues rules run (run.applyRule .standard r) := by
  rw [applyRule_eq_foldl h]
  exact continues_foldl_addMatch h hr fun _ => anchored_and_differ

theorem continues_foldl_applyRule {chosen : List Rule} (h : run.store.WellFormed)
    (hchosen : ∀ r ∈ chosen, r ∈ rules) :
    Continues rules run (chosen.foldl (applyRule .standard) run) := by
  induction chosen generalizing run with
  | nil => exact continues_refl h
  | cons r chosen ih =>
    obtain ⟨hr, hchosen⟩ := List.forall_mem_cons.1 hchosen
    have hfirst := continues_applyRule h hr
    exact hfirst.trans (ih hfirst.wellFormed hchosen)

theorem continues_pass (h : run.store.WellFormed) (rules : List Rule) :
    Continues rules run (run.pass .standard rules) :=
  continues_foldl_applyRule h fun _ => id

theorem continues_passes (h : run.store.WellFormed) (rules : List Rule) (maxPasses : Nat) :
    Continues rules run (passes .standard rules maxPasses run).2 :=
  passes_preserve (P := Continues rules run)
    (fun _ hrun => hrun.trans (continues_pass hrun.wellFormed rules)) maxPasses (continues_refl h)

/-! ### What an idle step tells -/

theorem exists_slot_of_idle_addMatch (hm : Anchored run.store m)
    (hidle : (run.addMatch .standard r m).added = run.added) :
    ∃ slot, run.store.edges.slot? (edgeOf r m).id = some slot := by
  rcases addMatch_cases (r := r) hm with ⟨hslot, -⟩ | ⟨source, target, -, -, -, heq⟩
  · exact hslot
  · rw [heq] at hidle
    exact absurd hidle (Nat.succ_ne_self _)

theorem exists_slot_of_idle_foldl (h : run.store.WellFormed)
    (hms : ∀ m ∈ ms, Anchored run.store m ∧ m.vertex r.effect.source ≠ m.vertex r.effect.target)
    (hidle : (ms.foldl (addMatch .standard r) run).added = run.added) :
    ∀ m ∈ ms, ∃ slot, run.store.edges.slot? (edgeOf r m).id = some slot := by
  induction ms with
  | nil => exact nofun
  | cons m ms ih =>
    obtain ⟨⟨hm, hne⟩, hms⟩ := List.forall_mem_cons.1 hms
    rw [List.foldl_cons] at hidle
    have hfirst : (run.addMatch .standard r m).added = run.added := by
      refine Nat.le_antisymm ?_ (added_le_addMatch r run m)
      rw [← hidle]
      exact added_le_foldl_addMatch r _ ms
    rw [(continues_addMatch h (List.mem_singleton_self r) hm hne).idle hfirst] at hidle
    exact List.forall_mem_cons.2 ⟨exists_slot_of_idle_addMatch hm hfirst, ih hms hidle⟩

theorem exists_slot_of_idle_applyRule (h : run.store.WellFormed)
    (hidle : (run.applyRule .standard r).added = run.added) :
    ∀ m ∈ r.matchesIn run.store, ∃ slot, run.store.edges.slot? (edgeOf r m).id = some slot := by
  rw [applyRule_eq_foldl h] at hidle
  exact exists_slot_of_idle_foldl h (fun _ => anchored_and_differ) hidle

/-- After an idle pass, an edge of the same id is stored for each match of a rule. -/
theorem exists_slot_of_idle_pass (h : run.store.WellFormed)
    (hidle : (run.pass .standard rules).added = run.added) :
    ∀ r ∈ rules, ∀ m ∈ r.matchesIn run.store,
      ∃ slot, run.store.edges.slot? (edgeOf r m).id = some slot := by
  induction rules with
  | nil => exact nofun
  | cons r rules ih =>
    rw [DerivationRun.pass, List.foldl_cons, ← DerivationRun.pass] at hidle
    have hfirst : (run.applyRule .standard r).added = run.added := by
      refine Nat.le_antisymm ?_ (added_le_applyRule run r)
      rw [← hidle]
      exact added_le_pass rules _
    rw [(continues_applyRule h (List.mem_singleton_self r)).idle hfirst] at hidle
    exact List.forall_mem_cons.2 ⟨exists_slot_of_idle_applyRule h hfirst, ih hidle⟩

end DerivationRun

end PatternGraph
