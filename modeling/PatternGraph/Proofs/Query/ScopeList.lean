import PatternGraph.Proofs.Query.Agreement

/-!
# A scope list is made from the paths

A query answers with paths or with a list of vertices. The two answers to one query go together:
`Plan.run_scopeList_after` says that the list of vertices is what stands on the paths, path by path, of
each id the first.

A chain shows one path for all walks that return the same ids. No vertex is lost by that, and none of
what it leaves out is shown otherwise: a vertex is on the list just if it stands at a returned node of
some walk, be it one whose path is shown or not. A query for a single node never drops anything, since
the vertices that it finds have different ids.
-/

namespace PatternGraph

section FirstOfEach

variable {α κ : Type} [DecidableEq κ] {key : α → κ}

/-- To keep the first of each key is to drop what has the key of a member before. -/
theorem firstOfEach_eq_eraseDupsBy (as : List α) (seen : List κ) :
    firstOfEach key as seen =
      (as.filter fun a => key a ∉ seen).eraseDupsBy fun a b => key a == key b := by
  induction as generalizing seen with
  | nil => rfl
  | cons a as ih =>
    by_cases hk : key a ∈ seen
    · rw [List.filter_cons_of_neg (by simpa using hk), ← ih]
      simp only [firstOfEach, if_pos hk]
    · rw [List.filter_cons_of_pos (by simpa using hk), List.eraseDupsBy_cons, List.filter_filter]
      simp only [firstOfEach, if_neg hk, ih]
      congr 2
      refine List.filter_congr fun b _ => ?_
      simp [not_or]

theorem firstOfEach_nil (as : List α) :
    firstOfEach key as [] = as.eraseDupsBy fun a b => key a == key b := by
  rw [firstOfEach_eq_eraseDupsBy, List.filter_eq_self.2]
  intro a _
  simp

/-- Where no key comes twice, nothing is dropped. -/
theorem eraseDupsBy_of_nodup {as : List α} (h : (as.map key).Nodup) :
    as.eraseDupsBy (fun a b => key a == key b) = as := by
  rw [← firstOfEach_nil, firstOfEach_of_nodup (p := fun _ => true) h (by simp), List.filter_true]

/-- Where a key has one member, no member is lost. -/
theorem mem_firstOfEach {as : List α} (h : ∀ a ∈ as, ∀ b ∈ as, key a = key b → a = b)
    {seen : List κ} {a : α} : a ∈ firstOfEach key as seen ↔ a ∈ as ∧ key a ∉ seen := by
  induction as generalizing seen with
  | nil => simp [firstOfEach]
  | cons b as ih =>
    have has : ∀ a ∈ as, ∀ b ∈ as, key a = key b → a = b := fun a ha c hc =>
      h a (List.mem_cons_of_mem b ha) c (List.mem_cons_of_mem b hc)
    by_cases hk : key b ∈ seen
    · simp only [firstOfEach, if_pos hk, ih has, List.mem_cons]
      constructor
      · rintro ⟨ha, hka⟩
        exact ⟨.inr ha, hka⟩
      · rintro ⟨rfl | ha, hka⟩
        · exact absurd hk hka
        · exact ⟨ha, hka⟩
    · simp only [firstOfEach, if_neg hk, List.mem_cons, ih has, not_or]
      constructor
      · rintro (rfl | ⟨ha, -, hka⟩)
        · exact ⟨.inl rfl, hk⟩
        · exact ⟨.inr ha, hka⟩
      · rintro ⟨rfl | ha, hka⟩
        · exact .inl rfl
        · by_cases hab : key a = key b
          · exact .inl (h a (List.mem_cons_of_mem b ha) b List.mem_cons_self hab)
          · exact .inr ⟨ha, hab, hka⟩

end FirstOfEach

namespace Walk

variable {g : Graph}

/-- The vertices that are shown are stored. -/
theorem vertex?_of_mem_shown (h : g.WellFormed) {steps : List Step} {w : Walk} {v : Vertex}
    (hv : v ∈ (shown g.vertex? steps w).vertices) : g.vertex? v.id = some v := by
  obtain ⟨id, hid⟩ := exists_known_of_shown hv
  rwa [h.id_of_vertex? hid]

end Walk

namespace Plan

variable {g : Graph} {p : Plan}

/-- The paths along some steps, of the walks that are kept. -/
def pathsAlong (g : Graph) (steps : List Step) (start : Option (List String)) : List MatchedPath :=
  (Walk.kept steps (Walk.enumerate g steps (Step.allowed start))).map (Walk.shown g.vertex? steps)

/-- The answers of a chain in all modes are made from the same paths. -/
theorem run_eq_ofPaths (h : g.WellFormed) (hsteps : p.hasSteps = true) (mode : OutputMode)
    (start : Option (List String)) :
    p.run mode start g = (.ok (.ofPaths mode (pathsAlong g p.steps start)), g) := by
  obtain ⟨found, hfound⟩ : ∃ found, ∀ mode, p.run mode start g = (.ok (.ofPaths mode found), g) := by
    have hrun : ∀ mode, p.run mode start g = runSteps mode p.steps start g := by
      intro mode
      rw [run, if_pos hsteps]
    exact ⟨_, fun mode => ((hrun mode).trans (runSteps_eq h mode p.steps start)).trans rfl⟩
  have hpaths := (hfound .paths).symm.trans (run_paths_eq h hsteps start)
  obtain rfl : found = pathsAlong g p.steps start := by
    simpa [Answer.ofPaths, pathsAlong] using hpaths
  exact hfound mode

/-- No vertex is lost with the walks whose paths are not shown. -/
theorem mem_pathsAlong (h : g.WellFormed) {steps : List Step} {start : Option (List String)}
    {v : Vertex} : v ∈ (pathsAlong g steps start).flatMap MatchedPath.vertices ↔
      v ∈ g.allVertices ∧ ∃ w, Walk.IsWalk g steps start w ∧ v.id ∈ w.returned steps := by
  simp only [pathsAlong, List.mem_flatMap, List.mem_map, h.mem_allVertices_iff]
  constructor
  · rintro ⟨_, ⟨w, hw, rfl⟩, hv⟩
    refine ⟨Walk.vertex?_of_mem_shown h hv, w, ?_, ?_⟩
    · exact Walk.mem_enumerate_allowed.1 (List.mem_filter.1 hw).1
    · rw [← Walk.ids_shown h (Walk.follows_of_mem_kept hw)]
      exact List.mem_map_of_mem hv
  · rintro ⟨hv, w, hw, hid⟩
    obtain ⟨w', hw', hsame⟩ := Walk.exists_kept steps (Walk.mem_enumerate_allowed.2 hw)
    refine ⟨_, ⟨w', hw', rfl⟩, ?_⟩
    rw [← hsame, ← Walk.ids_shown h (Walk.follows_of_mem_kept hw')] at hid
    obtain ⟨v', hv', he⟩ := List.mem_map.1 hid
    have hstored := Walk.vertex?_of_mem_shown h hv'
    rw [he, hv] at hstored
    exact Option.some.inj hstored ▸ hv'

/-- Some vertices are the scope list that goes with the paths of a plan. -/
structure Flattens (g : Graph) (p : Plan) (start : Option (List String)) (paths : List MatchedPath)
    (vertices : List Vertex) : Prop where
  runs_paths : p.run .paths start g = (.ok (.paths paths), g)
  runs_scopeList : p.run .scopeList start g = (.ok (.scopeList vertices), g)
  /-- The vertices are those on the paths, of each id the first. -/
  vertices_eq : vertices = (paths.flatMap MatchedPath.vertices).eraseDupsBy fun v w => v.id == w.id
  /-- In a chain, they are the stored vertices at a returned node of any walk. -/
  mem_iff : p.steps ≠ [] → ∀ v, v ∈ vertices ↔
    v ∈ g.allVertices ∧ ∃ w, Walk.IsWalk g p.steps start w ∧ v.id ∈ w.returned p.steps

theorem flattens_of_steps (h : g.WellFormed) (hsteps : p.hasSteps = true)
    (start : Option (List String)) : ∃ paths vertices, p.Flattens g start paths vertices := by
  refine ⟨pathsAlong g p.steps start, _, run_eq_ofPaths h hsteps .paths start,
    run_eq_ofPaths h hsteps .scopeList start, ?_, fun _ v => ?_⟩
  · exact firstOfEach_nil _
  · -- an id has one vertex, so the first of an id stands for all of them
    have hone : ∀ v ∈ (pathsAlong g p.steps start).flatMap MatchedPath.vertices,
        ∀ w ∈ (pathsAlong g p.steps start).flatMap MatchedPath.vertices, v.id = w.id → v = w := by
      intro v hv w hw hid
      have hv' := h.mem_allVertices_iff.1 ((mem_pathsAlong h).1 hv).1
      have hw' := h.mem_allVertices_iff.1 ((mem_pathsAlong h).1 hw).1
      rw [hid, hw'] at hv'
      exact (Option.some.inj hv').symm
    rw [mem_firstOfEach hone, and_iff_left List.not_mem_nil]
    exact mem_pathsAlong h

theorem flattens_of_filter (h : g.WellFormed) (hsteps : p.hasSteps = false)
    (start : Option (List String)) : ∃ paths vertices, p.Flattens g start paths vertices := by
  obtain ⟨hpaths, hlist⟩ := run_of_node (g := g) hsteps start
  refine ⟨_, _, hpaths, hlist, ?_, fun hne => ?_⟩
  · -- the vertices that a filter selects have different ids
    have hids := (h.selects (p.nodeFilter start)).nodup
    have hsingle : ∀ vs : List Vertex, (vs.map MatchedPath.single).flatMap MatchedPath.vertices = vs := by
      intro vs
      induction vs with
      | nil => rfl
      | cons v vs ih => exact congrArg (v :: ·) ih
    rw [hsingle]
    exact (eraseDupsBy_of_nodup hids).symm
  · exact absurd hsteps (by simpa [hasSteps] using hne)

/-- In every graph of a history, every plan gives paths and a scope list. The scope list is what stands
on the paths, path by path, of each id the first. For a chain it holds the stored vertices at a
returned node of any walk, also of those whose path is not shown. -/
theorem run_scopeList_after (changes : List Change) (p : Plan) (start : Option (List String)) :
    ∃ paths vertices, p.Flattens (Graph.after changes) start paths vertices := by
  have h := Graph.wellFormed_after changes
  cases hsteps : p.hasSteps with
  | true => exact flattens_of_steps h hsteps start
  | false => exact flattens_of_filter h hsteps start

end Plan

end PatternGraph
