import Mathlib.Data.List.Find
import Mathlib.Tactic.Ring
import PatternGraph.Proofs.Query.Agreement
import PatternGraph.Proofs.Query.Plan

/-!
# Resuming a query

A query that starts from some ids finds a slice of what it finds without them: the paths that begin at
a vertex with one of the ids, in the order in which they stand there. Nothing else changes, although
the engine runs every step on fewer vertices and may stop where it went on before.

There are two reasons. The walks from the ids are the walks that begin there, in the order of all
walks, `Walk.enumerate_eq_filter`. And of the walks that return the same ids the same one is kept: the
first node of a pattern is returned, so these walks begin at the same vertex, and the ids to start from
take all of them or none, `Walk.kept_filter`.
-/

namespace PatternGraph

/-- Whether a path begins at a vertex with one of some ids. -/
def MatchedPath.startsIn (path : MatchedPath) (ids : List String) : Bool :=
  path.vertices.head?.any fun v => ids.contains v.id

/-- What a plan finds in a graph, from some ids or from anywhere, is said by what it finds from
anywhere. -/
structure Plan.Slices (g : Graph) (p : Plan) (found : Option (List String) → List MatchedPath) :
    Prop where
  /-- The plan finds these paths and leaves the graph as it is. -/
  runs : ∀ start, p.run .paths start g = (.ok (.paths (found start)), g)
  /-- A path begins at a stored vertex, -/
  begins : ∀ path ∈ found none, ∃ v ∈ g.allVertices, path.vertices.head? = some v
  /-- and no path is found twice. -/
  nodup : (found none).Nodup
  /-- From some ids the plan finds the paths that begin there, in their order. -/
  slice : ∀ ids, found (some ids) = (found none).filter (·.startsIn ids)
  /-- From ids in parts, such that every path begins in exactly one part, it finds every path once. -/
  parts : ∀ parts : List (List String), (∀ path ∈ found none, parts.countP path.startsIn = 1) →
    (parts.flatMap fun ids => found (some ids)).Perm (found none)

/-! ### Walks from some ids -/

namespace Walk

variable {g : Graph} {step : Step} {steps : List Step}

/-- Whether a walk begins at an id to start from. -/
def startsAt (start : String → Bool) (w : Walk) : Bool := w.head?.all fun h => start h.entry

/-- The walks from the ids that are allowed are those of all walks that begin there. -/
theorem enumerate_eq_filter (steps : List Step) (start : String → Bool) :
    enumerate g steps start = (enumerate g steps fun _ => true).filter (startsAt start) := by
  cases steps with
  | nil => rfl
  | cons step steps =>
    rw [enumerate, enumerate, List.filter_true, List.filter_flatMap]
    -- reading by reading: a reading whose entry is not allowed has no walks on either side
    induction step.readings g with
    | nil => rfl
    | cons h hs ih =>
      rw [List.flatMap_cons, ← ih, List.filter_cons]
      split
      · next hstart =>
        have hall : ((enumerate g steps (· == h.exit)).map (h :: ·)).filter (startsAt start) =
            (enumerate g steps (· == h.exit)).map (h :: ·) := by
          refine List.filter_eq_self.2 fun w hw => ?_
          obtain ⟨hits, -, rfl⟩ := List.mem_map.1 hw
          exact hstart
        rw [List.flatMap_cons, hall]
      · next hstart =>
        have hnone : ((enumerate g steps (· == h.exit)).map (h :: ·)).filter (startsAt start) = [] := by
          refine List.filter_eq_nil_iff.2 fun w hw hc => ?_
          obtain ⟨hits, -, rfl⟩ := List.mem_map.1 hw
          exact hstart hc
        rw [hnone, List.nil_append]

/-- If the first node is returned, the first id that a walk returns is the one at which it begins. -/
theorem head?_returned (hleft : step.left.returned = true) (w : Walk) :
    (returned (step :: steps) w).head? = w.head?.map Hit.entry := by
  cases w with
  | nil => rfl
  | cons h hs => simp [returned, hleft]

theorem startsAt_eq (hleft : step.left.returned = true) (start : String → Bool) (w : Walk) :
    w.startsAt start = (w.returned (step :: steps)).head?.all start := by
  rw [head?_returned hleft, Option.all_map]
  rfl

/-- What is kept of some walks is kept of a part of them that has all walks that return the same ids, or
none of them. -/
theorem kept_filter {walks : List Walk} {p : Walk → Bool}
    (hp : ∀ w w' : Walk, w.returned steps = w'.returned steps → p w = p w') :
    kept steps (walks.filter p) = (kept steps walks).filter p := by
  rw [kept, kept, List.filter_filter, List.filter_filter]
  refine List.filter_congr fun w _ => ?_
  cases hw : p w with
  | false => simp
  | true =>
    have hsame : walks.find? (fun w' => decide (p w' = true ∧ (decide (w'.returned steps =
        w.returned steps)) = true)) = walks.find? fun w' => w'.returned steps = w.returned steps := by
      refine List.find?_congr fun w' _ => ?_
      by_cases hr : w'.returned steps = w.returned steps
      · simp [hr, hp w' w hr, hw]
      · simp [hr]
    rw [List.find?_filter, hsame, Bool.and_true, Bool.true_and]

/-- If the first node is returned, the walks that are kept of those from some ids are those that begin
there of the walks that are kept. -/
theorem kept_enumerate (hleft : step.left.returned = true) (start : String → Bool) :
    kept (step :: steps) (enumerate g (step :: steps) start) =
      (kept (step :: steps) (enumerate g (step :: steps) fun _ => true)).filter (startsAt start) := by
  rw [enumerate_eq_filter]
  refine kept_filter fun w w' hsame => ?_
  rw [startsAt_eq hleft, startsAt_eq hleft, hsame]

/-- Walks that are kept and return the same ids are the same. -/
theorem eq_of_mem_kept {walks : List Walk} {w w' : Walk} (hw : w ∈ kept steps walks)
    (hw' : w' ∈ kept steps walks) (h : w.returned steps = w'.returned steps) : w = w' := by
  have hfind := of_decide_eq_true (List.mem_filter.1 hw).2
  have hfind' := of_decide_eq_true (List.mem_filter.1 hw').2
  rw [h] at hfind
  exact Option.some.inj (hfind.symm.trans hfind')

/-! ### Paths from some ids -/

/-- A path begins at the vertex at which its walk does. -/
theorem head?_ids_shown (h : g.WellFormed) (hleft : step.left.returned = true) {w : Walk}
    (hw : Follows g (step :: steps) w) :
    (shown g.vertex? (step :: steps) w).vertices.head?.map Vertex.id = w.head?.map Hit.entry := by
  rw [← List.head?_map, ids_shown h hw, head?_returned hleft]

theorem exists_head_shown (h : g.WellFormed) (hleft : step.left.returned = true) {w : Walk}
    (hw : Follows g (step :: steps) w) :
    ∃ v ∈ g.allVertices, (shown g.vertex? (step :: steps) w).vertices.head? = some v := by
  have hhead := head?_ids_shown h hleft hw
  cases w with
  | nil => cases hw
  | cons hit hits =>
    obtain ⟨v, hv, -⟩ := Option.map_eq_some_iff.1 hhead
    obtain ⟨id, hid⟩ := exists_known_of_shown (List.mem_of_mem_head? hv)
    exact ⟨v, h.mem_allVertices_of_vertex? hid, hv⟩

theorem startsIn_shown (h : g.WellFormed) (hleft : step.left.returned = true) {w : Walk}
    (hw : Follows g (step :: steps) w) (ids : List String) :
    (shown g.vertex? (step :: steps) w).startsIn ids = w.startsAt (Step.allowed (some ids)) := by
  have hids : (shown g.vertex? (step :: steps) w).startsIn ids =
      (w.head?.map Hit.entry).any ids.contains := by
    rw [← head?_ids_shown h hleft hw, Option.any_map]
    rfl
  rw [hids]
  cases w with
  | nil => cases hw
  | cons hit hits => rfl

end Walk

/-! ### Ids in parts -/

/-- The members of a list, part by part, if each belongs to one of the parts. -/
theorem perm_flatMap_filter {α β : Type} [DecidableEq α] {p : α → β → Bool} {parts : List β}
    {as : List α} (h : ∀ a ∈ as, parts.countP (p a) = 1) :
    (parts.flatMap fun b => as.filter (p · b)).Perm as := by
  -- a member stands as often in the parts as there are parts that it belongs to
  have hcount : ∀ (a : α) (parts : List β),
      (parts.flatMap fun b => as.filter (p · b)).count a = parts.countP (p a) * as.count a := by
    intro a parts
    induction parts with
    | nil => simp
    | cons b parts ih =>
      rw [List.flatMap_cons, List.count_append, ih, List.countP_cons]
      cases hb : p a b with
      | true =>
        rw [List.count_filter (p := (p · b)) hb, if_pos rfl]
        ring
      | false =>
        rw [List.count_eq_zero.2 fun hmem => by simp [hb] at hmem]
        simp
  refine List.perm_iff_count.2 fun a => ?_
  by_cases ha : a ∈ as
  · rw [hcount, h a ha, Nat.one_mul]
  · rw [hcount, List.count_eq_zero.2 ha, Nat.mul_zero]

/-- A node that a pattern may start with is returned. -/
theorem NodeTest.returned_ofNode {n : PatternNode} (h : n.kind.canStart = true) :
    (ofNode n).returned = true := by
  unfold ofNode
  cases hkind : n.kind with
  | typed types => rfl
  | described name types => rfl
  | identified name => rfl
  | group => rfl
  | anonymous =>
    rw [hkind] at h
    cases h

namespace Plan

variable {g : Graph}

/-- A plan whose first node is returned finds slices. -/
theorem slices_of_returned (h : g.WellFormed) {p : Plan} {step : Step} {steps : List Step}
    (hsteps : p.steps = step :: steps) (hleft : step.left.returned = true) :
    ∃ found, p.Slices g found := by
  have hrun := run_paths_eq h (p := p) (by rw [hasSteps, hsteps]; rfl)
  rw [hsteps] at hrun
  have hslice : ∀ ids, (Walk.kept (step :: steps) (Walk.enumerate g (step :: steps)
        (Step.allowed (some ids)))).map (Walk.shown g.vertex? (step :: steps)) =
      ((Walk.kept (step :: steps) (Walk.enumerate g (step :: steps) (Step.allowed none))).map
        (Walk.shown g.vertex? (step :: steps))).filter (·.startsIn ids) := by
    intro ids
    rw [Walk.kept_enumerate hleft, List.filter_map]
    refine congrArg (List.map _) (List.filter_congr fun w hw => ?_)
    exact (Walk.startsIn_shown h hleft (Walk.follows_of_mem_kept hw) ids).symm
  refine ⟨_, hrun, fun path hpath => ?begins, ?nodup, hslice, fun parts hparts => ?parts⟩
  case begins =>
    obtain ⟨w, hw, rfl⟩ := List.mem_map.1 hpath
    exact Walk.exists_head_shown h hleft (Walk.follows_of_mem_kept hw)
  case nodup =>
    refine ((Walk.nodup_enumerate h _ _).filter _).map_on fun w hw w' hw' hsame => ?_
    refine Walk.eq_of_mem_kept hw hw' ?_
    rw [← Walk.ids_shown h (Walk.follows_of_mem_kept hw),
      ← Walk.ids_shown h (Walk.follows_of_mem_kept hw'), hsame]
  case parts =>
    simp only [hslice]
    exact perm_flatMap_filter hparts

/-- In every graph of a history, for every text that is read as a pattern of at least one relationship:
from some ids, which may be unknown and may be repeated, the query finds those of the paths that it
finds from anywhere that begin at one of the ids, in the same order. So if ids are given in parts, one
query for each part, every path is found once. -/
theorem slices_after (changes : List Change) {text : String} {p : Pattern}
    (hparse : Pattern.parse text = .ok p) (hlinks : p.links ≠ []) :
    ∃ found, p.plan.Slices (Graph.after changes) found := by
  obtain ⟨first, rest, -, hstart, -, rfl⟩ := Pattern.parse_eq_ok.1 hparse
  have hrest : rest ≠ [] := by
    rintro rfl
    exact hlinks (List.map_eq_nil_iff.1 (Pattern.map_toLink_links (Pattern.chain_ofParts first [])))
  obtain ⟨n, part, parts, hplan, rfl, -⟩ := exists_chain_ofParts first hrest
  obtain ⟨step, steps, hsteps, hleft⟩ := Step.exists_head_ofChain n part parts
  rw [hplan]
  refine slices_of_returned (Graph.wellFormed_after changes) hsteps ?_
  rw [hleft, NodeTest.returned_ofNode hstart]

/-- The query for what a server hosts. -/
def hosted : Pattern :=
  .ofParts (.typed ["server"])
    [(⟨.typed ["hosts"] false, ⟨.bonded, .absent⟩, ⟨.bonded, .right⟩⟩, .group)]

/-- The query in a graph of two servers that host one vertex. -/
theorem slices_after_hosts :
    let changes : List Change :=
      [.addVertex (.of "a" "A" ["server"]), .addVertex (.of "b" "B" ["server"]),
        .addVertex (.of "c" "C" []), .addEdge (.of "a" "c" ["hosts"]), .addEdge (.of "b" "c" ["hosts"])]
    Pattern.parse "?(server)-[hosts]->(*)" = .ok hosted ∧ hosted.links ≠ [] ∧
      ∃ found, hosted.plan.Slices (Graph.after changes) found := by
  intro changes
  have hparse : Pattern.parse "?(server)-[hosts]->(*)" = .ok hosted := by decide +kernel
  have hlinks : hosted.links ≠ [] := by decide
  exact ⟨hparse, hlinks, slices_after changes hparse hlinks⟩

end Plan

end PatternGraph
