import PatternGraph.Proofs.Graph.Refinement
import PatternGraph.Repository.Basic

/-!
# What is refused leaves no trace

An operation whose reply says that nothing was done has done nothing: not only are the vertices and
edges the same, but so are the columns, the indexes and the table of types, down to the names that the
refused vertex or edge would have brought. `Reply.Void` names these replies.

So many vertices or edges that are added at once are added up to the first that is refused, and no
further: `Change.KeepsPrefix` says this with the operations that add one. A graph has its own way to
add many; adding them in the way that a repository has for those that have none of their own gives the
same result and the same graph.

A refusal for capacity is not among these replies, since the tables have no limit (see `VertexTable` and
`TypeTable`). It would leave a trace: the types are put into their table one by one, and those of a vertex
before there is a row for it, so that names stay there which came before the first without a number, or
with a vertex that got no row.
-/

namespace PatternGraph

/-- The reply says that nothing was done: the operation was refused, or found nothing to do. -/
def Reply.Void : Reply → Prop
  | .vertexAdded result => ∃ e, result = .error e
  | .edgeAdded result => (∃ e, result = .error e) ∨ ∃ id, result = .ok ⟨id, false⟩
  | .vertexRemoved stored => stored = false
  | .edgeRemoved result => (∃ e, result = .error e) ∨ result = .ok false
  | .compacted result => ∃ e, result = .error e

/-- What comes of adding things at once to the graph of a history, said with the operations that add
one: all of them are added, and each has given its result; or those in front of the first that is
refused are added, and the error is that of the refusal. -/
inductive Change.KeepsPrefix {α β : Type} (change : α → Change)
    (reply : Except GraphError β → Reply) (changes : List Change) (items : List α) :
    Except GraphError (List β) × Graph → Prop
  | all {results : List β}
      (replies : Change.replies (items.map change) (Graph.after changes) =
        results.map fun b => reply (.ok b)) :
      KeepsPrefix change reply changes items (.ok results, Graph.after (changes ++ items.map change))
  | upTo {before rest : List α} {item : α} {results : List β} {e : GraphError}
      (split : items = before ++ item :: rest)
      (replies : Change.replies (before.map change) (Graph.after changes) =
        results.map fun b => reply (.ok b))
      (refused : (change item).reply (Graph.after (changes ++ before.map change)) = reply (.error e)) :
      KeepsPrefix change reply changes items (.error e, Graph.after (changes ++ before.map change))

namespace Action

variable {σ α β : Type}

/-- Gathering gives what was given before, and then what running the action for each member gives. -/
theorem gather_eq (step : α → Action σ β) (as : List α) (given : Array β) (s : σ) :
    gather step as given s =
      ((forEach step as s).1.map (given.toList ++ ·), (forEach step as s).2) := by
  induction as generalizing given s with
  | nil => simp [gather, forEach, Except.map]
  | cons a as ih =>
    rw [gather, forEach]
    rcases step a s with ⟨_ | b, s'⟩
    · rfl
    · simp only [ih]
      rcases forEach step as s' with ⟨_ | bs, s''⟩
      · rfl
      · simp [Except.map]

/-- Both ways to run an action for each member of a list come to the same. -/
theorem gather_eq_forEach (step : α → Action σ β) (as : List α) :
    gather step as #[] = forEach step as := by
  funext s
  rw [gather_eq]
  rcases forEach step as s with ⟨_ | bs, s'⟩
  · rfl
  · rfl

end Action

namespace Graph

variable {g : Graph}

/-! ### One operation -/

/-- The slot of the edge that a text denotes is looked up under some id. -/
theorem exists_id_of_edgeSlot? {text : String} {slot : Slot}
    (h : g.edgeSlot? text = .ok (some slot)) : ∃ id, g.edges.slot? id = some slot := by
  rw [edgeSlot?] at h
  split at h
  · next s hs => exact ⟨text, hs.trans (Except.ok.inj h)⟩
  · split at h
    · next key _ => exact ⟨key.text, Except.ok.inj h⟩
    · cases h

namespace WellFormed

theorem removeEdge_of_void (h : g.WellFormed) {text : String}
    (hvoid : ((Change.removeEdge text).reply g).Void) : (g.removeEdge text).2 = g := by
  cases hslot : g.edgeSlot? text with
  | error e => simp only [Graph.removeEdge, hslot]
  | ok found =>
    cases found with
    | none => simp only [Graph.removeEdge, hslot]
    | some slot =>
      -- a slot that is found holds an edge, so the edge was taken out
      obtain ⟨id, hs⟩ := exists_id_of_edgeSlot? hslot
      rw [Change.reply, h.removeEdge_of_slot hs hslot] at hvoid
      rcases hvoid with ⟨e, he⟩ | he
      · cases he
      · cases he

theorem apply_of_void (h : g.WellFormed) : (c : Change) → (c.reply g).Void → c.apply g = g
  | .addVertex v, hvoid => by
    obtain ⟨e, he⟩ := hvoid
    cases hv : g.vertices.slot? v.id with
    | some slot => rw [Change.apply, addVertex_of_stored hv]
    | none =>
      rw [addVertex_of_new hv] at he
      cases he
  | .addEdge e, hvoid => by
    rcases g.addEdge_cases e with heq | ⟨error, heq⟩ | ⟨source, target, -, -, -, heq⟩
    · rw [Change.apply, heq]
    · rw [Change.apply, heq]
    · rw [Change.reply, heq] at hvoid
      rcases hvoid with ⟨error, he⟩ | ⟨id, he⟩
      · cases he
      · exact absurd (Except.ok.inj he) (by simp)
  | .removeVertex id, hvoid => by
    have hstored : id ∉ g.listing.vertexIds := by
      have hreply := h.reply_removeVertex id
      rw [Change.reply, Listing.reply] at hreply
      have hfalse : decide (id ∈ g.listing.vertexIds) = false :=
        (Reply.vertexRemoved.inj hreply).symm.trans hvoid
      exact of_decide_eq_false hfalse
    rw [Change.apply, removeVertex_of_unknown (h.not_mem_vertexIds.1 hstored)]
  | .removeEdge text, hvoid => h.removeEdge_of_void hvoid
  | .compact, hvoid => by
    obtain ⟨e, he⟩ := hvoid
    obtain ⟨g', hcompact, -, -⟩ := h.compact_spec
    rw [hcompact] at he
    cases he

end WellFormed

/-! ### Many operations -/

theorem after_append_singleton (changes : List Change) (c : Change) :
    after (changes ++ [c]) = c.apply (after changes) := by
  rw [after, List.foldl_append]
  rfl

end Graph

namespace Change.KeepsPrefix

variable {α β : Type} {change : α → Change} {reply : Except GraphError β → Reply}
  {changes : List Change} {items : List α}

theorem nil : KeepsPrefix change reply changes [] (.ok [], Graph.after changes) := by
  have h : KeepsPrefix change reply changes []
      (.ok [], Graph.after (changes ++ [].map change)) := .all List.map_nil.symm
  rwa [List.map_nil, List.append_nil] at h

/-- The first is refused, so none is added. -/
theorem refusal {a : α} {e : GraphError}
    (hstep : (change a).reply (Graph.after changes) = reply (.error e)) :
    KeepsPrefix change reply changes (a :: items) (.error e, Graph.after changes) := by
  have hnone : changes ++ [].map change = changes := by rw [List.map_nil, List.append_nil]
  have h : KeepsPrefix change reply changes (a :: items)
      (.error e, Graph.after (changes ++ [].map change)) :=
    .upTo rfl List.map_nil.symm (by rwa [hnone])
  rwa [hnone] at h

/-- The first is added, and then as many of the others as can be. -/
theorem cons {a : α} {b : β} (hstep : (change a).reply (Graph.after changes) = reply (.ok b))
    {result : Except GraphError (List β)} {g : Graph}
    (h : KeepsPrefix change reply (changes ++ [change a]) items (result, g)) :
    KeepsPrefix change reply changes (a :: items) (result.map (b :: ·), g) := by
  have hreplies : ∀ {before : List α} {results : List β},
      replies (before.map change) (Graph.after (changes ++ [change a])) =
        (results.map fun b => reply (.ok b)) →
      replies ((a :: before).map change) (Graph.after changes) =
        ((b :: results).map fun b => reply (.ok b)) := by
    intro before results hrest
    rw [List.map_cons, replies, hstep, ← Graph.after_append_singleton, hrest, List.map_cons]
  have hchanges : ∀ before : List α, changes ++ [change a] ++ before.map change =
      changes ++ (a :: before).map change := fun before => List.append_assoc ..
  cases h with
  | all replies =>
    rw [hchanges]
    exact .all (hreplies replies)
  | upTo split replies refused =>
    rw [hchanges] at refused ⊢
    exact .upTo (congrArg (a :: ·) split) (hreplies replies) refused

/-- An action that adds one thing, and leaves the graph as it is when it refuses, adds many things up
to the first that is refused. -/
theorem of_forEach {add : α → Action Graph β}
    (hreply : ∀ a g, (change a).reply g = reply (add a g).1)
    (happly : ∀ a g, (change a).apply g = (add a g).2) (hvoid : ∀ e, (reply (.error e)).Void)
    (changes : List Change) (items : List α) :
    KeepsPrefix change reply changes items (Action.forEach add items (Graph.after changes)) := by
  induction items generalizing changes with
  | nil => exact nil
  | cons a items ih =>
    have hstep := hreply a (Graph.after changes)
    have hnext := happly a (Graph.after changes)
    rw [Action.forEach]
    rcases hadd : add a (Graph.after changes) with ⟨e | b, g⟩
    · rw [hadd] at hstep hnext
      have hvoid' : ((change a).reply (Graph.after changes)).Void := hstep ▸ hvoid e
      have hkept : g = Graph.after changes :=
        hnext.symm.trans ((Graph.wellFormed_after changes).apply_of_void (change a) hvoid')
      rw [hkept]
      exact refusal hstep
    · rw [hadd] at hstep hnext
      have hmany := ih (changes ++ [change a])
      rw [Graph.after_append_singleton, hnext] at hmany
      simp only
      rcases hrest : Action.forEach add items g with ⟨_ | bs, g'⟩
      · rw [hrest] at hmany
        exact hmany.cons hstep
      · rw [hrest] at hmany
        exact hmany.cons hstep

end Change.KeepsPrefix

/-- In every graph of a history, an operation whose reply says that nothing was done leaves the graph as
it is, with all columns, indexes and names of types. And vertices or edges that are added at once are
added one by one up to the first that is refused, be it in the way of the graph, as a repository, or in
the way of repositories that have none of their own. -/
theorem Graph.refusals_after (changes : List Change) :
    (∀ c : Change, (c.reply (after changes)).Void → c.apply (after changes) = after changes) ∧
    (∀ vertices : List Vertex,
      Change.KeepsPrefix .addVertex .vertexAdded changes vertices
          (addVertices vertices (after changes)) ∧
        Repository.addVertices vertices (after changes) = addVertices vertices (after changes) ∧
        Action.gather Repository.addVertex vertices #[] (after changes) =
          addVertices vertices (after changes)) ∧
    ∀ edges : List Edge,
      Change.KeepsPrefix .addEdge .edgeAdded changes edges (addEdges edges (after changes)) ∧
        Repository.addEdges edges (after changes) = addEdges edges (after changes) ∧
        Action.gather Repository.addEdge edges #[] (after changes) =
          addEdges edges (after changes) := by
  refine ⟨(wellFormed_after changes).apply_of_void, fun vertices => ⟨?_, rfl, ?_⟩,
    fun edges => ⟨?_, rfl, ?_⟩⟩
  · exact .of_forEach (fun _ _ => rfl) (fun _ _ => rfl) (by exact fun e => ⟨e, rfl⟩) changes vertices
  · rw [Action.gather_eq_forEach]
    rfl
  · exact .of_forEach (fun _ _ => rfl) (fun _ _ => rfl) (by exact fun e => .inl ⟨e, rfl⟩) changes edges
  · rw [Action.gather_eq_forEach]
    rfl

end PatternGraph
