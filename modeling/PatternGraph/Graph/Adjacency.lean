import Std.Data.TreeMap
import PatternGraph.Graph.SlotSet

/-!
# Edges at vertices

An `Adjacency` holds for each vertex the edges that leave it, or those that enter it: their slots, in
the order in which they were put in. `lookup` is the view of it. Putting an edge in changes the list
of one vertex only, and so does taking one off; a vertex that is taken out takes its list with it.
-/

namespace PatternGraph

/-- The edges at each vertex. -/
structure Adjacency where
  lists : Std.TreeMap Slot (Array Slot) := ∅

namespace Adjacency

instance : EmptyCollection Adjacency := ⟨{}⟩

instance : Inhabited Adjacency := ⟨∅⟩

/-- The edges at a vertex. -/
def lookup (a : Adjacency) (vertex : Slot) : List Slot := (a.lists.getD vertex #[]).toList

/-- Puts an edge behind those at a vertex. -/
def push (a : Adjacency) (vertex edge : Slot) : Adjacency :=
  ⟨a.lists.alter vertex fun edges => some ((edges.getD #[]).push edge)⟩

/-- Takes an edge off a vertex. -/
def erase (a : Adjacency) (vertex edge : Slot) : Adjacency :=
  ⟨a.lists.alter vertex (Option.map fun edges => edges.filter (· != edge))⟩

/-- Takes the list of a vertex away. -/
def clear (a : Adjacency) (vertex : Slot) : Adjacency := ⟨a.lists.erase vertex⟩

/-- The edges at some vertices. -/
def lookupAll (a : Adjacency) (vertices : List Slot) : SlotSet :=
  vertices.foldl (fun found vertex => (a.lookup vertex).foldl SlotSet.insert found) ∅

@[simp] theorem lookup_empty (vertex : Slot) : (∅ : Adjacency).lookup vertex = [] := by
  change ((∅ : Std.TreeMap Slot (Array Slot)).getD vertex #[]).toList = []
  rw [Std.TreeMap.getD_emptyc]

theorem lookup_push (a : Adjacency) (vertex edge v : Slot) :
    (a.push vertex edge).lookup v =
      if v = vertex then a.lookup vertex ++ [edge] else a.lookup v := by
  simp only [lookup, push, Std.TreeMap.getD_eq_getD_getElem?, Std.TreeMap.getElem?_alter,
    Std.compare_eq_iff_eq, eq_comm (a := vertex)]
  split <;> simp

theorem lookup_erase (a : Adjacency) (vertex edge v : Slot) :
    (a.erase vertex edge).lookup v =
      if v = vertex then (a.lookup vertex).filter (· != edge) else a.lookup v := by
  simp only [lookup, erase, Std.TreeMap.getD_eq_getD_getElem?, Std.TreeMap.getElem?_alter,
    Std.compare_eq_iff_eq, eq_comm (a := vertex)]
  split
  · cases a.lists[vertex]? <;> simp
  · rfl

theorem lookup_clear (a : Adjacency) (vertex v : Slot) :
    (a.clear vertex).lookup v = if v = vertex then [] else a.lookup v := by
  simp only [lookup, clear, Std.TreeMap.getD_erase, Std.compare_eq_iff_eq, eq_comm (a := vertex)]
  split <;> rfl

theorem mem_lookupAll {a : Adjacency} {vertices : List Slot} {edge : Slot} :
    edge ∈ a.lookupAll vertices ↔ ∃ vertex ∈ vertices, edge ∈ a.lookup vertex := by
  suffices h : ∀ found : SlotSet,
      edge ∈ vertices.foldl (fun found vertex => (a.lookup vertex).foldl SlotSet.insert found) found ↔
        edge ∈ found ∨ ∃ vertex ∈ vertices, edge ∈ a.lookup vertex by
    simpa [lookupAll] using h ∅
  induction vertices with
  | nil => simp
  | cons vertex vertices ih => simp [ih, or_assoc]

end Adjacency

end PatternGraph
