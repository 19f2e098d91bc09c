import PatternGraph.Proofs.Query.Reading

/-!
# A query finds the walks

What a query of several steps asks for, said of whole walks: `Walk.IsWalk` holds of the walks that
take one reading of each step, each of which enters where the one before exits, and that begin at an
id to start from. `Walk.Precedes` is the lexicographic order of walks by the order of the readings.

`Plan.run_paths_after` says that a query answers exactly this. It lists all walks in their order, of
the walks that return the same ids keeps the first, and shows of each the vertices that are returned
and all edges. The engine works otherwise: it runs step after step, remembers the ids at which it has
arrived, and joins what the steps found at the end.

* `Walk.enumerate` lists the walks by recursion on the steps; `mem_enumerate` and
  `pairwise_enumerate` say that these are the walks, in their order.
* `Step.runAll_spans` is the invariant of the engine: what the steps found, joined from any id from
  which they were started, is what the enumeration gives from there. So the answer of some steps is made
  from the walks along them, `Plan.runSteps_eq`.
-/

namespace PatternGraph

namespace Walk

/-- A walk takes one reading of each step, and each enters where the one before exits. -/
def Follows (g : Graph) : List Step → Walk → Prop
  | [], [] => True
  | step :: steps, h :: hs =>
    step.Reads g h ∧ (∀ h' ∈ hs.head?, h'.entry = h.exit) ∧ Follows g steps hs
  | _, _ => False

/-- The walks along some steps, from the ids to start from or else from any vertex. -/
structure IsWalk (g : Graph) (steps : List Step) (start : Option (List String)) (w : Walk) : Prop where
  follows : Follows g steps w
  start : ∀ ids ∈ start, ∀ h ∈ w.head?, h.entry ∈ ids

/-- The lexicographic order of walks along some steps. -/
def Precedes (g : Graph) : List Step → Walk → Walk → Prop
  | step :: steps, h :: hs, h' :: hs' => step.Before g h h' ∨ (h = h' ∧ Precedes g steps hs hs')
  | _, _, _ => False

/-- The ids of the vertices that the steps return. -/
def returned : List Step → Walk → List String
  | step :: steps, h :: hs =>
    (if step.left.returned then [h.entry] else []) ++
      ((step :: steps).zip (h :: hs)).flatMap fun (step, h) =>
        if step.right.returned then [h.exit] else []
  | _, _ => []

/-- The vertex of an id, if a node is returned. -/
def shownAt (known : String → Option Vertex) (t : NodeTest) (id : String) : List PathElement :=
  if t.returned then (known id).toList.map .vertex else []

/-- The vertices that the steps return, and between them all edges. -/
def shown (known : String → Option Vertex) : List Step → Walk → MatchedPath
  | step :: steps, h :: hs =>
    ⟨shownAt known step.left h.entry ++
      ((step :: steps).zip (h :: hs)).flatMap fun (step, h) =>
        .edge h.edge :: shownAt known step.right h.exit⟩
  | _, _ => ⟨[]⟩

/-- Some walks are all the walks along the steps, in lexicographic order. -/
structure Lists (g : Graph) (steps : List Step) (start : Option (List String)) (walks : List Walk) :
    Prop where
  mem_iff : ∀ w, w ∈ walks ↔ IsWalk g steps start w
  ordered : walks.Pairwise (Precedes g steps)

/-- Of the walks that return the same ids, the first. -/
def kept (steps : List Step) (walks : List Walk) : List Walk :=
  walks.filter fun w => walks.find? (fun w' => w'.returned steps = w.returned steps) = some w

/-! ### The enumeration of the walks -/

/-- The walks along some steps in their order, from the ids that are allowed. -/
def enumerate (g : Graph) : List Step → (String → Bool) → List Walk
  | [], _ => [[]]
  | step :: steps, start =>
    ((step.readings g).filter fun h => start h.entry).flatMap fun h =>
      (enumerate g steps (· == h.exit)).map (h :: ·)

variable {g : Graph}

theorem mem_enumerate {steps : List Step} {start : String → Bool} {w : Walk} :
    w ∈ enumerate g steps start ↔
      Follows g steps w ∧ ∀ h ∈ w.head?, start h.entry = true := by
  induction steps generalizing start w with
  | nil =>
    cases w with
    | nil => simp [enumerate, Follows]
    | cons h hs => simp [enumerate, Follows]
  | cons step steps ih =>
    rw [enumerate]
    cases w with
    | nil => simp [Follows]
    | cons h hs =>
      simp only [List.mem_flatMap, List.mem_filter, List.mem_map, List.cons.injEq, ih,
        Step.mem_readings, Follows, beq_iff_eq]
      constructor
      · rintro ⟨h', ⟨hreads, hstart⟩, hs', ⟨hfollows, hjoin⟩, rfl, rfl⟩
        refine ⟨⟨hreads, hjoin, hfollows⟩, ?_⟩
        rintro _ ⟨⟩
        exact hstart
      · rintro ⟨⟨hreads, hjoin, hfollows⟩, hstart⟩
        exact ⟨h, ⟨hreads, hstart h rfl⟩, hs, ⟨hfollows, hjoin⟩, rfl, rfl⟩

theorem mem_enumerate_allowed {steps : List Step} {start : Option (List String)} {w : Walk} :
    w ∈ enumerate g steps (Step.allowed start) ↔ IsWalk g steps start w := by
  simp only [mem_enumerate, Step.allowed_iff]
  constructor
  · rintro ⟨hfollows, hstart⟩
    exact ⟨hfollows, fun ids hids h hh => hstart h hh ids hids⟩
  · rintro ⟨hfollows, hstart⟩
    exact ⟨hfollows, fun h hh ids hids => hstart ids hids h hh⟩

theorem pairwise_enumerate (h : g.WellFormed) (steps : List Step) (start : String → Bool) :
    (enumerate g steps start).Pairwise (Precedes g steps) := by
  induction steps generalizing start with
  | nil => exact List.pairwise_singleton _ _
  | cons step steps ih =>
    refine List.pairwise_flatMap.2 ⟨fun hit _ => ?_, ?_⟩
    · exact List.pairwise_map.2 ((ih _).imp fun hp => .inr ⟨rfl, hp⟩)
    · refine ((Step.pairwise_readings h step).filter _).imp fun hbefore => ?_
      simp only [List.mem_map]
      rintro _ ⟨hs, -, rfl⟩ _ ⟨hs', -, rfl⟩
      exact .inl hbefore

theorem Precedes.irrefl (steps : List Step) (w : Walk) : ¬ Precedes g steps w w := by
  induction steps generalizing w with
  | nil => exact id
  | cons step steps ih =>
    cases w with
    | nil => exact id
    | cons h hs =>
      rintro ((hlt | ⟨-, hlt⟩) | ⟨-, hp⟩)
      · exact Nat.lt_irrefl _ hlt
      · exact Nat.lt_irrefl _ hlt
      · exact ih hs hp

theorem nodup_enumerate (h : g.WellFormed) (steps : List Step) (start : String → Bool) :
    (enumerate g steps start).Nodup := by
  refine (pairwise_enumerate h steps start).imp fun {w w'} hp e => ?_
  subst e
  exact Precedes.irrefl steps w hp

end Walk

/-! ### The engine runs the steps one after another -/

namespace Step

variable {g : Graph}

/-- What some steps found says which walks there are from the ids that they were started from: none,
or those that are joined from the stages. -/
def Spans (g : Graph) (steps : List Step) (start : Option (List String)) :
    Option (List (List Hit)) → Prop
  | none => Walk.enumerate g steps (allowed start) = []
  | some stages => Walk.all stages none = Walk.enumerate g steps (allowed start) ∧
    ∀ id, allowed start id = true → Walk.all stages (some id) = Walk.enumerate g steps (· == id)

/-- Where the steps find no walk from several ids, they find none from one of them. -/
theorem enumerate_eq_nil {steps : List Step} {start : String → Bool} {id : String}
    (h : Walk.enumerate g steps start = []) (hid : start id = true) :
    Walk.enumerate g steps (· == id) = [] := by
  refine List.eq_nil_iff_forall_not_mem.2 fun w hw => ?_
  obtain ⟨hfollows, hhead⟩ := Walk.mem_enumerate.1 hw
  have hmem : w ∈ Walk.enumerate g steps start := by
    refine Walk.mem_enumerate.2 ⟨hfollows, fun h' hh' => ?_⟩
    rw [beq_iff_eq.1 (hhead h' hh'), hid]
  rw [h] at hmem
  exact absurd hmem List.not_mem_nil

theorem runAll_spans (h : g.WellFormed) (steps : List Step) (start : Option (List String)) :
    ∃ found, runAll steps start g = (.ok found, g) ∧ Spans g steps start found := by
  induction steps generalizing start with
  | nil => exact ⟨some [], rfl, rfl, fun _ _ => rfl⟩
  | cons step steps ih =>
    obtain ⟨rest, hrest, hspans⟩ :=
      ih (some (((step.readings g).filter fun hit => allowed start hit.entry).map Hit.exit).eraseDups)
    have hexits : ∀ hit ∈ (step.readings g).filter fun hit => allowed start hit.entry,
        allowed (some (((step.readings g).filter fun hit =>
          allowed start hit.entry).map Hit.exit).eraseDups) hit.exit = true := by
      intro hit hhit
      rw [allowed_iff]
      rintro _ ⟨⟩
      exact List.mem_eraseDups.2 (List.mem_map_of_mem hhit)
    rw [runAll, Action.andThen, run_eq h step start]
    cases hempty : ((step.readings g).filter fun hit => allowed start hit.entry).isEmpty with
    | true =>
      refine ⟨none, by simp only [hempty, if_true]; rfl, ?_⟩
      rw [Spans, Walk.enumerate, List.isEmpty_iff.1 hempty]
      rfl
    | false =>
      simp only [hempty, Bool.false_eq_true, if_false, Action.andThen, hrest, Action.give]
      refine ⟨_, rfl, ?_⟩
      cases rest with
      | none =>
        rw [Option.map_none, Spans, Walk.enumerate, List.flatMap_eq_nil_iff]
        intro hit hhit
        rw [enumerate_eq_nil hspans (hexits hit hhit), List.map_nil]
      | some stages =>
        obtain ⟨-, hjoin⟩ := hspans
        -- both lists continue each reading by the same walks
        have hflat : ∀ p : Hit → Bool,
            (((step.readings g).filter fun hit => allowed start hit.entry).filter p).flatMap
                (fun hit => (Walk.all stages (some hit.exit)).map (hit :: ·)) =
              (((step.readings g).filter fun hit => allowed start hit.entry).filter p).flatMap
                fun hit => (Walk.enumerate g steps (· == hit.exit)).map (hit :: ·) := by
          intro p
          refine List.flatMap_congr fun hit hhit => ?_
          rw [hjoin hit.exit (hexits hit (List.mem_filter.1 hhit).1)]
        refine ⟨?_, fun id hid => ?_⟩
        · rw [Walk.all, hflat, Walk.enumerate]
          congr 1
          exact List.filter_eq_self.2 fun _ _ => rfl
        · rw [Walk.all, hflat, Walk.enumerate, List.filter_filter]
          congr 1
          refine List.filter_congr fun hit _ => ?_
          by_cases he : hit.entry = id
          · simp [he, hid]
          · simp [he]

end Step

/-! ### The paths of the walks -/

namespace Walk

theorem returnedIds_eq (steps : List Step) (w : Walk) :
    returnedIds (Plan.returnedFlags steps) w = returned steps w := by
  have hzip : ∀ (steps : List Step) (hs : Walk),
      (((steps.map (·.right.returned)).zip (hs.map Hit.exit)).filter Prod.fst).map Prod.snd =
        (steps.zip hs).flatMap fun (step, h) => if step.right.returned then [h.exit] else [] := by
    intro steps
    induction steps with
    | nil => exact fun hs => rfl
    | cons step steps ih =>
      intro hs
      cases hs with
      | nil => rfl
      | cons h hs =>
        rw [List.map_cons, List.map_cons, List.zip_cons_cons, List.zip_cons_cons, List.flatMap_cons,
          ← ih hs, List.filter_cons]
        cases hr : step.right.returned <;> simp [hr]
  cases steps with
  | nil => rfl
  | cons step steps =>
    cases w with
    | nil => rfl
    | cons h hs =>
      rw [returned, ← hzip, returnedIds, Plan.returnedFlags, vertexIds, List.zip_cons_cons,
        List.filter_cons]
      cases step.left.returned <;> rfl

theorem path_eq (known : String → Option Vertex) (steps : List Step) (w : Walk) :
    path known (Plan.returnedFlags steps) w = shown known steps w := by
  have hrest : ∀ (steps : List Step) (hs : Walk),
      pathRest known (steps.map (·.right.returned)) hs =
        (steps.zip hs).flatMap fun (step, h) => .edge h.edge :: shownAt known step.right h.exit := by
    intro steps
    induction steps with
    | nil => exact fun hs => rfl
    | cons step steps ih =>
      intro hs
      cases hs with
      | nil => rfl
      | cons h hs =>
        rw [List.map_cons, pathRest, ih hs]
        rfl
  cases steps with
  | nil => rfl
  | cons step steps =>
    cases w with
    | nil => rfl
    | cons h hs =>
      rw [shown, ← hrest]
      rfl

/-- Only the vertices that are returned are shown. -/
theorem shown_congr {known known' : String → Option Vertex} {steps : List Step} {w : Walk}
    (h : ∀ id ∈ returned steps w, known id = known' id) :
    shown known steps w = shown known' steps w := by
  have hat : ∀ {t : NodeTest} {id : String}, (t.returned = true → known id = known' id) →
      shownAt known t id = shownAt known' t id := by
    intro t id ht
    rw [shownAt, shownAt]
    split
    · next hr => rw [ht hr]
    · rfl
  cases steps with
  | nil => rfl
  | cons step steps =>
    cases w with
    | nil => rfl
    | cons hit hits =>
      rw [shown, shown, hat fun hr => h _ (by simp [returned, hr])]
      congr 2
      refine List.flatMap_congr fun ⟨s, k⟩ hmem => congrArg _ (hat fun hr => h _ ?_)
      exact List.mem_append_right _ (List.mem_flatMap.2 ⟨(s, k), hmem, by simp [hr]⟩)

variable {g : Graph}

/-- The ids that a path shows at a node. -/
theorem ids_shownAt {known : String → Option Vertex} {t : NodeTest} {id : String}
    (hknown : ∃ v, known id = some v ∧ v.id = id) :
    ((shownAt known t id).filterMap PathElement.vertex?).map Vertex.id =
      if t.returned then [id] else [] := by
  obtain ⟨v, hv, hid⟩ := hknown
  unfold shownAt
  split <;> simp [hv, hid, PathElement.vertex?]

theorem exists_known (h : g.WellFormed) {id : String} {t : NodeTest}
    (hmet : ∃ v ∈ g.vertex? id, t.Met v) : ∃ v, g.vertex? id = some v ∧ v.id = id := by
  obtain ⟨v, hv, -⟩ := hmet
  exact ⟨v, hv, h.id_of_vertex? hv⟩

/-- Behind its start a path shows the vertices that the steps return. -/
theorem ids_shownBehind (h : g.WellFormed) {steps : List Step} {hits : Walk}
    (hw : Follows g steps hits) :
    (((steps.zip hits).flatMap fun (step, hit) =>
        .edge hit.edge :: shownAt g.vertex? step.right hit.exit).filterMap
          PathElement.vertex?).map Vertex.id =
      (steps.zip hits).flatMap fun (step, hit) => if step.right.returned then [hit.exit] else [] := by
  induction steps generalizing hits with
  | nil => rfl
  | cons step steps ih =>
    cases hits with
    | nil => rfl
    | cons hit hits =>
      obtain ⟨hreads, -, hfollows⟩ := hw
      rw [List.zip_cons_cons, List.flatMap_cons, List.flatMap_cons, List.filterMap_append,
        List.map_append, ih hfollows]
      exact congrArg (· ++ _) (ids_shownAt (exists_known h hreads.fits.exit))

/-- A path shows the vertices whose ids the steps return. -/
theorem ids_shown (h : g.WellFormed) {steps : List Step} {w : Walk} (hw : Follows g steps w) :
    (shown g.vertex? steps w).vertices.map Vertex.id = returned steps w := by
  cases steps with
  | nil => cases w <;> rfl
  | cons step steps =>
    cases w with
    | nil => rfl
    | cons hit hits =>
      rw [shown, MatchedPath.vertices, List.filterMap_append, List.map_append,
        ids_shownBehind h hw, ids_shownAt (exists_known h hw.1.fits.entry)]
      rfl

/-- Every vertex that a path shows is a known one. -/
theorem exists_known_of_shown {known : String → Option Vertex} {steps : List Step} {w : Walk}
    {v : Vertex}
    (hv : v ∈ (shown known steps w).vertices) : ∃ id, known id = some v := by
  have hat : ∀ {t : NodeTest} {id : String}, .vertex v ∈ shownAt known t id → known id = some v := by
    intro t id ht
    rw [shownAt] at ht
    split at ht
    · simpa using ht
    · exact absurd ht List.not_mem_nil
  obtain ⟨element, helement, hvertex⟩ := List.mem_filterMap.1 hv
  obtain rfl : element = .vertex v := by
    cases element with
    | vertex u => exact congrArg _ (Option.some.inj hvertex)
    | edge e => cases hvertex
  cases steps with
  | nil => cases helement
  | cons step steps =>
    cases w with
    | nil => cases helement
    | cons h hs =>
      rw [shown] at helement
      rcases List.mem_append.1 helement with hfirst | hbehind
      · exact ⟨_, hat hfirst⟩
      · obtain ⟨⟨s, h'⟩, -, hmem⟩ := List.mem_flatMap.1 hbehind
        rcases List.mem_cons.1 hmem with hedge | hmem
        · cases hedge
        · exact ⟨_, hat hmem⟩

theorem follows_of_mem_kept {steps : List Step} {start : String → Bool} {w : Walk}
    (hw : w ∈ kept steps (enumerate g steps start)) : Follows g steps w :=
  (mem_enumerate.1 (List.mem_filter.1 hw).1).1

/-- For every walk there is one that is kept and returns the same ids. -/
theorem exists_kept (steps : List Step) {walks : List Walk} {w : Walk} (hw : w ∈ walks) :
    ∃ w' ∈ kept steps walks, w'.returned steps = w.returned steps := by
  obtain ⟨w', hw'⟩ : ∃ w', walks.find? (fun w' => w'.returned steps = w.returned steps) = some w' :=
    Option.isSome_iff_exists.1 (List.find?_isSome.2 ⟨w, hw, decide_eq_true rfl⟩)
  have hsame : w'.returned steps = w.returned steps := by simpa using List.find?_some hw'
  refine ⟨w', List.mem_filter.2 ⟨List.mem_of_find?_eq_some hw', decide_eq_true ?_⟩, hsame⟩
  rw [hsame]
  exact hw'

end Walk

/-- Among the vertices of some ids, each id finds its own. -/
theorem Graph.WellFormed.find?_verticesOf {g : Graph} (h : g.WellFormed) {ids : List String}
    {id : String} (hid : id ∈ ids) : (g.verticesOf ids).find? (·.id == id) = g.vertex? id := by
  have hown : ∀ v ∈ g.verticesOf ids, v.id = id → g.vertex? id = some v := by
    intro v hv hname
    obtain ⟨a, -, ha⟩ := List.mem_filterMap.1 hv
    rw [← hname, h.id_of_vertex? ha, ha]
  cases hv : g.vertex? id with
  | none =>
    refine List.find?_eq_none.2 fun v hmem he => ?_
    rw [hown v hmem (beq_iff_eq.1 he)] at hv
    exact absurd hv nofun
  | some v =>
    have hmem : v ∈ g.verticesOf ids := List.mem_filterMap.2 ⟨id, hid, hv⟩
    obtain ⟨w, hw⟩ : ∃ w, (g.verticesOf ids).find? (·.id == id) = some w :=
      Option.isSome_iff_exists.1 (List.find?_isSome.2 ⟨v, hmem, beq_iff_eq.2 (h.id_of_vertex? hv)⟩)
    have hname : (w.id == id) = true := List.find?_some (p := fun v : Vertex => v.id == id) hw
    rw [hw, ← hv, hown w (List.mem_of_find?_eq_some hw) (beq_iff_eq.1 hname)]

namespace Plan

variable {g : Graph}

/-- The answer that different walks give: those that are kept, with the stored vertices. -/
theorem answerOf_paths (h : g.WellFormed) (steps : List Step) {walks : List Walk} (hw : walks.Nodup) :
    answerOf .paths (returnedFlags steps) walks g =
      (.ok (.paths ((Walk.kept steps walks).map (Walk.shown g.vertex? steps))), g) := by
  have hids : Walk.returnedIds (returnedFlags steps) = Walk.returned steps :=
    funext fun w => Walk.returnedIds_eq steps w
  have hkept : firstOfEach (Walk.returned steps) walks [] = Walk.kept steps walks := by
    rw [firstOfEach_eq_filter hw]
    simp only [List.not_mem_nil, not_false_eq_true, true_and]
    rfl
  rw [answerOf, hids, hkept, Action.andThen]
  change (Except.ok (Answer.paths _), g) = _
  congr 3
  refine List.map_congr_left fun w hmem => ?_
  rw [Walk.path_eq]
  refine Walk.shown_congr fun id hid => h.find?_verticesOf ?_
  exact List.mem_eraseDups.2 (List.mem_flatMap.2 ⟨w, (List.mem_filter.1 hmem).1, hid⟩)

/-- The answer of some steps is made from the walks along them. -/
theorem runSteps_eq (h : g.WellFormed) (mode : OutputMode) (steps : List Step)
    (start : Option (List String)) :
    runSteps mode steps start g =
      answerOf mode (returnedFlags steps) (Walk.enumerate g steps (Step.allowed start)) g := by
  obtain ⟨found, hfound, hspans⟩ := Step.runAll_spans h steps start
  rw [runSteps, Action.andThen, hfound]
  cases found with
  | none =>
    rw [Step.Spans] at hspans
    rw [hspans]
    cases mode <;> rfl
  | some stages =>
    rw [← hspans.1]

/-- The paths of a query of at least one step are those of the walks that are kept. -/
theorem run_paths_eq (h : g.WellFormed) {p : Plan} (hsteps : p.hasSteps = true)
    (start : Option (List String)) :
    p.run .paths start g =
      (.ok (.paths ((Walk.kept p.steps (Walk.enumerate g p.steps (Step.allowed start))).map
        (Walk.shown g.vertex? p.steps))), g) := by
  rw [run, if_pos hsteps, runSteps_eq h, answerOf_paths h _ (Walk.nodup_enumerate h _ _)]

/-- In every graph of a history, a query of at least one step lists the walks in lexicographic order,
keeps of those that return the same ids the first, and shows the vertices that are returned and all
edges. It leaves the graph as it is. -/
theorem run_paths_after (changes : List Change) {p : Plan} (hp : p.steps ≠ [])
    (start : Option (List String)) :
    ∃ walks, Walk.Lists (Graph.after changes) p.steps start walks ∧
      p.run .paths start (Graph.after changes) =
        (.ok (.paths ((Walk.kept p.steps walks).map
          (Walk.shown (Graph.after changes).vertex? p.steps))), Graph.after changes) := by
  have h := Graph.wellFormed_after changes
  have hsteps : p.hasSteps = true := by simpa [hasSteps] using hp
  exact ⟨Walk.enumerate (Graph.after changes) p.steps (Step.allowed start),
    ⟨fun _ => Walk.mem_enumerate_allowed, Walk.pairwise_enumerate h _ _⟩, run_paths_eq h hsteps start⟩

/-- Two edges join a server with another vertex, one in each direction. Both walks from the server
return the same two ids; the first of them is shown, with its vertices and its edge. -/
theorem run_paths_after_edge :
    let changes : List Change :=
      [.addVertex (.of "a" "A" ["server"]), .addVertex (.of "b" "B" []),
        .addEdge (.of "a" "b" ["hosts"]), .addEdge (.of "b" "a" ["calls"])]
    let p : Plan := ⟨[⟨⟨some "n1", .ofList ["server"], none, true⟩,
      ⟨some "e1", ∅, .both, false, false⟩, ⟨some "n2", ∅, none, true⟩⟩], none⟩
    p.steps ≠ [] ∧
      (∃ walks, Walk.Lists (Graph.after changes) p.steps (some ["a", "b"]) walks ∧
        p.run .paths (some ["a", "b"]) (Graph.after changes) =
          (.ok (.paths ((Walk.kept p.steps walks).map
            (Walk.shown (Graph.after changes).vertex? p.steps))), Graph.after changes)) ∧
      (p.run .paths (some ["a", "b"]) (Graph.after changes)).1 =
        .ok (.paths [⟨[.vertex (.of "a" "A" ["server"]), .edge (.of "a" "b" ["hosts"]),
          .vertex (.of "b" "B" [])]⟩]) :=
  ⟨List.cons_ne_nil _ _, run_paths_after _ (List.cons_ne_nil _ _) _, by decide +kernel⟩

end Plan

end PatternGraph
