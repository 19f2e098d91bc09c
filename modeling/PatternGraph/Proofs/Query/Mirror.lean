import PatternGraph.Proofs.Pattern.Mirror
import PatternGraph.Proofs.Query.Agreement
import PatternGraph.Proofs.Query.Aliases

/-!
# Queries read backwards

The mirror image of a pattern asks the same question from the other end. Its plan has the steps of the
plan in reverse order, each with its two nodes exchanged and its direction turned round; only the
aliases may differ, as they count from the start of a pattern. And what it returns are the ids that the
pattern returns on its paths, in reverse order.

* `Step.bare_mirrorOnto` compares the plans, relationship by relationship. One whose sides differ has
  two steps, and these change places.
* `Trail` is a walk with the steps it takes. Read backwards it is a trail of the steps read backwards,
  `Trail.mirror`, and returns the same ids in reverse order, `Trail.returned_back`.

The paths of the two queries need not be each other's mirror image: of the walks that return the same
ids each query keeps the one that is the first in its own order.
-/

namespace PatternGraph

/-- The direction seen from the node on the right. -/
def Direction.mirror : Direction → Direction
  | left => right
  | both => both
  | right => left

/-- What is asked of an edge on the way back. -/
def LinkTest.mirror (t : LinkTest) : LinkTest := { t with direction := t.direction.mirror }

/-- A step on the way back. -/
def Step.mirror (s : Step) : Step := ⟨s.right, s.link.mirror, s.left⟩

/-- The steps of a plan on the way back. -/
def Plan.mirror (p : Plan) : Plan := ⟨(p.steps.map Step.mirror).reverse, p.filter⟩

/-- A plan is another one on the way back, and gives its answer on the way back. -/
structure Plan.Mirrors (g : Graph) (p p' : Plan) : Prop where
  /-- The steps are those of the other plan on the way back, up to aliases. -/
  plan : p'.unnamed = p.mirror.unnamed
  /-- The ids along its paths are those along the paths of the other one, in reverse order. -/
  answers : ∃ found found', p.run .paths none g = (.ok (.paths found), g) ∧
    p'.run .paths none g = (.ok (.paths found'), g) ∧
    ∀ ids, (∃ path ∈ found', path.vertices.map Vertex.id = ids) ↔
      ∃ path ∈ found, path.vertices.map Vertex.id = ids.reverse

/-- An edge walked the other way. -/
def Hit.flip (h : Hit) : Hit := ⟨h.edge, h.exit, h.entry⟩

/-! ### The plan of the mirror image -/

theorem Direction.mirror_eq_left {d : Direction} : d.mirror = left ↔ d = right := by
  cases d <;> simp [mirror]

theorem Direction.mirror_eq_right {d : Direction} : d.mirror = right ↔ d = left := by
  cases d <;> simp [mirror]

theorem Direction.ofConnectors_mirror (source target : Connector) :
    ofConnectors target.mirror source.mirror = (ofConnectors source target).mirror := by
  unfold ofConnectors
  rw [Connector.hasArrow_mirror, Connector.hasArrow_mirror]
  cases source.hasArrow <;> cases target.hasArrow <;> rfl

namespace Step

/-- The two steps of a relationship whose sides differ have each other's directions, turned round. -/
theorem splitDirections_mirror (l : Link) :
    splitDirections l.mirror = ((splitDirections l).2.mirror, (splitDirections l).1.mirror) := by
  unfold splitDirections
  rw [Link.source_mirror, Link.target_mirror, Connector.hasArrow_mirror, Connector.hasArrow_mirror,
    Direction.ofConnectors_mirror]
  cases l.source.hasArrow <;> cases l.target.hasArrow <;> rfl

theorem mirror_mirror (s : Step) : s.mirror.mirror = s := by
  obtain ⟨left, ⟨aliasName, types, direction, negated, derived⟩, right⟩ := s
  cases direction <;> rfl

/-- The steps of a relationship read backwards are its steps read backwards. -/
theorem bareLink_mirror (left : NodeKind) (l : Link) (right : NodeKind) :
    bareLink right l.mirror left = ((bareLink left l right).map mirror).reverse := by
  unfold bareLink ofLink
  cases hsame : l.isHomogeneous with
  | true =>
    have hframing : l.target.framing = l.source.framing := by
      rw [Link.isHomogeneous, beq_iff_eq] at hsame
      exact hsame.symm
    simp only [Link.isHomogeneous_mirror, hsame, if_true, Link.source_mirror, Link.target_mirror,
      Direction.ofConnectors_mirror, Connector.framing_mirror, hframing]
    rfl
  | false =>
    simp only [Link.isHomogeneous_mirror, hsame, Bool.false_eq_true, if_false, Link.source_mirror,
      Link.target_mirror, splitDirections_mirror, Connector.framing_mirror]
    rfl

/-- The steps of parts read backwards, in front of others. -/
theorem bare_mirrorOnto (first : NodeKind) (behind rest : List (Link × NodeKind)) :
    bare (Pattern.mirrorOnto first behind rest).1 (Pattern.mirrorOnto first behind rest).2 =
      ((bare first rest).map mirror).reverse ++ bare first behind := by
  -- what is taken off the front goes behind, and so do its steps
  induction rest generalizing first behind with
  | nil => rfl
  | cons part rest ih =>
    obtain ⟨l, kind⟩ := part
    rw [Pattern.mirrorOnto, ih, bare, bare, bareLink_mirror, List.map_append, List.reverse_append,
      List.append_assoc]

/-- Each step begins where the one before ends. -/
def Joined (steps : List Step) : Prop := steps.IsChain fun s s' => s.right = s'.left

theorem Joined.mirror {steps : List Step} (h : Joined steps) :
    Joined (steps.map Step.mirror).reverse := by
  rw [Joined, List.isChain_reverse, List.isChain_map]
  exact h.imp fun _ _ => Eq.symm

end Step

namespace Plan

open Pattern (Mirrored)

theorem hasSteps_ofParts (first : NodeKind) {rest : List (Link × NodeKind)} (h : rest ≠ []) :
    (Pattern.ofParts first rest).plan.hasSteps = true := by
  obtain ⟨n, part, parts, hplan, -⟩ := exists_chain_ofParts first h
  obtain ⟨step, steps, hsteps, -⟩ := Step.exists_head_ofChain n part parts
  rw [hplan, hasSteps, hsteps]
  rfl

theorem joined_ofParts (first : NodeKind) {rest : List (Link × NodeKind)} (h : rest ≠ []) :
    Step.Joined (Pattern.ofParts first rest).plan.steps := by
  obtain ⟨n, part, parts, hplan, -⟩ := exists_chain_ofParts first h
  rw [hplan]
  exact (Step.joined_ofChain n (part :: parts)).imp fun s s' hjoin => hjoin.1

theorem unnamed_mirror (p : Plan) : p.mirror.unnamed = p.unnamed.mirror := by
  simp only [mirror, unnamed, List.map_reverse, List.map_map]
  rfl

/-- The plan of the mirror image is the plan read backwards. -/
theorem unnamed_of_mirrored {first first' : NodeKind} {rest rest' : List (Link × NodeKind)}
    (h : Mirrored first rest first' rest') (hrest : rest ≠ []) :
    (Pattern.ofParts first' rest').plan.unnamed =
      (Pattern.ofParts first rest).plan.mirror.unnamed := by
  have hsteps := Step.bare_mirrorOnto first [] rest
  rw [Pattern.mirrored_iff.1 h] at hsteps
  rw [unnamed_mirror, unnamed_ofParts first hrest, unnamed_ofParts first' (h.ne_nil hrest), hsteps,
    mirror, Step.bare, List.append_nil]

end Plan

/-! ### The ends of a row -/

/-- What a row of pieces has at its start and behind each piece, where each piece has something at its
start and at its end. -/
def ends {α β : Type} (start stop : α → β) : List α → List β
  | [] => []
  | a :: as => start a :: (a :: as).map stop

section Ends

variable {α β : Type} {start stop : α → β} {as : List α}

theorem ends_append (has : as ≠ []) (bs : List α) :
    ends start stop (as ++ bs) = ends start stop as ++ bs.map stop := by
  cases as with
  | nil => exact absurd rfl has
  | cons a as => simp [ends]

theorem ends_map {γ : Type} (f : γ → α) (as : List γ) :
    ends start stop (as.map f) = ends (start ∘ f) (stop ∘ f) as := by
  cases as with
  | nil => rfl
  | cons a as => simp [ends]

theorem map_ends {γ : Type} (f : β → γ) (as : List α) :
    (ends start stop as).map f = ends (f ∘ start) (f ∘ stop) as := by
  cases as with
  | nil => rfl
  | cons a as => simp [ends]

/-- If each piece starts with what the one before ends with, the row can be read backwards. -/
theorem reverse_ends (h : as.IsChain fun a b => stop a = start b) :
    (ends start stop as).reverse = ends stop start as.reverse := by
  induction as with
  | nil => rfl
  | cons a as ih =>
    cases as with
    | nil => rfl
    | cons b as =>
      obtain ⟨hab, hchain⟩ := List.isChain_cons_cons.1 h
      have hne : (b :: as).reverse ≠ [] := by simp
      have hhead : ends start stop (a :: b :: as) = start a :: ends start stop (b :: as) := by
        rw [ends, ends, List.map_cons, hab]
      rw [hhead, List.reverse_cons, ih hchain, List.reverse_cons (a := a), ends_append hne]
      rfl

end Ends

/-! ### Walks read backwards -/

namespace Step

variable {g : Graph} {step : Step} {h : Hit}

theorem reads_unnamed : step.unnamed.Reads g h ↔ step.Reads g h := by
  have hnode : ∀ {t : NodeTest} {v : Vertex}, t.unnamed.Met v ↔ t.Met v := fun {t v} =>
    ⟨fun h => ⟨h.types, h.name⟩, fun h => ⟨h.types, h.name⟩⟩
  have hlink : ∀ {t : LinkTest} {e : Edge}, t.unnamed.Met e ↔ t.Met e := fun {t e} =>
    ⟨fun h => ⟨h.asserted, h.types⟩, fun h => ⟨h.asserted, h.types⟩⟩
  have hfits : step.unnamed.Fits g h ↔ step.Fits g h := by
    rw [fits_iff, fits_iff]
    simp only [unnamed, hnode, hlink]
  constructor
  · rintro ⟨hstored, hdir, hf⟩
    exact ⟨hstored, hdir, hfits.1 hf⟩
  · rintro ⟨hstored, hdir, hf⟩
    exact ⟨hstored, hdir, hfits.2 hf⟩

/-- An edge that a step reads is read the other way on the way back. -/
theorem Reads.mirror (hreads : step.Reads g h) : step.mirror.Reads g h.flip := by
  obtain ⟨hstored, hdir, ⟨hentry, hlink, hexit⟩⟩ := hreads
  refine ⟨hstored, ?_, ⟨hexit, ⟨hlink.asserted, hlink.types⟩, hentry⟩⟩
  rcases hdir with ⟨hdir, halong⟩ | ⟨hdir, hagainst⟩
  · refine .inr ⟨fun hc => hdir ?_, ?_⟩
    · exact (Direction.mirror_eq_right).1 hc
    · rw [halong]
      rfl
  · refine .inl ⟨fun hc => hdir ?_, ?_⟩
    · exact (Direction.mirror_eq_left).1 hc
    · rw [hagainst]
      rfl

end Step

/-- A walk together with the steps that it takes. -/
structure Trail (g : Graph) (trail : List (Step × Hit)) : Prop where
  reads : ∀ q ∈ trail, q.1.Reads g q.2
  joined : trail.IsChain fun q q' => q.1.right = q'.1.left ∧ q'.2.entry = q.2.exit

namespace Trail

variable {g : Graph} {trail : List (Step × Hit)} {steps : List Step} {w : Walk}

theorem follows (h : Trail g trail) : Walk.Follows g (trail.map Prod.fst) (trail.map Prod.snd) := by
  induction trail with
  | nil => trivial
  | cons q trail ih =>
    obtain ⟨hreads, htrail⟩ := List.forall_mem_cons.1 h.reads
    obtain ⟨hnext, hjoined⟩ := List.isChain_cons.1 h.joined
    refine ⟨hreads, fun hit hhit => ?_, ih ⟨htrail, hjoined⟩⟩
    rw [List.head?_map] at hhit
    obtain ⟨q', hq', rfl⟩ := Option.map_eq_some_iff.1 hhit
    exact (hnext q' hq').2

/-- A walk along joined steps makes a trail with them. -/
theorem of_follows (hw : Walk.Follows g steps w) (hsteps : Step.Joined steps) :
    ∃ trail, Trail g trail ∧ trail.map Prod.fst = steps ∧ trail.map Prod.snd = w := by
  induction steps generalizing w with
  | nil =>
    cases w with
    | nil => exact ⟨[], ⟨List.forall_mem_nil _, .nil⟩, rfl, rfl⟩
    | cons hit hits => cases hw
  | cons step steps ih =>
    cases w with
    | nil => cases hw
    | cons hit hits =>
      obtain ⟨hreads, hnext, hfollows⟩ := hw
      obtain ⟨hright, hjoined⟩ := List.isChain_cons.1 hsteps
      obtain ⟨trail, htrail, rfl, rfl⟩ := ih hfollows hjoined
      refine ⟨(step, hit) :: trail, ⟨List.forall_mem_cons.2 ⟨hreads, htrail.reads⟩, ?_⟩, rfl, rfl⟩
      rw [List.head?_map] at hright hnext
      refine List.isChain_cons.2 ⟨fun q hq => ⟨?_, ?_⟩, htrail.joined⟩
      · exact hright q.1 (Option.mem_map_of_mem Prod.fst hq)
      · exact hnext q.2 (Option.mem_map_of_mem Prod.snd hq)

/-- A trail read backwards. -/
def back (trail : List (Step × Hit)) : List (Step × Hit) :=
  (trail.map fun q => (q.1.mirror, q.2.flip)).reverse

theorem mirror (h : Trail g trail) : Trail g (back trail) := by
  constructor
  · intro q hq
    obtain ⟨q₀, hq₀, rfl⟩ := List.mem_map.1 (List.mem_reverse.1 hq)
    exact (h.reads q₀ hq₀).mirror
  · rw [back, List.isChain_reverse, List.isChain_map]
    exact h.joined.imp fun q q' hj => ⟨hj.1.symm, hj.2.symm⟩

theorem map_fst_back (trail : List (Step × Hit)) :
    (back trail).map Prod.fst = ((trail.map Prod.fst).map Step.mirror).reverse := by
  rw [back, List.map_reverse, List.map_map, List.map_map]
  rfl

/-- The id at which a step of a trail enters, if the node there is returned. -/
def entryIds (q : Step × Hit) : List String := if q.1.left.returned then [q.2.entry] else []

/-- The id at which a step of a trail exits, if the node there is returned. -/
def exitIds (q : Step × Hit) : List String := if q.1.right.returned then [q.2.exit] else []

theorem returned_eq (trail : List (Step × Hit)) :
    Walk.returned (trail.map Prod.fst) (trail.map Prod.snd) =
      (ends entryIds exitIds trail).flatten := by
  cases trail with
  | nil => rfl
  | cons q trail =>
    have hzip : (q.1 :: trail.map Prod.fst).zip (q.2 :: trail.map Prod.snd) = q :: trail := by
      rw [List.zip_cons_cons, List.zip_map']
      simp
    rw [List.map_cons, List.map_cons, Walk.returned, hzip]
    rfl

/-- A trail read backwards returns the ids in reverse order. -/
theorem returned_back (h : Trail g trail) :
    Walk.returned ((back trail).map Prod.fst) ((back trail).map Prod.snd) =
      (Walk.returned (trail.map Prod.fst) (trail.map Prod.snd)).reverse := by
  have hchain : trail.IsChain fun q q' => exitIds q = entryIds q' :=
    h.joined.imp fun q q' hj => by rw [exitIds, entryIds, hj.1, hj.2]
  -- at most one id is returned at a place
  have hone : (ends entryIds exitIds trail).map List.reverse = ends entryIds exitIds trail := by
    rw [map_ends]
    congr 1
    · funext q
      rw [Function.comp, entryIds]
      split <;> rfl
    · funext q
      rw [Function.comp, exitIds]
      split <;> rfl
  rw [returned_eq, returned_eq, List.reverse_flatten, hone, reverse_ends hchain, back,
    ← List.map_reverse, ends_map]
  rfl

end Trail

/-! ### What is returned on the way back -/

namespace Walk

variable {g : Graph} {steps : List Step} {ids : List String}

/-- Some walk along the steps returns the ids. -/
def Returns (g : Graph) (steps : List Step) (ids : List String) : Prop :=
  ∃ w, Follows g steps w ∧ w.returned steps = ids

theorem follows_unnamed {w : Walk} : Follows g (steps.map Step.unnamed) w ↔ Follows g steps w := by
  induction steps generalizing w with
  | nil => rfl
  | cons step steps ih =>
    cases w with
    | nil => rfl
    | cons h hs => exact and_congr Step.reads_unnamed (and_congr_right fun _ => ih)

/-- What is returned does not depend on the aliases. -/
theorem returned_unnamed (w : Walk) : w.returned (steps.map Step.unnamed) = w.returned steps := by
  cases steps with
  | nil => rfl
  | cons step steps =>
    cases w with
    | nil => rfl
    | cons h hs =>
      rw [List.map_cons, returned, returned, ← List.map_cons, List.zip_map_left, List.flatMap_map]
      rfl

theorem returns_unnamed : Returns g (steps.map Step.unnamed) ids ↔ Returns g steps ids := by
  refine exists_congr fun w => ?_
  rw [follows_unnamed, returned_unnamed]

theorem Returns.mirror (h : Returns g steps ids) (hsteps : Step.Joined steps) :
    Returns g (steps.map Step.mirror).reverse ids.reverse := by
  obtain ⟨w, hw, rfl⟩ := h
  obtain ⟨trail, htrail, rfl, rfl⟩ := Trail.of_follows hw hsteps
  rw [← Trail.map_fst_back]
  exact ⟨_, htrail.mirror.follows, htrail.returned_back⟩

/-- The steps read backwards return the ids in reverse order. -/
theorem returns_mirror (hsteps : Step.Joined steps) :
    Returns g (steps.map Step.mirror).reverse ids ↔ Returns g steps ids.reverse := by
  have htwice : ((steps.map Step.mirror).reverse.map Step.mirror).reverse = steps := by
    rw [List.map_reverse, List.reverse_reverse, List.map_map]
    exact (List.map_congr_left fun s _ => Step.mirror_mirror s).trans (List.map_id _)
  constructor
  · intro h
    have hback := h.mirror hsteps.mirror
    rwa [htwice] at hback
  · intro h
    have hback := h.mirror hsteps
    rwa [List.reverse_reverse] at hback

end Walk

namespace Plan

open Pattern (Spells Mirrored)

variable {g : Graph}

/-- The ids on the paths that are found from anywhere are what the steps return. -/
theorem exists_returns (h : g.WellFormed) {p : Plan} (hsteps : p.hasSteps = true) :
    ∃ found, p.run .paths none g = (.ok (.paths found), g) ∧
      ∀ ids, (∃ path ∈ found, path.vertices.map Vertex.id = ids) ↔ Walk.Returns g p.steps ids := by
  obtain ⟨found, hrun, hfound⟩ := exists_paths h hsteps none
  refine ⟨found, hrun, fun ids => (hfound ids).trans (exists_congr fun w => and_congr_left fun _ => ?_)⟩
  exact ⟨Walk.IsWalk.follows, fun hw => ⟨hw, nofun⟩⟩

/-- The plan of the mirror image gives the answer on the way back: it returns what the steps on the way
back return, since aliases do not matter. -/
theorem mirrors_of_mirrored {g : Graph} (h : g.WellFormed) {first first' : NodeKind}
    {rest rest' : List (Link × NodeKind)} (hmirror : Mirrored first rest first' rest')
    (hrest : rest ≠ []) :
    (Pattern.ofParts first rest).plan.Mirrors g (Pattern.ofParts first' rest').plan := by
  have hplan := unnamed_of_mirrored hmirror hrest
  have hsteps : (Pattern.ofParts first' rest').plan.steps.map Step.unnamed =
      ((Pattern.ofParts first rest).plan.steps.map Step.mirror).reverse.map Step.unnamed :=
    congrArg Plan.steps hplan
  obtain ⟨found, hrun, hfound⟩ := exists_returns h (hasSteps_ofParts first hrest)
  obtain ⟨found', hrun', hfound'⟩ :=
    exists_returns h (hasSteps_ofParts first' (hmirror.ne_nil hrest))
  refine ⟨hplan, found, found', hrun, hrun', fun ids => ?_⟩
  calc (∃ path ∈ found', path.vertices.map Vertex.id = ids)
      ↔ Walk.Returns g (Pattern.ofParts first' rest').plan.steps ids := hfound' ids
    _ ↔ Walk.Returns g ((Pattern.ofParts first rest).plan.steps.map Step.mirror).reverse ids := by
        rw [← Walk.returns_unnamed, hsteps, Walk.returns_unnamed]
    _ ↔ Walk.Returns g (Pattern.ofParts first rest).plan.steps ids.reverse :=
        Walk.returns_mirror (joined_ofParts first hrest)
    _ ↔ ∃ path ∈ found, path.vertices.map Vertex.id = ids.reverse := (hfound ids.reverse).symm

/-- In every graph of a history, for every text that is read as a pattern of at least one relationship
and whose last node may also be the first: there is a text that spells the mirror image of the pattern,
and each such text is read as a pattern, whose plan is the plan on the way back and gives its answer on
the way back. -/
theorem mirrored_after (changes : List Change) {text : String} {p : Pattern} {first : NodeKind}
    {rest : List (Link × NodeKind)} (hparse : Pattern.parse text = .ok p)
    (hspells : Spells first rest text.toList) (hrest : rest ≠ [])
    (hlast : ∀ kind ∈ (first :: rest.map Prod.snd).getLast?, kind.canStart = true) :
    ∃ first' rest', Mirrored first rest first' rest' ∧
      (∃ text' : String, Spells first' rest' text'.toList) ∧
      ∀ text' : String, Spells first' rest' text'.toList →
        ∃ p', Pattern.parse text' = .ok p' ∧ p.plan.Mirrors (Graph.after changes) p'.plan := by
  obtain ⟨first', rest', hmirror⟩ := Pattern.exists_mirrored first rest
  have hstart : first'.canStart = true := hlast first' hmirror.getLast?_nodes
  refine ⟨first', rest', hmirror, hmirror.exists_spells ⟨text, hspells⟩, fun text' hspells' => ?_⟩
  refine ⟨_, hmirror.parse_eq_ok hparse hspells hstart hspells', ?_⟩
  obtain ⟨-, -, rfl⟩ := hspells.of_parse hparse
  exact mirrors_of_mirrored (Graph.wellFormed_after changes) hmirror hrest

/-- The query for the databases that a server hosts, on the last part of the way perhaps by derived
edges. -/
theorem mirrored_after_hosts :
    let changes : List Change :=
      [.addVertex (.of "a" "A" ["server"]), .addVertex (.of "b" "B" []),
        .addVertex (.of "c" "C" ["db"]), .addEdge (.of "a" "b" ["hosts"]),
        .addEdge (.of "b" "c" ["hosts"])]
    ∃ p p', Pattern.parse "?(server)-[hosts]=>(db)" = .ok p ∧
      Pattern.parse "?(db)<=[hosts]-(server)" = .ok p' ∧
      p.plan.Mirrors (Graph.after changes) p'.plan := by
  intro changes
  have hspells : Spells (.typed ["server"])
      [(⟨.typed ["hosts"] false, ⟨.bonded, .absent⟩, ⟨.path, .right⟩⟩, .typed ["db"])]
      "?(server)-[hosts]=>(db)".toList := Pattern.parseAll_parts_iff.1 (by decide +kernel)
  have hspells' : Spells (.typed ["db"])
      [(⟨.typed ["hosts"] false, ⟨.path, .left⟩, ⟨.bonded, .absent⟩⟩, .typed ["server"])]
      "?(db)<=[hosts]-(server)".toList := Pattern.parseAll_parts_iff.1 (by decide +kernel)
  have hparse : Pattern.parse "?(server)-[hosts]=>(db)" = .ok (.ofParts (.typed ["server"])
      [(⟨.typed ["hosts"] false, ⟨.bonded, .absent⟩, ⟨.path, .right⟩⟩, .typed ["db"])]) := by
    decide +kernel
  obtain ⟨first', rest', hmirror, -, hall⟩ := mirrored_after changes hparse hspells
    (List.cons_ne_nil _ _) (by simp [NodeKind.canStart])
  obtain ⟨rfl, rfl⟩ := Prod.mk.inj (Pattern.mirrored_iff.1 hmirror)
  obtain ⟨p', hparse', hmirrors⟩ := hall _ hspells'
  exact ⟨_, p', hparse, hparse', hmirrors⟩

end Plan

end PatternGraph
