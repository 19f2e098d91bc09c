import Mathlib.Data.List.Induction
import Mathlib.Data.List.Nodup
import Mathlib.Data.String.Basic
import Std.Data.String.ToNat
import PatternGraph.Pattern.Basic

/-!
# What a pattern says of its parts

`Pattern.Denotes` says which pattern stands for a first node and the relationships and nodes that
follow it: nodes and relationships take turns, a node is counted by its place, a relationship by the
relationships in front of it that are bare as it is or have types as it has, and a name to search by
stands under the alias of its node and under no other.

There is exactly one such pattern, `Pattern.denotes_iff`. That there is no other is a matter of the
table of names: two tables that give the same texts are the same list, for it is held in order.
-/

namespace PatternGraph

/-! ### Tables of aliases -/

namespace AliasTable

variable {key text : String} {entries : List (String × String)} {t t' : AliasTable}

theorem lookup_cons_eq (entry : String × String) (es : List (String × String)) :
    (entry :: es).lookup key = if key = entry.1 then some entry.2 else es.lookup key := by
  rw [List.lookup_cons]
  by_cases h : key = entry.1
  · simp [h]
  · simp [h, beq_false_of_ne h]

theorem lookup_eq_some_of_nodup (h : (entries.map Prod.fst).Nodup) :
    entries.lookup key = some text ↔ (key, text) ∈ entries := by
  induction entries with
  | nil => simp
  | cons e es ih =>
    obtain ⟨hnotin, hes⟩ := List.nodup_cons.1 h
    rw [lookup_cons_eq, List.mem_cons]
    split
    · next heq =>
      have hkey : (key, text) ∉ es := fun hmem => hnotin (heq ▸ List.mem_map_of_mem hmem)
      rw [or_iff_left hkey, Prod.ext_iff, Option.some_inj]
      exact ⟨fun htext => ⟨heq, htext.symm⟩, fun h => h.2.symm⟩
    · next hne =>
      have hhead : (key, text) ≠ e := fun he => hne (he ▸ rfl)
      rw [or_iff_right hhead, ih hes]

theorem lookup_insertEntry (entry : String × String) (es : List (String × String)) :
    (insertEntry entry es).lookup key = if key = entry.1 then some entry.2 else es.lookup key := by
  induction es with
  | nil => rw [insertEntry, lookup_cons_eq]
  | cons e es ih =>
    rw [insertEntry]
    split
    · rw [lookup_cons_eq]
    · split
      · next heq =>
        rw [lookup_cons_eq, lookup_cons_eq e, ← heq]
        split <;> rfl
      · next hne =>
        rw [lookup_cons_eq, ih, lookup_cons_eq e]
        split
        · next heq => rw [if_neg (fun h => hne (h.symm.trans heq))]
        · rfl

theorem get?_insert (t : AliasTable) (entry : String × String) :
    (t.insert entry.1 entry.2).get? key = if key = entry.1 then some entry.2 else t.get? key :=
  lookup_insertEntry entry t.entries

theorem ofList_append_singleton (es : List (String × String)) (e : String × String) :
    ofList (es ++ [e]) = (ofList es).insert e.1 e.2 := by
  rw [ofList, List.foldl_append]
  rfl

/-- The table of entries with different aliases gives their texts. -/
theorem get?_ofList (h : (entries.map Prod.fst).Nodup) :
    (ofList entries).get? key = some text ↔ (key, text) ∈ entries := by
  induction entries using List.reverseRecOn with
  | nil => exact iff_of_false nofun nofun
  | append_singleton es e ih =>
    rw [List.map_append, List.nodup_append'] at h
    obtain ⟨hes, -, hdisjoint⟩ := h
    rw [ofList_append_singleton, get?_insert, List.mem_append, List.mem_singleton]
    split
    · next heq =>
      have hkey : (key, text) ∉ es := fun hmem =>
        hdisjoint (heq ▸ List.mem_map_of_mem hmem) (List.mem_singleton_self _)
      rw [or_iff_right hkey, Prod.ext_iff, Option.some_inj]
      exact ⟨fun htext => ⟨heq, htext.symm⟩, fun h => h.2.symm⟩
    · next hne =>
      have hlast : (key, text) ≠ e := fun he => hne (he ▸ rfl)
      rw [or_iff_left hlast, ih hes]

theorem nodup_keys (t : AliasTable) : (t.entries.map Prod.fst).Nodup :=
  List.pairwise_map.2 (t.ascending.imp fun hlt => ne_of_lt hlt)

/-- Tables that give the same texts are the same. -/
theorem ext_get? (h : ∀ key, t.get? key = t'.get? key) : t = t' := by
  have hperm : t.entries.Perm t'.entries := by
    refine (List.perm_ext_iff_of_nodup t.nodup_keys.of_map t'.nodup_keys.of_map).2 fun ⟨key, text⟩ => ?_
    rw [← lookup_eq_some_of_nodup t.nodup_keys, ← lookup_eq_some_of_nodup t'.nodup_keys]
    exact Eq.congr (h key) rfl
  have hentries := hperm.eq_of_pairwise (fun _ _ _ _ hlt hgt => absurd hlt (lt_asymm hgt))
    t.ascending t'.ascending
  obtain ⟨entries, ascending⟩ := t
  obtain rfl := hentries
  rfl

end AliasTable

namespace Pattern

/-! ### Aliases -/

/-- The alias of the node at a place. -/
def nodeAlias (place : Nat) : String := "n" ++ Nat.repr place

/-- The alias of a relationship behind some others: bare ones and those with types are counted apart. -/
def linkAlias (before : List Link) (l : Link) : String :=
  if l.kind.isShort then "e" ++ Nat.repr (before.countP fun l => l.kind.isShort)
  else "r" ++ Nat.repr (before.countP fun l => !l.kind.isShort)

/-- A relationship at a place behind the first node, and the node behind it, in a chain. -/
def turn (rest : List (Link × NodeKind)) (part : (Link × NodeKind) × Nat) : List PatternElement :=
  [.link ⟨part.1.1, linkAlias ((rest.take part.2).map Prod.fst) part.1.1⟩,
    .node ⟨nodeAlias (part.2 + 1), part.1.2⟩]

/-- The pattern stands for a first node and the relationships and nodes that follow it. -/
structure Denotes (p : Pattern) (first : NodeKind) (rest : List (Link × NodeKind)) : Prop where
  chain : p.chain = .node ⟨nodeAlias 0, first⟩ :: rest.zipIdx.flatMap (turn rest)
  terms : ∀ key term, p.searchTerms.get? key = some term ↔
    ∃ n ∈ p.nodes, n.aliasName = key ∧ n.kind.searchTerm = some term

variable {p p' : Pattern} {first : NodeKind} {rest : List (Link × NodeKind)}

theorem nodeAlias_injective : Function.Injective nodeAlias :=
  fun _ _ h => Nat.repr_injective ((String.append_right_inj _).1 h)

/-- How many nodes and relationships have an alias behind some parts. -/
def countsBehind (before : List (Link × NodeKind)) : AliasCounts where
  nodes := before.length + 1
  short := (before.map Prod.fst).countP fun l => l.kind.isShort
  typed := (before.map Prod.fst).countP fun l => !l.kind.isShort

theorem link_countsBehind (before : List (Link × NodeKind)) (l : Link) :
    ((countsBehind before).link l).1 = ⟨l, linkAlias (before.map Prod.fst) l⟩ := by
  rw [AliasCounts.link, linkAlias]
  split <;> rfl

theorem node_countsBehind (before : List (Link × NodeKind)) (l : Link) (kind : NodeKind) :
    ((countsBehind before).link l).2.node kind =
      (⟨nodeAlias (before.length + 1), kind⟩, countsBehind (before ++ [(l, kind)])) := by
  rw [AliasCounts.link]
  split
  · next h => simp [AliasCounts.node, countsBehind, nodeAlias, h]
  · next h => simp [AliasCounts.node, countsBehind, nodeAlias, h]

theorem aliasRest_eq (before rest : List (Link × NodeKind)) :
    aliasRest (countsBehind before) rest =
      (rest.zipIdx before.length).flatMap (turn (before ++ rest)) := by
  -- The parts in front grow as the walk goes on: they alone give its counts.
  induction rest generalizing before with
  | nil => rfl
  | cons part rest ih =>
    obtain ⟨l, kind⟩ := part
    have hstep : aliasRest (countsBehind before) ((l, kind) :: rest) =
        .link ((countsBehind before).link l).1 ::
          .node (((countsBehind before).link l).2.node kind).1 ::
            aliasRest (((countsBehind before).link l).2.node kind).2 rest := rfl
    have hturn : turn (before ++ (l, kind) :: rest) ((l, kind), before.length) =
        [.link ⟨l, linkAlias (before.map Prod.fst) l⟩, .node ⟨nodeAlias (before.length + 1), kind⟩] := by
      rw [turn, List.take_left]
    have hsplit : before ++ (l, kind) :: rest = (before ++ [(l, kind)]) ++ rest := by simp
    rw [hstep, link_countsBehind, node_countsBehind, ih, List.zipIdx_cons, List.flatMap_cons, hturn,
      hsplit, List.length_append]
    rfl

theorem chain_ofParts (first : NodeKind) (rest : List (Link × NodeKind)) :
    (ofParts first rest).chain = .node ⟨nodeAlias 0, first⟩ :: rest.zipIdx.flatMap (turn rest) :=
  congrArg (List.cons _) (aliasRest_eq [] rest)

/-! ### The members of a chain -/

theorem nodes_eq (h : p.chain = .node ⟨nodeAlias 0, first⟩ :: rest.zipIdx.flatMap (turn rest)) :
    p.nodes = ⟨nodeAlias 0, first⟩ :: rest.zipIdx.map fun part => ⟨nodeAlias (part.2 + 1), part.1.2⟩ := by
  rw [nodes, h, List.filterMap_cons, List.filterMap_flatMap, List.map_eq_flatMap]
  rfl

theorem map_toLink_links
    (h : p.chain = .node ⟨nodeAlias 0, first⟩ :: rest.zipIdx.flatMap (turn rest)) :
    p.links.map (·.toLink) = rest.map Prod.fst := by
  have hlinks : p.links = rest.zipIdx.map fun part =>
      ⟨part.1.1, linkAlias ((rest.take part.2).map Prod.fst) part.1.1⟩ := by
    rw [links, h, List.filterMap_cons_none rfl, List.filterMap_flatMap, List.map_eq_flatMap]
    rfl
  have hfst : rest.map Prod.fst = (rest.zipIdx.map Prod.fst).map Prod.fst := by
    rw [List.zipIdx_map_fst]
  rw [hlinks, hfst, List.map_map, List.map_map]
  rfl

/-- The aliases of the nodes are those of the places from the first to the last. -/
theorem map_aliasName_nodes
    (h : p.chain = .node ⟨nodeAlias 0, first⟩ :: rest.zipIdx.flatMap (turn rest)) :
    p.nodes.map PatternNode.aliasName = (List.range (rest.length + 1)).map nodeAlias := by
  have hplaces : rest.zipIdx.map (fun part => nodeAlias (part.2 + 1)) =
      (rest.zipIdx.map Prod.snd).map fun place => nodeAlias (place + 1) := by
    rw [List.map_map]
    rfl
  rw [nodes_eq h, List.map_cons, List.map_map, List.range_succ_eq_map, List.map_cons, List.map_map]
  refine congrArg (List.cons _) (hplaces.trans ?_)
  rw [List.zipIdx_map_snd, List.range_eq_range']
  rfl

/-! ### The pattern of some parts -/

theorem termsOf_chain (p : Pattern) : termsOf p.chain =
    .ofList (p.nodes.filterMap fun n => n.kind.searchTerm.map fun term => (n.aliasName, term)) := by
  rw [termsOf, nodes, List.filterMap_filterMap]
  congr 2
  funext element
  cases element <;> rfl

theorem nodup_searched {ns : List PatternNode} (h : (ns.map PatternNode.aliasName).Nodup) :
    ((ns.filterMap fun n => n.kind.searchTerm.map fun term => (n.aliasName, term)).map
      Prod.fst).Nodup := by
  refine List.pairwise_map.2 ((List.pairwise_map.1 h).filterMap _ fun n n' hne => ?_)
  intro e he e' he'
  obtain ⟨term, -, rfl⟩ := Option.map_eq_some_iff.1 he
  obtain ⟨term', -, rfl⟩ := Option.map_eq_some_iff.1 he'
  exact hne

theorem denotes_ofParts (first : NodeKind) (rest : List (Link × NodeKind)) :
    Denotes (ofParts first rest) first rest where
  chain := chain_ofParts first rest
  terms key term := by
    have haliases := map_aliasName_nodes (chain_ofParts first rest)
    have hnodup : ((ofParts first rest).nodes.map PatternNode.aliasName).Nodup :=
      haliases ▸ List.nodup_range.map nodeAlias_injective
    have hterms : (ofParts first rest).searchTerms = termsOf (ofParts first rest).chain := rfl
    rw [hterms, termsOf_chain, AliasTable.get?_ofList (nodup_searched hnodup), List.mem_filterMap]
    refine exists_congr fun n => and_congr_right fun _ => ?_
    rw [Option.map_eq_some_iff]
    constructor
    · rintro ⟨term', hterm, heq⟩
      obtain ⟨rfl, rfl⟩ := Prod.mk.inj heq
      exact ⟨rfl, hterm⟩
    · rintro ⟨rfl, hterm⟩
      exact ⟨term, hterm, rfl⟩

theorem Denotes.unique (h : Denotes p first rest) (h' : Denotes p' first rest) : p = p' := by
  have hchain : p.chain = p'.chain := h.chain.trans h'.chain.symm
  have hnodes : p.nodes = p'.nodes := by rw [nodes, nodes, hchain]
  have hterms : p.searchTerms = p'.searchTerms := AliasTable.ext_get? fun key =>
    Option.ext fun term => by
      rw [h.terms, h'.terms, hnodes]
  obtain ⟨chain, terms⟩ := p
  obtain rfl := hchain
  obtain rfl := hterms
  rfl

/-- Some parts are denoted by one pattern, the one that is put together of them. -/
theorem denotes_iff : Denotes p first rest ↔ p = ofParts first rest :=
  ⟨fun h => h.unique (denotes_ofParts first rest), fun h => h ▸ denotes_ofParts first rest⟩

end Pattern

end PatternGraph
