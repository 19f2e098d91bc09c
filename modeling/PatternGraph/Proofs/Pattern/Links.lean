import PatternGraph.Pattern.Grammar
import PatternGraph.Proofs.Text.TypeList

/-!
# The grammar of relationships

A framing has a sign, and an arrow head stands beside it: at a left side in front of the sign, at a
right side behind it. A relationship without brackets is written with one sign for both sides, so there
are eight of them; one with brackets is written with the signs of its two sides, and no white space
stands between a sign and its bracket.

The parser tries brackets first and the longest sign first. This is right because of what can follow a
relationship: only the parenthesis of a node, which starts no longer sign and is no bracket.
-/

namespace PatternGraph

open Text
open Text.Parser

/-- The sign of a framing. -/
def Framing.sign : Framing → Char
  | bonded => '-'
  | path => '='

namespace Pattern

/-! ### The grammar -/

/-- How a left side is written. -/
inductive SourceSign : Connector → List Char → Prop where
  | plain (f : Framing) : SourceSign ⟨f, .absent⟩ [f.sign]
  | arrow (f : Framing) : SourceSign ⟨f, .left⟩ ['<', f.sign]

/-- How a right side is written. -/
inductive TargetSign : Connector → List Char → Prop where
  | plain (f : Framing) : TargetSign ⟨f, .absent⟩ [f.sign]
  | arrow (f : Framing) : TargetSign ⟨f, .right⟩ [f.sign, '>']

/-- How the two sides of a relationship without brackets are written. -/
inductive BareSign : Connector × Connector → List Char → Prop where
  | plain (f : Framing) : BareSign (⟨f, .absent⟩, ⟨f, .absent⟩) [f.sign]
  | left (f : Framing) : BareSign (⟨f, .left⟩, ⟨f, .absent⟩) ['<', f.sign]
  | right (f : Framing) : BareSign (⟨f, .absent⟩, ⟨f, .right⟩) [f.sign, '>']
  | both (f : Framing) : BareSign (⟨f, .left⟩, ⟨f, .right⟩) ['<', f.sign, '>']

/-- The words of a relationship. A sign and its bracket are one word. -/
inductive LinkWords : Link → List (List Char) → Prop where
  | bare {source target : Connector} {sign : List Char} (h : BareSign (source, target) sign) :
      LinkWords ⟨.short, source, target⟩ [sign]
  | typed {source target : Connector} {left right list : List Char} {types : List String}
      (hs : SourceSign source left) (hlist : TypeList types list) (ht : TargetSign target right) :
      LinkWords ⟨.typed types false, source, target⟩ [left ++ ['['], list, ']' :: right]
  | negated {source target : Connector} {left right list : List Char} {types : List String}
      (hs : SourceSign source left) (hlist : TypeList types list) (ht : TargetSign target right) :
      LinkWords ⟨.typed types true, source, target⟩ [left ++ ['['], ['!'], list, ']' :: right]

/-- A node comes next. -/
def NodeNext (words : List (List Char)) : Prop := ∃ w ∈ words.head?, w.head? = some '('

variable {cs rest w : List Char} {words ws : List (List Char)} {c : Connector}
  {sides : Connector × Connector} {l : Link}

/-! ### Signs -/

/-- Of the signs of a table the first that fits is taken. -/
theorem signs_eq_find? {α : Type} (table : List (String × α)) (cs : List Char) :
    signs table cs = match table.find? fun entry => entry.1.toList.isPrefixOf cs with
      | some (sign, a) => .ok (a, cs.drop sign.toList.length)
      | none => .error cs := by
  have hone : ∀ (sign : String) (a : α), value a (word sign.toList) cs =
      if sign.toList.isPrefixOf cs then .ok (a, cs.drop sign.toList.length) else .error cs := by
    intro sign a
    simp only [value, bind, word]
    cases sign.toList.isPrefixOf cs <;> rfl
  induction table with
  | nil => rfl
  | cons entry table ih =>
    obtain ⟨sign, a⟩ := entry
    have hcons : signs ((sign, a) :: table) cs =
        orElse (value a (word sign.toList)) (signs table) cs := by
      cases table with
      | nil =>
        change value a (word sign.toList) cs = orElse (value a (word sign.toList)) fail cs
        rw [orElse, hone]
        cases sign.toList.isPrefixOf cs <;> rfl
      | cons entry table => rfl
    rw [hcons, orElse, hone, List.find?_cons]
    cases sign.toList.isPrefixOf cs with
    | true => rfl
    | false => exact ih

theorem takes_signs {α : Type} {W : α → List Char → Prop} {table : List (String × α)}
    (h : ∀ entry ∈ table, W entry.2 entry.1.toList) : Takes (signs table) W := by
  intro cs a rest ha
  rw [signs_eq_find?] at ha
  split at ha
  · next sign b hfind =>
    obtain ⟨rfl, rfl⟩ := Prod.mk.inj (Except.ok.inj ha)
    have hfits := List.find?_some hfind
    obtain ⟨tail, rfl⟩ := List.isPrefixOf_iff_prefix.1 hfits
    exact ⟨sign.toList, h _ (List.mem_of_find?_eq_some hfind), by simp⟩
  · exact absurd ha nofun

theorem takes_sourceSign : Takes sourceSign SourceSign := by
  refine takes_signs ?_
  simp only [List.forall_mem_cons]
  exact ⟨.arrow .bonded, .arrow .path, .plain .bonded, .plain .path, nofun⟩

theorem takes_targetSign : Takes targetSign TargetSign := by
  refine takes_signs ?_
  simp only [List.forall_mem_cons]
  exact ⟨.arrow .bonded, .arrow .path, .plain .bonded, .plain .path, nofun⟩

theorem takes_bareSign : Takes bareSign BareSign := by
  refine takes_signs ?_
  simp only [List.forall_mem_cons]
  exact ⟨.both .bonded, .both .path, .left .bonded, .left .path, .right .bonded, .right .path,
    .plain .bonded, .plain .path, nofun⟩

theorem sourceSign_append (h : SourceSign c w) (rest : List Char) :
    sourceSign (w ++ '[' :: rest) = .ok (c, '[' :: rest) := by
  cases h with
  | plain f => cases f <;> rfl
  | arrow f => cases f <;> rfl

theorem isPrefixOf_arrow (h : rest.head? ≠ some '>') : ['>'].isPrefixOf rest = false := by
  cases rest with
  | nil => rfl
  | cons d rest =>
    have hne : '>' ≠ d := fun hd => h (by rw [hd]; rfl)
    simp [List.isPrefixOf, hne]

/-- A right side is taken whole if no arrow head follows. -/
theorem targetSign_append (h : TargetSign c w) (hrest : rest.head? ≠ some '>') :
    targetSign (w ++ rest) = .ok (c, rest) := by
  have hprefix := isPrefixOf_arrow hrest
  rw [targetSign, signs_eq_find?]
  cases h with
  | plain f => cases f <;> simp [List.isPrefixOf, Framing.sign, hprefix]
  | arrow f => cases f <;> rfl

/-- A bare sign is taken whole if no arrow head follows. -/
theorem bareSign_append (h : BareSign sides w) (hrest : rest.head? ≠ some '>') :
    bareSign (w ++ rest) = .ok (sides, rest) := by
  have hprefix := isPrefixOf_arrow hrest
  rw [bareSign, signs_eq_find?]
  cases h with
  | plain f => cases f <;> simp [List.isPrefixOf, Framing.sign, hprefix]
  | left f => cases f <;> simp [List.isPrefixOf, Framing.sign, hprefix]
  | right f => cases f <;> rfl
  | both f => cases f <;> rfl

/-- Of a bare sign a left side can be taken, and what is left then starts no bracket. -/
theorem sourceSign_bare (h : BareSign sides w) (rest : List Char) :
    ∃ c tail, sourceSign (w ++ rest) = .ok (c, tail) ∧ (tail = rest ∨ tail.head? = some '>') := by
  cases h with
  | plain f => cases f <;> exact ⟨_, _, rfl, .inl rfl⟩
  | left f => cases f <;> exact ⟨_, _, rfl, .inl rfl⟩
  | right f => cases f <;> exact ⟨_, _, rfl, .inr rfl⟩
  | both f => cases f <;> exact ⟨_, _, rfl, .inr rfl⟩

theorem SourceSign.solid (h : SourceSign c w) : Solid w := by
  cases h with
  | plain f => cases f <;> exact solid_cons rfl _
  | arrow f => exact solid_cons rfl _

theorem BareSign.solid (h : BareSign sides w) : Solid w := by
  cases h with
  | plain f => cases f <;> exact solid_cons rfl _
  | left f => exact solid_cons rfl _
  | right f => cases f <;> exact solid_cons rfl _
  | both f => exact solid_cons rfl _

/-! ### What is read is laid out -/

theorem lays_typedLink : typedLink.Lays LinkWords := by
  intro cs l rest words h hs
  simp only [typedLink, bind_eq_ok, pure_eq_ok, char_eq_ok] at h
  obtain ⟨source, _, hsource, _, mid, rfl, negation, mid', hnegation, types, _, htypes, _, mid'', rfl,
    target, _, htarget, rfl, rfl⟩ := h
  obtain ⟨left, hleft, rfl⟩ := takes_sourceSign _ _ _ hsource
  obtain ⟨right, hright, rfl⟩ := takes_targetSign _ _ _ htarget
  have hlaid := hs.word (w := ']' :: right) (solid_cons rfl right)
  obtain ⟨list, hlist, hlaid⟩ := laid_of_spaced_typeNames htypes hlaid
  have hword : left ++ '[' :: mid = (left ++ ['[']) ++ mid := by simp
  have hsolid := hleft.solid.append ['[']
  obtain ⟨rest, hopt, rfl⟩ := spaced_eq_ok.1 hnegation
  rw [hword]
  cases negation with
  | none =>
    obtain ⟨-, rfl⟩ := optional_eq_none.1 hopt
    exact ⟨_, .typed hleft hlist hright, hlaid.of_skip.of_skip.word hsolid⟩
  | some u =>
    have hmark := optional_eq_some.1 hopt
    have hlaid : Laid (['!'] :: list :: (']' :: right) :: words) mid :=
      .of_spaced_char rfl (spaced_eq_ok.2 ⟨rest, hmark, rfl⟩) hlaid
    exact ⟨_, .negated hleft hlist hright, hlaid.word hsolid⟩

theorem lays_linkElement : linkElement.Lays LinkWords := by
  intro cs l rest words h hs
  rcases orElse_eq_ok.1 h with h | ⟨-, h⟩
  · exact lays_typedLink cs l rest words h hs
  · simp only [bareLink, bind_eq_ok, pure_eq_ok] at h
    obtain ⟨⟨source, target⟩, _, hsign, rfl, rfl⟩ := h
    obtain ⟨sign, hbare, rfl⟩ := takes_bareSign _ _ _ hsign
    exact ⟨_, .bare hbare, hs.word hbare.solid⟩

/-! ### What is laid out is read -/

/-- In front of a node stands nothing but white space. -/
theorem head?_ne_of_nodeNext (hnext : NodeNext words) (hs : Laid words cs) {d : Char}
    (hgap : isGap d = false) (hd : d ≠ '(') : cs.head? ≠ some d := by
  intro hc
  obtain ⟨w, hw, hopen⟩ := hnext
  obtain ⟨words, rfl⟩ := List.head?_eq_some_iff.1 hw
  exact hd (Option.some.inj ((hs.head?_eq hc hgap).symm.trans hopen))

theorem fails_typedLink (h : BareSign sides w) (hrest : rest.head? ≠ some '[') :
    Fails typedLink (w ++ rest) := by
  intro l rest' hl
  obtain ⟨c, mid, hsource, hl⟩ := bind_eq_ok.1 hl
  obtain ⟨_, mid', hbracket, -⟩ := bind_eq_ok.1 hl
  obtain ⟨c', tail, hsource', htail⟩ := sourceSign_bare h rest
  obtain ⟨-, rfl⟩ := Prod.mk.inj (Except.ok.inj (hsource.symm.trans hsource'))
  have hhead : mid.head? = some '[' := by rw [char_eq_ok.1 hbracket, List.head?_cons]
  rcases htail with rfl | harrow
  · exact hrest hhead
  · exact absurd (harrow.symm.trans hhead) (by decide)

/-- Behind the mark of a negation, or its absence, a relationship is read to its end. -/
theorem typedLink_of_laid {source target : Connector} {left right list mid mid' : List Char}
    {types : List String} {negation : Option Unit} (hsource : SourceSign source left)
    (hnegation : spaced (optional (char '!')) mid = .ok (negation, mid')) (hlist : TypeList types list)
    (htarget : TargetSign target right) (hnext : NodeNext words)
    (hs : Laid (list :: (']' :: right) :: words) mid') :
    ∃ rest, typedLink (left ++ ['['] ++ mid) =
      .ok (⟨.typed types negation.isSome, source, target⟩, rest) ∧ Laid words rest := by
  obtain ⟨mid'', htypes, hs⟩ := spaced_typeNames hlist (closing_bracket right) hs
  obtain ⟨rest, hskip, hs⟩ := hs.skip_cons
  have hsign := targetSign_append htarget (head?_ne_of_nodeNext hnext hs rfl (by decide))
  have hopen : sourceSign (left ++ ['['] ++ mid) = .ok (source, '[' :: mid) := by
    rw [List.append_assoc]
    exact sourceSign_append hsource mid
  refine ⟨rest, ?_, hs⟩
  simp only [typedLink, bind_eq_ok, pure_eq_ok, char_eq_ok]
  exact ⟨source, _, hopen, (), mid, rfl, negation, mid', hnegation, types, _, htypes, (), _, hskip,
    target, rest, hsign, rfl, rfl⟩

theorem spaced_linkElement_of_typed {rest : List Char} (hskip : skip cs = w)
    (h : typedLink w = .ok (l, rest)) : spaced linkElement cs = .ok (l, skip rest) :=
  spaced_eq_ok.2 ⟨rest, orElse_eq_ok.2 (.inl (hskip ▸ h)), rfl⟩

theorem reads_linkElement : (spaced linkElement).Reads LinkWords NodeNext := by
  intro cs l ws words h hnext hs
  cases h with
  | @bare source target sign hbare =>
    obtain ⟨mid, hskip, hs⟩ := Laid.skip_cons hs
    have hread := bareSign_append hbare (head?_ne_of_nodeNext hnext hs rfl (by decide))
    have hfails := fails_typedLink hbare (head?_ne_of_nodeNext hnext hs rfl (by decide))
    have hlink : bareLink (sign ++ mid) = .ok (⟨.short, source, target⟩, mid) :=
      bind_eq_ok.2 ⟨_, mid, hread, pure_eq_ok.2 ⟨rfl, rfl⟩⟩
    rw [← hskip] at hfails hlink
    exact ⟨mid, spaced_eq_ok.2 ⟨mid, orElse_eq_ok.2 (.inr ⟨hfails, hlink⟩), rfl⟩, hs⟩
  | @typed source target left right list types hsource hlist htarget =>
    obtain ⟨mid, hskip, hs⟩ := Laid.skip_cons hs
    have hnone : spaced (optional (char '!')) mid = .ok (none, skip mid) := by
      refine spaced_eq_ok.2 ⟨skip mid, optional_eq_none.2 ⟨fails_char ?_, rfl⟩, skip_skip mid⟩
      intro hmark
      obtain ⟨c, tail, rfl, hc⟩ := hlist.exists_head
      obtain rfl := Option.some.inj (hs.skip.head?_eq hmark rfl)
      exact absurd hc (by decide)
    obtain ⟨rest, hread, hrest⟩ := typedLink_of_laid hsource hnone hlist htarget hnext hs.skip
    exact ⟨rest, spaced_linkElement_of_typed hskip hread, hrest⟩
  | @negated source target left right list types hsource hlist htarget =>
    obtain ⟨mid, hskip, hs⟩ := Laid.skip_cons hs
    obtain ⟨mid', hmark, hs⟩ := hs.spaced (p := optional (char '!')) (a := some ()) fun _ _ =>
      optional_eq_some.2 (char_eq_ok.2 rfl)
    obtain ⟨rest, hread, hrest⟩ := typedLink_of_laid hsource hmark hlist htarget hnext hs.skip
    exact ⟨rest, spaced_linkElement_of_typed hskip hread, hrest⟩

theorem consumes_linkElement : Consumes linkElement := by
  have hchar : ∀ c, Shrinks (char c) := fun c => (consumes_char c).shrinks
  have hsource : Consumes sourceSign := takes_sourceSign.consumes fun c w hw => hw.solid.ne_nil
  have hbare : Consumes bareSign := takes_bareSign.consumes fun c w hw => hw.solid.ne_nil
  refine Consumes.orElse ?_ (hbare.bind fun _ => shrinks_pure _)
  exact hsource.bind fun _ => (hchar '[').bind fun _ => (hchar '!').optional.spaced.bind fun _ =>
    takes_typeNames.shrinks.spaced.bind fun _ => (hchar ']').bind fun _ =>
      takes_targetSign.shrinks.bind fun _ => shrinks_pure _

end Pattern

end PatternGraph
