import PatternGraph.Pattern.Grammar
import PatternGraph.Proofs.Text.TypeList

/-!
# The grammar of nodes

`NodeKind.Words` writes down the words of each kind of node, and `QuotedName` how a name stands
between quotes. The parser tries `*`, a name, types and nothing in this order. It never takes a wrong
turn: a name starts with a quote, and types start with a character of a name. What stands behind a
name is given up if it is no list of types, and then the white space in front of it is left for the
closing parenthesis.
-/

namespace PatternGraph

open Text
open Text.Parser

namespace Pattern

variable {cs rest word name : List Char} {quote c e : Char}

/-! ### Names between quotes -/

/-- What a backslash and a character stand for between quotes. -/
inductive Escape (quote : Char) : Char → Char → Prop where
  | backslash : Escape quote '\\' '\\'
  | quote : Escape quote quote quote
  | newline : Escape quote 'n' '\n'
  | tab : Escape quote 't' '\t'

/-- How the characters of a name are written between two quotes. -/
inductive Quoted (quote : Char) : List Char → List Char → Prop where
  | nil : Quoted quote [] []
  | plain {c : Char} {name cs : List Char} (h : c ≠ '\\') (h' : c ≠ quote)
      (hs : Quoted quote name cs) : Quoted quote (c :: name) (c :: cs)
  | escaped {c e : Char} {name cs : List Char} (h : Escape quote c e) (hs : Quoted quote name cs) :
      Quoted quote (e :: name) ('\\' :: c :: cs)

/-- A name between double or single quotes, of which something is written. -/
inductive QuotedName : String → List Char → Prop where
  | mk {quote : Char} {name cs : List Char} (hquote : quote = '"' ∨ quote = '\'') (hne : name ≠ [])
      (h : Quoted quote name cs) : QuotedName (String.ofList name) (quote :: cs ++ [quote])

theorem unescape_eq_some (hquote : quote = '"' ∨ quote = '\'') :
    unescape quote c = some e ↔ Escape quote c e := by
  constructor
  · intro h
    rw [unescape] at h
    split at h
    · next hc =>
      obtain rfl := Option.some.inj h
      rcases hc with rfl | rfl
      · exact .backslash
      · exact .quote
    · split at h
      · next hc =>
        obtain rfl := Option.some.inj h
        exact hc ▸ .newline
      · split at h
        · next hc =>
          obtain rfl := Option.some.inj h
          exact hc ▸ .tab
        · exact absurd h nofun
  · intro h
    cases h with
    | backslash => exact if_pos (.inl rfl)
    | quote => exact if_pos (.inr rfl)
    | newline => rcases hquote with rfl | rfl <;> rfl
    | tab => rcases hquote with rfl | rfl <;> rfl

theorem map_cons_eq_ok {r : Except (List Char) (List Char × List Char)} :
    (r.map fun (cs, rest) => (c :: cs, rest)) = .ok (name, rest) ↔
      ∃ name', r = .ok (name', rest) ∧ name = c :: name' := by
  cases r with
  | error at_ => simp [Except.map]
  | ok r =>
    simp only [Except.map, Except.ok.injEq, Prod.mk.injEq]
    exact ⟨fun ⟨hname, hrest⟩ => ⟨r.1, by rw [← hrest], hname.symm⟩,
      fun ⟨name', hr, hname⟩ => by rw [hr]; exact ⟨hname.symm, rfl⟩⟩

theorem ne_backslash (hquote : quote = '"' ∨ quote = '\'') : quote ≠ '\\' := by
  rcases hquote with rfl | rfl <;> decide

theorem quotedRest_cons (h : c ≠ '\\') : quotedRest quote (c :: cs) =
    if c = quote then .ok ([], cs) else (quotedRest quote cs).map fun (cs, rest) => (c :: cs, rest) :=
  quotedRest.eq_4 quote c cs (fun hc => absurd hc h) fun _ _ hc => absurd hc h

theorem quoted_of_quotedRest (hquote : quote = '"' ∨ quote = '\'')
    (h : quotedRest quote cs = .ok (name, rest)) :
    ∃ word, Quoted quote name word ∧ cs = word ++ quote :: rest := by
  induction cs using quotedRest.induct quote generalizing name with
  | case1 => exact absurd h nofun
  | case2 => exact absurd h nofun
  | case3 c cs hnone =>
    simp only [quotedRest, hnone] at h
    exact absurd h nofun
  | case4 c cs e he ih =>
    simp only [quotedRest, he] at h
    obtain ⟨name, hname, rfl⟩ := map_cons_eq_ok.1 h
    obtain ⟨word, hword, rfl⟩ := ih hname
    exact ⟨'\\' :: c :: word, .escaped ((unescape_eq_some hquote).1 he) hword, rfl⟩
  | case5 cs _ _ =>
    rw [quotedRest_cons (ne_backslash hquote), if_pos rfl] at h
    obtain ⟨rfl, rfl⟩ := Prod.mk.inj (Except.ok.inj h)
    exact ⟨[], .nil, rfl⟩
  | case6 c cs hlast hescape hne ih =>
    have hc : c ≠ '\\' := fun hc => by
      cases cs with
      | nil => exact hlast hc rfl
      | cons d cs => exact hescape d cs hc rfl
    rw [quotedRest_cons hc, if_neg hne] at h
    obtain ⟨name, hname, rfl⟩ := map_cons_eq_ok.1 h
    obtain ⟨word, hword, rfl⟩ := ih hname
    exact ⟨c :: word, .plain hc hne hword, rfl⟩

theorem quotedRest_append (hquote : quote = '"' ∨ quote = '\'') (h : Quoted quote name word)
    (rest : List Char) : quotedRest quote (word ++ quote :: rest) = .ok (name, rest) := by
  induction h with
  | nil => rw [List.nil_append, quotedRest_cons (ne_backslash hquote), if_pos rfl]
  | plain hc hne _ ih =>
    rw [List.cons_append, quotedRest_cons hc, if_neg hne, ih]
    rfl
  | escaped he _ ih =>
    rw [List.cons_append, List.cons_append, quotedRest.eq_3, (unescape_eq_some hquote).2 he, ih]
    rfl

/-- Between the quotes there is a name exactly if the closing quote does not come at once. -/
theorem Quoted.head?_ne (h : Quoted quote name word) (hquote : quote = '"' ∨ quote = '\'')
    (rest : List Char) : (word ++ quote :: rest).head? ≠ some quote ↔ name ≠ [] := by
  cases h with
  | nil => simp
  | plain _ hne _ => simpa using hne
  | escaped _ _ => simpa using (ne_backslash hquote).symm

theorem takes_quotedWith (hquote : quote = '"' ∨ quote = '\'') :
    Takes (quotedWith quote) QuotedName := by
  intro cs name rest h
  obtain ⟨_, mid, hopen, hname⟩ := bind_eq_ok.1 h
  rw [char_eq_ok.1 hopen]
  simp only at hname
  split at hname
  · exact absurd hname nofun
  · next hne =>
    cases hrest : quotedRest quote mid with
    | error at_ => simp [hrest, Except.map] at hname
    | ok r =>
      simp only [hrest, Except.map, Except.ok.injEq, Prod.mk.injEq] at hname
      obtain ⟨rfl, rfl⟩ := hname
      obtain ⟨word, hword, rfl⟩ := quoted_of_quotedRest hquote hrest
      refine ⟨quote :: word ++ [quote], .mk hquote ((hword.head?_ne hquote _).1 hne) hword, by simp⟩

theorem quotedWith_append (hquote : quote = '"' ∨ quote = '\'') (hne : name ≠ [])
    (h : Quoted quote name word) (rest : List Char) :
    quotedWith quote (quote :: word ++ [quote] ++ rest) = .ok (String.ofList name, rest) := by
  refine bind_eq_ok.2 ⟨(), word ++ quote :: rest, char_eq_ok.2 (by simp), ?_⟩
  rw [if_neg ((h.head?_ne hquote rest).2 hne), quotedRest_append hquote h]
  rfl

theorem takes_quotedName : Takes quotedName QuotedName := by
  intro cs name rest h
  rcases orElse_eq_ok.1 h with h | ⟨-, h⟩
  · exact takes_quotedWith (.inl rfl) cs name rest h
  · exact takes_quotedWith (.inr rfl) cs name rest h

variable {s : String}

theorem QuotedName.exists_quote (h : QuotedName s word) :
    ∃ quote tail, word = quote :: tail ∧ (quote = '"' ∨ quote = '\'') := by
  obtain @⟨quote, name, cs, hquote, -, -⟩ := h
  exact ⟨quote, cs ++ [quote], rfl, hquote⟩

theorem QuotedName.solid (h : QuotedName s word) : Solid word := by
  obtain ⟨quote, tail, rfl, hquote⟩ := h.exists_quote
  exact solid_cons (by rcases hquote with rfl | rfl <;> decide) tail

theorem QuotedName.head?_ne_star (h : QuotedName s word) (cs : List Char) :
    (word ++ cs).head? ≠ some '*' := by
  obtain ⟨quote, tail, rfl, hquote⟩ := h.exists_quote
  rcases hquote with rfl | rfl <;> exact nofun

/-- A name between quotes is taken whole, whatever follows. -/
theorem quotedName_append (h : QuotedName s word) (rest : List Char) :
    quotedName (word ++ rest) = .ok (s, rest) := by
  obtain @⟨quote, name, cs, hquote, hne, hquoted⟩ := h
  have hread := quotedWith_append hquote hne hquoted rest
  rcases hquote with rfl | rfl
  · exact orElse_eq_ok.2 (.inl hread)
  · have hdouble : Fails (quotedWith '"') ('\'' :: cs ++ ['\''] ++ rest) :=
      (fails_char (by simp)).bind
    exact orElse_eq_ok.2 (.inr ⟨hdouble, hread⟩)

/-- Without a quote in front there is no name. -/
theorem fails_quotedName (h : ∀ c ∈ cs.head?, c ≠ '"' ∧ c ≠ '\'') : Fails quotedName cs := by
  intro s rest hs
  obtain ⟨word, hword, rfl⟩ := takes_quotedName _ _ _ hs
  obtain ⟨quote, tail, rfl, hquote⟩ := hword.exists_quote
  obtain ⟨hne, hne'⟩ := h quote rfl
  rcases hquote with rfl | rfl
  · exact hne rfl
  · exact hne' rfl

/-! ### Nodes -/

/-- The words between the parentheses of a node. Between a name and types there is a colon, or at least
some white space, and then the two make one word. -/
inductive BodyWords : NodeKind → List (List Char) → Prop where
  | group : BodyWords .group [['*']]
  | anonymous : BodyWords .anonymous []
  | identified {name : String} {quoted : List Char} (h : QuotedName name quoted) :
      BodyWords (.identified name) [quoted]
  | describedColon {name : String} {quoted list : List Char} {types : List String}
      (h : QuotedName name quoted) (hlist : TypeList types list) :
      BodyWords (.described name types) [quoted, [':'], list]
  | describedGap {name : String} {quoted gap list : List Char} {types : List String}
      (h : QuotedName name quoted) (hgap : Gap gap) (hne : gap ≠ []) (hlist : TypeList types list) :
      BodyWords (.described name types) [quoted ++ gap ++ list]
  | typed {types : List String} {list : List Char} (hlist : TypeList types list) :
      BodyWords (.typed types) [list]

/-- The words of a node. -/
def NodeWords (kind : NodeKind) (ws : List (List Char)) : Prop :=
  ∃ body, BodyWords kind body ∧ ws = ['('] :: body ++ [[')']]

/-- The types behind a name. -/
def typesBehind : Parser (List String) := do
  orElse (spaced (char ':')) someGaps
  typeNames

variable {kind : NodeKind} {words ws : List (List Char)} {types : List String} {list : List Char}

theorem namedNode_eq_ok : namedNode cs = .ok (kind, rest) ↔
    ∃ name mid, quotedName cs = .ok (name, mid) ∧
      ((∃ types, typesBehind mid = .ok (types, rest) ∧ kind = .described name types) ∨
        Fails typesBehind mid ∧ mid = rest ∧ kind = .identified name) := by
  rw [namedNode, bind_eq_ok]
  refine exists_congr fun name => exists_congr fun mid => and_congr_right fun _ => ?_
  rw [bind_eq_ok]
  constructor
  · rintro ⟨_ | types, mid', htypes, h⟩
    · obtain ⟨hfails, rfl⟩ := optional_eq_none.1 htypes
      obtain ⟨rfl, rfl⟩ := pure_eq_ok.1 h
      exact .inr ⟨hfails, rfl, rfl⟩
    · obtain ⟨rfl, rfl⟩ := pure_eq_ok.1 h
      exact .inl ⟨types, optional_eq_some.1 htypes, rfl⟩
  · rintro (⟨types, htypes, rfl⟩ | ⟨hfails, rfl, rfl⟩)
    · exact ⟨some types, rest, optional_eq_some.2 htypes, pure_eq_ok.2 ⟨rfl, rfl⟩⟩
    · exact ⟨none, mid, optional_eq_none.2 ⟨hfails, rfl⟩, pure_eq_ok.2 ⟨rfl, rfl⟩⟩

/-! #### What is read is laid out -/

theorem laid_of_typesBehind (h : typesBehind cs = .ok (types, rest)) (hs : Laid words rest) :
    ∃ list, TypeList types list ∧ (Laid ([':'] :: list :: words) cs ∨
      ∃ gap, Gap gap ∧ gap ≠ [] ∧ cs = gap ++ list ++ rest) := by
  obtain ⟨_, mid, hjoin, htypes⟩ := bind_eq_ok.1 h
  obtain ⟨list, hlist, rfl⟩ := takes_typeNames _ _ _ htypes
  refine ⟨list, hlist, ?_⟩
  rcases orElse_eq_ok.1 hjoin with hcolon | ⟨-, hgap⟩
  · exact .inl (.of_spaced_char rfl hcolon (hs.word hlist.solid))
  · obtain ⟨c, tail, rfl, hc, hskip⟩ := someGaps_eq_ok.1 hgap
    refine .inr ⟨c :: tail.takeWhile isGap, List.forall_mem_cons.2 ⟨hc, gap_takeWhile tail⟩,
      List.cons_ne_nil _ _, ?_⟩
    rw [List.append_assoc, List.cons_append, ← hskip, takeWhile_append_skip]

theorem lays_nodeBody : nodeBody.Lays BodyWords := by
  intro cs kind rest words h hs
  -- one case for each alternative; that the ones before it failed does not matter here
  simp only [nodeBody, firstOf, orElse_eq_ok] at h
  rcases h with h | ⟨-, h | ⟨-, h | ⟨-, h⟩⟩⟩
  · obtain ⟨rfl, u, hstar⟩ := value_eq_ok.1 h
    rw [char_eq_ok.1 hstar]
    exact ⟨_, .group, hs.word (solid_cons rfl [])⟩
  · obtain ⟨name, mid, hname, hbehind⟩ := namedNode_eq_ok.1 h
    obtain ⟨quoted, hquoted, rfl⟩ := takes_quotedName _ _ _ hname
    rcases hbehind with ⟨types, htypes, rfl⟩ | ⟨-, rfl, rfl⟩
    · obtain ⟨list, hlist, hlaid | ⟨gap, hgap, hne, rfl⟩⟩ := laid_of_typesBehind htypes hs
      · exact ⟨_, .describedColon hquoted hlist, hlaid.word hquoted.solid⟩
      · refine ⟨_, .describedGap hquoted hgap hne hlist, ?_⟩
        rw [← List.append_assoc, ← List.append_assoc]
        exact hs.word ((hquoted.solid.append gap).append list)
    · exact ⟨_, .identified hquoted, hs.word hquoted.solid⟩
  · obtain ⟨types, htypes, rfl⟩ := map_eq_ok.1 h
    obtain ⟨list, hlist, rfl⟩ := takes_typeNames _ _ _ htypes
    exact ⟨_, .typed hlist, hs.word hlist.solid⟩
  · obtain ⟨rfl, u, hgaps⟩ := value_eq_ok.1 h
    obtain rfl := gaps_eq_ok.1 hgaps
    exact ⟨_, .anonymous, hs.of_skip⟩

theorem lays_nodeElement : nodeElement.Lays NodeWords := by
  intro cs kind rest words h hs
  simp only [nodeElement, bind_eq_ok, pure_eq_ok] at h
  obtain ⟨_, mid, hopen, _, mid', hbody, _, _, hclose, rfl, rfl⟩ := h
  obtain ⟨body, hwords, hlaid⟩ := lays_nodeBody _ _ _ _ hbody (.of_spaced_char rfl hclose hs)
  refine ⟨_, ⟨body, hwords, rfl⟩, ?_⟩
  simpa using Laid.of_spaced_char rfl hopen hlaid

/-! #### What is laid out is read -/

theorem typesBehind_colon {w : List Char} (hlist : TypeList types list) (hw : Closing w)
    (hs : Laid ([':'] :: list :: w :: words) cs) :
    ∃ mid, typesBehind cs = .ok (types, mid) ∧ Laid (w :: words) mid := by
  obtain ⟨mid, hcolon, hs⟩ := hs.spaced_char
  obtain ⟨rest, hskip, hs⟩ := hs.skip_cons
  refine ⟨rest, bind_eq_ok.2 ⟨(), _, orElse_eq_ok.2 (.inl hcolon), ?_⟩, hs⟩
  rw [hskip]
  exact typeNames_append hlist (hw.of_laid hs)

theorem typesBehind_gap {gap : List Char} (hgap : Gap gap) (hne : gap ≠ [])
    (hlist : TypeList types list) (hrest : Closing (skip rest)) :
    typesBehind (gap ++ list ++ rest) = .ok (types, rest) := by
  have hskip : ∀ {gap}, Gap gap → skip (gap ++ list ++ rest) = list ++ rest := fun hgap => by
    rw [List.append_assoc, skip_gap hgap, skip_of_solid (hlist.solid.append rest)]
  -- behind the white space stands the list and no colon
  have hcolon : Fails (spaced (char ':')) (gap ++ list ++ rest) := by
    refine (fails_char ?_).spaced
    obtain ⟨c, tail, rfl, hc⟩ := hlist.exists_head
    rw [hskip hgap, List.cons_append, List.head?_cons]
    rintro h
    rw [Option.some.inj h] at hc
    exact absurd hc (by decide)
  obtain ⟨c, gap, rfl⟩ := List.exists_cons_of_ne_nil hne
  obtain ⟨hc, hgap'⟩ := List.forall_mem_cons.1 hgap
  have hgaps : someGaps (c :: gap ++ list ++ rest) = .ok ((), list ++ rest) :=
    someGaps_eq_ok.2 ⟨c, gap ++ list ++ rest, rfl, hc, hskip hgap'⟩
  exact bind_eq_ok.2 ⟨(), _, orElse_eq_ok.2 (.inr ⟨hcolon, hgaps⟩), typeNames_append hlist hrest⟩

theorem fails_typesBehind (h : Closing (skip cs)) : Fails typesBehind cs := by
  intro types rest htypes
  obtain ⟨_, mid, hjoin, htypes⟩ := bind_eq_ok.1 htypes
  rcases orElse_eq_ok.1 hjoin with hcolon | ⟨-, hgap⟩
  · obtain ⟨tail, hskip, -⟩ := spaced_eq_ok.1 hcolon
    obtain ⟨c, hc, hclose⟩ := h
    rw [char_eq_ok.1 hskip] at hc
    obtain rfl := Option.some.inj hc
    exact absurd hclose (by decide)
  · obtain ⟨c, tail, rfl, hc, rfl⟩ := someGaps_eq_ok.1 hgap
    rw [skip_cons_of_gap hc] at h
    exact fails_typeNames h.skip.not_isNamePart_head types rest htypes

theorem nodeBody_of_namedNode (hquoted : QuotedName s word)
    (h : namedNode (word ++ cs) = .ok (kind, rest)) : nodeBody (word ++ cs) = .ok (kind, rest) :=
  orElse_eq_ok.2 (.inr ⟨(fails_char (hquoted.head?_ne_star cs)).value, orElse_eq_ok.2 (.inl h)⟩)

theorem nodeBody_of_typeNames (hlist : TypeList types list) (hrest : Closing (skip rest)) :
    nodeBody (list ++ rest) = .ok (.typed types, rest) := by
  have htypes : (NodeKind.typed <$> typeNames) (list ++ rest) = .ok (.typed types, rest) :=
    map_eq_ok.2 ⟨types, typeNames_append hlist hrest, rfl⟩
  obtain ⟨c, tail, rfl, hc⟩ := hlist.exists_head
  have hne : ∀ d, isNamePart d = false → c ≠ d := by
    rintro d hd rfl
    exact Bool.false_ne_true (hd.symm.trans hc)
  have hstar : Fails (char '*') (c :: tail ++ rest) :=
    fails_char fun h => hne '*' rfl (Option.some.inj h)
  have hname : Fails quotedName (c :: tail ++ rest) := fails_quotedName fun d hd => by
    obtain rfl := Option.some.inj hd
    exact ⟨hne '"' rfl, hne '\'' rfl⟩
  exact orElse_eq_ok.2 (.inr ⟨hstar.value, orElse_eq_ok.2 (.inr ⟨hname.bind,
    orElse_eq_ok.2 (.inl htypes)⟩)⟩)

/-- In front of the closing parenthesis nothing but white space can be taken. -/
theorem nodeBody_of_closing (h : Closing cs) : nodeBody cs = .ok (.anonymous, skip cs) := by
  have htypes : Fails typeNames cs := fails_typeNames h.skip.not_isNamePart_head
  obtain ⟨c, hc, hcases⟩ := h
  have hstar : Fails (char '*') cs := fails_char fun h => by
    obtain rfl := Option.some.inj (hc.symm.trans h)
    exact absurd hcases (by decide)
  have hname : Fails quotedName cs := fails_quotedName fun d hd => by
    obtain rfl := Option.some.inj (hc.symm.trans hd)
    rcases hcases with rfl | rfl <;> decide
  exact orElse_eq_ok.2 (.inr ⟨hstar.value, orElse_eq_ok.2 (.inr ⟨hname.bind,
    orElse_eq_ok.2 (.inr ⟨htypes.map, rfl⟩)⟩)⟩)

theorem nodeBody_of_laid {w : List Char} (h : BodyWords kind ws) (hw : Closing w)
    (hs : Laid (ws ++ w :: words) cs) :
    ∃ mid, nodeBody (skip cs) = .ok (kind, mid) ∧ Laid (w :: words) mid := by
  cases h with
  | group =>
    obtain ⟨mid, hskip, hs⟩ := Laid.skip_cons hs
    exact ⟨mid, hskip ▸ rfl, hs⟩
  | anonymous => exact ⟨_, nodeBody_of_closing (hw.of_laid hs), hs.skip.skip⟩
  | identified hquoted =>
    obtain ⟨mid, hskip, hs⟩ := Laid.skip_cons hs
    have hnamed := namedNode_eq_ok.2 ⟨_, mid, quotedName_append hquoted mid,
      .inr ⟨fails_typesBehind (hw.of_laid hs), rfl, rfl⟩⟩
    exact ⟨mid, hskip ▸ nodeBody_of_namedNode hquoted hnamed, hs⟩
  | describedColon hquoted hlist =>
    obtain ⟨mid, hskip, hs⟩ := Laid.skip_cons hs
    obtain ⟨mid', htypes, hs⟩ := typesBehind_colon hlist hw hs
    have hnamed := namedNode_eq_ok.2 ⟨_, mid, quotedName_append hquoted mid, .inl ⟨_, htypes, rfl⟩⟩
    exact ⟨mid', hskip ▸ nodeBody_of_namedNode hquoted hnamed, hs⟩
  | @describedGap name quoted gap list types hquoted hgap hne hlist =>
    obtain ⟨mid, hskip, hs⟩ := Laid.skip_cons hs
    have htypes := typesBehind_gap hgap hne hlist (hw.of_laid hs)
    have hnamed := namedNode_eq_ok.2 ⟨_, _, quotedName_append hquoted _, .inl ⟨_, htypes, rfl⟩⟩
    have hword : skip cs = quoted ++ (gap ++ list ++ mid) := by
      rw [hskip]
      simp only [List.append_assoc]
    exact ⟨mid, hword ▸ nodeBody_of_namedNode hquoted hnamed, hs⟩
  | typed hlist =>
    obtain ⟨mid, hskip, hs⟩ := Laid.skip_cons hs
    exact ⟨mid, hskip ▸ nodeBody_of_typeNames hlist (hw.of_laid hs), hs⟩

theorem reads_nodeElement : nodeElement.Reads NodeWords fun _ => True := by
  rintro cs kind _ words ⟨body, hbody, rfl⟩ - hs
  rw [List.append_assoc] at hs
  obtain ⟨mid, hopen, hs⟩ := Laid.spaced_char hs
  obtain ⟨mid', hread, hs⟩ := nodeBody_of_laid hbody (closing_parenthesis []) hs
  obtain ⟨mid'', hclose, hs⟩ := hs.spaced_char
  simp only [nodeElement, bind_eq_ok, pure_eq_ok]
  exact ⟨mid'', ⟨(), _, hopen, kind, mid', hread, (), _, hclose, rfl, rfl⟩, hs⟩

theorem shrinks_nodeElement : Shrinks nodeElement := by
  have htypes : Shrinks typeNames := takes_typeNames.shrinks
  have hbehind : Shrinks typesBehind :=
    ((consumes_char ':').spaced.shrinks.orElse shrinks_someGaps).bind fun _ => htypes
  have hnamed : Shrinks namedNode := by
    intro cs kind rest h
    obtain ⟨name, mid, hname, hbehind'⟩ := namedNode_eq_ok.1 h
    have hmid := takes_quotedName.shrinks cs name mid hname
    rcases hbehind' with ⟨types, htypes, -⟩ | ⟨-, rfl, -⟩
    · exact Nat.le_trans (hbehind mid types rest htypes) hmid
    · exact hmid
  have hbody : Shrinks nodeBody :=
    ((consumes_char '*').shrinks.bind fun _ => shrinks_pure _).orElse <| hnamed.orElse <|
      (htypes.bind fun _ => shrinks_pure _).orElse <| shrinks_gaps.bind fun _ => shrinks_pure _
  exact (consumes_char '(').spaced.shrinks.bind fun _ => hbody.bind fun _ =>
    (consumes_char ')').spaced.shrinks.bind fun _ => shrinks_pure _

end Pattern

end PatternGraph
