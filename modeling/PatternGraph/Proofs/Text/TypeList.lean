import PatternGraph.Proofs.Text.Layout
import PatternGraph.Text.TypeNames

/-!
# The grammar of type lists

`TypeList types cs` says that a text is a list of type names, and which types it stands for: names
joined by commas or by the word `or`, in lower case and without the repetitions.

`Parser.typeNames` takes off the front of a text such a list and nothing else, and where a closing
sign follows, it takes the whole list. In particular it is never misled by a name that starts with
`or`, as in `order`.
-/

namespace PatternGraph.Text

/-! ### The grammar -/

/-- A type name: letters or underscores, and then letters, digits, underscores and points. -/
def IsName (cs : List Char) : Prop :=
  ∃ head tail, cs = head ++ tail ∧ head ≠ [] ∧ (∀ c ∈ head, isNameStart c = true) ∧
    ∀ c ∈ tail, isNamePart c = true

/-- What joins two type names. -/
inductive Separator : List Char → Prop where
  | comma {before after : List Char} (hb : Gap before) (ha : Gap after) :
      Separator (before ++ ',' :: after)
  | orWord {before after : List Char} {o r : Char} (hb : Gap before) (hb' : before ≠ [])
      (ho : o = 'o' ∨ o = 'O') (hr : r = 'r' ∨ r = 'R') (ha : Gap after) (ha' : after ≠ []) :
      Separator (before ++ o :: r :: after)

/-- Type names as they are written, and the text that joins them. -/
inductive NameList : List String → List Char → Prop where
  | one {name : List Char} (h : IsName name) : NameList [String.ofList name] name
  | cons {name sep cs : List Char} {names : List String} (h : IsName name) (hsep : Separator sep)
      (hs : NameList names cs) : NameList (String.ofList name :: names) (name ++ sep ++ cs)

/-- A list of type names, and the types that it stands for. -/
def TypeList (types : List String) (cs : List Char) : Prop :=
  ∃ names, NameList names cs ∧ types = (names.map asciiLowercase).eraseDups

/-- The text starts with a closing sign. -/
def Closing (cs : List Char) : Prop := ∃ c ∈ cs.head?, c = ')' ∨ c = ']'

/-! ### What the grammar says of single characters -/

variable {cs rest word : List Char} {types : List String}

theorem gap_cases {c : Char} (h : isGap c = true) : c = ' ' ∨ c = '\t' ∨ c = '\n' ∨ c = '\r' := by
  simpa [isGap, or_assoc] using h

/-- The signs of patterns and rules do not occur in names. -/
theorem not_isNamePart : ∀ c ∈ " \t\n\r,()[]!:*'\"<>-=?".toList, isNamePart c = false := by
  have hall : (" \t\n\r,()[]!:*'\"<>-=?".toList.all fun c => !isNamePart c) = true := by decide
  intro c hc
  simpa using List.all_eq_true.1 hall c hc

theorem isGap_of_isNamePart {c : Char} (h : isNamePart c = true) : isGap c = false := by
  refine Bool.eq_false_iff.2 fun hgap => ?_
  have hmem : c ∈ " \t\n\r,()[]!:*'\"<>-=?".toList := by
    rcases gap_cases hgap with rfl | rfl | rfl | rfl <;> decide
  rw [not_isNamePart c hmem] at h
  exact Bool.false_ne_true h

theorem isName_iff : IsName cs ↔
    ∃ c tail, cs = c :: tail ∧ isNameStart c = true ∧ ∀ d ∈ tail, isNamePart d = true := by
  constructor
  · rintro ⟨_ | ⟨c, head⟩, tail, rfl, hne, hhead, htail⟩
    · exact absurd rfl hne
    · obtain ⟨hc, hhead⟩ := List.forall_mem_cons.1 hhead
      exact ⟨c, head ++ tail, rfl, hc,
        List.forall_mem_append.2 ⟨fun d hd => isNamePart_of_isNameStart (hhead d hd), htail⟩⟩
  · rintro ⟨c, tail, rfl, hc, htail⟩
    exact ⟨[c], tail, rfl, List.cons_ne_nil _ _, by simpa using hc, htail⟩

theorem IsName.mem (h : IsName cs) {c : Char} (hc : c ∈ cs) : isNamePart c = true := by
  obtain ⟨d, tail, rfl, hd, htail⟩ := isName_iff.1 h
  rcases List.mem_cons.1 hc with rfl | hc
  · exact isNamePart_of_isNameStart hd
  · exact htail c hc

/-- A list of type names starts with a character of a name. -/
theorem TypeList.exists_head (h : TypeList types cs) :
    ∃ c tail, cs = c :: tail ∧ isNamePart c = true := by
  obtain ⟨names, hlist, -⟩ := h
  cases hlist with
  | one h =>
    obtain ⟨c, tail, rfl, hc, -⟩ := isName_iff.1 h
    exact ⟨c, tail, rfl, isNamePart_of_isNameStart hc⟩
  | @cons name sep cs names h hsep hs =>
    obtain ⟨c, tail, rfl, hc, -⟩ := isName_iff.1 h
    exact ⟨c, tail ++ sep ++ cs, rfl, isNamePart_of_isNameStart hc⟩

theorem TypeList.solid (h : TypeList types cs) : Solid cs := by
  obtain ⟨c, tail, rfl, hc⟩ := h.exists_head
  exact solid_cons (isGap_of_isNamePart hc) tail

theorem Separator.mem (h : Separator cs) {c : Char} (hc : c ∈ cs) :
    isNamePart c = true ∨ isGap c = true ∨ c = ',' := by
  cases h with
  | @comma before after hb ha =>
    simp only [List.mem_append, List.mem_cons] at hc
    rcases hc with hc | rfl | hc
    · exact .inr (.inl (hb c hc))
    · exact .inr (.inr rfl)
    · exact .inr (.inl (ha c hc))
  | @orWord before after o r hb _ ho hr ha _ =>
    simp only [List.mem_append, List.mem_cons] at hc
    rcases hc with hc | rfl | rfl | hc
    · exact .inr (.inl (hb c hc))
    · exact .inl (by rcases ho with rfl | rfl <;> decide)
    · exact .inl (by rcases hr with rfl | rfl <;> decide)
    · exact .inr (.inl (ha c hc))

theorem NameList.mem {names : List String} (h : NameList names cs) {c : Char} (hc : c ∈ cs) :
    isNamePart c = true ∨ isGap c = true ∨ c = ',' := by
  induction h with
  | one h => exact .inl (h.mem hc)
  | cons h hsep _ ih =>
    simp only [List.mem_append] at hc
    rcases hc with (hc | hc) | hc
    · exact .inl (h.mem hc)
    · exact hsep.mem hc
    · exact ih hc

/-- The characters of a list of type names are those of names, white space and commas. -/
theorem TypeList.mem (h : TypeList types cs) {c : Char} (hc : c ∈ cs) :
    isNamePart c = true ∨ isGap c = true ∨ c = ',' := by
  obtain ⟨names, hlist, -⟩ := h
  exact hlist.mem hc

theorem closing_parenthesis (cs : List Char) : Closing (')' :: cs) := ⟨')', rfl, .inl rfl⟩

theorem closing_bracket (cs : List Char) : Closing (']' :: cs) := ⟨']', rfl, .inr rfl⟩

theorem Closing.append (h : Closing cs) (rest : List Char) : Closing (cs ++ rest) := by
  obtain ⟨c, hc, hclose⟩ := h
  cases cs with
  | nil => exact absurd hc nofun
  | cons d cs => exact ⟨c, hc, hclose⟩

theorem Closing.solid (h : Closing cs) : Solid cs := by
  obtain ⟨c, hc, hclose⟩ := h
  exact ⟨c, hc, by rcases hclose with rfl | rfl <;> decide⟩

protected theorem Closing.skip (h : Closing cs) : Closing (skip cs) := by
  rw [skip_of_solid h.solid]
  exact h

/-- What is laid out with a word that starts with a closing sign. -/
theorem Closing.of_laid {words : List (List Char)} (h : Closing word) (hs : Laid (word :: words) cs) :
    Closing (skip cs) := by
  obtain ⟨rest, hskip, -⟩ := hs.skip_cons
  exact hskip ▸ h.append rest

/-- A name does not go on with white space and a closing sign. -/
theorem Closing.not_isNamePart_head (h : Closing (skip rest)) :
    ∀ c ∈ rest.head?, isNamePart c = false := by
  intro d hd
  cases rest with
  | nil => exact absurd hd nofun
  | cons e rest =>
    obtain rfl := Option.some.inj hd
    refine not_isNamePart e ?_
    cases hgap : isGap e with
    | true => rcases gap_cases hgap with rfl | rfl | rfl | rfl <;> decide
    | false =>
      rw [skip_of_solid (solid_cons hgap rest)] at h
      obtain ⟨c, hc, hclose⟩ := h
      obtain rfl := Option.some.inj hc
      rcases hclose with rfl | rfl <;> decide

/-- Nor can a name go on with what joins it to the next one. -/
theorem Separator.not_isNamePart_head {sep : List Char} (h : Separator sep) (cs : List Char) :
    ∀ c ∈ (sep ++ cs).head?, isNamePart c = false := by
  have hgap : ∀ {g : Char}, isGap g = true → isNamePart g = false := fun hg =>
    Bool.eq_false_iff.2 fun hpart => by
      rw [isGap_of_isNamePart hpart] at hg
      exact Bool.false_ne_true hg
  intro c hc
  cases h with
  | @comma before after hb ha =>
    cases before with
    | nil =>
      obtain rfl := Option.some.inj hc
      decide
    | cons g before =>
      obtain rfl := Option.some.inj hc
      exact hgap (hb g List.mem_cons_self)
  | @orWord before after o r hb hb' ho hr ha ha' =>
    obtain ⟨g, before, rfl⟩ := List.exists_cons_of_ne_nil hb'
    obtain rfl := Option.some.inj hc
    exact hgap (hb g List.mem_cons_self)

namespace Parser

/-! ### Names -/

theorem takes_typeName : Takes typeName fun name w => IsName w ∧ name = String.ofList w := by
  intro cs name rest h
  cases cs with
  | nil => exact absurd h nofun
  | cons c cs =>
    rw [typeName] at h
    split at h
    · next hc =>
      obtain ⟨rfl, rfl⟩ := Prod.mk.inj (Except.ok.inj h)
      refine ⟨c :: cs.takeWhile isNamePart, ⟨isName_iff.2 ⟨c, _, rfl, hc, ?_⟩, rfl⟩, ?_⟩
      · exact fun d hd => List.mem_takeWhile_imp hd
      · rw [List.cons_append, List.takeWhile_append_dropWhile]
    · exact absurd h nofun

/-- A name is taken whole if what follows cannot go on with it. -/
theorem typeName_append (h : IsName word) (hrest : ∀ c ∈ rest.head?, isNamePart c = false) :
    typeName (word ++ rest) = .ok (String.ofList word, rest) := by
  obtain ⟨c, tail, rfl, hc, htail⟩ := isName_iff.1 h
  have htake : rest.takeWhile isNamePart = [] := by
    cases rest with
    | nil => rfl
    | cons d rest => exact List.takeWhile_cons_of_neg (by simp [hrest d rfl])
  have hdrop : rest.dropWhile isNamePart = rest := by
    cases rest with
    | nil => rfl
    | cons d rest => exact List.dropWhile_cons_of_neg (by simp [hrest d rfl])
  rw [List.cons_append, typeName, if_pos hc, List.takeWhile_append_of_pos htail,
    List.dropWhile_append_of_pos htail, htake, hdrop, List.append_nil]

/-! ### What joins names -/

theorem orWord_eq_ok {u : Unit} : orWord cs = .ok (u, rest) ↔
    ∃ g tail o r g' tail', cs = g :: tail ∧ isGap g = true ∧ (o = 'o' ∨ o = 'O') ∧
      (r = 'r' ∨ r = 'R') ∧ skip tail = o :: r :: g' :: tail' ∧ isGap g' = true ∧
      skip tail' = rest := by
  simp only [orWord, bind_eq_ok, someGaps_eq_ok, oneOf_eq_ok]
  constructor
  · rintro ⟨-, _, ⟨g, tail, rfl, hg, rfl⟩, o, _, ⟨ho, hskip⟩, r, _, ⟨hr, rfl⟩, g', tail', rfl, hg', h⟩
    exact ⟨g, tail, o, r, g', tail', rfl, hg, by simpa using ho, by simpa using hr, hskip, hg', h⟩
  · rintro ⟨g, tail, o, r, g', tail', rfl, hg, ho, hr, hskip, hg', h⟩
    exact ⟨(), _, ⟨g, tail, rfl, hg, rfl⟩, o, _, ⟨by simpa using ho, hskip⟩, r, _,
      ⟨by simpa using hr, rfl⟩, g', tail', rfl, hg', h⟩

theorem comma_eq_ok {u : Unit} :
    spaced (char ',') cs = .ok (u, rest) ↔ ∃ tail, skip cs = ',' :: tail ∧ skip tail = rest := by
  simp only [spaced_eq_ok, char_eq_ok]

theorem takes_nameSeparator : Takes nameSeparator fun _ w => Separator w := by
  intro cs u rest h
  rcases orElse_eq_ok.1 h with h | ⟨-, h⟩
  · obtain ⟨g, tail, o, r, g', tail', rfl, hg, ho, hr, hskip, hg', rfl⟩ := orWord_eq_ok.1 h
    refine ⟨g :: tail.takeWhile isGap ++ o :: r :: g' :: tail'.takeWhile isGap,
      .orWord (List.forall_mem_cons.2 ⟨hg, gap_takeWhile tail⟩) (List.cons_ne_nil _ _) ho hr
        (List.forall_mem_cons.2 ⟨hg', gap_takeWhile tail'⟩) (List.cons_ne_nil _ _), ?_⟩
    have htail := takeWhile_append_skip tail
    have htail' := takeWhile_append_skip tail'
    rw [hskip] at htail
    simp only [List.cons_append, List.append_assoc, htail', htail]
  · obtain ⟨tail, hskip, rfl⟩ := comma_eq_ok.1 h
    refine ⟨cs.takeWhile isGap ++ ',' :: tail.takeWhile isGap,
      .comma (gap_takeWhile cs) (gap_takeWhile tail), ?_⟩
    rw [List.append_assoc, List.cons_append, takeWhile_append_skip, ← hskip, takeWhile_append_skip]

/-- What joins two names is taken whole. -/
theorem nameSeparator_append {sep : List Char} (h : Separator sep) (hrest : Solid rest) :
    nameSeparator (sep ++ rest) = .ok ((), rest) := by
  have hafter : ∀ {after : List Char}, Gap after → skip (after ++ rest) = rest := fun ha => by
    rw [skip_gap ha, skip_of_solid hrest]
  cases h with
  | @comma before after hb ha =>
    have hskip : skip (before ++ ',' :: after ++ rest) = ',' :: (after ++ rest) := by
      rw [List.append_assoc, skip_gap hb]
      exact skip_of_solid (solid_cons rfl _)
    refine orElse_eq_ok.2 (.inr ⟨fun u rest' h => ?_, comma_eq_ok.2 ⟨_, hskip, hafter ha⟩⟩)
    -- behind the white space stands the comma and not the word
    obtain ⟨g, tail, o, r, g', tail', hcs, hg, ho, -, htail, -⟩ := orWord_eq_ok.1 h
    rw [hcs, skip_cons_of_gap hg, htail] at hskip
    obtain ⟨rfl, -⟩ := List.cons.inj hskip
    exact absurd ho (by decide)
  | @orWord before after o r hb hb' ho hr ha ha' =>
    obtain ⟨g, before, rfl⟩ := List.exists_cons_of_ne_nil hb'
    obtain ⟨g', after, rfl⟩ := List.exists_cons_of_ne_nil ha'
    obtain ⟨hg, hb⟩ := List.forall_mem_cons.1 hb
    obtain ⟨hg', ha⟩ := List.forall_mem_cons.1 ha
    refine orElse_eq_ok.2 (.inl (orWord_eq_ok.2
      ⟨g, before ++ o :: r :: g' :: (after ++ rest), o, r, g', after ++ rest, by simp, hg, ho, hr, ?_,
        hg', hafter ha⟩))
    rw [skip_gap hb]
    exact skip_of_solid (solid_cons (by rcases ho with rfl | rfl <;> decide) _)

/-! ### Lists of names -/

/-- What joins two names, and the second name. -/
def furtherName : Parser String := do
  nameSeparator
  typeName

theorem consumes_furtherName : Consumes furtherName :=
  takes_nameSeparator.shrinks.bind_consumes fun _ => takes_typeName.consumes fun _ _ hw => by
    obtain ⟨c, tail, rfl, -⟩ := isName_iff.1 hw.1
    exact List.cons_ne_nil c tail

theorem typeNames_eq_ok : typeNames cs = .ok (types, rest) ↔
    ∃ first mid others, typeName cs = .ok (first, mid) ∧ Run furtherName others mid rest ∧
      types = ((first :: others).map asciiLowercase).eraseDups := by
  simp only [typeNames, bind_eq_ok, pure_eq_ok]
  constructor
  · rintro ⟨first, mid, hfirst, others, _, hothers, rfl, rfl⟩
    exact ⟨first, mid, others, hfirst, (many_eq_ok_iff consumes_furtherName).1 hothers, rfl⟩
  · rintro ⟨first, mid, others, hfirst, hothers, rfl⟩
    exact ⟨first, mid, hfirst, others, rest, (many_eq_ok_iff consumes_furtherName).2 hothers, rfl,
      rfl⟩

theorem nameList_of_run {others : List String} {mid : List Char}
    (h : Run furtherName others mid rest) {word : List Char} (hword : IsName word) :
    ∃ list, NameList (String.ofList word :: others) list ∧ word ++ mid = list ++ rest := by
  induction h generalizing word with
  | stop _ => exact ⟨word, .one hword, rfl⟩
  | step h _ ih =>
    obtain ⟨_, mid, hsep, hname⟩ := bind_eq_ok.1 h
    obtain ⟨sep, hsep', rfl⟩ := takes_nameSeparator _ _ _ hsep
    obtain ⟨word', ⟨hword', rfl⟩, rfl⟩ := takes_typeName _ _ _ hname
    obtain ⟨list, hlist, heq⟩ := ih hword'
    refine ⟨word ++ sep ++ list, .cons hword hsep' hlist, ?_⟩
    rw [List.append_assoc, List.append_assoc, ← heq]

/-- What is taken off is a list of type names. -/
theorem takes_typeNames : Takes typeNames TypeList := by
  intro cs types rest h
  obtain ⟨first, mid, others, hfirst, hothers, rfl⟩ := typeNames_eq_ok.1 h
  obtain ⟨word, ⟨hword, rfl⟩, rfl⟩ := takes_typeName _ _ _ hfirst
  obtain ⟨list, hlist, heq⟩ := nameList_of_run hothers hword
  exact ⟨list, ⟨_, hlist, rfl⟩, heq⟩

/-- No further name can be taken where a closing sign follows. -/
theorem fails_furtherName (h : Closing (skip rest)) : Fails furtherName rest := by
  obtain ⟨c, hc, hclose⟩ := h
  intro name rest' hname
  obtain ⟨_, mid, hsep, -⟩ := bind_eq_ok.1 hname
  rcases orElse_eq_ok.1 hsep with hsep | ⟨-, hsep⟩
  · obtain ⟨g, tail, o, r, g', tail', rfl, hg, ho, -, htail, -⟩ := orWord_eq_ok.1 hsep
    rw [skip_cons_of_gap hg, htail] at hc
    obtain rfl := Option.some.inj hc
    rcases hclose with rfl | rfl <;> exact absurd ho (by decide)
  · obtain ⟨tail, htail, -⟩ := comma_eq_ok.1 hsep
    rw [htail] at hc
    obtain rfl := Option.some.inj hc
    exact absurd hclose (by decide)

theorem exists_run_of_nameList {names : List String} (h : NameList names word) (hrest : Closing (skip rest)) :
    ∃ first mid others, names = first :: others ∧ typeName (word ++ rest) = .ok (first, mid) ∧
      Run furtherName others mid rest := by
  induction h with
  | @one name h =>
    exact ⟨_, rest, [], rfl, typeName_append h hrest.not_isNamePart_head,
      .stop (fails_furtherName hrest)⟩
  | @cons name sep cs names h hsep hs ih =>
    obtain ⟨first, mid, others, rfl, hfirst, hothers⟩ := ih
    refine ⟨_, sep ++ (cs ++ rest), first :: others, rfl, ?_, .step ?_ hothers⟩
    · rw [List.append_assoc, List.append_assoc]
      exact typeName_append h (hsep.not_isNamePart_head _)
    · have hsolid : Solid (cs ++ rest) := (TypeList.solid ⟨_, hs, rfl⟩).append rest
      exact bind_eq_ok.2 ⟨(), _, nameSeparator_append hsep hsolid, hfirst⟩

/-- A list of type names is taken whole where a closing sign follows. -/
theorem typeNames_append (h : TypeList types word) (hrest : Closing (skip rest)) :
    typeNames (word ++ rest) = .ok (types, rest) := by
  obtain ⟨names, hlist, rfl⟩ := h
  obtain ⟨first, mid, others, rfl, hfirst, hothers⟩ := exists_run_of_nameList hlist hrest
  exact typeNames_eq_ok.2 ⟨first, mid, others, hfirst, hothers, rfl⟩

/-- No list of type names starts with a character that cannot stand in a name. -/
theorem fails_typeNames (h : ∀ c ∈ cs.head?, isNamePart c = false) : Fails typeNames cs := by
  intro types rest htypes
  obtain ⟨word, hword, rfl⟩ := takes_typeNames _ _ _ htypes
  obtain ⟨c, tail, rfl, hc⟩ := hword.exists_head
  rw [h c rfl] at hc
  exact Bool.false_ne_true hc

/-- What is taken off with the white space around it is one word, and that is a list of type names. -/
theorem laid_of_spaced_typeNames {words : List (List Char)}
    (h : spaced typeNames cs = .ok (types, rest)) (hs : Laid words rest) :
    ∃ word, TypeList types word ∧ Laid (word :: words) cs :=
  takes_typeNames.laid (fun _ _ hw => hw.solid) h hs

theorem fails_spaced_typeNames (h : Closing (skip cs)) : Fails (spaced typeNames) cs :=
  (fails_typeNames h.skip.not_isNamePart_head).spaced

/-- A list of type names is taken with the white space around it if a word follows that starts with
a closing sign. -/
theorem spaced_typeNames {words : List (List Char)} {w : List Char} (h : TypeList types word)
    (hw : Closing w) (hs : Laid (word :: w :: words) cs) :
    ∃ mid, spaced typeNames cs = .ok (types, skip mid) ∧ Laid (w :: words) mid :=
  hs.spaced fun _ hrest => typeNames_append h (hw.of_laid hrest)

end Parser

end PatternGraph.Text
