import PatternGraph.Edge.Key

/-!
# Keys and their texts

The text of a key can be taken apart again if no part holds the mark that ends it. A key is *plain*
if its source does not hold `-[`, its target does not hold `]->`, and its types are neither empty nor
hold a comma. Two plain keys of one text are the same key: the first `-[` ends the source, the last
`]->` starts the target, and the commas between tell the types apart.
-/

namespace PatternGraph.EdgeKey

/-- No part of the key holds the mark that ends it. -/
structure Plain (k : EdgeKey) : Prop where
  source : ¬ opening <:+: k.source.toList
  target : ¬ closing <:+: k.target.toList
  types : ∀ name ∈ k.types, name ≠ "" ∧ ',' ∉ name.toList

/-- The text of a key, with its types written in some way. -/
def spelling (source : String) (names : List String) (target : String) : String :=
  source ++ "-[" ++ ",".intercalate names ++ "]->" ++ target

theorem text_eq_spelling (k : EdgeKey) : k.text = spelling k.source k.types.names k.target := rfl

theorem toList_spelling (source : String) (names : List String) (target : String) :
    (spelling source names target).toList = source.toList ++ opening ++
      ([','].intercalate (names.map String.toList) ++ closing ++ target.toList) := by
  simp [spelling, opening, closing, String.toList_intercalate]

theorem toList_text (k : EdgeKey) :
    k.text.toList = k.source.toList ++ opening ++
      ([','].intercalate (k.types.names.map String.toList) ++ closing ++ k.target.toList) := by
  rw [text_eq_spelling, toList_spelling]

/-- What does not hold the opening mark is cut off in front of the first one. -/
theorem cutFirst_opening {before : List Char} (h : ¬ opening <:+: before) (after : List Char) :
    cutFirst opening (before ++ opening ++ after) = some (before, after) := by
  induction before with
  | nil => simp [cutFirst, opening]
  | cons c before ih =>
    obtain ⟨hstart, htail⟩ := not_or.1 (mt List.infix_cons_iff.2 h)
    have hnot : ¬ opening.isPrefixOf (c :: (before ++ opening ++ after)) = true := by
      intro hp
      rw [List.isPrefixOf_iff_prefix] at hp
      cases before with
      | nil => simp [opening] at hp
      | cons d before =>
        simp only [opening, List.cons_append, List.cons_prefix_cons] at hp hstart
        exact hstart ⟨hp.1, hp.2.1, List.nil_prefix⟩
    rw [List.cons_append, List.cons_append, cutFirst, if_neg hnot, ih htail]
    rfl

theorem cutLast_eq_none {mark cs : List Char} (h : ¬ mark <:+: cs) : cutLast mark cs = none := by
  induction cs with
  | nil => rfl
  | cons c cs ih =>
    obtain ⟨hstart, htail⟩ := not_or.1 (mt List.infix_cons_iff.2 h)
    rw [cutLast, ih htail]
    exact if_neg fun hp => hstart (List.isPrefixOf_iff_prefix.1 hp)

/-- What does not hold the closing mark is cut off behind the last one. -/
theorem cutLast_closing {after : List Char} (h : ¬ closing <:+: after) (before : List Char) :
    cutLast closing (before ++ closing ++ after) = some (before, after) := by
  induction before with
  | nil =>
    have hnone : cutLast closing ('-' :: '>' :: after) = none := by
      refine cutLast_eq_none ?_
      simp only [List.infix_cons_iff, not_or]
      exact ⟨by simp [closing], by simp [closing], h⟩
    change cutLast closing (']' :: '-' :: '>' :: after) = _
    rw [cutLast, hnone]
    simp [closing]
  | cons c before ih => rw [List.cons_append, List.cons_append, cutLast, ih]

/-- Names without commas are found again when they are joined by commas. -/
theorem splitOn_intercalate_names {names : List String}
    (h : ∀ name ∈ names, name ≠ "" ∧ ',' ∉ name.toList) (hne : names ≠ []) :
    ([','].intercalate (names.map String.toList)).splitOn ',' = names.map String.toList := by
  refine List.splitOn_intercalate ',' ?_ (by simpa using hne)
  simp only [List.mem_map]
  rintro _ ⟨name, hname, rfl⟩
  exact (h name hname).2

/-- Joining no names gives the empty text, and no other names do. -/
theorem eq_nil_of_intercalate_eq_nil {names : List String}
    (h : ∀ name ∈ names, name ≠ "" ∧ ',' ∉ name.toList)
    (hnil : [','].intercalate (names.map String.toList) = []) : names = [] := by
  refine Decidable.byContradiction fun hne => ?_
  have hs := splitOn_intercalate_names h hne
  rw [hnil, List.splitOn_nil] at hs
  obtain ⟨name, hname, hchars⟩ := List.mem_map.1 (hs ▸ List.mem_singleton_self [])
  exact (h name hname).1 (String.toList_eq_nil_iff.1 hchars)

/-- Lists of names that are neither empty nor hold a comma are told apart when they are joined by
commas. -/
theorem eq_of_intercalate_eq {names names' : List String}
    (h : ∀ name ∈ names, name ≠ "" ∧ ',' ∉ name.toList)
    (h' : ∀ name ∈ names', name ≠ "" ∧ ',' ∉ name.toList)
    (heq : [','].intercalate (names.map String.toList) =
      [','].intercalate (names'.map String.toList)) : names = names' := by
  by_cases hnames : names = []
  · subst hnames
    exact (eq_nil_of_intercalate_eq_nil h' heq.symm).symm
  · by_cases hnames' : names' = []
    · subst hnames'
      exact eq_nil_of_intercalate_eq_nil h heq
    · have hmap := splitOn_intercalate_names h hnames
      rw [heq, splitOn_intercalate_names h' hnames'] at hmap
      exact (List.map_inj_right fun _ _ he => String.toList_inj.1 he).1 hmap.symm

/-- A plain key is told by its text. -/
theorem Plain.eq_of_text_eq {k k' : EdgeKey} (h : k.Plain) (h' : k'.Plain) (heq : k.text = k'.text) :
    k = k' := by
  have hlist := congrArg String.toList heq
  rw [toList_text, toList_text] at hlist
  have hcut := cutFirst_opening h.source
    ([','].intercalate (k.types.names.map String.toList) ++ closing ++ k.target.toList)
  rw [hlist, cutFirst_opening h'.source] at hcut
  obtain ⟨hsource, hrest⟩ := Prod.mk.inj (Option.some.inj hcut)
  have hcut' := cutLast_closing h.target ([','].intercalate (k.types.names.map String.toList))
  rw [← hrest, cutLast_closing h'.target] at hcut'
  obtain ⟨htypes, htarget⟩ := Prod.mk.inj (Option.some.inj hcut')
  have hnames := eq_of_intercalate_eq h.types h'.types htypes.symm
  obtain ⟨source, ⟨names, ascending⟩, target⟩ := k
  obtain ⟨source', ⟨names', ascending'⟩, target'⟩ := k'
  obtain rfl : source' = source := String.toList_inj.1 hsource
  obtain rfl : target' = target := String.toList_inj.1 htarget
  obtain rfl : names = names' := hnames
  rfl

end PatternGraph.EdgeKey
