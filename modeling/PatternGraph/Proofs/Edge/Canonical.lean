import PatternGraph.Proofs.Edge.Key
import PatternGraph.Proofs.TypeSet

/-!
# Canonical texts of keys

Which keys are read back from their texts, and which keys are read at all: these are the same, the
*legible* ones. A legible key has two ends that are not empty, no `-[` in its source, no `]->` in its
target, and types that the store reads as they stand and that hold no comma. Nothing is asked beyond
that: a source may hold `]->`, a target `-[`, and a type either, for the source ends at the first `-[`
and the target starts behind the last `]->`.

So the text of a key that was read is a canonical form of the text that it was read from. Writing the
key and reading it again changes nothing, and two texts have one canonical form exactly if they denote
one key.
-/

namespace PatternGraph.EdgeKey

/-- A key that its text gives back. -/
structure Legible (k : EdgeKey) : Prop where
  source_ne_empty : k.source ≠ ""
  /-- The source does not hold the mark that ends it. -/
  source : ¬ opening <:+: k.source.toList
  target_ne_empty : k.target ≠ ""
  /-- The target does not hold the mark that starts it. -/
  target : ¬ closing <:+: k.target.toList
  /-- Each type is its own trimmed lowercase form, of which something is left, and holds no comma. -/
  types : ∀ name ∈ k.types, name ≠ "" ∧ ',' ∉ name.toList ∧ TypeSet.normalizeName name = name

variable {mark cs before after : List Char} {k : EdgeKey} {types : TypeSet}

/-! ### What is cut off -/

/-- A cut at the first mark leaves no mark in front of it. -/
theorem cutFirst_eq_some (hmark : mark ≠ []) (h : cutFirst mark cs = some (before, after)) :
    cs = before ++ mark ++ after ∧ ¬ mark <:+: before := by
  induction cs generalizing before with
  | nil => exact absurd h nofun
  | cons c cs ih =>
    rw [cutFirst] at h
    split at h
    · next hp =>
      obtain ⟨rfl, rfl⟩ := Prod.mk.inj (Option.some.inj h)
      obtain ⟨rest, hrest⟩ := List.isPrefixOf_iff_prefix.1 hp
      refine ⟨?_, fun hin => hmark (List.infix_nil.1 hin)⟩
      rw [← hrest, List.drop_left, List.nil_append]
    · next hp =>
      obtain ⟨⟨before', after'⟩, hcut, heq⟩ := Option.map_eq_some_iff.1 h
      obtain ⟨rfl, rfl⟩ := Prod.mk.inj heq
      obtain ⟨rfl, hnot⟩ := ih hcut
      refine ⟨rfl, fun hin => ?_⟩
      rcases List.infix_cons_iff.1 hin with hstart | htail
      · -- a mark at the very start would have been found there
        refine hp (List.isPrefixOf_iff_prefix.2 (hstart.trans ?_))
        exact ⟨mark ++ after', by simp⟩
      · exact hnot htail

theorem not_infix_of_cutLast_eq_none (h : cutLast mark cs = none) (hmark : mark ≠ []) :
    ¬ mark <:+: cs := by
  induction cs with
  | nil => exact fun hin => hmark (List.infix_nil.1 hin)
  | cons c cs ih =>
    rw [cutLast] at h
    split at h
    · cases h
    · next hnone =>
      split at h
      · cases h
      · next hp =>
        intro hin
        rcases List.infix_cons_iff.1 hin with hstart | htail
        · exact hp (List.isPrefixOf_iff_prefix.2 hstart)
        · exact ih hnone htail

/-- A cut at the last mark leaves no mark behind it. -/
theorem cutLast_eq_some (hmark : mark ≠ []) (h : cutLast mark cs = some (before, after)) :
    cs = before ++ mark ++ after ∧ ¬ mark <:+: after := by
  induction cs generalizing before with
  | nil => cases h
  | cons c cs ih =>
    rw [cutLast] at h
    split at h
    · next before' after' hcut =>
      obtain ⟨rfl, rfl⟩ := Prod.mk.inj (Option.some.inj h)
      obtain ⟨rfl, hnot⟩ := ih hcut
      exact ⟨rfl, hnot⟩
    · next hnone =>
      split at h
      · next hp =>
        obtain ⟨rfl, rfl⟩ := Prod.mk.inj (Option.some.inj h)
        obtain ⟨rest, hrest⟩ := List.isPrefixOf_iff_prefix.1 hp
        have hdrop : (c :: cs).drop mark.length = rest := by rw [← hrest, List.drop_left]
        rw [hdrop]
        refine ⟨hrest.symm, fun hin => not_infix_of_cutLast_eq_none hnone hmark (hin.trans ?_)⟩
        -- what is behind the mark is behind the first character
        obtain ⟨d, mark, rfl⟩ := List.exists_cons_of_ne_nil hmark
        obtain ⟨-, rfl⟩ := List.cons.inj hrest
        exact (List.suffix_append mark rest).isInfix
      · cases h

/-! ### Types between commas -/

theorem splitCommas_eq_splitOn (cs : List Char) : splitCommas cs = cs.splitOn ',' := by
  induction cs with
  | nil => rfl
  | cons c cs ih =>
    have hne : cs.splitOn ',' ≠ [] := List.splitOnP_ne_nil _ _
    obtain ⟨piece, pieces, hpieces⟩ := List.exists_cons_of_ne_nil hne
    rw [splitCommas, ih, hpieces, List.splitOn, List.splitOnP_cons_eq_if_modifyHead, ← List.splitOn,
      hpieces]
    by_cases hc : c = ','
    · simp [hc]
    · simp [hc]

theorem comma_not_mem_of_mem_splitCommas {piece : List Char} (h : piece ∈ splitCommas cs) :
    ',' ∉ piece := by
  induction cs generalizing piece with
  | nil =>
    obtain rfl := List.mem_singleton.1 h
    exact List.not_mem_nil
  | cons c cs ih =>
    rw [splitCommas] at h
    split at h
    · next hnil =>
      rw [splitCommas_eq_splitOn] at hnil
      exact absurd hnil (List.splitOnP_ne_nil _ _)
    · next first pieces hpieces =>
      rw [hpieces] at ih
      split at h
      · rcases List.mem_cons.1 h with rfl | h
        · exact List.not_mem_nil
        · exact ih h
      · next hc =>
        rcases List.mem_cons.1 h with rfl | h
        · intro hcomma
          rcases List.mem_cons.1 hcomma with heq | hcomma
          · exact hc heq.symm
          · exact ih List.mem_cons_self hcomma
        · exact ih (List.mem_cons_of_mem first h)

/-- The types that are read are their own trimmed lowercase forms, and hold no comma. -/
theorem legible_of_readTypes (h : readTypes cs = some types) :
    ∀ name ∈ types, name ≠ "" ∧ ',' ∉ name.toList ∧ TypeSet.normalizeName name = name := by
  rw [readTypes] at h
  split at h
  · obtain rfl := Option.some.inj h
    intro name hname
    exact absurd hname (TypeSet.not_mem_empty name)
  · simp only at h
    split at h
    · exact absurd h nofun
    · obtain rfl := Option.some.inj h
      intro name hname
      obtain ⟨hnormal, hne⟩ := TypeSet.kept_of_mem_normalized hname
      obtain ⟨-, written, hwritten, rfl⟩ := TypeSet.mem_normalized.1 hname
      obtain ⟨piece, hpiece, rfl⟩ := List.mem_map.1 hwritten
      refine ⟨hne, fun hcomma => ?_, hnormal⟩
      have hin := Text.comma_mem_of_mem_lowercase_trim hcomma
      rw [String.toList_ofList] at hin
      exact comma_not_mem_of_mem_splitCommas hpiece hin

/-- A type that is its own trimmed lowercase form is not blank. -/
theorem trimChars_ne_nil {name : String} (hne : name ≠ "") (h : TypeSet.normalizeName name = name) :
    Text.trimChars name.toList ≠ [] := by
  intro hblank
  rw [TypeSet.normalizeName, Text.trim, hblank] at h
  exact hne h.symm

/-- Names that are not blank and hold no comma are read as the set that the store keeps for them. -/
theorem readTypes_names {names : List String}
    (h : ∀ name ∈ names, Text.trimChars name.toList ≠ [] ∧ ',' ∉ name.toList) :
    readTypes ([','].intercalate (names.map String.toList)) = some (.normalized names) := by
  have hcommas : ∀ name ∈ names, name ≠ "" ∧ ',' ∉ name.toList := by
    refine fun name hname => ⟨?_, (h name hname).2⟩
    rintro rfl
    exact (h "" hname).1 rfl
  rw [readTypes]
  split
  · next hnil =>
    rw [eq_nil_of_intercalate_eq_nil hcommas hnil]
    rfl
  · next hne =>
    have hnames : names ≠ [] := by
      rintro rfl
      exact hne rfl
    rw [splitCommas_eq_splitOn, splitOn_intercalate_names hcommas hnames]
    have hblank : ¬ ((names.map String.toList).any fun piece => Text.trimChars piece = []) = true := by
      intro hany
      obtain ⟨piece, hpiece, hnil⟩ := List.any_eq_true.1 hany
      obtain ⟨name, hname, rfl⟩ := List.mem_map.1 hpiece
      exact (h name hname).1 (of_decide_eq_true hnil)
    have hnames' : (names.map String.toList).map String.ofList = names := by
      rw [List.map_map]
      exact List.map_id'' (fun _ => String.ofList_toList) _
    simp only [if_neg hblank, hnames']

theorem readTypes_intercalate
    (h : ∀ name ∈ types, name ≠ "" ∧ ',' ∉ name.toList ∧ TypeSet.normalizeName name = name) :
    readTypes ([','].intercalate (types.names.map String.toList)) = some types := by
  have hkept : TypeSet.normalized types.names = types :=
    TypeSet.normalized_of_kept fun name hname => ⟨(h name hname).2.2, (h name hname).1⟩
  rw [readTypes_names fun name hname =>
    ⟨trimChars_ne_nil (h name hname).1 (h name hname).2.2, (h name hname).2.1⟩, hkept]

/-! ### Keys -/

/-- How a key is read: a cut at the first `-[`, a cut at the last `]->`, and the types between. -/
theorem parse_eq_some {s : String} : parse s = some k ↔
    ∃ rest between, cutFirst opening s.toList = some (k.source.toList, rest) ∧
      cutLast closing rest = some (between, k.target.toList) ∧ k.source ≠ "" ∧ k.target ≠ "" ∧
      readTypes between = some k.types := by
  simp only [parse, bind, Option.bind_eq_some_iff]
  constructor
  · rintro ⟨⟨source, rest⟩, hsource, ⟨between, target⟩, htarget, h⟩
    simp only at h
    split at h
    · exact absurd h nofun
    · next hne =>
      obtain ⟨hsource_ne, htarget_ne⟩ := not_or.1 hne
      obtain ⟨types, htypes, hk⟩ := Option.bind_eq_some_iff.1 h
      obtain rfl := Option.some.inj hk
      simp only [String.toList_ofList]
      exact ⟨rest, between, hsource, htarget, by simpa using hsource_ne, by simpa using htarget_ne,
        htypes⟩
  · rintro ⟨rest, between, hsource, htarget, hne, hne', htypes⟩
    refine ⟨_, hsource, _, htarget, ?_⟩
    simp [hne, hne', htypes]

/-- Whatever is read is legible. -/
theorem legible_of_parse {s : String} (h : parse s = some k) : k.Legible := by
  obtain ⟨rest, between, hsource, htarget, hne, hne', htypes⟩ := parse_eq_some.1 h
  exact
    { source_ne_empty := hne
      source := (cutFirst_eq_some (List.cons_ne_nil _ _) hsource).2
      target_ne_empty := hne'
      target := (cutLast_eq_some (List.cons_ne_nil _ _) htarget).2
      types := legible_of_readTypes htypes }

/-- A legible key is read back from its text. -/
theorem Legible.parse_text (h : k.Legible) : parse k.text = some k := by
  have hsource := cutFirst_opening h.source
    ([','].intercalate (k.types.names.map String.toList) ++ closing ++ k.target.toList)
  rw [← toList_text] at hsource
  have htarget := cutLast_closing h.target ([','].intercalate (k.types.names.map String.toList))
  exact parse_eq_some.2 ⟨_, _, hsource, htarget, h.source_ne_empty, h.target_ne_empty,
    readTypes_intercalate h.types⟩

/-- A key is read back from its text exactly if it is legible. Whatever text a key is read from, the
text of the key is read as the same key; so two texts that denote keys have the same canonical form
exactly if they denote the same key. -/
theorem parse_text_canonical :
    (∀ k : EdgeKey, parse k.text = some k ↔ k.Legible) ∧
      (∀ s k, parse s = some k → parse k.text = some k) ∧
      ∀ s s' k k', parse s = some k → parse s' = some k' → (k.text = k'.text ↔ k = k') := by
  refine ⟨fun k => ⟨legible_of_parse, Legible.parse_text⟩, fun s k h => (legible_of_parse h).parse_text,
    fun s s' k k' h h' => ⟨fun htext => ?_, congrArg text⟩⟩
  have hback := (legible_of_parse h).parse_text
  rw [htext, (legible_of_parse h').parse_text] at hback
  exact (Option.some.inj hback).symm

/-- A key whose parts hold the marks wherever they may: the source holds `]->` and ends in `-`, the
target holds `-[` and starts with `]`, and a type holds both. -/
def marked : EdgeKey := ⟨"a]->-", .ofList ["]->-[", "t"], "]-[b"⟩

/-- The key is read back, also from a text that spells its types otherwise. -/
theorem parse_text_canonical_marked :
    marked.Legible ∧ parse marked.text = some marked ∧
      parse "a]->--[ T,]->-[, t ]->]-[b" = some marked := by
  have hparse : parse "a]->--[ T,]->-[, t ]->]-[b" = some marked := by decide +kernel
  have hback := parse_text_canonical.2.1 _ _ hparse
  exact ⟨(parse_text_canonical.1 marked).1 hback, hback, hparse⟩

end PatternGraph.EdgeKey
