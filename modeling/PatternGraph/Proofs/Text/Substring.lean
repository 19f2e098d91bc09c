import PatternGraph.Proofs.Text.Lowercase

/-!
# Lowering a part of a text

The lowercase form of a text is made of the forms of its parts, but a part need not have the form in
the text that it has on its own: a capital sigma at its edge may end a word there and stand within one
here. `lowercaseBetween` is the form of a part between what stands around it.

Where the form differs is said exactly by `lowercaseBetween_eq_iff`: at a capital sigma, and nowhere
else. The difference is never more than the one between the two small sigmas, `mergeSigmas_occurs`.
-/

namespace PatternGraph.Text

variable {before part after : List Char}

/-- Lowercase of a part of a text between `before`, which is held nearest character first, and
`after`. -/
def lowercaseBetween (before : List Char) : List Char → List Char → List Char
  | [], _ => []
  | c :: part, after =>
    (if c == 'Σ' then [lowerSigma before (part ++ after)] else lowerChar c) ++
      lowercaseBetween (c :: before) part after

theorem lowercaseAfter_append (before part after : List Char) :
    lowercaseAfter before (part ++ after) =
      lowercaseBetween before part after ++ lowercaseAfter (part.reverse ++ before) after := by
  induction part generalizing before with
  | nil => rfl
  | cons c part ih =>
    rw [List.cons_append, lowercaseAfter_cons, ih, lowercaseBetween, List.reverse_cons,
      List.append_assoc, List.append_assoc, List.singleton_append]

/-- The form of a part stands in the form of the text. -/
theorem lowercaseBetween_occurs (before part after : List Char) :
    lowercaseBetween before.reverse part after <:+: lowercaseAfter [] (before ++ part ++ after) := by
  rw [List.append_assoc, lowercaseAfter_append, lowercaseAfter_append, List.append_nil,
    ← List.append_assoc]
  exact ⟨_, _, rfl⟩

/-! ### Capital sigmas at the edge of a part -/

/-- Each capital sigma of a part has the form in the text that it has where the part stands alone. -/
def KeepsSigmas (before part after : List Char) : Prop :=
  ∀ left right, part = left ++ 'Σ' :: right →
    lowerSigma (left.reverse ++ before) (right ++ after) = lowerSigma left.reverse right

theorem keepsSigmas_of_not_mem (h : 'Σ' ∉ part) : KeepsSigmas before part after := by
  rintro left right rfl
  exact absurd (List.mem_append_right left List.mem_cons_self) h

/-- What is said of the places of a character, said of the first place and of the others. -/
theorem forall_places_cons {P : List Char → List Char → Prop} {c d : Char} {cs : List Char} :
    (∀ left right, c :: cs = left ++ d :: right → P left right) ↔
      (c = d → P [] cs) ∧ ∀ left right, cs = left ++ d :: right → P (c :: left) right := by
  constructor
  · intro h
    refine ⟨?_, ?_⟩
    · rintro rfl
      exact h [] cs rfl
    · rintro left right rfl
      exact h (c :: left) right rfl
  · rintro ⟨hfirst, hrest⟩ left right hcs
    cases left with
    | nil =>
      obtain ⟨hc, rfl⟩ := List.cons.inj hcs
      exact hfirst hc
    | cons e left =>
      rw [List.cons_append, List.cons.injEq] at hcs
      obtain ⟨rfl, hcs⟩ := hcs
      exact hrest left right hcs

/-- A part has the form of its own just if its sigmas have. -/
theorem lowercaseBetween_eq_iff :
    lowercaseBetween before part after = lowercaseAfter [] part ↔ KeepsSigmas before part after := by
  -- on both sides the part goes on behind what has been read of it
  have hread : ∀ read : List Char,
      lowercaseBetween (read ++ before) part after = lowercaseAfter read part ↔
        ∀ left right, part = left ++ 'Σ' :: right →
          lowerSigma (left.reverse ++ (read ++ before)) (right ++ after) =
            lowerSigma (left.reverse ++ read) right := by
    induction part with
    | nil =>
      intro read
      refine iff_of_true rfl fun left right h => ?_
      exact absurd (congrArg List.length h) (by simp)
    | cons c part ih =>
      intro read
      have hrest := ih (c :: read)
      simp only [List.cons_append] at hrest
      rw [forall_places_cons, lowercaseBetween, lowercaseAfter_cons]
      simp only [List.reverse_cons, List.append_assoc, List.singleton_append, List.reverse_nil,
        List.nil_append, ← hrest]
      by_cases hc : c = 'Σ'
      · simp [hc]
      · simp [hc]
  simpa [KeepsSigmas] using hread []

/-- A part whose sigmas keep their form is found in the lowered text. -/
theorem KeepsSigmas.lowercase_occurs {s text : String} (h : KeepsSigmas before.reverse s.toList after)
    (htext : text.toList = before ++ s.toList ++ after) :
    (lowercase s).toList <:+: (lowercase text).toList := by
  rw [lowercase, lowercase, String.toList_ofList, String.toList_ofList, htext,
    ← lowercaseBetween_eq_iff.2 h]
  exact lowercaseBetween_occurs before s.toList after

/-! ### One small sigma for two -/

/-- A text in which the final sigma is not told from the other small sigma. -/
def mergeSigmas (cs : List Char) : List Char := cs.map fun c => if c = 'ς' then 'σ' else c

theorem mergeSigmas_append (cs ds : List Char) :
    mergeSigmas (cs ++ ds) = mergeSigmas cs ++ mergeSigmas ds := List.map_append

theorem mergeSigmas_lowerSigma (before after : List Char) :
    mergeSigmas [lowerSigma before after] = ['σ'] := by
  rw [lowerSigma]
  split <;> rfl

/-- But for the two sigmas, the form of a part does not depend on what stands around it. -/
theorem mergeSigmas_lowercaseBetween (before part after read : List Char) :
    mergeSigmas (lowercaseBetween before part after) = mergeSigmas (lowercaseAfter read part) := by
  induction part generalizing before read with
  | nil => rfl
  | cons c part ih =>
    rw [lowercaseBetween, lowercaseAfter_cons, mergeSigmas_append, mergeSigmas_append,
      ih (c :: before) (c :: read)]
    split
    · rw [mergeSigmas_lowerSigma, mergeSigmas_lowerSigma]
    · rfl

theorem mergeSigmas_occurs {s text : String} (htext : text.toList = before ++ s.toList ++ after) :
    mergeSigmas (lowercase s).toList <:+: mergeSigmas (lowercase text).toList := by
  rw [lowercase, lowercase, String.toList_ofList, String.toList_ofList, htext,
    ← mergeSigmas_lowercaseBetween before.reverse s.toList after]
  exact (lowercaseBetween_occurs before s.toList after).map _

end PatternGraph.Text
