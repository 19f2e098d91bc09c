import Mathlib.Data.List.DropRight
import PatternGraph.Text.Blank
import PatternGraph.Text.Lowercase

/-!
# Lowered and trimmed texts

Lowering a text twice is lowering it once, and so is taking the white space off its ends. The first
rests on the table of letter case: the lowercase form of a character is a *settled* one, which has
itself as its lowercase form and is no capital sigma. Nor does a character that is not blank become
blank, so that a trimmed text is still trimmed when it is lowered.
-/

namespace PatternGraph.Text

/-! ### Settled characters -/

/-- A character that lowering keeps, wherever it stands. -/
def Settled (c : Char) : Prop := lowerChar c = [c] ∧ c ≠ 'Σ'

/-- Where the shift of a run sends a code point. -/
def CaseRun.image (r : CaseRun) (n : Nat) : Nat := ((n : Int) + r.shift).toNat

/-- Whether a table sorted by `first` keeps the images of a run: they lie before a run of the table,
or behind it, or between its steps. -/
def CaseRun.keptBy (r : CaseRun) : List CaseRun → Bool
  | [] => true
  | s :: rest =>
    Nat.blt (r.image r.last) s.first ||
      (Nat.blt s.last (r.image r.first) ||
        Nat.ble s.first (r.image r.first) && (r.step % s.step == 0 || r.first == r.last) &&
          (r.image r.first - s.first) % s.step != 0) && r.keptBy rest

/-- Whether the images of a run lie in none of some ranges. -/
def CaseRun.avoids (r : CaseRun) (ranges : List (Nat × Nat)) : Bool :=
  ranges.all fun (first, last) =>
    Nat.blt (r.image r.last) first || Nat.blt last (r.image r.first)

/-- Code points that no character is sent to: zero, the dotted capital I, the surrogates and white
space. -/
def nonImages : List (Nat × Nat) := [(0, 0), (0x130, 0x130), (0xD800, 0xDFFF)] ++ blankRanges

theorem keptBy_caseRuns : (caseRuns.all fun r => r.keptBy caseRuns) = true := by decide +kernel

theorem image_last_lt : (caseRuns.all fun r => Nat.blt (r.image r.last) 0x110000) = true := by
  decide +kernel

theorem avoids_nonImages : (caseRuns.all fun r => r.avoids nonImages) = true := by decide +kernel

/-- A code point of a run. -/
def CaseRun.Covers (r : CaseRun) (n : Nat) : Prop :=
  r.first ≤ n ∧ n ≤ r.last ∧ (n - r.first) % r.step = 0

/-- A table sends a code point of one of its runs by the shift of the run, and keeps the others. -/
theorem lowerIn_cases (runs : List CaseRun) (n : Nat) :
    lowerIn runs n = n ∨ ∃ r ∈ runs, r.Covers n ∧ lowerIn runs n = r.image n := by
  induction runs with
  | nil => exact .inl rfl
  | cons r rest ih =>
    rw [lowerIn]
    split
    · exact .inl rfl
    · next hfirst =>
      split
      · next hin =>
        rw [Bool.and_eq_true, decide_eq_true_eq, beq_iff_eq] at hin
        exact .inr ⟨r, List.mem_cons_self, ⟨Nat.not_lt.1 hfirst, hin.1, hin.2⟩, rfl⟩
      · rcases ih with h | ⟨r', hr', h⟩
        · exact .inl h
        · exact .inr ⟨r', List.mem_cons_of_mem r hr', h⟩

theorem CaseRun.Covers.image_le {r : CaseRun} {n : Nat} (h : r.Covers n) :
    r.image r.first ≤ r.image n ∧ r.image n ≤ r.image r.last := by
  obtain ⟨hfirst, hlast, -⟩ := h
  simp only [CaseRun.image]
  omega

/-- An image of a run is as far behind the first one as the code point behind the first of the run,
unless the shift takes it below zero. -/
theorem CaseRun.Covers.image_sub {r : CaseRun} {n : Nat} (h : r.Covers n)
    (hpos : 0 < r.image r.first) : r.image n = r.image r.first + (n - r.first) := by
  obtain ⟨hfirst, -, -⟩ := h
  simp only [CaseRun.image] at hpos ⊢
  omega

theorem lowerIn_image {r : CaseRun} {n : Nat} (h : r.Covers n) (hpos : 0 < r.image r.first)
    {runs : List CaseRun} (hkept : r.keptBy runs = true) :
    lowerIn runs (r.image n) = r.image n := by
  induction runs with
  | nil => rfl
  | cons s rest ih =>
    obtain ⟨hle, hge⟩ := h.image_le
    rw [lowerIn]
    split
    · rfl
    · next hfirst =>
      simp only [CaseRun.keptBy, Bool.or_eq_true, Bool.and_eq_true, Nat.blt_eq, Nat.ble_eq,
        beq_iff_eq, bne_iff_ne] at hkept
      rcases hkept with hbefore | ⟨hs, hrest⟩
      · omega
      · rw [if_neg, ih hrest]
        rw [Bool.and_eq_true, decide_eq_true_eq, beq_iff_eq]
        rintro ⟨hlast, hstep⟩
        rcases hs with hbehind | ⟨⟨hstart, hsteps⟩, hbetween⟩
        · omega
        · -- the image is a whole number of steps behind the first one, which is between the steps
          have hoff : (r.image n - s.first) % s.step = (r.image r.first - s.first) % s.step := by
            rw [h.image_sub hpos, Nat.sub_add_comm hstart]
            rcases hsteps with hdvd | heq
            · have hn : s.step ∣ n - r.first :=
                Nat.dvd_trans (Nat.dvd_of_mod_eq_zero hdvd) (Nat.dvd_of_mod_eq_zero h.2.2)
              rw [Nat.add_mod, Nat.mod_eq_zero_of_dvd hn, Nat.add_zero, Nat.mod_mod]
            · have : n - r.first = 0 := by
                have := h.1
                have := h.2.1
                omega
              rw [this, Nat.add_zero]
          exact hbetween (hoff ▸ hstep)

theorem not_mem_range_image {r : CaseRun} {n : Nat} (h : r.Covers n) {ranges : List (Nat × Nat)}
    (havoids : r.avoids ranges = true) {range : Nat × Nat} (hrange : range ∈ ranges) :
    ¬ (range.1 ≤ r.image n ∧ r.image n ≤ range.2) := by
  have hr := List.all_eq_true.1 havoids range hrange
  simp only [Bool.or_eq_true, Nat.blt_eq] at hr
  have := h.image_le
  omega

theorem exists_range_of_inRanges {ranges : List (Nat × Nat)} {n : Nat}
    (h : inRanges ranges n = true) : ∃ range ∈ ranges, range.1 ≤ n ∧ n ≤ range.2 := by
  induction ranges with
  | nil => exact absurd h nofun
  | cons r rest ih =>
    simp only [inRanges_cons, Bool.and_eq_true, Bool.or_eq_true, decide_eq_true_eq] at h
    rcases h.2 with hlast | hrest
    · exact ⟨r, List.mem_cons_self, h.1, hlast⟩
    · obtain ⟨range, hrange, hn⟩ := ih hrest
      exact ⟨range, List.mem_cons_of_mem r hrange, hn⟩

/-- A code point that lowering changes is sent to one that lowering keeps, and that is none of those
to which no character is sent. -/
theorem lowerIn_caseRuns (n : Nat) :
    lowerIn caseRuns n = n ∨ ∃ m, lowerIn caseRuns n = m ∧ lowerIn caseRuns m = m ∧ m < 0x110000 ∧
      ∀ range ∈ nonImages, ¬ (range.1 ≤ m ∧ m ≤ range.2) := by
  rcases lowerIn_cases caseRuns n with h | ⟨r, hr, hn, h⟩
  · exact .inl h
  · have hne : ∀ range ∈ nonImages, ¬ (range.1 ≤ r.image n ∧ r.image n ≤ range.2) :=
      fun range hrange => not_mem_range_image hn (List.all_eq_true.1 avoids_nonImages r hr) hrange
    have hlt : r.image r.last < 0x110000 := by
      simpa using List.all_eq_true.1 image_last_lt r hr
    have hpos : 0 < r.image r.first := by
      have := List.all_eq_true.1 (List.all_eq_true.1 avoids_nonImages r hr) (0, 0) (by decide)
      simpa using this
    exact .inr ⟨r.image n, h, lowerIn_image hn hpos (List.all_eq_true.1 keptBy_caseRuns r hr),
      Nat.lt_of_le_of_lt hn.image_le.2 hlt, hne⟩

/-- The lowercase form of a character is settled, and it is blank only if the character is. -/
theorem settled_of_mem_lowerChar {c d : Char} (h : d ∈ lowerChar c) :
    Settled d ∧ (isBlank c = false → isBlank d = false) := by
  rw [lowerChar] at h
  split at h
  · -- the two characters of a dotted capital I
    rcases List.mem_pair.1 h with rfl | rfl
    · exact ⟨⟨by decide, by decide⟩, fun _ => by decide⟩
    · exact ⟨⟨by decide +kernel, by decide⟩, fun _ => by decide⟩
  · next hdotted =>
    rw [List.mem_singleton] at h
    have hsigma : lowerIn caseRuns 'Σ'.toNat ≠ 'Σ'.toNat := by decide +kernel
    rcases lowerIn_caseRuns c.toNat with hkept | ⟨m, hm, hkept, hlt, hne⟩
    · rw [hkept, Char.ofNat_toNat] at h
      subst h
      refine ⟨⟨?_, fun e => hsigma (e ▸ hkept)⟩, id⟩
      rw [lowerChar, if_neg hdotted, hkept, Char.ofNat_toNat]
    · rw [hm] at h
      have hvalid : m.isValidChar := by
        have := hne (0xD800, 0xDFFF) (by decide)
        simp only [Nat.isValidChar]
        omega
      have hd : d.toNat = m := by
        rw [h, Char.ofNat, dif_pos hvalid]
        rfl
      have hdotted' : d ≠ 'İ' := by
        rintro rfl
        exact hne (0x130, 0x130) (by decide) (hd ▸ by decide)
      refine ⟨⟨?_, fun e => hsigma (e ▸ hd.symm ▸ hkept)⟩, fun _ => ?_⟩
      · rw [lowerChar, if_neg (by simpa using hdotted'), hd, hkept, ← h]
      · refine Bool.eq_false_iff.2 fun hblank => ?_
        obtain ⟨range, hrange, hin⟩ := exists_range_of_inRanges hblank
        exact hne range (List.mem_append_right _ hrange) (hd ▸ hin)

theorem settled_lowerSigma (before after : List Char) :
    Settled (lowerSigma before after) ∧ isBlank (lowerSigma before after) = false := by
  rw [lowerSigma]
  split
  · exact ⟨⟨by decide +kernel, by decide⟩, by decide⟩
  · exact ⟨⟨by decide +kernel, by decide⟩, by decide⟩

/-! ### Lowering a text -/

theorem settled_of_mem_lowercaseAfter {before cs : List Char} {d : Char}
    (h : d ∈ lowercaseAfter before cs) : Settled d := by
  induction cs generalizing before with
  | nil => exact absurd h List.not_mem_nil
  | cons c rest ih =>
    rw [lowercaseAfter_cons, List.mem_append] at h
    rcases h with h | h
    · split at h
      · rw [List.mem_singleton] at h
        exact h ▸ (settled_lowerSigma before rest).1
      · exact (settled_of_mem_lowerChar h).1
    · exact ih h

theorem lowercaseAfter_of_settled {cs : List Char} (h : ∀ c ∈ cs, Settled c)
    (before : List Char) : lowercaseAfter before cs = cs := by
  induction cs generalizing before with
  | nil => rfl
  | cons c rest ih =>
    obtain ⟨hlower, hsigma⟩ := h c List.mem_cons_self
    rw [lowercaseAfter_cons, ih fun d hd => h d (List.mem_cons_of_mem c hd)]
    simp [hsigma, hlower]

theorem lowercase_of_settled {s : String} (h : ∀ c ∈ s.toList, Settled c) : lowercase s = s := by
  rw [lowercase, lowercaseAfter_of_settled h, String.ofList_toList]

@[simp] theorem lowercase_lowercase (s : String) : lowercase (lowercase s) = lowercase s := by
  refine lowercase_of_settled fun c hc => ?_
  rw [lowercase, String.toList_ofList] at hc
  exact settled_of_mem_lowercaseAfter hc

/-! ### Trimming a text -/

/-- Neither end of the list is blank. -/
def Trimmed (cs : List Char) : Prop :=
  (∀ c ∈ cs.head?, isBlank c = false) ∧ ∀ c ∈ cs.getLast?, isBlank c = false

theorem trimChars_eq_rdropWhile (cs : List Char) :
    trimChars cs = (cs.dropWhile isBlank).rdropWhile isBlank := rfl

theorem Trimmed.trimChars_eq {cs : List Char} (h : Trimmed cs) : trimChars cs = cs := by
  rw [trimChars_eq_rdropWhile]
  have hhead : cs.dropWhile isBlank = cs := by
    cases cs with
    | nil => rfl
    | cons c rest => rw [List.dropWhile_cons, h.1 c rfl, if_neg Bool.false_ne_true]
  rw [hhead, List.rdropWhile_eq_self_iff]
  intro hne
  rw [h.2 _ (List.getLast?_eq_some_getLast hne)]
  exact Bool.false_ne_true

theorem trimmed_trimChars (cs : List Char) : Trimmed (trimChars cs) := by
  rw [trimChars_eq_rdropWhile]
  generalize hds : cs.dropWhile isBlank = ds
  refine ⟨fun c hc => ?_, fun c hc => ?_⟩
  · -- what is dropped at the end leaves the first character where it is
    obtain ⟨tail, htail⟩ := List.rdropWhile_prefix isBlank (l := ds)
    have hcs : cs.dropWhile isBlank ≠ [] := by
      rintro e
      rw [← hds, e] at hc
      exact absurd hc nofun
    have hfirst : (cs.dropWhile isBlank).head? = some c := by
      rw [hds, ← htail, List.head?_append_of_ne_nil _ fun e => by simp [e] at hc]
      exact hc
    rw [List.head?_eq_some_head hcs] at hfirst
    rw [← Option.some.inj hfirst]
    exact List.head_dropWhile_not isBlank hcs
  · have hne : ds.rdropWhile isBlank ≠ [] := by
      rintro e
      rw [e] at hc
      exact absurd hc nofun
    rw [List.getLast?_eq_some_getLast hne] at hc
    rw [← Option.some.inj hc]
    exact Bool.eq_false_iff.2 (List.rdropWhile_last_not isBlank ds hne)

theorem ne_nil_of_lowerChar (c : Char) : lowerChar c ≠ [] := by
  rw [lowerChar]
  split <;> exact List.cons_ne_nil _ _

/-- What a character becomes at its place in a text. -/
theorem lowercaseAfter_cons_eq (before : List Char) (c : Char) (rest : List Char) :
    ∃ image : List Char, image ≠ [] ∧ (isBlank c = false → ∀ d ∈ image, isBlank d = false) ∧
      lowercaseAfter before (c :: rest) = image ++ lowercaseAfter (c :: before) rest := by
  rw [lowercaseAfter_cons]
  split
  · refine ⟨_, List.cons_ne_nil _ _, fun _ d hd => ?_, rfl⟩
    exact List.mem_singleton.1 hd ▸ (settled_lowerSigma before rest).2
  · exact ⟨_, ne_nil_of_lowerChar c, fun hc d hd => (settled_of_mem_lowerChar hd).2 hc, rfl⟩

theorem lowercaseAfter_eq_nil {before cs : List Char} : lowercaseAfter before cs = [] ↔ cs = [] := by
  cases cs with
  | nil => simp [lowercaseAfter_nil]
  | cons c rest =>
    obtain ⟨image, himage, -, heq⟩ := lowercaseAfter_cons_eq before c rest
    simp [heq, himage]

theorem lowercase_eq_empty {s : String} : lowercase s = "" ↔ s = "" := by
  rw [← String.toList_eq_nil_iff, ← String.toList_eq_nil_iff, lowercase, String.toList_ofList,
    lowercaseAfter_eq_nil]

theorem getLast?_lowercaseAfter {before cs : List Char}
    (h : ∀ c ∈ cs.getLast?, isBlank c = false) :
    ∀ d ∈ (lowercaseAfter before cs).getLast?, isBlank d = false := by
  induction cs generalizing before with
  | nil => exact nofun
  | cons c rest ih =>
    intro d hd
    obtain ⟨image, himage, hblank, heq⟩ := lowercaseAfter_cons_eq before c rest
    rw [heq] at hd
    cases rest with
    | nil =>
      rw [lowercaseAfter_nil, List.append_nil] at hd
      exact hblank (h c rfl) d (List.mem_of_getLast? hd)
    | cons c' rest' =>
      have hne : lowercaseAfter (c :: before) (c' :: rest') ≠ [] :=
        fun e => List.cons_ne_nil _ _ (lowercaseAfter_eq_nil.1 e)
      rw [List.getLast?_append_of_ne_nil _ hne] at hd
      exact ih (fun x hx => h x (by rwa [List.getLast?_cons_cons])) d hd

theorem Trimmed.lowercase {cs : List Char} (h : Trimmed cs) : Trimmed (lowercaseAfter [] cs) := by
  refine ⟨fun d hd => ?_, getLast?_lowercaseAfter h.2⟩
  cases cs with
  | nil => exact absurd hd nofun
  | cons c rest =>
    obtain ⟨image, himage, hblank, heq⟩ := lowercaseAfter_cons_eq [] c rest
    rw [heq, List.head?_append_of_ne_nil _ himage] at hd
    exact hblank (h.1 c rfl) d (List.mem_of_head? hd)

theorem trim_of_trimmed {s : String} (h : Trimmed s.toList) : trim s = s := by
  rw [trim, h.trimChars_eq, String.ofList_toList]

/-- A trimmed text stays trimmed when it is lowered. -/
theorem trim_lowercase_trim (s : String) : trim (lowercase (trim s)) = lowercase (trim s) := by
  refine trim_of_trimmed ?_
  rw [lowercase, trim, String.toList_ofList, String.toList_ofList]
  exact (trimmed_trimChars s.toList).lowercase

/-! ### Commas -/

theorem mem_of_mem_trimChars {cs : List Char} {c : Char} (h : c ∈ trimChars cs) : c ∈ cs := by
  rw [trimChars, List.mem_reverse] at h
  have hrest := List.mem_reverse.1 ((List.dropWhile_sublist isBlank).mem h)
  exact (List.dropWhile_sublist isBlank).mem hrest

theorem avoids_comma : (caseRuns.all fun r => r.avoids [(','.toNat, ','.toNat)]) = true := by
  decide +kernel

/-- Only a comma is sent to a comma. -/
theorem eq_comma_of_mem_lowerChar {c : Char} (h : ',' ∈ lowerChar c) : c = ',' := by
  rw [lowerChar] at h
  split at h
  · exact absurd h (by decide)
  · rcases lowerIn_cases caseRuns c.toNat with hkept | ⟨r, hr, hn, himage⟩
    · rw [hkept, Char.ofNat_toNat] at h
      exact (List.mem_singleton.1 h).symm
    · have hcomma : lowerIn caseRuns c.toNat = ','.toNat := by
        by_cases hvalid : (lowerIn caseRuns c.toNat).isValidChar
        · exact (congrArg Char.toNat ((List.mem_singleton.1 h).trans (dif_pos hvalid))).symm
        · exact absurd ((List.mem_singleton.1 h).trans (dif_neg hvalid)) (by decide)
      have hnot := not_mem_range_image hn (List.all_eq_true.1 avoids_comma r hr)
        (List.mem_singleton_self _)
      rw [← himage, hcomma] at hnot
      exact absurd ⟨Nat.le_refl _, Nat.le_refl _⟩ hnot

theorem comma_mem_of_mem_lowercaseAfter {before cs : List Char}
    (h : ',' ∈ lowercaseAfter before cs) : ',' ∈ cs := by
  induction cs generalizing before with
  | nil => exact h
  | cons c rest ih =>
    rw [lowercaseAfter_cons, List.mem_append] at h
    rcases h with h | h
    · split at h
      · -- neither form of a sigma is a comma
        rw [List.mem_singleton, lowerSigma] at h
        split at h <;> exact absurd h (by decide)
      · exact List.mem_cons.2 (.inl (eq_comma_of_mem_lowerChar h).symm)
    · exact List.mem_cons_of_mem c (ih h)

/-- Trimming and lowering bring no comma into a text. -/
theorem comma_mem_of_mem_lowercase_trim {s : String} (h : ',' ∈ (lowercase (trim s)).toList) :
    ',' ∈ s.toList := by
  rw [lowercase, String.toList_ofList] at h
  have htrim := comma_mem_of_mem_lowercaseAfter h
  rw [trim, String.toList_ofList] at htrim
  exact mem_of_mem_trimChars htrim

end PatternGraph.Text
