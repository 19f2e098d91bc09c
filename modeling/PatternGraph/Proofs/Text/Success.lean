import PatternGraph.Text.Parser

/-!
# When parsers succeed

For each way to put parsers together there is one lemma that says when the result gives a value and
a rest: a sequence when its parts do, one after the other; a choice when its first part does, or when
that part fails and the second does. `Parser.Fails` says that a parser gives nothing.

Beside it stands what a parser takes off the text: `Parser.Takes` says which words, and
`Parser.Consumes` that it is at least one character. The part of a repetition has to take something,
and then the repetition succeeds along a `Parser.Run`: the part is taken as often as it can be.
-/

namespace PatternGraph.Text

/-- The text behind the white space in front of it. -/
def skip (cs : List Char) : List Char := cs.dropWhile isGap

namespace Parser

variable {α β : Type} {p q : Parser α} {cs rest : List Char} {a : α}

/-- The parser gives nothing. -/
def Fails (p : Parser α) (cs : List Char) : Prop := ∀ a rest, p cs ≠ .ok (a, rest)

theorem pure_eq_ok {b : α} : (pure a : Parser α) cs = .ok (b, rest) ↔ a = b ∧ cs = rest := by
  change Except.ok (a, cs) = Except.ok (b, rest) ↔ _
  simp

theorem bind_eq_ok {f : α → Parser β} {b : β} :
    (p >>= f) cs = .ok (b, rest) ↔ ∃ a mid, p cs = .ok (a, mid) ∧ f a mid = .ok (b, rest) := by
  simp only [Bind.bind]
  cases h : p cs with
  | error at_ => simp
  | ok r =>
    simp only [Except.ok.injEq]
    exact ⟨fun hf => ⟨r.1, r.2, rfl, hf⟩, fun ⟨a, mid, hr, hf⟩ => by rw [hr]; exact hf⟩

theorem map_eq_ok {f : α → β} {b : β} :
    (f <$> p) cs = .ok (b, rest) ↔ ∃ a, p cs = .ok (a, rest) ∧ f a = b := by
  change (p >>= fun a => pure (f a)) cs = _ ↔ _
  simp only [bind_eq_ok, pure_eq_ok]
  constructor
  · rintro ⟨a, mid, h, rfl, rfl⟩
    exact ⟨a, h, rfl⟩
  · rintro ⟨a, h, rfl⟩
    exact ⟨a, rest, h, rfl, rfl⟩

theorem char_eq_ok {c : Char} {u : Unit} : char c cs = .ok (u, rest) ↔ cs = c :: rest := by
  cases cs with
  | nil => simp [char]
  | cons d cs =>
    rw [char]
    split
    · next h => simp [h]
    · next h => simp [h]

theorem oneOf_eq_ok {chars : List Char} {c : Char} :
    oneOf chars cs = .ok (c, rest) ↔ c ∈ chars ∧ cs = c :: rest := by
  cases cs with
  | nil => simp [oneOf]
  | cons d cs =>
    rw [oneOf]
    split
    · next h =>
      simp only [Except.ok.injEq, Prod.mk.injEq, List.cons.injEq]
      exact ⟨fun ⟨hd, hr⟩ => ⟨hd ▸ h, hd, hr⟩, And.right⟩
    · next h =>
      simp only [reduceCtorEq, List.cons.injEq, false_iff]
      rintro ⟨hc, rfl, -⟩
      exact h hc

theorem gaps_eq_ok {u : Unit} : gaps cs = .ok (u, rest) ↔ skip cs = rest := by
  simp [gaps, skip]

theorem someGaps_eq_ok {u : Unit} :
    someGaps cs = .ok (u, rest) ↔ ∃ c tail, cs = c :: tail ∧ isGap c = true ∧ skip tail = rest := by
  cases cs with
  | nil => simp [someGaps]
  | cons d cs =>
    rw [someGaps]
    split
    · next h =>
      simp only [Except.ok.injEq, Prod.mk.injEq, true_and, List.cons.injEq]
      exact ⟨fun hr => ⟨d, cs, ⟨rfl, rfl⟩, h, hr⟩, fun ⟨_, _, ⟨_, rfl⟩, _, hr⟩ => hr⟩
    · next h =>
      simp only [reduceCtorEq, List.cons.injEq, false_iff]
      rintro ⟨c, tail, ⟨rfl, -⟩, hc, -⟩
      exact h hc

theorem spaced_eq_ok : spaced p cs = .ok (a, rest) ↔
    ∃ mid, p (skip cs) = .ok (a, mid) ∧ skip mid = rest := by
  simp only [spaced, bind_eq_ok, gaps_eq_ok, pure_eq_ok]
  constructor
  · rintro ⟨-, _, rfl, _, mid, h, -, _, hmid, rfl, rfl⟩
    exact ⟨mid, h, hmid⟩
  · rintro ⟨mid, h, hmid⟩
    exact ⟨(), _, rfl, a, mid, h, (), rest, hmid, rfl, rfl⟩

theorem orElse_eq_ok : orElse p q cs = .ok (a, rest) ↔
    p cs = .ok (a, rest) ∨ Fails p cs ∧ q cs = .ok (a, rest) := by
  rw [orElse, Fails]
  cases h : p cs with
  | error at_ => simp
  | ok r =>
    have hne : ¬ ∀ a rest, Except.ok (ε := List Char) r ≠ .ok (a, rest) := fun hc => hc r.1 r.2 rfl
    simp only [hne, false_and, or_false]

theorem value_eq_ok {b : β} {p : Parser α} :
    value b p cs = .ok (a', rest) ↔ b = a' ∧ ∃ a, p cs = .ok (a, rest) := by
  simp only [value, bind_eq_ok, pure_eq_ok]
  constructor
  · rintro ⟨a, _, h, rfl, rfl⟩
    exact ⟨rfl, a, h⟩
  · rintro ⟨rfl, a, h⟩
    exact ⟨a, rest, h, rfl, rfl⟩

theorem optional_eq_some {a : α} :
    optional p cs = .ok (some a, rest) ↔ p cs = .ok (a, rest) := by
  rw [optional]
  cases h : p cs with
  | error at_ => simp
  | ok r => simp [Prod.ext_iff]

theorem optional_eq_none : optional p cs = .ok (none, rest) ↔ Fails p cs ∧ cs = rest := by
  rw [optional, Fails]
  cases h : p cs with
  | error at_ => simp
  | ok r =>
    simp only [Except.ok.injEq, Prod.mk.injEq, reduceCtorEq, false_and, false_iff, not_and]
    exact fun hc => absurd rfl (hc r.1 r.2)

theorem parseAll_eq_ok {text : String} :
    parseAll p text = .ok a ↔ p text.toList = .ok (a, []) := by
  rw [parseAll]
  split
  · next b h => simp [h]
  · next b rest hne h =>
    simp only [h, reduceCtorEq, Except.ok.injEq, Prod.mk.injEq, false_iff]
    rintro ⟨-, rfl⟩
    exact hne rfl
  · next rest h => simp [h]

/-! ### Failures -/

theorem fails_char {c : Char} (h : cs.head? ≠ some c) : Fails (char c) cs :=
  fun u rest hu => h (by rw [char_eq_ok.1 hu, List.head?_cons])

theorem Fails.bind {f : α → Parser β} (h : Fails p cs) : Fails (p >>= f) cs := by
  intro b rest hb
  obtain ⟨a, mid, ha, -⟩ := bind_eq_ok.1 hb
  exact h a mid ha

theorem Fails.value {b : β} (h : Fails p cs) : Fails (value b p) cs := Fails.bind h

theorem Fails.map {f : α → β} (h : Fails p cs) : Fails (f <$> p) cs := by
  intro b rest hb
  obtain ⟨a, ha, -⟩ := map_eq_ok.1 hb
  exact h a rest ha

theorem Fails.spaced (h : Fails p (skip cs)) : Fails (spaced p) cs := by
  intro a rest ha
  obtain ⟨mid, hmid, -⟩ := spaced_eq_ok.1 ha
  exact h a mid hmid

/-! ### What is taken off -/

/-- What the parser takes off the front of a text is a word for its value. -/
def Takes (p : Parser α) (W : α → List Char → Prop) : Prop :=
  ∀ cs a rest, p cs = .ok (a, rest) → ∃ w, W a w ∧ cs = w ++ rest

/-- The parser leaves no more than it was given. -/
def Shrinks (p : Parser α) : Prop :=
  ∀ cs a rest, p cs = .ok (a, rest) → rest.length ≤ cs.length

/-- The parser takes at least one character. -/
def Consumes (p : Parser α) : Prop :=
  ∀ cs a rest, p cs = .ok (a, rest) → rest.length < cs.length

theorem takes_char (c : Char) : Takes (char c) fun _ w => w = [c] :=
  fun _ _ _ h => ⟨[c], rfl, char_eq_ok.1 h⟩

theorem Takes.shrinks {W : α → List Char → Prop} (h : Takes p W) : Shrinks p := by
  intro cs a rest hp
  obtain ⟨w, -, rfl⟩ := h cs a rest hp
  simp

theorem Takes.consumes {W : α → List Char → Prop} (h : Takes p W) (hW : ∀ a w, W a w → w ≠ []) :
    Consumes p := by
  intro cs a rest hp
  obtain ⟨w, hw, rfl⟩ := h cs a rest hp
  have hpos := List.length_pos_iff.2 (hW a w hw)
  rw [List.length_append]
  omega

theorem consumes_char (c : Char) : Consumes (char c) :=
  (takes_char c).consumes fun _ _ hw => hw ▸ List.cons_ne_nil _ _

theorem Consumes.shrinks (h : Consumes p) : Shrinks p := fun cs a rest hp =>
  Nat.le_of_lt (h cs a rest hp)

theorem Consumes.fails_nil (h : Consumes p) : Fails p [] :=
  fun a rest hp => absurd (h [] a rest hp) (Nat.not_lt_zero _)

theorem length_skip_le (cs : List Char) : (skip cs).length ≤ cs.length :=
  (List.dropWhile_sublist _).length_le

theorem shrinks_gaps : Shrinks gaps :=
  fun cs _ _ h => gaps_eq_ok.1 h ▸ length_skip_le cs

theorem shrinks_someGaps : Shrinks someGaps := by
  intro cs u rest h
  obtain ⟨c, tail, rfl, -, rfl⟩ := someGaps_eq_ok.1 h
  exact Nat.le_succ_of_le (length_skip_le tail)

theorem shrinks_pure (a : α) : Shrinks (pure a) := fun _ _ _ h => (pure_eq_ok.1 h).2 ▸ Nat.le_refl _

theorem Shrinks.bind {f : α → Parser β} (hp : Shrinks p) (hf : ∀ a, Shrinks (f a)) :
    Shrinks (p >>= f) := by
  intro cs b rest h
  obtain ⟨a, mid, hmid, hrest⟩ := bind_eq_ok.1 h
  exact Nat.le_trans (hf a mid b rest hrest) (hp cs a mid hmid)

theorem Consumes.bind {f : α → Parser β} (hp : Consumes p) (hf : ∀ a, Shrinks (f a)) :
    Consumes (p >>= f) := by
  intro cs b rest h
  obtain ⟨a, mid, hmid, hrest⟩ := bind_eq_ok.1 h
  exact Nat.lt_of_le_of_lt (hf a mid b rest hrest) (hp cs a mid hmid)

theorem Shrinks.bind_consumes {f : α → Parser β} (hp : Shrinks p) (hf : ∀ a, Consumes (f a)) :
    Consumes (p >>= f) := by
  intro cs b rest h
  obtain ⟨a, mid, hmid, hrest⟩ := bind_eq_ok.1 h
  exact Nat.lt_of_lt_of_le (hf a mid b rest hrest) (hp cs a mid hmid)

theorem Shrinks.spaced (h : Shrinks p) : Shrinks (spaced p) :=
  shrinks_gaps.bind fun _ => h.bind fun a => shrinks_gaps.bind fun _ => shrinks_pure a

theorem Consumes.spaced (h : Consumes p) : Consumes (spaced p) :=
  shrinks_gaps.bind_consumes fun _ => h.bind fun a => shrinks_gaps.bind fun _ => shrinks_pure a

theorem Shrinks.optional (h : Shrinks p) : Shrinks (optional p) := by
  intro cs o rest ho
  cases o with
  | none => exact (optional_eq_none.1 ho).2 ▸ Nat.le_refl _
  | some a => exact h cs a rest (optional_eq_some.1 ho)

theorem Shrinks.orElse (hp : Shrinks p) (hq : Shrinks q) : Shrinks (orElse p q) := by
  intro cs a rest h
  rcases orElse_eq_ok.1 h with h | ⟨-, h⟩
  · exact hp cs a rest h
  · exact hq cs a rest h

theorem Consumes.orElse (hp : Consumes p) (hq : Consumes q) : Consumes (orElse p q) := by
  intro cs a rest h
  rcases orElse_eq_ok.1 h with h | ⟨-, h⟩
  · exact hp cs a rest h
  · exact hq cs a rest h

/-! ### Repetitions -/

/-- The part is taken off as often as it can be. -/
inductive Run (p : Parser α) : List α → List Char → List Char → Prop where
  | stop {cs : List Char} (h : Fails p cs) : Run p [] cs cs
  | step {a : α} {as : List α} {cs mid rest : List Char} (h : p cs = .ok (a, mid))
      (hs : Run p as mid rest) : Run p (a :: as) cs rest

/-- A bound on the number of parts does no harm if it is no less than the number of characters. -/
theorem manyUpTo_eq_ok_iff (hp : Consumes p) {n : Nat} (hn : cs.length ≤ n) {as : List α} :
    manyUpTo p n cs = .ok (as, rest) ↔ Run p as cs rest := by
  induction n generalizing cs as with
  | zero =>
    have hfails : Fails p cs := fun a rest h => by
      have := hp cs a rest h
      omega
    simp only [manyUpTo, Except.ok.injEq, Prod.mk.injEq]
    constructor
    · rintro ⟨rfl, rfl⟩
      exact .stop hfails
    · rintro (_ | ⟨h, -⟩)
      · exact ⟨rfl, rfl⟩
      · exact absurd h (hfails _ _)
  | succ n ih =>
    rw [manyUpTo]
    cases h : p cs with
    | error at_ =>
      have hfails : Fails p cs := fun a rest => by simp [h]
      simp only [Except.ok.injEq, Prod.mk.injEq]
      constructor
      · rintro ⟨rfl, rfl⟩
        exact .stop hfails
      · rintro (_ | ⟨h', -⟩)
        · exact ⟨rfl, rfl⟩
        · exact absurd h' (hfails _ _)
    | ok r =>
      obtain ⟨a, mid⟩ := r
      have hmid : mid.length ≤ n := by
        have := hp cs a mid h
        omega
      constructor
      · intro hrun
        simp only at hrun
        split at hrun
        · exact absurd hrun nofun
        · next as' rest' hmany =>
          obtain ⟨rfl, rfl⟩ := Prod.mk.inj (Except.ok.inj hrun)
          exact .step h ((ih hmid).1 hmany)
      · rintro (hfails | ⟨h', hs⟩)
        · exact absurd h (hfails _ _)
        · obtain ⟨rfl, rfl⟩ := Prod.mk.inj (Except.ok.inj (h.symm.trans h'))
          simp only [(ih hmid).2 hs]

theorem many_eq_ok_iff (hp : Consumes p) {as : List α} :
    many p cs = .ok (as, rest) ↔ Run p as cs rest :=
  manyUpTo_eq_ok_iff hp (Nat.le_refl _)

end Parser

end PatternGraph.Text
