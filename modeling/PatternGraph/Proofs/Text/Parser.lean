import PatternGraph.Text.Parser

/-!
# What parsers give

`Parser.Gives p P` says that every value that a parser gives has a property, whatever text it takes
the value from. There is one lemma for each way to put parsers together.
-/

namespace PatternGraph.Text.Parser

variable {α β : Type} {p q : Parser α} {P : α → Prop} {Q : β → Prop}

/-- Every value that a parser gives has a property. -/
def Gives (p : Parser α) (P : α → Prop) : Prop := ∀ cs a rest, p cs = .ok (a, rest) → P a

namespace Gives

theorem pure {a : α} (h : P a) : Gives (pure a) P := by
  intro cs b rest hb
  obtain ⟨rfl, -⟩ := Prod.mk.inj (Except.ok.inj hb)
  exact h

theorem bind {f : α → Parser β} (hp : Gives p P) (hf : ∀ a, P a → Gives (f a) Q) :
    Gives (p >>= f) Q := by
  intro cs b rest hb
  cases hcs : p cs with
  | error at_ =>
    simp only [Bind.bind, hcs] at hb
    exact absurd hb nofun
  | ok r =>
    simp only [Bind.bind, hcs] at hb
    exact hf r.1 (hp cs r.1 r.2 hcs) r.2 b rest hb

/-- The value of the first part does not matter. -/
theorem after {f : α → Parser β} (hf : ∀ a, Gives (f a) Q) : Gives (p >>= f) Q :=
  bind (P := fun _ => True) (fun _ _ _ _ => trivial) fun a _ => hf a

theorem spaced (hp : Gives p P) : Gives (spaced p) P :=
  after fun _ => bind hp fun _ ha => after fun _ => pure ha

theorem orElse (hp : Gives p P) (hq : Gives q P) : Gives (orElse p q) P := by
  intro cs a rest ha
  rw [Parser.orElse] at ha
  split at ha
  · exact hq cs a rest ha
  · next r hr =>
    obtain rfl := Except.ok.inj ha
    exact hp cs a rest hr

theorem optional (hp : Gives p P) : Gives (optional p) fun o => ∀ a ∈ o, P a := by
  intro cs o rest ho
  rw [Parser.optional] at ho
  split at ho
  · obtain ⟨rfl, -⟩ := Prod.mk.inj (Except.ok.inj ho)
    exact nofun
  · next a r hr =>
    obtain ⟨rfl, -⟩ := Prod.mk.inj (Except.ok.inj ho)
    rintro _ ⟨⟩
    exact hp cs a r hr

theorem manyUpTo (hp : Gives p P) (n : Nat) : Gives (manyUpTo p n) fun as => ∀ a ∈ as, P a := by
  induction n with
  | zero =>
    intro cs as rest has
    obtain ⟨rfl, -⟩ := Prod.mk.inj (Except.ok.inj has)
    exact nofun
  | succ n ih =>
    intro cs as rest has
    rw [Parser.manyUpTo] at has
    split at has
    · obtain ⟨rfl, -⟩ := Prod.mk.inj (Except.ok.inj has)
      exact nofun
    · next a r hr =>
      split at has
      · exact absurd has nofun
      · next as' r' hr' =>
        obtain ⟨rfl, -⟩ := Prod.mk.inj (Except.ok.inj has)
        exact List.forall_mem_cons.2 ⟨hp cs a r hr, ih r as' r' hr'⟩

theorem many (hp : Gives p P) : Gives (many p) fun as => ∀ a ∈ as, P a :=
  fun cs as rest has => manyUpTo hp cs.length cs as rest has

theorem parseAll (hp : Gives p P) {text : String} {a : α} (h : parseAll p text = .ok a) : P a := by
  rw [Parser.parseAll] at h
  split at h
  · next b hb =>
    obtain rfl := Except.ok.inj h
    exact hp _ b [] hb
  · exact absurd h nofun
  · exact absurd h nofun

end Gives

end PatternGraph.Text.Parser
