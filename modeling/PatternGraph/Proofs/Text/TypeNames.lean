import PatternGraph.Proofs.Text.Parser
import PatternGraph.Proofs.TypeSet
import PatternGraph.Text.TypeNames

/-!
# Names that are written out

A name that a list of type names gives is *written*: it is not empty, and it is made of lower case
letters, digits, underscores and points. The store reads such a name as it stands, and there is no
comma in it.
-/

namespace PatternGraph.Text

/-- The characters of a lowered type name. -/
def nameChars : List Char := "abcdefghijklmnopqrstuvwxyz0123456789_.".toList

/-- A name as a list of type names gives it. -/
structure Written (name : String) : Prop where
  ne_empty : name ≠ ""
  chars : ∀ c ∈ name.toList, c ∈ nameChars

theorem lt_of_isNamePart {c : Char} (h : isNamePart c = true) : c.toNat < 128 := by
  delta isNamePart Char.isAlpha Char.isUpper Char.isLower Char.isDigit at h
  simp only [Bool.or_eq_true, Bool.and_eq_true, decide_eq_true_eq, beq_iff_eq] at h
  change c.val.toNat < 128
  rcases h with ((((⟨-, h⟩ | ⟨-, h⟩) | ⟨-, h⟩) | h) | h)
  · exact Nat.lt_of_le_of_lt (UInt32.le_iff_toNat_le.1 h) (by decide)
  · exact Nat.lt_of_le_of_lt (UInt32.le_iff_toNat_le.1 h) (by decide)
  · exact Nat.lt_of_le_of_lt (UInt32.le_iff_toNat_le.1 h) (by decide)
  · exact h ▸ by decide
  · exact h ▸ by decide

theorem toLower_mem_nameChars {c : Char} (h : isNamePart c = true) : c.toLower ∈ nameChars := by
  have hall : ∀ n < 128, isNamePart (Char.ofNat n) = true → (Char.ofNat n).toLower ∈ nameChars := by
    decide +kernel
  have hc : Char.ofNat c.toNat = c := Char.ofNat_toNat c
  rw [← hc]
  exact hall c.toNat (lt_of_isNamePart h) (hc.symm ▸ h)

theorem nameChars_kept : ∀ c ∈ nameChars, Settled c ∧ isBlank c = false ∧ c ≠ ',' := by
  have hall : (nameChars.all fun c =>
      lowerChar c == [c] && c != 'Σ' && !isBlank c && c != ',') = true := by
    decide +kernel
  intro c hc
  have h := List.all_eq_true.1 hall c hc
  simp only [Bool.and_eq_true, beq_iff_eq, bne_iff_ne, Bool.not_eq_true'] at h
  exact ⟨⟨h.1.1.1, h.1.1.2⟩, h.1.2, h.2⟩

namespace Written

variable {name : String}

theorem normalizeName_eq (h : Written name) : TypeSet.normalizeName name = name := by
  have htrimmed : Trimmed name.toList :=
    ⟨fun c hc => (nameChars_kept c (h.chars c (List.mem_of_head? hc))).2.1,
      fun c hc => (nameChars_kept c (h.chars c (List.mem_of_getLast? hc))).2.1⟩
  rw [TypeSet.normalizeName, trim_of_trimmed htrimmed]
  exact lowercase_of_settled fun c hc => (nameChars_kept c (h.chars c hc)).1

theorem comma_not_mem (h : Written name) : ',' ∉ name.toList :=
  fun hc => (nameChars_kept _ (h.chars _ hc)).2.2 rfl

end Written

/-- A type name starts with a character, and all of its characters may stand in a name. -/
theorem gives_typeName :
    Parser.typeName.Gives fun name => name ≠ "" ∧ ∀ c ∈ name.toList, isNamePart c = true := by
  intro cs name rest h
  cases cs with
  | nil => exact absurd h nofun
  | cons c cs =>
    rw [Parser.typeName] at h
    split at h
    · next hc =>
      obtain ⟨rfl, -⟩ := Prod.mk.inj (Except.ok.inj h)
      refine ⟨fun he => ?_, fun d hd => ?_⟩
      · have hnil := congrArg String.toList he
        rw [String.toList_ofList] at hnil
        exact absurd hnil (List.cons_ne_nil _ _)
      · rw [String.toList_ofList] at hd
        rcases List.mem_cons.1 hd with rfl | hd
        · exact isNamePart_of_isNameStart hc
        · exact List.all_eq_true.1 List.all_takeWhile d hd
    · exact absurd h nofun

theorem written_asciiLowercase {name : String}
    (h : name ≠ "" ∧ ∀ c ∈ name.toList, isNamePart c = true) : Written (asciiLowercase name) where
  ne_empty he := by
    have hnil := congrArg String.toList he
    rw [asciiLowercase, String.toList_ofList] at hnil
    exact h.1 (String.toList_eq_nil_iff.1 (List.map_eq_nil_iff.1 hnil))
  chars c hc := by
    rw [asciiLowercase, String.toList_ofList] at hc
    obtain ⟨d, hd, rfl⟩ := List.mem_map.1 hc
    exact toLower_mem_nameChars (h.2 d hd)

/-- A list of type names gives written names. -/
theorem gives_typeNames : Parser.typeNames.Gives fun names => ∀ name ∈ names, Written name := by
  refine gives_typeName.bind fun first hfirst => ?_
  refine (Parser.Gives.many (Parser.Gives.after fun _ => gives_typeName)).bind fun others hothers => ?_
  refine Parser.Gives.pure fun name hname => ?_
  obtain ⟨written, hwritten, rfl⟩ := List.mem_map.1 (List.mem_eraseDups.1 hname)
  rcases List.mem_cons.1 hwritten with rfl | hwritten
  · exact written_asciiLowercase hfirst
  · exact written_asciiLowercase (hothers written hwritten)

end PatternGraph.Text
