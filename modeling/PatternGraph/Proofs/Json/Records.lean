import PatternGraph.Json.Decoder

/-!
# Decoding what a value is written as

`Decoder.Decodes` says that a decoder takes the JSON form of a value to the value. A structure is
written as an object with its fields in the order of their description, of which those may be left
out that need not be given. `Record.Gives` says that the fields that are written give the structure;
it is built up as the description is, one field after another, each `given`, `leftOut`, or
`givenUnless` there is nothing to write.
-/

namespace PatternGraph.Json

/-! ### The draft of a value -/

theorem Draft.ofItems_eq (items : List Json) : Draft.ofItems items = items.map Draft.ofJson := by
  induction items with
  | nil => rfl
  | cons j items ih => rw [Draft.ofItems, ih, List.map_cons]

namespace Decoder

variable {α β : Type} {dec : Decoder α} {j : Json} {a : α}

/-- The decoder takes a value to what is asked for. -/
def Decodes (dec : Decoder α) (j : Json) (a : α) : Prop := dec (.ofJson j) = .ok a

theorem decodes_string (s : String) : string.Decodes (.str s) s := rfl

theorem Decodes.map (f : α → β) (h : dec.Decodes j a) : (dec.map f).Decodes j (f a) := by
  unfold Decodes Decoder.map
  rw [h]
  rfl

/-- A list is decoded if each of its items is. -/
theorem Decodes.list {write : α → Json} {as : List α} (h : ∀ a ∈ as, dec.Decodes (write a) a) :
    (list dec).Decodes (.arr (as.map write)) as := by
  unfold Decodes
  simp only [Draft.ofJson, Draft.ofItems_eq, Decoder.list]
  induction as with
  | nil => rfl
  | cons a as ih =>
    obtain ⟨ha, has⟩ := List.forall_mem_cons.1 h
    simp only [List.map_cons, items, ih has]
    rw [ha]
    rfl

theorem decodes_strings (texts : List String) : (list string).Decodes (.strings texts) texts :=
  Decodes.list fun s _ => decodes_string s

/-- A value that is not written as null is decoded where null may stand as well. -/
theorem Decodes.option (h : dec.Decodes j a) (hj : j ≠ .null) : (option dec).Decodes j (some a) := by
  unfold Decodes
  have hsome : Decoder.option dec (.ofJson j) = some <$> dec (.ofJson j) := by
    cases j with
    | null => exact absurd rfl hj
    | _ => rfl
  rw [hsome, h]
  rfl

end Decoder

namespace Record

open Decoder (Decodes)

variable {α β : Type} {fields : List (String × Json)} {name : String} {dec : Decoder α}
  {presence : Presence α} {a : α} {j : Json}

/-- The structure has no field of a name. -/
def Lacks (r : Record α) (name : String) : Prop := ∀ d known, r.note name d known = none

/-- The structure takes note of all fields, in their order. -/
inductive Notes (r : Record α) : List (String × Json) → r.Known → r.Known → Prop where
  | nil (known : r.Known) : Notes r [] known known
  | cons {name : String} {j : Json} {fields : List (String × Json)} {known next last : r.Known}
      (h : r.note name (.ofJson j) known = some (.ok next)) (hs : Notes r fields next last) :
      Notes r ((name, j) :: fields) known last

/-- The fields, written in an object, give the structure. -/
def Gives (r : Record α) (fields : List (String × Json)) (a : α) : Prop :=
  ∃ known, r.Notes fields r.start known ∧ r.finish known = .ok a

@[simp] theorem lacks_pure (b : β) (name : String) : (pure b).Lacks name := fun _ _ => rfl

@[simp] theorem lacks_field_iff {r : Record (α → β)} {key : String} :
    (r.field name dec presence).Lacks key ↔ r.Lacks key ∧ key ≠ name := by
  constructor
  · intro h
    have hr : r.Lacks key := by
      intro d known
      have hd := h d (known, none)
      cases hk : r.note key d known with
      | none => rfl
      | some _ => simp [field, hk] at hd
    refine ⟨hr, fun hname => ?_⟩
    have hd := h .null (r.start, none)
    simp only [field, hr .null r.start, if_pos hname] at hd
    exact absurd hd nofun
  · rintro ⟨hr, hne⟩ d ⟨known, found⟩
    simp only [field, hr d known, if_neg hne]

theorem Notes.append {r : Record α} {more : List (String × Json)} {known next last : r.Known}
    (h : r.Notes fields known next) (hs : r.Notes more next last) :
    r.Notes (fields ++ more) known last := by
  induction h with
  | nil _ => exact hs
  | cons hnote _ ih => exact .cons hnote (ih hs)

/-- What a structure takes note of, it takes note of with one field more as well. -/
theorem Notes.field {r : Record (α → β)} {known last : r.Known} (h : r.Notes fields known last)
    (found : Option α) :
    (r.field name dec presence).Notes fields (known, found) (last, found) := by
  induction h with
  | nil known => exact .nil (r := r.field name dec presence) (known, found)
  | cons hnote _ ih =>
    refine .cons (r := r.field name dec presence) ?_ ih
    simp only [Record.field, hnote]
    rfl

/-- An object is decoded from the fields that it is written with. -/
theorem Notes.noteAll {r : Record α} {known last : r.Known} (h : r.Notes fields known last) :
    r.noteAll (Draft.ofFields fields) none known = .ok last := by
  induction h with
  | nil _ => rfl
  | @cons name j fields known next last hnote hs ih =>
    simp only [Draft.ofFields, Record.noteAll, hnote, bind, Except.bind]
    exact ih

namespace Gives

theorem pure (b : β) : (pure b).Gives [] b := ⟨(), .nil (r := Record.pure b) (), rfl⟩

/-- A field that is written last. -/
theorem given {r : Record (α → β)} {f : α → β} (h : r.Gives fields f) (name : String)
    (presence : Presence α) (hlacks : r.Lacks name) (hj : dec.Decodes j a) :
    (r.field name dec presence).Gives (fields ++ [(name, j)]) (f a) := by
  obtain ⟨known, hnotes, hfinish⟩ := h
  refine ⟨(known, some a), (hnotes.field none).append (.cons ?_ (.nil _)), ?_⟩
  · simp only [Record.field, hlacks _ known, if_true]
    rw [hj]
    rfl
  · simp only [Record.field, hfinish, bind, Except.bind]
    rfl

/-- A field that is not written. -/
theorem leftOut {r : Record (α → β)} {f : α → β} (h : r.Gives fields f)
    (ha : presence.whenMissing = some a) : (r.field name dec presence).Gives fields (f a) := by
  obtain ⟨known, hnotes, hfinish⟩ := h
  refine ⟨(known, none), hnotes.field none, ?_⟩
  simp only [Record.field, hfinish, bind, Except.bind, ha]
  rfl

/-- A field that is written last, unless there is nothing to write. -/
theorem givenUnless {r : Record (α → β)} {f : α → β} (h : r.Gives fields f) (name : String)
    (presence : Presence α) (hlacks : r.Lacks name) {empty : Prop} [Decidable empty]
    (hempty : empty → presence.whenMissing = some a) (hj : ¬ empty → dec.Decodes j a) :
    (r.field name dec presence).Gives (fields ++ if empty then [] else [(name, j)]) (f a) := by
  split
  · next he =>
    rw [List.append_nil]
    exact h.leftOut (hempty he)
  · next he => exact h.given name presence hlacks (hj he)

/-- A field that is written last, if there is something to write. -/
theorem givenIfSome {r : Record (Option α → β)} {f : Option α → β} (h : r.Gives fields f)
    (name : String) (presence : Presence (Option α)) {dec : Decoder (Option α)} {write : α → Json}
    (hlacks : r.Lacks name) (hnone : presence.whenMissing = some none)
    (hsome : ∀ a, dec.Decodes (write a) (some a)) (found : Option α) :
    (r.field name dec presence).Gives (fields ++ found.elim [] fun a => [(name, write a)])
      (f found) := by
  cases found with
  | none => exact (List.append_nil fields).symm ▸ h.leftOut hnone
  | some a => exact h.given name presence hlacks (hsome a)

/-- An object with the fields is decoded to the structure. -/
theorem decodes {r : Record α} (h : r.Gives fields a) : Decodes r.decode (.obj fields) a := by
  obtain ⟨known, hnotes, hfinish⟩ := h
  unfold Decodes
  simp only [Draft.ofJson, decode, hnotes.noteAll, bind, Except.bind]
  exact hfinish

end Gives

end Record

end PatternGraph.Json
