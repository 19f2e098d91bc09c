import PatternGraph.Proofs.Json.Records
import PatternGraph.Proofs.Json.Written

/-!
# Choices, tables and what may be null

How the remaining forms are decoded: one of a few values given by its name, a structure that names its
kind in a field of its own, a table of texts, and a value that is null where there is none.

`Json.Lossless` puts the two halves together. A form without numbers that is decoded to a value gives
back that value from its text, be it written on one line or on many.
-/

namespace PatternGraph.Json

/-! ### Forms without numbers -/

@[simp] theorem numberFree_null : Json.null.NumberFree := .null

@[simp] theorem numberFree_bool (b : Bool) : (Json.bool b).NumberFree := .bool b

@[simp] theorem numberFree_str (s : String) : (Json.str s).NumberFree := .str s

@[simp] theorem numberFree_arr_iff {items : List Json} :
    (Json.arr items).NumberFree ↔ ∀ j ∈ items, j.NumberFree :=
  ⟨fun | .arr h => h, .arr⟩

@[simp] theorem numberFree_obj_iff {fields : List (String × Json)} :
    (Json.obj fields).NumberFree ↔ ∀ f ∈ fields, f.2.NumberFree :=
  ⟨fun | .obj h => h, .obj⟩

@[simp] theorem numberFree_optStr (s : Option String) : (Json.optStr s).NumberFree := by
  cases s with
  | none => exact .null
  | some s => exact .str s

/-! ### Decoding -/

theorem Draft.ofFields_eq (fields : List (String × Json)) :
    Draft.ofFields fields = fields.map fun f => (.ok f.1, Draft.ofJson f.2) := by
  induction fields with
  | nil => rfl
  | cons f fields ih => rw [Draft.ofFields, ih, List.map_cons]

namespace Decoder

variable {α : Type} {dec : Decoder α} {j : Json} {a : α}

theorem decodes_bool (b : Bool) : bool.Decodes (.bool b) b := rfl

theorem decodes_optStr (s : Option String) : (option string).Decodes (.optStr s) s := by
  cases s with
  | none => rfl
  | some s => exact (decodes_string s).option nofun

/-- A value that is null where there is none. -/
theorem Decodes.orNull {write : α → Json} (h : ∀ a, dec.Decodes (write a) a)
    (hnull : ∀ a, write a ≠ .null) (found : Option α) :
    (Decoder.option dec).Decodes ((found.map write).getD .null) found := by
  cases found with
  | none => rfl
  | some a => exact (h a).option (hnull a)

/-- A value is decoded from its name. -/
theorem decodes_named {values : List (String × α)} {name : String} (h : values.lookup name = some a) :
    (named values).Decodes (.str name) a := by
  change (string.filterMap fun s => values.lookup s) (.str (.ok name)) = .ok a
  simp only [filterMap, string, bind, Except.bind, h]

theorem decodes_oneOf {values : List (String × α)} {name : String} (content : Decoder Unit)
    (h : values.lookup name = some a) : (oneOf values content).Decodes (.str name) a :=
  decodes_named h

theorem decodes_numbered {values : List (String × α)} {name : String}
    (h : values.lookup name = some a) : (numbered values).Decodes (.str name) a :=
  decodes_named h

/-- A structure that names its kind in its first field is decoded as a structure of that kind. -/
theorem Decodes.tagged {tag : String} {inField inFront : Decoder (Decoder α)} {kind : Json}
    {fields : List (String × Json)} (hkind : inField.Decodes kind dec)
    (h : dec.Decodes (.obj fields) a) :
    (Decoder.tagged tag inField inFront).Decodes (.obj ((tag, kind) :: fields)) a := by
  unfold Decodes at hkind h ⊢
  simp only [Draft.ofJson, Draft.ofFields, Decoder.tagged, takeField, if_true, hkind, bind,
    Except.bind]
  exact h

/-- A kind that has no fields of its own. -/
theorem decodes_bare (a : α) : (bare a).Decodes (.obj []) a := (Record.Gives.pure a).decodes

/-- A table is decoded to the list of its entries. -/
theorem decodes_table (entries : List (String × String)) :
    (table string).Decodes (.obj (entries.map fun e => (e.1, .str e.2))) entries := by
  unfold Decodes
  simp only [Draft.ofJson, Draft.ofFields_eq, Decoder.table, List.map_map]
  induction entries with
  | nil => rfl
  | cons e entries ih =>
    simp only [List.map_cons, Decoder.entries, ih, Function.comp_apply]
    rfl

end Decoder

/-! ### From text to value -/

/-- The value is read back from its form, on one line or on many. -/
structure Lossless {α : Type} (dec : Decoder α) (j : Json) (a : α) : Prop where
  compact : (Document.read j.compact).decode dec = .ok a
  pretty : (Document.read j.pretty).decode dec = .ok a

/-- A form without numbers that is decoded to a value is lossless. -/
theorem Decoder.Decodes.lossless {α : Type} {dec : Decoder α} {j : Json} {a : α}
    (h : dec.Decodes j a) (hj : j.NumberFree) : Lossless dec j a := by
  have hdecode : (Document.ofJson j).decode dec = .ok a := by
    have hroot : dec (Document.ofJson j).root = .ok a := h
    rw [Document.decode, hroot]
    rfl
  constructor
  · rw [compact, hj.read_write Layout.blank_compact, hdecode]
  · rw [pretty, hj.read_write Layout.blank_pretty, hdecode]

end PatternGraph.Json
