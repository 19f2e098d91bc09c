/-!
# Tables of aliases

A table that gives a text for each of some aliases. It is held in ascending order of the aliases, so
that equal tables are equal lists.
-/

namespace PatternGraph

/-- Texts by alias. -/
structure AliasTable where
  /-- The aliases with their texts, in strictly ascending order of the aliases. -/
  entries : List (String × String)
  /-- The order of the aliases. -/
  ascending : entries.Pairwise (·.1 < ·.1)
deriving DecidableEq, Repr

namespace AliasTable

/-- Puts an entry at its place in an ascending list, over an entry of the same alias. -/
def insertEntry (entry : String × String) : List (String × String) → List (String × String)
  | [] => [entry]
  | e :: es =>
    if entry.1 < e.1 then entry :: e :: es
    else if entry.1 = e.1 then entry :: es
    else e :: insertEntry entry es

theorem fst_mem_insertEntry {entry x : String × String} {es : List (String × String)}
    (h : x ∈ insertEntry entry es) : x = entry ∨ x ∈ es := by
  induction es with
  | nil => simpa [insertEntry] using h
  | cons e es ih => grind [insertEntry]

theorem pairwise_insertEntry {entry : String × String} {es : List (String × String)}
    (h : es.Pairwise (·.1 < ·.1)) : (insertEntry entry es).Pairwise (·.1 < ·.1) := by
  induction es with
  | nil => simp [insertEntry]
  | cons e es ih =>
    obtain ⟨he, hes⟩ := List.pairwise_cons.1 h
    rw [insertEntry]
    split
    · next hlt =>
      exact List.pairwise_cons.2 ⟨fun x hx => (List.mem_cons.1 hx).elim (fun e' => e' ▸ hlt)
        (fun hx => String.lt_trans hlt (he x hx)), h⟩
    · split
      · next heq => exact List.pairwise_cons.2 ⟨fun x hx => heq ▸ he x hx, hes⟩
      · next hlt hne =>
        have hgt : e.1 < entry.1 := Decidable.byContradiction fun hts =>
          hne (String.le_antisymm (String.not_lt.1 hts) (String.not_lt.1 hlt))
        refine List.pairwise_cons.2 ⟨fun x hx => ?_, ih hes⟩
        rcases fst_mem_insertEntry hx with rfl | hx
        · exact hgt
        · exact he x hx

instance : EmptyCollection AliasTable := ⟨⟨[], .nil⟩⟩

instance : Inhabited AliasTable := ⟨∅⟩

/-- The table with the text of an alias set. -/
def insert (t : AliasTable) (key text : String) : AliasTable :=
  ⟨insertEntry (key, text) t.entries, pairwise_insertEntry t.ascending⟩

/-- The table of some entries; of two for the same alias, the later one counts. -/
def ofList (entries : List (String × String)) : AliasTable :=
  entries.foldl (fun t e => t.insert e.1 e.2) ∅

/-- The text of an alias. -/
def get? (t : AliasTable) (key : String) : Option String := t.entries.lookup key

end AliasTable

end PatternGraph
