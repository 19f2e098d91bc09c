import PatternGraph.CommandLine.Files
import PatternGraph.Proofs.Except

/-!
# Reading what was written

A file that was written is read as the text that was written into it, and a file at another place is
read as before. Writing a file takes away no directory and no file, so a walk along a path that came
to its end before comes to the same end after: `Files.Keeps` says this of two tables, and `step_eq_ok`
what each part of the walk asks for.
-/

namespace PatternGraph.Files

variable {files files' : Files} {place next : Place} {path part text : String}

/-- A part of a path is followed from a directory. -/
theorem enter_eq_ok : files.enter place part = .ok next ↔
    files.hasDirectory place = true ∧ part.utf8ByteSize ≤ Path.nameLimit ∧
      place.advance part = next := by
  simp only [enter, Except.ite_error_eq_ok, Bool.not_eq_true', Bool.not_eq_false, Nat.not_lt,
    Except.ok.injEq]

/-- A walk goes on to something that is there. -/
theorem step_eq_ok : files.step place part = .ok next ↔
    files.enter place part = .ok next ∧
      (files.hasDirectory next || (files.get? next).isSome) = true := by
  simp only [step, Except.bind_eq_ok, Except.ite_eq_ok, Except.ok.injEq]
  exact ⟨fun ⟨_, henter, hthere, h⟩ => h ▸ ⟨henter, hthere⟩,
    fun ⟨henter, hthere⟩ => ⟨next, henter, hthere, rfl⟩⟩

/-- A walk ends at the place of its parts. -/
theorem eq_foldl_of_foldlM {parts : List String} (h : parts.foldlM files.step place = .ok next) :
    next = parts.foldl Place.advance place := by
  induction parts generalizing place with
  | nil => exact (Except.ok.inj h).symm
  | cons part parts ih =>
    rw [List.foldlM_cons, Except.bind_eq_ok] at h
    obtain ⟨there, hstep, hrest⟩ := h
    rw [List.foldl_cons, (enter_eq_ok.1 (step_eq_ok.1 hstep).1).2.2]
    exact ih hrest

/-! ### Nothing is taken away -/

/-- Every directory and every file is still there. -/
structure Keeps (files files' : Files) : Prop where
  directories : ∀ place, files.hasDirectory place = true → files'.hasDirectory place = true
  entries : ∀ place, (files.get? place).isSome = true → (files'.get? place).isSome = true

theorem Keeps.enter (h : files.Keeps files') (henter : files.enter place part = .ok next) :
    files'.enter place part = .ok next := by
  obtain ⟨hdirectory, hrest⟩ := enter_eq_ok.1 henter
  exact enter_eq_ok.2 ⟨h.directories place hdirectory, hrest⟩

theorem Keeps.step (h : files.Keeps files') (hstep : files.step place part = .ok next) :
    files'.step place part = .ok next := by
  obtain ⟨henter, hthere⟩ := step_eq_ok.1 hstep
  refine step_eq_ok.2 ⟨h.enter henter, ?_⟩
  rw [Bool.or_eq_true] at hthere ⊢
  exact hthere.imp (h.directories next) (h.entries next)

/-- A walk still comes to its end. -/
theorem Keeps.foldlM (h : files.Keeps files') {parts : List String}
    (hwalk : parts.foldlM files.step place = .ok next) : parts.foldlM files'.step place = .ok next := by
  induction parts generalizing place with
  | nil => exact hwalk
  | cons part parts ih =>
    rw [List.foldlM_cons, Except.bind_eq_ok] at hwalk ⊢
    obtain ⟨there, hstep, hrest⟩ := hwalk
    exact ⟨there, h.step hstep, ih hrest⟩

/-! ### Putting a text at a place -/

theorem get?_set (files : Files) (place there : Place) (text : String) :
    (files.set place text).get? there = if there = place then some text else files.get? there := by
  unfold get? set
  by_cases hthere : there = place
  · simp [hthere]
  · have hbeq : (there == place) = false := by simpa using hthere
    simp only [List.lookup_cons, hbeq, if_neg hthere]
    induction files.entries with
    | nil => rfl
    | cons entry entries ih =>
      obtain ⟨file, found⟩ := entry
      by_cases hfile : file = place
      · rw [List.filter_cons_of_neg (by simpa using hfile), ih, List.lookup_cons, hfile, hbeq]
      · rw [List.filter_cons_of_pos (by simpa using hfile), List.lookup_cons, List.lookup_cons, ih]

theorem keeps_set (files : Files) (place : Place) (text : String) :
    files.Keeps (files.set place text) where
  directories there h := by
    simp only [hasDirectory, Bool.or_eq_true, List.any_eq_true] at h ⊢
    rcases h with h | ⟨⟨file, found⟩, hmem, hbelow⟩
    · exact .inl h
    · by_cases hfile : file = place
      · exact .inr ⟨(place, text), List.mem_cons_self, hfile ▸ hbelow⟩
      · refine .inr ⟨(file, found), List.mem_cons_of_mem _ (List.mem_filter.2 ⟨hmem, ?_⟩), hbelow⟩
        simpa using hfile
  entries there h := by
    rw [get?_set]
    split
    · rfl
    · exact h

/-! ### Reading and writing -/

/-- What reading asks for: a path that may be, a walk to its end, and a text there. -/
theorem read_eq_ok : files.read path = .ok text ↔
    Path.check path = .ok () ∧
      ∃ place, (Path.parts path).foldlM files.step (Path.start path) = .ok place ∧
        files.get? place = some text := by
  simp only [read, Except.bind_eq_ok]
  constructor
  · rintro ⟨_, hcheck, place, hwalk, htext⟩
    refine ⟨hcheck, place, hwalk, ?_⟩
    split at htext
    · next hfound => rw [hfound, Except.ok.inj htext]
    · exact absurd htext nofun
  · rintro ⟨hcheck, place, hwalk, hfound⟩
    exact ⟨(), hcheck, place, hwalk, by rw [hfound]⟩

/-- What writing does: the path leads to a directory and names something in it, and the text is put
there. -/
theorem write_spec (h : files.write path text = .ok files') :
    Path.check path = .ok () ∧ ∃ before last directory place, Path.parts path = before ++ [last] ∧
      before.foldlM files.step (Path.start path) = .ok directory ∧
      files.enter directory last = .ok place ∧ files' = files.set place text := by
  simp only [write, Except.bind_eq_ok] at h
  obtain ⟨_, hcheck, h⟩ := h
  refine ⟨hcheck, ?_⟩
  split at h
  · exact absurd h nofun
  next last before hparts =>
  simp only [Except.bind_eq_ok] at h
  obtain ⟨directory, hwalk, h⟩ := h
  split at h
  · exact absurd h nofun
  next hallowed =>
  simp only [Except.bind_eq_ok, Except.ite_error_eq_ok, Except.ok.injEq] at h
  obtain ⟨place, henter, -, rfl⟩ := h
  -- a path that ends in a slash is refused because the directory before it is there
  have hslash : (Path.parts path).getLast? ≠ some "" := fun hlast =>
    hallowed (by simp [(enter_eq_ok.1 henter).1, hlast])
  have hrev : (Path.parts path).reverse = last :: before := by
    rw [← hparts]
    cases hr : (Path.parts path).reverse with
    | nil => rfl
    | cons part rest =>
      refine (List.dropWhile_cons_of_neg fun hpart => hslash ?_).symm
      rw [← List.head?_reverse, hr, List.head?_cons, of_decide_eq_true hpart]
  refine ⟨before.reverse, last, directory, place, ?_, hwalk, henter, rfl⟩
  rw [← List.reverse_reverse (Path.parts path), hrev, List.reverse_cons]

/-- A file that was written is read as what was written into it. -/
theorem read_of_write (h : files.write path text = .ok files') : files'.read path = .ok text := by
  obtain ⟨hcheck, before, last, directory, place, hparts, hwalk, henter, rfl⟩ := write_spec h
  have hkeeps := files.keeps_set place text
  have hthere : (files.set place text).get? place = some text := by rw [get?_set, if_pos rfl]
  have hstep : (files.set place text).step directory last = .ok place :=
    step_eq_ok.2 ⟨hkeeps.enter henter, by simp [hthere]⟩
  refine read_eq_ok.2 ⟨hcheck, place, ?_, hthere⟩
  rw [hparts, List.foldlM_append, Except.bind_eq_ok]
  exact ⟨directory, hkeeps.foldlM hwalk, Except.bind_eq_ok.2 ⟨place, hstep, rfl⟩⟩

/-- Another file is read as before. -/
theorem read_of_write_elsewhere {other found : String} (h : files.write path text = .ok files')
    (hother : Path.place other ≠ Path.place path) (hread : files.read other = .ok found) :
    files'.read other = .ok found := by
  obtain ⟨-, before, last, directory, place, hparts, hwalk, henter, rfl⟩ := write_spec h
  obtain ⟨hcheck, there, hthere, hfound⟩ := read_eq_ok.1 hread
  have hplace : place = Path.place path := by
    rw [Path.place, hparts, List.foldl_append, ← eq_foldl_of_foldlM hwalk]
    exact (enter_eq_ok.1 henter).2.2.symm
  refine read_eq_ok.2 ⟨hcheck, there, (files.keeps_set place text).foldlM hthere, ?_⟩
  rw [get?_set, if_neg ?_, hfound]
  rw [hplace, eq_foldl_of_foldlM hthere]
  exact hother

end PatternGraph.Files
