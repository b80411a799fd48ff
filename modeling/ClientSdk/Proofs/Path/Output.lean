import ClientSdk.Proofs.Path.Place

/-!
# Files below a root

A file below a root is given by the steps down to its directory and by its name.  If the
steps hold no point and the name does (`Plain`), names of files and of directories are
never confused: different files have different paths (`Plain.eq_of_tidy`) and places
(`Plain.eq_of_normalize`), no file is where a directory is needed below the root
(`Plain.not_needs`), and none is below another file (`Plain.not_encloses`).
-/

namespace ClientSdk

/-- A file below a root. -/
structure Output where
  /-- The steps that lead down to its directory. -/
  down : List String
  name : String

namespace Output

open ClientSdk.Path (Needs IsEntry IsStep)

def directory (o : Output) (root : String) : String :=
  o.down.foldl Path.join root

def file (o : Output) (root : String) : String :=
  Path.join (o.directory root) o.name

/-- A file whose name has a point, in directories whose names have none. -/
structure Plain (o : Output) : Prop where
  isEntry : ∀ s ∈ o.down, IsEntry s
  no_point : ∀ s ∈ o.down, '.' ∉ s.toList
  no_null : ∀ s ∈ o.down, '\x00' ∉ s.toList
  ne_nil : o.down ≠ []
  name_isEntry : IsEntry o.name
  point : '.' ∈ o.name.toList
  name_no_null : '\x00' ∉ o.name.toList

variable {o o' : Output} {root : String} {down : List String} {p : Path.Normal}

theorem Plain.name_not_mem (h : o.Plain) (h' : o'.Plain) : o.name ∉ o'.down :=
  fun hmem => h'.no_point _ hmem h.point

/-! ## Paths -/

theorem written_foldl_join (h : ∀ s ∈ down, IsEntry s) (root : String) :
    Path.written (down.foldl Path.join root) =
      ⟨(Path.written root).slashes, (Path.written root).steps ++ down⟩ := by
  induction down generalizing root with
  | nil => simp
  | cons s down ih =>
      rw [List.foldl_cons, ih (fun s' hs' => h s' (List.mem_cons_of_mem _ hs')),
        Path.written_join root (h s List.mem_cons_self).toIsStep]
      simp

theorem read_foldl_join (h : ∀ s ∈ down, IsEntry s) (root : String) :
    Path.read (down.foldl Path.join root) =
      ⟨(Path.read root).slashes, (Path.read root).steps ++ down⟩ := by
  induction down generalizing root with
  | nil => simp
  | cons s down ih =>
      rw [List.foldl_cons, ih (fun s' hs' => h s' (List.mem_cons_of_mem _ hs')),
        Path.read_join root (h s List.mem_cons_self)]
      simp

theorem Plain.written_directory (h : o.Plain) (root : String) :
    Path.written (o.directory root) =
      ⟨(Path.written root).slashes, (Path.written root).steps ++ o.down⟩ :=
  written_foldl_join h.isEntry root

theorem Plain.written_file (h : o.Plain) (root : String) :
    Path.written (o.file root) =
      ⟨(Path.written root).slashes, (Path.written root).steps ++ (o.down ++ [o.name])⟩ := by
  rw [file, Path.written_join _ h.name_isEntry.toIsStep, h.written_directory,
    List.append_assoc]

theorem Plain.read_file (h : o.Plain) (root : String) :
    Path.read (o.file root) =
      ⟨(Path.read root).slashes, (Path.read root).steps ++ (o.down ++ [o.name])⟩ := by
  rw [file, Path.read_join _ h.name_isEntry, directory, read_foldl_join h.isEntry,
    List.append_assoc]

theorem Plain.directory_file (h : o.Plain) (root : String) :
    Path.directory (o.file root) = o.directory root := by
  obtain ⟨above, last, hdown⟩ := (List.eq_nil_or_concat' o.down).resolve_left h.ne_nil
  have hlast : IsStep last := (h.isEntry last (by rw [hdown]; simp)).toIsStep
  have hjoin : o.directory root = Path.join (above.foldl Path.join root) last := by
    rw [directory, hdown, List.foldl_append]
    rfl
  rw [file, hjoin]
  exact Path.directory_join_join _ hlast h.name_isEntry.toIsStep

theorem eq_of_append (h : o.down ++ [o.name] = o'.down ++ [o'.name]) : o = o' := by
  obtain ⟨hdown, hname⟩ := List.append_inj' h rfl
  cases o
  cases o'
  simp_all

/-- Files that are listed alike are one. -/
theorem Plain.eq_of_tidy (h : o.Plain) (h' : o'.Plain)
    (hsame : Path.tidy (o.file root) = Path.tidy (o'.file root)) : o = o' := by
  have hwritten := Path.written_eq_of_tidy hsame
  rw [h.written_file, h'.written_file, Path.Normal.mk.injEq] at hwritten
  exact eq_of_append (List.append_cancel_left hwritten.2)

theorem Plain.tidy_directory_ne (h : o.Plain) (h' : o'.Plain) (root : String) :
    Path.tidy (o.directory root) ≠ Path.tidy (o'.file root) := by
  intro hsame
  have hwritten := Path.written_eq_of_tidy hsame
  rw [h.written_directory, h'.written_file, Path.Normal.mk.injEq] at hwritten
  have hdown := List.append_cancel_left hwritten.2
  exact h'.name_not_mem h (by rw [hdown]; simp)

theorem not_mem_join {c : Char} (hc : c ≠ '/') {d step : String} (hd : c ∉ d.toList)
    (hstep : c ∉ step.toList) : c ∉ (Path.join d step).toList := by
  unfold Path.join
  split
  · exact hstep
  split
  · simp [String.toList_append, hd, hstep]
  · simp [String.toList_append, hd, hstep, Path.toList_slash, hc]

theorem Plain.no_null_directory (h : o.Plain) (hroot : '\x00' ∉ root.toList) :
    '\x00' ∉ (o.directory root).toList := by
  have hall : ∀ (down : List String) (root : String), (∀ s ∈ down, '\x00' ∉ s.toList) →
      '\x00' ∉ root.toList → '\x00' ∉ (down.foldl Path.join root).toList := by
    intro down
    induction down with
    | nil => exact fun _ _ hroot => hroot
    | cons s down ih =>
        intro root hdown hroot
        exact ih _ (fun s' hs' => hdown s' (List.mem_cons_of_mem _ hs'))
          (not_mem_join (by decide) hroot (hdown s List.mem_cons_self))
  exact hall o.down root h.no_null hroot

theorem Plain.no_null_file (h : o.Plain) (hroot : '\x00' ∉ root.toList) :
    '\x00' ∉ (o.file root).toList :=
  not_mem_join (by decide) (h.no_null_directory hroot) h.name_no_null

/-! ## Places -/

theorem Plain.eq_of_normalize (h : o.Plain) (h' : o'.Plain)
    (hsame : Path.normalize (o.file root) = Path.normalize (o'.file root)) : o = o' := by
  have hread := congrArg Path.read hsame
  rw [Path.read_normalize, Path.read_normalize, h.read_file, h'.read_file,
    Path.Normal.mk.injEq] at hread
  exact eq_of_append (List.append_cancel_left hread.2)

/-- A place that is needed on the way down to a directory is needed on the way to the
root, or it is that of a directory on the way down from there. -/
theorem exists_down_of_needs (h : ∀ s ∈ down, IsEntry s)
    (hneeds : Needs (Path.written (down.foldl Path.join root)).slashes
      (Path.written (down.foldl Path.join root)).steps p) :
    Needs (Path.written root).slashes (Path.written root).steps p ∨
      ∃ down', down' <+: down ∧
        p = ⟨(Path.read root).slashes, (Path.read root).steps ++ down'⟩ := by
  induction down using List.reverseRecOn with
  | nil => exact Or.inl hneeds
  | append_singleton down s ih =>
      have hdown : ∀ s' ∈ down, IsEntry s' := fun s' hs' => h s' (List.mem_append_left _ hs')
      have hwritten := written_foldl_join hdown root
      have hplace := Path.place_written ((down ++ [s]).foldl Path.join root)
      rw [read_foldl_join h] at hplace
      rw [written_foldl_join h] at hneeds hplace
      dsimp only at hneeds hplace
      rw [← List.append_assoc, Path.needs_concat] at hneeds
      rcases hneeds with hneeds | ⟨-, rfl⟩
      · refine (ih hdown ?_).imp_right fun ⟨down', hpre, hp⟩ =>
          ⟨down', hpre.trans (List.prefix_append _ _), hp⟩
        rw [hwritten]
        exact hneeds
      · refine Or.inr ⟨down ++ [s], List.prefix_rfl, ?_⟩
        rw [← hplace, List.append_assoc]

theorem Plain.not_needs (h : o.Plain) (h' : o'.Plain)
    (hroot : ¬ Needs (Path.written root).slashes (Path.written root).steps
      (Path.read (o.file root))) :
    ¬ Needs (Path.written (o'.directory root)).slashes
      (Path.written (o'.directory root)).steps (Path.read (o.file root)) := by
  intro hneeds
  rcases exists_down_of_needs h'.isEntry hneeds with hneeds | ⟨down', hpre, hp⟩
  · exact hroot hneeds
  · rw [h.read_file, Path.Normal.mk.injEq] at hp
    have hdown := List.append_cancel_left hp.2
    exact h.name_not_mem h' (hpre.subset (by rw [← hdown]; simp))

theorem Plain.not_needs_of_normal (h : o.Plain) (hroot : Path.written root = Path.read root) :
    ¬ Needs (Path.written root).slashes (Path.written root).steps
      (Path.read (o.file root)) := by
  rintro ⟨before, step, hpre, -, hplace⟩
  rw [hroot] at hpre hplace
  rw [Path.place_read hpre, h.read_file, Path.Normal.mk.injEq] at hplace
  have hlength := hpre.length_le
  rw [hplace.2] at hlength
  simp only [List.length_append, List.length_singleton] at hlength
  omega

theorem Plain.not_encloses (h : o.Plain) (h' : o'.Plain) (root : String) :
    ¬ Path.Encloses (Path.read (o.file root)) (Path.read (o'.file root)) := by
  rintro ⟨-, hlt, hpre⟩
  rw [h.read_file, h'.read_file] at hlt hpre
  have hdown := (List.prefix_append_right_inj _).mp hpre
  rcases List.prefix_concat_iff.mp hdown with heq | hdown
  · rw [heq] at hlt
    exact absurd hlt (Nat.lt_irrefl _)
  · exact h.name_not_mem h' (hdown.subset (by simp))

end Output

end ClientSdk
