import ClientSdk.Disk
import ClientSdk.Proofs.Except
import ClientSdk.Proofs.Path.Place
import ClientSdk.Proofs.Table

/-!
# Making directories and writing files

If no file stands in the way of a path (`Clear`), following it finds a directory or
finds that one is missing (`follow_of_clear`).  So a directory can be made, whichever of
those that lead to it are there (`makeDirectory_of_clear`), and after that a file can be
written into it unless a directory is at its place (`write_of_leads`).  Making
directories changes no file, and adds none but the needed directories (`Makes`).
-/

namespace ClientSdk.Disk

open ClientSdk.Path (Needs place IsStep)

variable {d d' : Disk} {slashes : ℕ} {steps before : List String} {last step : String}
  {path : String} {p : Path.Normal}

/-! ## Ways on a disk -/

/-- Whether no file stands where steps need a directory. -/
def Clear (d : Disk) (slashes : ℕ) (steps : List String) : Prop :=
  ∀ p, Needs slashes steps p → d.isFile p = false

/-- Whether all directories that steps need are there. -/
def Leads (d : Disk) (slashes : ℕ) (steps : List String) : Prop :=
  ∀ p, Needs slashes steps p → d.isDirectory p = true

/-- Steps that keep to the limits of names and paths. -/
structure Short (slashes : ℕ) (steps : List String) : Prop where
  isStep : ∀ s ∈ steps, IsStep s
  name : ∀ s ∈ steps, s.utf8ByteSize ≤ nameLimit
  path : (Path.Normal.mk slashes steps).text.utf8ByteSize ≤ pathLimit

theorem Short.of_prefix (h : Short slashes steps) (hpre : before <+: steps) :
    Short slashes before where
  isStep s hs := h.isStep s (hpre.subset hs)
  name s hs := h.name s (hpre.subset hs)
  path := (Path.length_text_le hpre fun s hs => (h.isStep s hs).ne_empty).trans h.path

theorem Short.left (h : Short slashes (before ++ [last])) : Short slashes before :=
  h.of_prefix (List.prefix_append _ _)

theorem Clear.left (h : d.Clear slashes (before ++ [last])) : d.Clear slashes before :=
  fun p hp => h p (Path.needs_concat.mpr (Or.inl hp))

theorem leads_nil (d : Disk) (slashes : ℕ) : d.Leads slashes [] :=
  fun _ hp => absurd hp Path.not_needs_nil

theorem leads_concat :
    d.Leads slashes (before ++ [last]) ↔ d.Leads slashes before ∧
      (last ≠ ".." → d.isDirectory (place slashes (before ++ [last])) = true) := by
  constructor
  · intro h
    exact ⟨fun p hp => h p (Path.needs_concat.mpr (Or.inl hp)),
      fun hlast => h _ (Path.needs_concat.mpr (Or.inr ⟨hlast, rfl⟩))⟩
  · rintro ⟨h, hend⟩ p hp
    rcases Path.needs_concat.mp hp with hp | ⟨hlast, rfl⟩
    · exact h p hp
    · exact hend hlast

/-! ## Following steps -/

theorem follow_append (d : Disk) (path : String) (here : Entry) (xs ys : List String) :
    d.follow path here (xs ++ ys) =
      d.follow path here xs >>= fun there => d.follow path there ys := by
  induction xs generalizing here with
  | nil => cases here <;> rfl
  | cons x xs ih =>
      cases here with
      | file place => rfl
      | directory place =>
          rw [List.cons_append, follow, follow]
          split
          · exact ih _
          split
          · rfl
          split
          · exact ih _
          split
          · exact ih _
          · rfl

theorem follow_up (d : Disk) (path : String) (p : Path.Normal) :
    d.follow path (.directory p) [".."] = .ok (.directory (p.enter "..")) := by
  rw [follow]
  exact if_pos rfl

theorem follow_step (hup : step ≠ "..") (hname : step.utf8ByteSize ≤ nameLimit)
    (hfile : d.isFile (p.enter step) = false) :
    d.follow path (.directory p) [step] =
      if d.isDirectory (p.enter step) then .ok (.directory (p.enter step))
      else .error (.notFound path) := by
  rw [follow, if_neg hup, if_neg (Nat.not_lt.mpr hname), hfile, if_neg Bool.false_ne_true]
  rfl

/-- Steps in whose way no file stands lead to a directory if all that they need are
there; else one is missing. -/
theorem follow_of_clear (hshort : Short slashes steps) (hclear : d.Clear slashes steps)
    (path : String) :
    (d.Leads slashes steps →
      d.follow path (.directory ⟨slashes, []⟩) steps =
        .ok (.directory (place slashes steps))) ∧
    (¬ d.Leads slashes steps →
      d.follow path (.directory ⟨slashes, []⟩) steps = .error (.notFound path)) := by
  induction steps using List.reverseRecOn with
  | nil =>
      exact ⟨fun _ => rfl, fun h => absurd (leads_nil d slashes) h⟩
  | append_singleton before last ih =>
      obtain ⟨hthere, hmissing⟩ := ih hshort.left hclear.left
      rw [follow_append]
      by_cases hbefore : d.Leads slashes before
      swap
      · refine ⟨fun h => absurd (leads_concat.mp h).1 hbefore, fun _ => ?_⟩
        rw [hmissing hbefore]
        rfl
      rw [hthere hbefore]
      change (_ → d.follow path (.directory (place slashes before)) [last] = _) ∧
        (_ → d.follow path (.directory (place slashes before)) [last] = _)
      by_cases hup : last = ".."
      · subst hup
        rw [follow_up, ← Path.place_concat]
        refine ⟨fun _ => rfl, fun h => absurd (leads_concat.mpr ⟨hbefore, ?_⟩) h⟩
        exact fun hne => absurd rfl hne
      · have hfile := hclear _ (Path.needs_concat.mpr (Or.inr ⟨hup, rfl⟩))
        rw [Path.place_concat] at hfile
        rw [follow_step hup (hshort.name last (by simp)) hfile, leads_concat,
          Path.place_concat]
        constructor
        · rintro ⟨-, hend⟩
          rw [if_pos (hend hup)]
        · intro h
          rw [if_neg fun hend => h ⟨hbefore, fun _ => hend⟩]

/-! ## Making directories -/

/-- A disk with more directories than another one, all of them needed, and the same
files. -/
structure Makes (d d' : Disk) (needed : Path.Normal → Prop) : Prop where
  files : d'.files = d.files
  keeps : d.directories ⊆ d'.directories
  new : ∀ text ∈ d'.directories, text ∈ d.directories ∨ ∃ p, needed p ∧ p.text = text

section Makes

variable {needed needed' : Path.Normal → Prop}

theorem Makes.refl (d : Disk) (needed : Path.Normal → Prop) : d.Makes d needed :=
  ⟨rfl, List.Subset.refl _, fun _ => Or.inl⟩

theorem Makes.mono (h : d.Makes d' needed) (hsub : ∀ p, needed p → needed' p) :
    d.Makes d' needed' where
  files := h.files
  keeps := h.keeps
  new text htext := (h.new text htext).imp_right fun ⟨p, hp, hsame⟩ => ⟨p, hsub p hp, hsame⟩

theorem Makes.trans {d'' : Disk} (h : d.Makes d' needed) (h' : d'.Makes d'' needed) :
    d.Makes d'' needed where
  files := h'.files.trans h.files
  keeps := List.Subset.trans h.keeps h'.keeps
  new text htext := by
    rcases h'.new text htext with hold | hnew
    · exact h.new text hold
    · exact Or.inr hnew

theorem Makes.isFile_eq (h : d.Makes d' needed) (p : Path.Normal) :
    d'.isFile p = d.isFile p := by
  rw [isFile, isFile, h.files]

theorem Makes.clear (h : d.Makes d' needed) (hclear : d.Clear slashes steps) :
    d'.Clear slashes steps :=
  fun p hp => (h.isFile_eq p).trans (hclear p hp)

theorem Makes.isDirectory (h : d.Makes d' needed) (hp : d.isDirectory p = true) :
    d'.isDirectory p = true := by
  simp only [Disk.isDirectory, Bool.or_eq_true, h.files, List.contains_iff_mem] at hp ⊢
  exact hp.imp_left (Or.imp_right fun hmem => h.keeps hmem)

theorem Makes.leads (h : d.Makes d' needed) (hleads : d.Leads slashes steps) :
    d'.Leads slashes steps :=
  fun p hp => h.isDirectory (hleads p hp)

end Makes

theorem target_of_leads (hshort : Short slashes (before ++ [last]))
    (hclear : d.Clear slashes before) (hleads : d.Leads slashes before) :
    d.target ⟨slashes, before⟩ last =
      match d.follow (Path.Normal.mk slashes (before ++ [last])).text
          (.directory (place slashes before)) [last] with
      | .ok entry => .ok ((place slashes before).enter last, some entry)
      | .error (.notFound _) => .ok ((place slashes before).enter last, none)
      | .error fault => .error fault := by
  rw [target]
  dsimp only
  rw [if_neg (Nat.not_lt.mpr hshort.path),
    (follow_of_clear hshort.left hclear _).1 hleads]
  rfl

theorem target_of_not_leads (hshort : Short slashes (before ++ [last]))
    (hclear : d.Clear slashes before) (hleads : ¬ d.Leads slashes before) :
    ∃ path, d.target ⟨slashes, before⟩ last = .error (.notFound path) := by
  refine ⟨(Path.Normal.mk slashes (before ++ [last])).text, ?_⟩
  rw [target]
  dsimp only
  rw [if_neg (Nat.not_lt.mpr hshort.path),
    (follow_of_clear hshort.left hclear _).2 hleads]
  rfl

theorem isDirectory_of_mem (h : p.text ∈ d.directories) : d.isDirectory p = true := by
  simp [isDirectory, h]

theorem makeLast_of_nothing {outer place : Path.Normal}
    (h : d.target outer last = .ok (place, none)) :
    d.makeLast outer last =
      .ok { d with directories := d.directories ++ [place.text] } := by
  rw [makeLast, h]
  rfl

theorem makeLast_of_directory {outer place there : Path.Normal}
    (h : d.target outer last = .ok (place, some (.directory there))) :
    d.makeLast outer last = .ok d := by
  rw [makeLast, h]
  rfl

theorem makeLast_of_leads (hshort : Short slashes (before ++ [last]))
    (hclear : d.Clear slashes (before ++ [last])) (hleads : d.Leads slashes before) :
    ∃ d', d.makeLast ⟨slashes, before⟩ last = .ok d' ∧
      d.Makes d' (Needs slashes (before ++ [last])) ∧
      d'.Leads slashes (before ++ [last]) := by
  have htarget := target_of_leads hshort hclear.left hleads
  by_cases hup : last = ".."
  · subst hup
    rw [follow_up] at htarget
    refine ⟨d, makeLast_of_directory htarget, .refl d _, leads_concat.mpr ⟨hleads, ?_⟩⟩
    exact fun hne => absurd rfl hne
  have hneeds : Needs slashes (before ++ [last]) (place slashes (before ++ [last])) :=
    Path.needs_concat.mpr (Or.inr ⟨hup, rfl⟩)
  have hfile := hclear _ hneeds
  rw [Path.place_concat] at hfile
  rw [follow_step hup (hshort.name last (by simp)) hfile, ← Path.place_concat] at htarget
  by_cases hthere : d.isDirectory (place slashes (before ++ [last])) = true
  · rw [if_pos hthere] at htarget
    exact ⟨d, makeLast_of_directory htarget, .refl d _, leads_concat.mpr ⟨hleads, fun _ => hthere⟩⟩
  · rw [if_neg hthere] at htarget
    have hmakes : d.Makes
        { d with
          directories := d.directories ++ [(place slashes (before ++ [last])).text] }
        (Needs slashes (before ++ [last])) := by
      refine ⟨rfl, List.subset_append_left _ _, fun text htext => ?_⟩
      rcases List.mem_append.mp htext with hold | hnew
      · exact Or.inl hold
      · exact Or.inr ⟨_, hneeds, (List.mem_singleton.mp hnew).symm⟩
    refine ⟨_, makeLast_of_nothing htarget, hmakes,
      leads_concat.mpr ⟨hmakes.leads hleads, fun _ => ?_⟩⟩
    exact isDirectory_of_mem (List.mem_append_right _ (List.mem_singleton.mpr rfl))

theorem makeSteps_of_clear (hshort : Short slashes steps) (hclear : d.Clear slashes steps) :
    ∃ d', d.makeSteps slashes steps.reverse = .ok d' ∧ d.Makes d' (Needs slashes steps) ∧
      d'.Leads slashes steps := by
  induction steps using List.reverseRecOn with
  | nil => exact ⟨d, rfl, .refl d _, leads_nil d slashes⟩
  | append_singleton before last ih =>
      rw [List.reverse_append, List.reverse_singleton, List.singleton_append, makeSteps,
        List.reverse_reverse]
      by_cases hleads : d.Leads slashes before
      · obtain ⟨d', hmake, hmakes, hleads'⟩ := makeLast_of_leads hshort hclear hleads
        rw [hmake]
        exact ⟨d', rfl, hmakes, hleads'⟩
      · -- The directory in front is missing, so it is made first.
        obtain ⟨text, hmissing⟩ := target_of_not_leads hshort hclear.left hleads
        have hrefused : d.makeLast ⟨slashes, before⟩ last = .error (.notFound text) := by
          rw [makeLast, hmissing]
          rfl
        obtain ⟨d₁, hmake₁, hmakes₁, hleads₁⟩ := ih hshort.left hclear.left
        obtain ⟨d', hmake, hmakes, hleads'⟩ :=
          makeLast_of_leads hshort (hmakes₁.clear hclear) hleads₁
        rw [hrefused, hmake₁]
        have hfront : d.Makes d₁ (Needs slashes (before ++ [last])) :=
          hmakes₁.mono fun p hp => Path.needs_concat.mpr (Or.inl hp)
        exact ⟨d', hmake, hfront.trans hmakes, hleads'⟩

/-- A path that can be made or written: no name in it is too long, nor is the path, and
all its characters can stand in names. -/
structure Sound (path : String) : Prop where
  no_null : '\x00' ∉ path.toList
  short : Short (Path.written path).slashes (Path.written path).steps

theorem checkPath_eq_ok (h : '\x00' ∉ path.toList) : checkPath path = .ok () := by
  rw [checkPath, if_neg]
  simpa using h

theorem makeDirectory_of_clear (hsound : Sound path)
    (hclear : d.Clear (Path.written path).slashes (Path.written path).steps) :
    ∃ d', d.makeDirectory path = .ok d' ∧
      d.Makes d' (Needs (Path.written path).slashes (Path.written path).steps) ∧
      d'.Leads (Path.written path).slashes (Path.written path).steps := by
  obtain ⟨d', hmake, hmakes, hleads⟩ := makeSteps_of_clear hsound.short hclear
  refine ⟨d', ?_, hmakes, hleads⟩
  rw [makeDirectory, checkPath_eq_ok hsound.no_null]
  change Except.mapError Fault.disk (d.makeSteps _ _) = _
  rw [hmake]
  rfl

/-! ## Directories that cannot be made -/

theorem makeDirectory_of_null (d : Disk) (h : '\x00' ∈ path.toList) :
    d.makeDirectory path = .error (.value .nullInPath) := by
  have hcheck : checkPath path = .error (.value .nullInPath) := by
    rw [checkPath, if_pos (by simpa using h)]
  rw [makeDirectory, hcheck]
  rfl

theorem target_of_long (d : Disk) (slashes : ℕ) (hup : step ≠ "..")
    (hname : nameLimit < step.utf8ByteSize)
    (hsteps : before ++ [last] = step :: steps) :
    ∃ text, d.target ⟨slashes, before⟩ last = .error (.nameTooLong text) := by
  have hfollow : ∀ (text : String) (p : Path.Normal) (rest : List String),
      d.follow text (.directory p) (step :: rest) = .error (.nameTooLong text) := by
    intro text p rest
    rw [follow, if_neg hup, if_pos hname]
  refine ⟨(Path.Normal.mk slashes (before ++ [last])).text, ?_⟩
  rw [target]
  dsimp only
  split
  · rfl
  · cases before with
    | nil =>
        obtain ⟨rfl, -⟩ := List.cons.inj hsteps
        change (match d.follow _ (.directory ⟨slashes, []⟩) [last] with
          | .ok entry => _ | .error (.notFound _) => _ | .error fault => _) = _
        rw [hfollow]
    | cons first before =>
        obtain ⟨rfl, -⟩ := List.cons.inj hsteps
        rw [hfollow]
        rfl

theorem makeDirectory_of_long (d : Disk) (hnull : '\x00' ∉ path.toList)
    (hsteps : (Path.written path).steps = step :: steps) (hup : step ≠ "..")
    (hname : nameLimit < step.utf8ByteSize) :
    ∃ text, d.makeDirectory path = .error (.disk (.nameTooLong text)) := by
  obtain ⟨before, last, hcut⟩ :=
    (List.eq_nil_or_concat' (step :: steps)).resolve_left (List.cons_ne_nil _ _)
  obtain ⟨text, htarget⟩ := d.target_of_long (Path.written path).slashes hup hname
    hcut.symm
  have hlast : d.makeLast ⟨(Path.written path).slashes, before⟩ last =
      .error (.nameTooLong text) := by
    rw [makeLast, htarget]
    rfl
  have hmake : d.makeSteps (Path.written path).slashes (Path.written path).steps.reverse =
      .error (.nameTooLong text) := by
    rw [hsteps, hcut, List.reverse_append, List.reverse_singleton, List.singleton_append,
      makeSteps, List.reverse_reverse, hlast]
  refine ⟨text, ?_⟩
  rw [makeDirectory, checkPath_eq_ok hnull]
  change Except.mapError Fault.disk (d.makeSteps _ _) = _
  rw [hmake]
  rfl

/-! ## Writing files -/

/-- A disk with one more file, or with one written over. -/
def withFile (d : Disk) (path text : String) : Disk :=
  { d with files := Table.insert d.files (Path.normalize path) text }

/-- A file is written if the directories that lead to it are there and none is at its
place. -/
theorem write_of_leads (hsound : Sound path)
    (hsteps : (Path.written path).steps = before ++ [last]) (hlast : last ≠ "..")
    (hclear : d.Clear (Path.written path).slashes before)
    (hleads : d.Leads (Path.written path).slashes before)
    (hfree : d.isDirectory (Path.read path) = false) (text : String) :
    d.write path text =
      .ok (d.withFile path text) := by
  have hshort := hsound.short
  have hread : (place (Path.written path).slashes before).enter last = Path.read path := by
    rw [← Path.place_written path, hsteps, Path.place_concat]
  rw [hsteps] at hshort
  have hend : d.follow (Path.Normal.mk (Path.written path).slashes (before ++ [last])).text
      (.directory (place (Path.written path).slashes before)) [last] =
      if d.isFile (Path.read path) then .ok (.file (Path.read path))
      else .error (.notFound
        (Path.Normal.mk (Path.written path).slashes (before ++ [last])).text) := by
    rw [follow, if_neg hlast, if_neg (Nat.not_lt.mpr (hshort.name last (by simp))), hread,
      hfree]
    rfl
  obtain ⟨there, hentry, hnot⟩ : ∃ there,
      d.target ⟨(Path.written path).slashes, before⟩ last = .ok (Path.read path, there) ∧
        ∀ p, there ≠ some (.directory p) := by
    rw [target_of_leads hshort hclear hleads, hend, hread]
    cases d.isFile (Path.read path) with
    | true => exact ⟨some (.file (Path.read path)), rfl, fun p => by simp⟩
    | false => exact ⟨none, rfl, fun p => by simp⟩
  rw [write, checkPath_eq_ok hsound.no_null]
  simp only [hsteps, List.reverse_append, List.reverse_singleton, List.singleton_append,
    List.reverse_reverse, hentry]
  rfl

/-! ## Whatever is in the way -/

theorem place_of_follow {q : Path.Normal}
    (h : d.follow path (.directory p) steps = .ok (.directory q)) :
    q = steps.foldl Path.Normal.enter p := by
  induction steps generalizing p with
  | nil =>
      rw [follow] at h
      cases h
      rfl
  | cons step steps ih =>
      rw [follow] at h
      split at h
      · exact ih h
      split at h
      · exact nomatch h
      split at h
      · cases steps with
        | nil => exact nomatch h
        | cons step' steps => exact nomatch h
      split at h
      · exact ih h
      · exact nomatch h

theorem place_of_target {r : Path.Normal × Option Entry}
    (h : d.target ⟨slashes, before⟩ last = .ok r) :
    r.1 = place slashes (before ++ [last]) := by
  rw [target] at h
  dsimp only at h
  split at h
  · exact nomatch h
  obtain ⟨front, hfront, hrest⟩ := Except.bind_eq_ok_iff.mp h
  cases front with
  | file q => exact nomatch hrest
  | directory q =>
      obtain rfl := place_of_follow hfront
      dsimp only at hrest
      rw [Path.place_concat]
      split at hrest
      · cases hrest
        rfl
      · cases hrest
        rfl
      · exact nomatch hrest

/-- A file that is written is written to the place of its path, and no other file is. -/
theorem eq_withFile_of_write {text : String} (h : d.write path text = .ok d') :
    d' = d.withFile path text := by
  obtain ⟨-, -, h⟩ := Except.bind_eq_ok_iff.mp h
  dsimp only at h
  split at h
  · exact nomatch h
  · next last front hsteps =>
      have hplace : place (Path.written path).slashes (front.reverse ++ [last]) =
          Path.read path := by
        rw [← Path.place_written path, ← List.reverse_cons, ← hsteps, List.reverse_reverse]
      split at h
      · exact nomatch h
      · exact nomatch h
      · next q there hnot htarget =>
          cases h
          have hq : q = Path.read path := (place_of_target htarget).trans hplace
          rw [hq]
          rfl

theorem files_of_makeLast (h : d.makeLast ⟨slashes, before⟩ last = .ok d') :
    d'.files = d.files := by
  obtain ⟨r, -, h⟩ := Except.bind_eq_ok_iff.mp h
  split at h
  · cases h
    rfl
  · cases h
    rfl
  · exact nomatch h

theorem files_of_makeSteps (h : d.makeSteps slashes steps = .ok d') :
    d'.files = d.files := by
  induction steps generalizing d' with
  | nil =>
      cases h
      rfl
  | cons last front ih =>
      rw [makeSteps] at h
      split at h
      · obtain ⟨d₁, hfront, hlast⟩ := Except.bind_eq_ok_iff.mp h
        exact (files_of_makeLast hlast).trans (ih hfront)
      · exact files_of_makeLast h

theorem files_of_makeDirectory (h : d.makeDirectory path = .ok d') : d'.files = d.files := by
  obtain ⟨-, -, h⟩ := Except.bind_eq_ok_iff.mp h
  dsimp only at h
  cases hmake : d.makeSteps (Path.written path).slashes (Path.written path).steps.reverse with
  | error fault =>
      rw [hmake] at h
      exact nomatch h
  | ok d₁ =>
      rw [hmake] at h
      cases h
      exact files_of_makeSteps hmake

/-! ## What is there afterwards -/

theorem isDirectory_iff :
    d.isDirectory p = true ↔ (∀ s ∈ p.steps, s = "..") ∨ p.text ∈ d.directories ∨
      ∃ file ∈ d.files, Path.Encloses p (Path.read file.1) := by
  simp [isDirectory, Path.Encloses, and_assoc, or_assoc]

theorem isFile_iff : d.isFile p = true ↔ ∃ text, Table.get? d.files p.text = some text := by
  rw [isFile, Option.isSome_iff_exists]

theorem isFile_withFile {text : String} (h : (d.withFile path text).isFile p = true) :
    d.isFile p = true ∨ p.text = Path.normalize path := by
  by_cases hp : p.text = Path.normalize path
  · exact Or.inr hp
  · refine Or.inl ?_
    rw [isFile_iff] at h ⊢
    rwa [withFile, Table.insert, Table.get?_alter_of_ne _ _ hp] at h

theorem isDirectory_withFile {text : String}
    (h : (d.withFile path text).isDirectory p = true) :
    d.isDirectory p = true ∨ Path.Encloses p (Path.read path) := by
  rw [isDirectory_iff] at h ⊢
  rcases h with hup | hmade | ⟨file, hfile, hinside⟩
  · exact Or.inl (Or.inl hup)
  · exact Or.inl (Or.inr (Or.inl hmade))
  · rcases Table.mem_insert hfile with heq | hold
    · rw [(Prod.mk.inj heq).1, Path.read_normalize] at hinside
      exact Or.inr hinside
    · exact Or.inl (Or.inr (Or.inr ⟨file, hold, hinside⟩))

theorem Makes.isDirectory_of {needed : Path.Normal → Prop} (h : d.Makes d' needed)
    (hp : d'.isDirectory p = true) :
    d.isDirectory p = true ∨ ∃ q, needed q ∧ q.text = p.text := by
  rw [isDirectory_iff] at hp ⊢
  rw [h.files] at hp
  rcases hp with hup | hmade | hinside
  · exact Or.inl (Or.inl hup)
  · exact (h.new _ hmade).imp_left fun hold => Or.inr (Or.inl hold)
  · exact Or.inl (Or.inr (Or.inr hinside))

end ClientSdk.Disk
