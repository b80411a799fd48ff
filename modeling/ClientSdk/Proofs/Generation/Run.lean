import ClientSdk.Proofs.Disk
import ClientSdk.Proofs.Generation.Plan

/-!
# Running a plan

Whatever the disk is like, a run stops at the first action that fails, and up to there
it has written the files of the plan in order and no other file (`Plan.files_run`).

On a disk with nothing in the way (`Ready`) no action fails: each of them keeps what is
needed for the next (`Ready.makes`, `Ready.writes`), so all files are written and no other
file is touched (`run_of_ready`).
-/

namespace ClientSdk

def byPlace (files : List (String × String)) : List (String × String) :=
  files.map fun file => (Path.normalize file.1, file.2)

theorem byPlace_append (files files' : List (String × String)) :
    byPlace (files ++ files') = byPlace files ++ byPlace files' :=
  List.map_append

namespace Progress

variable {p : Progress} {fault : Fault}

theorem act_of_fault (h : p.fault = some fault) (a : Action) : p.act a = p := by
  unfold act
  rw [h]
  rfl

theorem foldl_act_of_fault (h : p.fault = some fault) (actions : List Action) :
    actions.foldl act p = p := by
  induction actions with
  | nil => rfl
  | cons a actions ih => rw [List.foldl_cons, act_of_fault h, ih]

theorem act_of_none (h : p.fault = none) (a : Action) :
    p.act a = match a with
      | .makeDirectory path =>
          match p.disk.makeDirectory path with
          | .ok disk => { p with disk }
          | .error fault => { p with fault := some fault }
      | .write path text =>
          match p.disk.write path text with
          | .ok disk => { p with disk, written := p.written ++ [Path.tidy path] }
          | .error fault => { p with fault := some fault }
      | .report event => { p with events := p.events ++ [event] } := by
  unfold act
  rw [h]
  rfl

theorem act_makeDirectory (h : p.fault = none) {path : String} {disk : Disk}
    (hmake : p.disk.makeDirectory path = .ok disk) :
    p.act (.makeDirectory path) = { p with disk } := by
  rw [act_of_none h]
  dsimp only
  rw [hmake]

theorem act_write (h : p.fault = none) {path text : String} {disk : Disk}
    (hwrite : p.disk.write path text = .ok disk) :
    p.act (.write path text) =
      { p with disk, written := p.written ++ [Path.tidy path] } := by
  rw [act_of_none h]
  dsimp only
  rw [hwrite]

theorem files_act (p : Progress) (a : Action) :
    ∃ files, files <+: filesOf [a] ∧
      (p.act a).disk.files = Table.insertAll p.disk.files (byPlace files) ∧
      (p.act a).written = p.written ++ files.map (fun file => Path.tidy file.1) ∧
      ((p.act a).fault = none → files = filesOf [a]) := by
  have hnothing : (p.act a).disk.files = p.disk.files → (p.act a).written = p.written →
      ((p.act a).fault = none → filesOf [a] = []) →
        ∃ files, files <+: filesOf [a] ∧
          (p.act a).disk.files = Table.insertAll p.disk.files (byPlace files) ∧
          (p.act a).written = p.written ++ files.map (fun file => Path.tidy file.1) ∧
          ((p.act a).fault = none → files = filesOf [a]) :=
    fun hfiles hwritten hnone => ⟨[], List.nil_prefix, hfiles, by simp [hwritten],
      fun h => (hnone h).symm⟩
  cases hp : p.fault with
  | some fault =>
      rw [act_of_fault hp] at hnothing ⊢
      exact hnothing rfl rfl fun h => nomatch hp.symm.trans h
  | none =>
      rw [act_of_none hp] at hnothing ⊢
      cases a with
      | makeDirectory path =>
          dsimp only at hnothing ⊢
          cases hmake : p.disk.makeDirectory path with
          | error fault =>
              rw [hmake] at hnothing
              exact hnothing rfl rfl fun _ => rfl
          | ok disk =>
              rw [hmake] at hnothing
              exact hnothing (Disk.files_of_makeDirectory hmake) rfl fun _ => rfl
      | write path text =>
          dsimp only at hnothing ⊢
          cases hwrite : p.disk.write path text with
          | error fault =>
              rw [hwrite] at hnothing
              exact hnothing rfl rfl fun h => nomatch h
          | ok disk =>
              refine ⟨[(path, text)], List.prefix_rfl, ?_, rfl, fun _ => rfl⟩
              rw [Disk.eq_withFile_of_write hwrite]
              rfl
      | report event => exact hnothing rfl rfl fun _ => rfl

theorem files_foldl_act (p : Progress) (actions : List Action) :
    ∃ files, files <+: filesOf actions ∧
      (actions.foldl act p).disk.files = Table.insertAll p.disk.files (byPlace files) ∧
      (actions.foldl act p).written =
        p.written ++ files.map (fun file => Path.tidy file.1) ∧
      ((actions.foldl act p).fault = none → files = filesOf actions) := by
  induction actions generalizing p with
  | nil => exact ⟨[], List.prefix_rfl, rfl, by simp, fun _ => rfl⟩
  | cons a actions ih =>
      have hcut : filesOf (a :: actions) = filesOf [a] ++ filesOf actions :=
        List.filterMap_append (l := [a])
      obtain ⟨files, hpre, hfiles, hwritten, hall⟩ := p.files_act a
      rw [List.foldl_cons, hcut]
      cases hfault : (p.act a).fault with
      | some fault =>
          rw [foldl_act_of_fault hfault]
          exact ⟨files, hpre.trans (List.prefix_append _ _), hfiles, hwritten,
            fun h => nomatch hfault.symm.trans h⟩
      | none =>
          obtain ⟨files', hpre', hfiles', hwritten', hall'⟩ := ih (p.act a)
          rw [hall hfault] at hfiles hwritten
          refine ⟨filesOf [a] ++ files', (List.prefix_append_right_inj _).mpr hpre', ?_, ?_,
            fun h => congrArg _ (hall' h)⟩
          · rw [hfiles', hfiles, byPlace_append, Table.insertAll_append]
          · rw [hwritten', hwritten, List.map_append, List.append_assoc]

end Progress

/-- A run writes the files of its plan, up to where it fails, and changes no other
file. -/
theorem Plan.files_run (p : Plan) (disk : Disk) :
    ∃ files, files <+: p.files ∧
      (p.run disk).disk.files = Table.insertAll disk.files (byPlace files) ∧
      (p.run disk).written = files.map (fun file => Path.tidy file.1) ∧
      ((p.run disk).fault = none → p.fault = none ∧ files = p.files) := by
  obtain ⟨files, hpre, hfiles, hwritten, hall⟩ :=
    Progress.files_foldl_act { disk } p.actions
  refine ⟨files, hpre, hfiles, hwritten, fun h => ?_⟩
  obtain ⟨hactions, hend⟩ := Option.or_eq_none_iff.mp h
  exact ⟨hend, hall hactions⟩

/-! ## Running on a disk -/

/-- Directories and files that do not get into each other's way: the directory of each
file is among the directories, no file stands where a directory is needed, and none is
below another one. -/
structure Fitting (directories files : String → Prop) : Prop where
  sound : ∀ path, directories path ∨ files path → Disk.Sound path
  parent : ∀ path, files path → ∃ d step, Path.IsEntry step ∧ path = Path.join d step ∧
    Path.directory path = d ∧ directories d
  apart : ∀ path, files path → ∀ d, directories d →
    ¬ Path.Needs (Path.written d).slashes (Path.written d).steps (Path.read path)
  beside : ∀ path, files path → ∀ path', files path' →
    ¬ Path.Encloses (Path.read path) (Path.read path')

/-- A disk on which no file stands where one of the directories is needed, and no
directory where one of the files is. -/
structure Ready (disk : Disk) (directories files : String → Prop) : Prop where
  clear : ∀ d, directories d → disk.Clear (Path.written d).slashes (Path.written d).steps
  free : ∀ path, files path → disk.isDirectory (Path.read path) = false

section Ready

variable {disk disk' : Disk} {directories files : String → Prop} {path : String}

theorem no_slash_written (path : String) : ∀ s ∈ (Path.written path).steps, '/' ∉ s.toList :=
  fun _ hs => Text.not_mem_of_mem_splitAt (List.mem_filter.mp hs).1

theorem eq_read_of_text {d : String} {p : Path.Normal}
    (hp : Path.Needs (Path.written d).slashes (Path.written d).steps p)
    (htext : p.text = Path.normalize path) : p = Path.read path := by
  obtain ⟨before, step, hpre, -, rfl⟩ := hp
  rw [← Path.place_written path]
  refine Path.place_eq_of_text (Path.keptSlashes_le _) (fun s hs => ?_)
    (Path.keptSlashes_le _) (no_slash_written path) ?_
  · exact no_slash_written d s (hpre.subset hs)
  · rw [htext, Path.place_written]
    rfl

/-- What making a directory preserves. -/
theorem Ready.makes (h : Ready disk directories files) (hfit : Fitting directories files)
    {d : String} (hd : directories d)
    (hmakes : disk.Makes disk'
      (Path.Needs (Path.written d).slashes (Path.written d).steps)) :
    Ready disk' directories files where
  clear d' hd' := hmakes.clear (h.clear d' hd')
  free path hpath := by
    rw [← Bool.not_eq_true]
    intro hdirectory
    rcases hmakes.isDirectory_of hdirectory with hold | ⟨q, hq, htext⟩
    · exact absurd (hold.symm.trans (h.free path hpath)) (by decide)
    · exact hfit.apart path hpath d hd (eq_read_of_text hq htext ▸ hq)

/-- What writing a file preserves. -/
theorem Ready.writes (h : Ready disk directories files) (hfit : Fitting directories files)
    (hpath : files path) (text : String) :
    Ready (disk.withFile path text) directories files where
  clear d hd p hp := by
    rw [← Bool.not_eq_true]
    intro hfile
    rcases Disk.isFile_withFile hfile with hold | htext
    · exact absurd (hold.symm.trans (h.clear d hd p hp)) (by decide)
    · exact hfit.apart path hpath d hd (eq_read_of_text hp htext ▸ hp)
  free path' hpath' := by
    rw [← Bool.not_eq_true]
    intro hdirectory
    rcases Disk.isDirectory_withFile hdirectory with hold | hinside
    · exact absurd (hold.symm.trans (h.free path' hpath')) (by decide)
    · exact hfit.beside path' hpath' path hpath hinside

theorem Ready.makeDirectory (h : Ready disk directories files)
    (hfit : Fitting directories files) {d : String} (hd : directories d) :
    ∃ disk', disk.makeDirectory d = .ok disk' ∧ disk'.files = disk.files ∧
      disk'.Leads (Path.written d).slashes (Path.written d).steps ∧
      Ready disk' directories files := by
  obtain ⟨disk', hmake, hmakes, hleads⟩ :=
    Disk.makeDirectory_of_clear (hfit.sound d (Or.inl hd)) (h.clear d hd)
  exact ⟨disk', hmake, hmakes.files, hleads, h.makes hfit hd hmakes⟩

theorem Ready.write (h : Ready disk directories files) (hfit : Fitting directories files)
    (hpath : files path)
    (hleads : disk.Leads (Path.written (Path.directory path)).slashes
      (Path.written (Path.directory path)).steps) (text : String) :
    disk.write path text = .ok (disk.withFile path text) ∧
      Ready (disk.withFile path text) directories files := by
  obtain ⟨d, step, hstep, hjoin, hparent, hd⟩ := hfit.parent path hpath
  have hwritten : Path.written path =
      ⟨(Path.written d).slashes, (Path.written d).steps ++ [step]⟩ :=
    hjoin ▸ Path.written_join d hstep.toIsStep
  have hclear := h.clear d hd
  rw [hparent] at hleads
  refine ⟨Disk.write_of_leads (hfit.sound path (Or.inr hpath)) (by rw [hwritten])
    hstep.ne_up ?_ ?_ (h.free path hpath) text, h.writes hfit hpath text⟩
  · rw [hwritten]
    exact hclear
  · rw [hwritten]
    exact hleads

theorem foldl_act_of_ready (hfit : Fitting directories files) {actions : List Action}
    (horderly : Orderly directories actions)
    (hfiles : ∀ file ∈ filesOf actions, files file.1) {p : Progress}
    (hfault : p.fault = none) (hready : Ready p.disk directories files) :
    (actions.foldl Progress.act p).fault = none ∧
      (actions.foldl Progress.act p).disk.files =
        Table.insertAll p.disk.files (byPlace (filesOf actions)) := by
  induction horderly generalizing p with
  | nil => exact ⟨hfault, rfl⟩
  | report event _ ih =>
      rw [List.foldl_cons, Progress.act_of_none hfault]
      exact ih hfiles hfault hready
  | makeDirectory hd _ ih =>
      obtain ⟨disk', hmake, hsame, -, hready'⟩ := hready.makeDirectory hfit hd
      rw [List.foldl_cons, Progress.act_makeDirectory hfault hmake, ← hsame]
      exact ih hfiles hfault hready'
  | @write path text actions hd _ ih =>
      have hcut : filesOf (.makeDirectory (Path.directory path) :: .write path text :: actions)
          = (path, text) :: filesOf actions := rfl
      rw [hcut] at hfiles ⊢
      obtain ⟨disk', hmake, hsame, hleads, hready'⟩ := hready.makeDirectory hfit hd
      obtain ⟨hwrite, hready''⟩ :=
        hready'.write hfit (hfiles _ List.mem_cons_self) hleads text
      rw [List.foldl_cons, Progress.act_makeDirectory hfault hmake, List.foldl_cons,
        Progress.act_write (p := { p with disk := disk' }) hfault hwrite, byPlace,
        List.map_cons, Table.insertAll_cons, ← hsame]
      exact ih (fun file hfile => hfiles file (List.mem_cons_of_mem _ hfile)) hfault hready''

end Ready

/-- A plan that is run on a disk with nothing in the way writes its pages, up to the
first that fails, and ends with the fault of that one. -/
theorem run_of_ready {p : Plan} {disk : Disk} {directories files : String → Prop}
    {pages : List (String × Except Fault String)} (hrenders : p.Renders directories pages)
    (hfit : Fitting directories files)
    (hfiles : ∀ file ∈ (upToFault pages).1, files file.1)
    (hready : Ready disk directories files) :
    (p.run disk).fault = (upToFault pages).2 ∧
      (p.run disk).disk.files =
        Table.insertAll disk.files (byPlace (upToFault pages).1) := by
  rw [← hrenders.files] at hfiles ⊢
  rw [← hrenders.fault]
  obtain ⟨hfault, hwritten⟩ := foldl_act_of_ready hfit hrenders.orderly hfiles
    (p := { disk }) rfl hready
  refine ⟨?_, hwritten⟩
  rw [Plan.run]
  dsimp only
  rw [hfault]
  rfl

end ClientSdk
