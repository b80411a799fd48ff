import ClientSdk.Config.Decode
import ClientSdk.Proofs.Generation.Run
import ClientSdk.Proofs.ModuleTree.Page
import ClientSdk.Proofs.Path.Output

/-!
# The files of a tree

A page is a file below the root of the output, down the directory of the tree and then
one step for each name of its module (`Output.page`); the helper is one beside that
directory (`Output.helper`).  Names that are identifiers hold no point, so these files are
plain ones, and nothing that is known of plain files has to be asked of them.

If nothing on the disk stands in the way of the files (`Unobstructed`), the pages are
written up to the first that fails (`Identified.run_plan`), and if none fails, the helper
after them (`Identified.run_generation`).
-/

namespace ClientSdk

def Output.page (names : List Scalar) : Output where
  down := "functional" :: names.map Scalar.display
  name := indexFile

def Output.helper : Output where
  down := ["utils"]
  name := "NestiaSimulator.ts"

theorem Output.helper_ne_page (names : List Scalar) : helper ≠ page names := by
  intro h
  obtain ⟨hdown, -⟩ := (Output.mk.injEq _ _ _ _).mp h
  exact absurd (List.cons.inj hdown).1 (by decide)

theorem Output.chars_indexFile : '.' ∈ indexFile.toList ∧ '\x00' ∉ indexFile.toList := by
  decide

theorem Output.plain_helper : helper.Plain where
  isEntry := by simpa [helper] using ⟨⟨by decide, by decide, by decide⟩, by decide⟩
  no_point := by decide
  no_null := by decide
  ne_nil := List.cons_ne_nil _ _
  name_isEntry := ⟨⟨by decide, by decide, by decide⟩, by decide⟩
  point := by decide
  name_no_null := by decide

theorem Config.simulatorFile_eq (c : Config) : c.simulatorFile = Output.helper.file c.output := rfl

namespace ModuleTree

variable {t : ModuleTree} {c : Config} {here : WorkingDirectory} {m n : List Scalar × ModuleTree}

theorem directoryOf_functionalDir (c : Config) (names : List Scalar) :
    directoryOf c.functionalDir names = (Output.page names).directory c.output := by
  rw [directoryOf, ← List.foldl_map]
  rfl

theorem pagePath_functionalDir (c : Config) (names : List Scalar) :
    pagePath c.functionalDir names = (Output.page names).file c.output := by
  rw [pagePath, directoryOf_functionalDir]
  rfl

theorem Identified.plain (h : t.Identified) (hm : m ∈ t.walk) : (Output.page m.1).Plain := by
  have hdown : ∀ s ∈ (Output.page m.1).down, Text.isIdentifierLine s = true := by
    intro s hs
    rcases List.mem_cons.mp hs with rfl | hs
    · decide
    · obtain ⟨k, hk, rfl⟩ := List.mem_map.mp hs
      obtain ⟨name, rfl, hname⟩ := h m hm k hk
      exact hname
  exact {
    isEntry := fun s hs => Path.isEntry_of_identifier (hdown s hs)
    no_point := fun s hs => Path.not_mem_of_identifierLine (hdown s hs) (Or.inl rfl)
    no_null := fun s hs =>
      Path.not_mem_of_identifierLine (hdown s hs) (Or.inr (Or.inr rfl))
    ne_nil := List.cons_ne_nil _ _
    name_isEntry := isEntry_indexFile
    point := Output.chars_indexFile.1
    name_no_null := Output.chars_indexFile.2 }

/-- Modules with the same page have the same names. -/
theorem Identified.names_eq_of_page (h : t.Identified) (hm : m ∈ t.walk) (hn : n ∈ t.walk)
    (hsame : Output.page m.1 = Output.page n.1) : m.1 = n.1 := by
  obtain ⟨hdown, -⟩ := (Output.mk.injEq _ _ _ _).mp hsame
  exact h.names_eq hm hn (List.cons.inj hdown).2

end ModuleTree

/-! ## Disks with nothing in the way -/

/-- A disk on which no file stands where a directory is needed to write some files below a
root, and no directory where one of the files is.  The root has no null in it, no name and
no path is too long, and the way to the root does not lead over one of the files, which it
never does if the root is in normal form (`Output.Plain.not_needs_of_normal`). -/
structure Unobstructed (disk : Disk) (root : String) (outputs : List Output) : Prop where
  no_null : '\x00' ∉ root.toList
  name : ∀ o ∈ outputs, ∀ s ∈ (Path.written (o.file root)).steps,
    s.utf8ByteSize ≤ Disk.nameLimit
  path : ∀ o ∈ outputs, (Path.tidy (o.file root)).utf8ByteSize ≤ Disk.pathLimit
  clear : ∀ o ∈ outputs, disk.Clear (Path.written (o.directory root)).slashes
    (Path.written (o.directory root)).steps
  free : ∀ o ∈ outputs, disk.isDirectory (Path.read (o.file root)) = false
  apart : ∀ o ∈ outputs, ¬ Path.Needs (Path.written root).slashes (Path.written root).steps
    (Path.read (o.file root))

namespace Unobstructed

variable {disk : Disk} {root : String} {outputs : List Output} {o : Output}

/-- Nothing is in the way on an empty disk if the root is in normal form. -/
theorem of_empty (hplain : ∀ o ∈ outputs, o.Plain) (hroot : Path.written root = Path.read root)
    (hnull : '\x00' ∉ root.toList)
    (hshort : ∀ o ∈ outputs,
      (∀ s ∈ (Path.written (o.file root)).steps, s.utf8ByteSize ≤ Disk.nameLimit) ∧
        (Path.tidy (o.file root)).utf8ByteSize ≤ Disk.pathLimit) :
    Unobstructed {} root outputs where
  no_null := hnull
  name o ho := (hshort o ho).1
  path o ho := (hshort o ho).2
  clear _ _ _ _ := rfl
  free o ho := by
    rw [← Bool.not_eq_true, Disk.isDirectory_iff, (hplain o ho).read_file]
    rintro (hup | hmade | ⟨_, hfile, -⟩)
    · exact (hplain o ho).name_isEntry.ne_up (hup _ (by simp))
    · exact absurd hmade List.not_mem_nil
    · exact absurd hfile List.not_mem_nil
  apart o ho := (hplain o ho).not_needs_of_normal hroot

theorem sound_file (h : Unobstructed disk root outputs) (ho : o ∈ outputs) (hplain : o.Plain) :
    Disk.Sound (o.file root) where
  no_null := hplain.no_null_file h.no_null
  short := ⟨fun _ hs => Path.isStep_of_mem_written hs, h.name o ho, h.path o ho⟩

theorem sound_directory (h : Unobstructed disk root outputs) (ho : o ∈ outputs)
    (hplain : o.Plain) : Disk.Sound (o.directory root) where
  no_null := hplain.no_null_directory h.no_null
  short := by
    have hfile := (h.sound_file ho hplain).short
    rw [hplain.written_file] at hfile
    rw [hplain.written_directory]
    exact hfile.of_prefix (List.prefix_append_right_inj _ |>.mpr (List.prefix_append _ _))

theorem fitting (h : Unobstructed disk root outputs) (hplain : ∀ o ∈ outputs, o.Plain) :
    Fitting (fun d => ∃ o ∈ outputs, d = o.directory root)
      (fun path => ∃ o ∈ outputs, path = o.file root) where
  sound path := by
    rintro (⟨o, ho, rfl⟩ | ⟨o, ho, rfl⟩)
    · exact h.sound_directory ho (hplain o ho)
    · exact h.sound_file ho (hplain o ho)
  parent path := by
    rintro ⟨o, ho, rfl⟩
    exact ⟨o.directory root, o.name, (hplain o ho).name_isEntry, rfl,
      (hplain o ho).directory_file root, o, ho, rfl⟩
  apart path := by
    rintro ⟨o, ho, rfl⟩ d ⟨o', ho', rfl⟩
    exact (hplain o ho).not_needs (hplain o' ho') (h.apart o ho)
  beside path := by
    rintro ⟨o, ho, rfl⟩ path' ⟨o', ho', rfl⟩
    exact (hplain o ho).not_encloses (hplain o' ho') root

theorem ready (h : Unobstructed disk root outputs) :
    Ready disk (fun d => ∃ o ∈ outputs, d = o.directory root)
      (fun path => ∃ o ∈ outputs, path = o.file root) where
  clear d := by
    rintro ⟨o, ho, rfl⟩
    exact h.clear o ho
  free path := by
    rintro ⟨o, ho, rfl⟩
    exact h.free o ho

end Unobstructed

namespace ModuleTree

variable {t : ModuleTree} {c : Config} {here : WorkingDirectory} {disk : Disk}

/-- The pages of a tree, below the root of the output. -/
def pageOutputs (t : ModuleTree) : List Output :=
  t.walk.map fun m => .page m.1

/-- The files of a client, below the root of the output. -/
def outputs (t : ModuleTree) (c : Config) : List Output :=
  t.pageOutputs ++ if t.simulated c then [.helper] else []

theorem Identified.plain_of_mem (h : t.Identified) {o : Output} (ho : o ∈ t.outputs c) :
    o.Plain := by
  rcases List.mem_append.mp ho with ho | ho
  · obtain ⟨m, hm, rfl⟩ := List.mem_map.mp ho
    exact h.plain hm
  · split at ho
    · rw [List.mem_singleton.mp ho]
      exact Output.plain_helper
    · exact absurd ho List.not_mem_nil

/-- The directories that the plan of a tree makes are those of its pages. -/
theorem Identified.directories (h : t.Identified) {outputs : List Output}
    (hsub : t.pageOutputs ⊆ outputs) {m : List Scalar × ModuleTree} (hm : m ∈ t.walk) :
    (∃ o ∈ outputs, directoryOf c.functionalDir m.1 = o.directory c.output) ∧
      ∃ o ∈ outputs,
        Path.directory (pagePath c.functionalDir m.1) = o.directory c.output := by
  have hmem : Output.page m.1 ∈ outputs := hsub (List.mem_map_of_mem hm)
  refine ⟨⟨_, hmem, directoryOf_functionalDir c m.1⟩, _, hmem, ?_⟩
  rw [pagePath_functionalDir, (h.plain hm).directory_file c.output]

theorem exists_output_of_page {outputs : List Output} (hsub : t.pageOutputs ⊆ outputs)
    {file : String × String}
    (hfile : (file.1, .ok file.2) ∈ t.walk.map (pageOf c here [] c.functionalDir)) :
    ∃ o ∈ outputs, file.1 = o.file c.output := by
  obtain ⟨m, hm, hpage⟩ := List.mem_map.mp hfile
  refine ⟨_, hsub (List.mem_map_of_mem hm), ?_⟩
  rw [← pagePath_functionalDir, ← (Prod.mk.inj hpage).1]

/-- If nothing stands in the way of the pages, they are written up to the first that
fails. -/
theorem Identified.run_plan (h : t.Identified)
    (hdisk : Unobstructed disk c.output t.pageOutputs) :
    ((t.plan c here [] c.functionalDir).run disk).fault =
        (upToFault (t.walk.map (pageOf c here [] c.functionalDir))).2 ∧
      ((t.plan c here [] c.functionalDir).run disk).disk.files = Table.insertAll disk.files
        (byPlace (upToFault (t.walk.map (pageOf c here [] c.functionalDir))).1) := by
  have hplain : ∀ o ∈ t.pageOutputs, o.Plain := fun o ho =>
    h.plain_of_mem (c := c) (List.mem_append_left _ ho)
  have hsub : t.pageOutputs ⊆ t.pageOutputs := List.Subset.refl _
  have hfiles : ∀ file ∈ (upToFault (t.walk.map (pageOf c here [] c.functionalDir))).1,
      ∃ o ∈ t.pageOutputs, file.1 = o.file c.output := fun file hfile =>
    exists_output_of_page hsub (mem_of_upToFault hfile)
  exact run_of_ready (renders_plan c here h [] c.functionalDir fun m hm => h.directories hsub hm)
    (hdisk.fitting hplain) hfiles hdisk.ready

/-- If nothing stands in the way of the files of a client, they are written up to the first
page that fails, or all of them. -/
theorem Identified.run_generation (h : t.Identified)
    (hdisk : Unobstructed disk c.output (t.outputs c)) :
    ((t.generation c here).run disk).fault =
        (upToFault (t.walk.map (pageOf c here [] c.functionalDir) ++ t.helperPage c)).2 ∧
      ((t.generation c here).run disk).disk.files = Table.insertAll disk.files
        (byPlace (upToFault
          (t.walk.map (pageOf c here [] c.functionalDir) ++ t.helperPage c)).1) := by
  have hsub : t.pageOutputs ⊆ t.outputs c := List.subset_append_left _ _
  have hhelper : t.simulated c = true → Output.helper ∈ t.outputs c := by
    intro hneeds
    refine List.mem_append_right _ ?_
    rw [if_pos hneeds]
    exact List.mem_singleton.mpr rfl
  refine run_of_ready (renders_generation c here h (fun m hm => h.directories hsub hm)
    fun hneeds => ⟨_, hhelper hneeds, Output.plain_helper.directory_file c.output⟩)
    (hdisk.fitting fun o ho => h.plain_of_mem ho) (fun file hfile => ?_) hdisk.ready
  rcases List.mem_append.mp (mem_of_upToFault hfile) with hpage | hpage
  · exact exists_output_of_page hsub hpage
  · obtain ⟨hneeds, hpage⟩ := eq_of_mem_helperPage hpage
    exact ⟨_, hhelper hneeds, (Prod.mk.inj hpage).1⟩

theorem Identified.fault_of_pages (h : t.Identified)
    (hpages : ∀ m ∈ t.walk, ∃ text, (pageOf c here [] c.functionalDir m).2 = .ok text)
    (hdisk : Unobstructed disk c.output (t.outputs c)) :
    ((t.generation c here).run disk).fault = none := by
  rw [(h.run_generation hdisk).1]
  refine upToFault_of_ok fun page hpage => ?_
  rcases List.mem_append.mp hpage with hpage | hpage
  · obtain ⟨m, hm, rfl⟩ := List.mem_map.mp hpage
    exact hpages m hm
  · exact ⟨_, congrArg Prod.snd (eq_of_mem_helperPage hpage).2⟩

/-- Whether a client can be written to an empty disk, told without writing it. -/
def Writable (t : ModuleTree) (c : Config) (here : WorkingDirectory) : Prop :=
  (∀ m ∈ t.walk, m.2.Printable c here (directoryOf c.functionalDir m.1)) ∧
    Path.written c.output = Path.read c.output ∧ '\x00' ∉ c.output.toList ∧
    ∀ o ∈ t.outputs c,
      (∀ s ∈ (Path.written (o.file c.output)).steps, s.utf8ByteSize ≤ Disk.nameLimit) ∧
        (Path.tidy (o.file c.output)).utf8ByteSize ≤ Disk.pathLimit

instance : Decidable (t.Writable c here) :=
  inferInstanceAs (Decidable (_ ∧ _ ∧ _ ∧ _))

theorem Writable.fault (h : t.Writable c here) (hident : t.Identified) :
    ((t.generation c here).run {}).fault = none := by
  obtain ⟨hpages, hroot, hnull, hshort⟩ := h
  exact hident.fault_of_pages (fun m hm => (hpages m hm).exists_page _)
    (.of_empty (fun o ho => hident.plain_of_mem ho) hroot hnull hshort)

/-- A client whose tree can be written is generated without a failure where nothing is yet. -/
theorem Writable.fault_generate (h : t.Writable c here) {routes : List Route}
    (hnamed : ∀ r ∈ routes, r.Named) (ht : ofRoutes routes = .ok t) :
    (generate c here routes {}).fault = none := by
  obtain ⟨t', ht', -, -, hident⟩ := exists_tree hnamed
  obtain rfl := Except.ok.inj (ht.symm.trans ht')
  rw [generate, ht]
  exact h.fault hident

end ModuleTree

end ClientSdk
