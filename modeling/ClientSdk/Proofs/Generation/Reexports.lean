import ClientSdk.Proofs.Generation.Exports
import ClientSdk.Proofs.Text.Occurs

/-!
# What re-exports stand for

A page passes a module below it on by a location beside its own: `./` and the name of the
module.  Such a location stands for a script file of that name if there is one, and else for
the index file of a directory of that name.  The only script files of a client that stand in
the directory of a module are index files.  So a re-export stands for the page of the module
that it names, unless that name is `index`: then it stands for the very page that it is
written in (`generate_reexports`).
-/

namespace ClientSdk

/-- The file that a location beside a directory stands for, of the given files. -/
def Path.importedFile (files : List String) (directory location : String) : String :=
  if tidy (join directory location ++ ".ts") ∈ files then
    tidy (join directory location ++ ".ts")
  else tidy (join (join directory location) indexFile)

/-- The location under which a module below is passed on. -/
def ModuleTree.childLocation (name : String) : String :=
  "./" ++ name

namespace ModuleTree

variable {t : ModuleTree} {c : Config} {here : WorkingDirectory} {routes : List Route}
  {m : List Scalar × ModuleTree}
  {name : String}

theorem exportLine_eq (name : String) :
    exportLine name = "export * as " ++ name ++ " from \"" ++ childLocation name ++ "\";" := by
  have hquote : " from \"./" = " from \"" ++ "./" := rfl
  rw [exportLine, childLocation, hquote]
  simp only [String.append_assoc]

/-! ## Locations beside a page -/

theorem childLocation_relative (name : String) :
    (childLocation name).toList.head? ≠ some '/' ∧ childLocation name ≠ "" := by
  have hchars : (childLocation name).toList = '.' :: '/' :: name.toList := by
    rw [childLocation, String.toList_append]
    rfl
  refine ⟨fun hslash => ?_, fun hnil => ?_⟩
  · rw [hchars] at hslash
    exact absurd (Option.some.inj hslash) (by decide)
  · rw [hnil] at hchars
    exact absurd hchars (by simp)

theorem written_join_childLocation (directory : String) (h : Path.IsStep name) :
    Path.written (Path.join directory (childLocation name)) =
      ⟨(Path.written directory).slashes, (Path.written directory).steps ++ [name]⟩ := by
  have hlocation : childLocation name = "." ++ "/" ++ name := rfl
  have hplace : (Path.written ".").steps = [] := by decide
  obtain ⟨hhead, hne⟩ := childLocation_relative name
  rw [Path.written_join_of_relative directory hhead hne, hlocation,
    Path.steps_written_append, hplace, Path.steps_written_step h, List.nil_append]

/-- The script file beside a page that has the name of a module below it. -/
def besidePage (names : List Scalar) (name : String) : Output :=
  { Output.page names with name := name ++ ".ts" }

theorem plain_besidePage (h : (Output.page m.1).Plain)
    (hname : Text.isIdentifierLine name = true) : (besidePage m.1 name).Plain := by
  have hpoint : '.' ∈ (name ++ ".ts").toList := by
    rw [String.toList_append]
    exact List.mem_append_right _ (by decide)
  have hslash : '/' ∉ (name ++ ".ts").toList := by
    rw [String.toList_append, List.mem_append, not_or]
    exact ⟨Path.not_mem_of_identifierLine hname (Or.inr (Or.inl rfl)), by decide⟩
  have hnull : '\x00' ∉ (name ++ ".ts").toList := by
    rw [String.toList_append, List.mem_append, not_or]
    exact ⟨Path.not_mem_of_identifierLine hname (Or.inr (Or.inr rfl)), by decide⟩
  have hletter : ∀ s ∈ ["", ".", ".."], name ++ ".ts" ≠ s := by
    intro s hs heq
    have ht : 't' ∈ (name ++ ".ts").toList := by
      rw [String.toList_append]
      exact List.mem_append_right _ (by decide)
    rw [heq] at ht
    simp only [List.mem_cons, List.not_mem_nil, or_false] at hs
    rcases hs with rfl | rfl | rfl <;> exact absurd ht (by decide)
  exact { h with
    name_isEntry := {
      ne_empty := hletter _ (by simp)
      ne_dot := hletter _ (by simp)
      no_slash := hslash
      ne_up := hletter _ (by simp) }
    point := hpoint
    name_no_null := hnull }

theorem tidy_join_besidePage (h : (Output.page m.1).Plain)
    (hname : Text.isIdentifierLine name = true) (c : Config) :
    Path.tidy (Path.join (directoryOf c.functionalDir m.1) (childLocation name) ++ ".ts") =
      Path.tidy ((besidePage m.1 name).file c.output) := by
  have hbeside := plain_besidePage h hname
  obtain ⟨hhead, hne⟩ := childLocation_relative name
  have hlocation : childLocation name ++ ".ts" = childLocation (name ++ ".ts") :=
    String.append_assoc
  have hwritten := written_join_childLocation (directoryOf c.functionalDir m.1)
    hbeside.name_isEntry.toIsStep
  rw [← Path.join_append hhead hne, hlocation, Path.tidy, Path.tidy]
  congr 1
  refine hwritten.trans ?_
  rw [hbeside.written_file, directoryOf_functionalDir, h.written_directory, List.append_assoc]
  rfl

/-- The index file of the directory that a location beside a page leads to is the page of
the module that it names. -/
theorem tidy_join_childPage (h : Path.IsStep name) (c : Config) (names : List Scalar) :
    Path.tidy (Path.join (Path.join (directoryOf c.functionalDir names) (childLocation name))
        indexFile) =
      Path.tidy (pagePath c.functionalDir (names ++ [.text name])) := by
  rw [Path.tidy, Path.tidy, Path.written_join _ isEntry_indexFile.toIsStep,
    written_join_childLocation _ h, pagePath, Path.written_join _ isEntry_indexFile.toIsStep,
    directoryOf, directoryOf, List.foldl_append, List.foldl_cons, List.foldl_nil]
  congr 1
  rw [show (Scalar.text name).display = name from rfl, Path.written_join _ h]

theorem Identified.besidePage_mem_iff (h : t.Identified) (hm : m ∈ t.walk)
    (hname : Text.isIdentifierLine name = true) :
    Path.tidy ((besidePage m.1 name).file c.output) ∈ t.writtenPaths c routes ↔
      name = "index" := by
  have hbeside := plain_besidePage (h.plain hm) hname
  rw [mem_writtenPaths]
  constructor
  · rintro (⟨n, hn, hsame⟩ | ⟨file, hfile, hsame⟩)
    · rw [pagePath_functionalDir] at hsame
      have heq := (h.plain hn).eq_of_tidy hbeside hsame
      have hfile : "index" ++ ".ts" = name ++ ".ts" := congrArg Output.name heq
      exact (String.append_left_inj _).mp hfile.symm
    · rw [(Config.mem_helperFiles.mp hfile).1, Config.simulatorFile_eq] at hsame
      have heq := Output.plain_helper.eq_of_tidy hbeside hsame
      have hdown := congrArg Output.down heq
      exact absurd (List.cons.inj hdown).1 (by decide)
  · rintro rfl
    refine Or.inl ⟨m, hm, ?_⟩
    rw [pagePath_functionalDir]
    rfl

/-- What the location of a module below a page stands for: its page, or if it has the name
of index files, the page that it is below. -/
theorem Identified.importedFile_eq (h : t.Identified) (hm : m ∈ t.walk)
    (hname : Text.isIdentifierLine name = true) :
    Path.importedFile (t.writtenPaths c routes) (directoryOf c.functionalDir m.1)
        (childLocation name) =
      if name = "index" then Path.tidy (pagePath c.functionalDir m.1)
      else Path.tidy (pagePath c.functionalDir (m.1 ++ [.text name])) := by
  have hstep : Path.IsStep name := (Path.isEntry_of_identifier hname).toIsStep
  unfold Path.importedFile
  rw [tidy_join_besidePage (h.plain hm) hname, tidy_join_childPage hstep]
  by_cases hindex : name = "index"
  · rw [if_pos ((h.besidePage_mem_iff hm hname).mpr hindex), if_pos hindex, hindex,
      pagePath_functionalDir]
    rfl
  · rw [if_neg fun hmem => hindex ((h.besidePage_mem_iff hm hname).mp hmem), if_neg hindex]

/-! ## The lines of a page -/

theorem occurs_exportLine {line title imports : String} {stubs : List String}
    (h : line ∈ t.exportLines) : Text.Occurs line (t.pageText title imports stubs) := by
  unfold pageText
  dsimp only
  refine (Text.occurs_intercalate (List.mem_append_right _ ?_)).append_right _
  split
  · exact h
  · simp [h]

end ModuleTree

open ModuleTree

/-- What the re-exports of a client stand for, if it is generated without a failure: each of
them for the page of the module that it names, unless that module is named `index`. -/
theorem generate_reexports {host : Host} {here : WorkingDirectory} {document : Value}
    {source : String} {routes : List Route}
    (haccept : RouteDocument.routes host document source = .ok routes) (c : Config)
    (disk : Disk) (hdone : (generate c here routes disk).fault = none) :
    ∃ t, ofRoutes routes = .ok t ∧
      ∀ m ∈ t.walk, ∀ key child, (key, child) ∈ m.2.children →
        (m.1 ++ [key], child) ∈ t.walk ∧
        Path.tidy (pagePath c.functionalDir m.1) ∈ (generate c here routes disk).written ∧
        Path.tidy (pagePath c.functionalDir (m.1 ++ [key])) ∈
          (generate c here routes disk).written ∧
        Path.tidy (pagePath c.functionalDir (m.1 ++ [key])) ≠
          Path.tidy (pagePath c.functionalDir m.1) ∧
        (∃ text, (pageOf c here [] c.functionalDir m).2 = .ok text ∧
          Text.Occurs ("export * as " ++ key.display ++ " from \"" ++
            childLocation key.display ++ "\";") text) ∧
        Path.importedFile (generate c here routes disk).written (directoryOf c.functionalDir m.1)
            (childLocation key.display) =
          if key.display = "index" then Path.tidy (pagePath c.functionalDir m.1)
          else Path.tidy (pagePath c.functionalDir (m.1 ++ [key])) := by
  obtain ⟨t, ht, hsorts, hapart, hident⟩ :=
    exists_tree (RouteDocument.named_of_routes haccept)
  have hgenerate : generate c here routes disk = (t.generation c here).run disk := by
    rw [generate, ht]
  rw [hgenerate] at hdone ⊢
  obtain ⟨hwritten, hpages⟩ := hident.written_of_fault_none hsorts hapart hdone
  rw [hwritten]
  refine ⟨t, ht, fun m hm key child hchild => ?_⟩
  have hbelow := mem_walk_of_child hm hchild
  obtain ⟨name, rfl, hname⟩ := hident _ hbelow key (by simp)
  refine ⟨hbelow, mem_writtenPaths.mpr (Or.inl ⟨m, hm, rfl⟩),
    mem_writtenPaths.mpr (Or.inl ⟨_, hbelow, rfl⟩), ?_, ?_, hident.importedFile_eq hm hname⟩
  · exact hident.pagePath_ne hbelow hm (by simp) c
  · obtain ⟨text, htext⟩ := hpages m hm
    obtain ⟨imports, stubs, rfl, -⟩ := declares_of_page htext
    refine ⟨_, htext, occurs_exportLine ?_⟩
    rw [← exportLine_eq, exportLines_eq]
    exact List.mem_map_of_mem (List.mem_map_of_mem hchild)

/-- A module below the root that is named otherwise. -/
theorem generate_reexports_of_pages :
    let document : Value := .map [("version", .text "1"), ("routes", .list
      [.map [("name", .text "find"), ("method", .text "GET"), ("path", .text "/pages"),
        ("accessors", .list [.text "pages", .text "find"]),
        ("output", .map [("name", .text "void")])]])]
    let c : Config := { output := "src/api" }
    ∃ routes, RouteDocument.routes (.usual .root) document "routes.json" = .ok routes ∧
      (generate c .root routes {}).fault = none ∧
      Path.importedFile (generate c .root routes {}).written "src/api/functional" "./pages" =
        "src/api/functional/pages/index.ts" := by
  intro document c
  have hall : (RouteDocument.routes (.usual .root) document
      "routes.json").toOption.any (fun routes =>
      (ofRoutes routes).toOption.any fun t =>
        decide (t.Writable c .root ∧ t.children.map Prod.fst = [.text "pages"])) = true := by
    decide +kernel
  obtain ⟨routes, haccept, hall⟩ := Except.exists_of_any hall
  obtain ⟨t, ht, hall⟩ := Except.exists_of_any hall
  obtain ⟨hwritable, hkeys⟩ := of_decide_eq_true hall
  have hdone : (generate c .root routes {}).fault = none :=
    hwritable.fault_generate (RouteDocument.named_of_routes haccept) ht
  obtain ⟨t', ht', hreexports⟩ := generate_reexports haccept c {} hdone
  obtain rfl := Except.ok.inj (ht.symm.trans ht')
  have hkey : Scalar.text "pages" ∈ t.children.map Prod.fst := by
    rw [hkeys]
    exact List.mem_cons_self
  obtain ⟨⟨key, child⟩, hchild, rfl⟩ := List.mem_map.mp hkey
  obtain ⟨-, -, -, -, -, hfile⟩ := hreexports _ (root_mem_walk t) _ child hchild
  have hdirectory : directoryOf c.functionalDir [] = "src/api/functional" := by decide +kernel
  have hlocation : childLocation (Scalar.text "pages").display = "./pages" := by decide +kernel
  have hpage : Path.tidy (pagePath c.functionalDir ([] ++ [.text "pages"])) =
      "src/api/functional/pages/index.ts" := by decide +kernel
  rw [if_neg (by decide), hpage, hdirectory, hlocation] at hfile
  exact ⟨routes, haccept, hdone, hfile⟩

/-- A module named `index`: the page of the root passes itself on in its place. -/
theorem reexport_of_index_is_own :
    let document : Value := .map [("version", .text "1"), ("routes", .list
      [.map [("name", .text "x"), ("method", .text "GET"), ("path", .text "/index/x"),
        ("accessors", .list [.text "index", .text "x"]),
        ("output", .map [("name", .text "void")])]])]
    let c : Config := { output := "src/api" }
    ∃ routes t text, RouteDocument.routes (.usual .root) document "routes.json" = .ok routes ∧
      ofRoutes routes = .ok t ∧ (generate c .root routes {}).fault = none ∧
      (generate c .root routes {}).written =
        ["src/api/functional/index/index.ts", "src/api/functional/index.ts"] ∧
      (pageOf c .root [] c.functionalDir ([], t)).2 = .ok text ∧
      Text.Occurs "export * as index from \"./index\";" text ∧
      Path.importedFile (generate c .root routes {}).written "src/api/functional" "./index" =
        "src/api/functional/index.ts" := by
  intro document c
  have hall : (RouteDocument.routes (.usual .root) document
      "routes.json").toOption.any (fun routes =>
      (ofRoutes routes).toOption.any fun t =>
        decide (t.Writable c .root ∧ "export * as index from \"./index\";" ∈ t.exportLines ∧
          t.writtenPaths c routes =
            ["src/api/functional/index/index.ts", "src/api/functional/index.ts"])) = true := by
    decide +kernel
  obtain ⟨routes, haccept, hall⟩ := Except.exists_of_any hall
  obtain ⟨t, ht, hall⟩ := Except.exists_of_any hall
  obtain ⟨hwritable, hline, hpaths⟩ := of_decide_eq_true hall
  obtain ⟨t', ht', hsorts, hapart, hident⟩ :=
    exists_tree (RouteDocument.named_of_routes haccept)
  obtain rfl := Except.ok.inj (ht.symm.trans ht')
  have hgenerate : generate c .root routes {} = (t.generation c .root).run {} := by
    rw [generate, ht]
  have hdone := hwritable.fault hident
  obtain ⟨hwritten, hpages⟩ := hident.written_of_fault_none hsorts hapart hdone
  obtain ⟨text, htext⟩ := hpages _ (root_mem_walk t)
  obtain ⟨imports, stubs, rfl, -⟩ := declares_of_page htext
  have hindex : Path.importedFile (t.writtenPaths c routes) "src/api/functional" "./index" =
      "src/api/functional/index.ts" := by
    rw [hpaths]
    decide +kernel
  refine ⟨routes, t, _, haccept, ht, hgenerate ▸ hdone, ?_, htext,
    occurs_exportLine hline, ?_⟩
  · rw [hgenerate, hwritten, hpaths]
  · rw [hgenerate, hwritten, hindex]

end ClientSdk
