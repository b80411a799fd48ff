import ClientSdk.Host.Usual
import ClientSdk.Proofs.Generation.Outputs
import ClientSdk.Proofs.ModuleTree.Helper
import ClientSdk.Summary

/-!
# The files of a client

A generation that does not fail writes one page for each module, in the order of the
walk, and then the helper if some route has parameters to check (`generate_written`).
The paths are those of the names of the modules; they differ, they lead down from the
directory of the tree, and none of them is that of a directory.

The helper is written if and only if some module needs it.  That module need not import
it: the import is lost where another file has its specifier (`helper_written_unused`).
-/

namespace ClientSdk

def Path.LeadsInto (directory path : String) : Prop :=
  ∃ rest, rest ≠ [] ∧ ".." ∉ rest ∧
    written path = ⟨(written directory).slashes, (written directory).steps ++ rest⟩

/-- The file of the helper, if the routes make it necessary. -/
def Config.helperFiles (c : Config) (routes : List Route) : List String :=
  if c.simulate && routes.any fun r => !r.parameters.isEmpty then [c.simulatorFile] else []

theorem Config.mem_helperFiles {c : Config} {routes : List Route} {path : String} :
    path ∈ c.helperFiles routes ↔ path = c.simulatorFile ∧
      (c.simulate && routes.any fun r => !r.parameters.isEmpty) = true := by
  unfold helperFiles
  split <;> simp_all

namespace ModuleTree

variable {t : ModuleTree} {c : Config} {here : WorkingDirectory} {m n : List Scalar × ModuleTree}

/-! ## Paths -/

/-- Pages are told apart by the names of their modules. -/
theorem Identified.pagePath_ne (h : t.Identified) (hm : m ∈ t.walk) (hn : n ∈ t.walk)
    (hne : m.1 ≠ n.1) (c : Config) :
    Path.tidy (pagePath c.functionalDir m.1) ≠ Path.tidy (pagePath c.functionalDir n.1) := by
  intro hsame
  rw [pagePath_functionalDir, pagePath_functionalDir] at hsame
  exact hne (h.names_eq_of_page hm hn ((h.plain hm).eq_of_tidy (h.plain hn) hsame))

theorem Identified.simulatorFile_ne (h : t.Identified) (hm : m ∈ t.walk) (c : Config) :
    Path.tidy c.simulatorFile ≠ Path.tidy (pagePath c.functionalDir m.1) := by
  intro hsame
  rw [Config.simulatorFile_eq, pagePath_functionalDir] at hsame
  exact Output.helper_ne_page m.1 (Output.plain_helper.eq_of_tidy (h.plain hm) hsame)

theorem Identified.pagePath_ne_directory (h : t.Identified) (hm : m ∈ t.walk)
    (hn : n ∈ t.walk) (c : Config) : Path.tidy (directoryOf c.functionalDir m.1) ≠
      Path.tidy (pagePath c.functionalDir n.1) := by
  rw [directoryOf_functionalDir, pagePath_functionalDir]
  exact (h.plain hm).tidy_directory_ne (h.plain hn) c.output

theorem Identified.simulatorFile_ne_directory (h : t.Identified) (hm : m ∈ t.walk)
    (c : Config) :
    Path.tidy (directoryOf c.functionalDir m.1) ≠ Path.tidy c.simulatorFile := by
  rw [directoryOf_functionalDir, Config.simulatorFile_eq]
  exact (h.plain hm).tidy_directory_ne Output.plain_helper c.output

theorem Identified.leadsInto (h : t.Identified) (hm : m ∈ t.walk) (directory : String) :
    Path.LeadsInto directory (Path.tidy (pagePath directory m.1)) := by
  have hdown : ∀ s ∈ m.1.map Scalar.display, Path.IsEntry s := by
    intro s hs
    obtain ⟨k, hk, rfl⟩ := List.mem_map.mp hs
    exact h.isEntry hm k hk
  refine ⟨m.1.map Scalar.display ++ [indexFile], by simp, fun hup => ?_, ?_⟩
  · rcases List.mem_append.mp hup with hup | hup
    · exact (hdown _ hup).ne_up rfl
    · exact absurd (List.mem_singleton.mp hup) (by decide)
  · rw [Path.written_tidy, pagePath, Path.written_join _ isEntry_indexFile.toIsStep,
      directoryOf, ← List.foldl_map, Output.written_foldl_join hdown, List.append_assoc]

/-! ## The helper -/

theorem Sorts.simulated_eq {routes : List Route} (h : t.Sorts routes) (hapart : t.Apart)
    (c : Config) :
    t.simulated c = (c.simulate && routes.any fun r => !r.parameters.isEmpty) := by
  rw [← (h.flatMap_routes_perm hapart).any_eq, List.any_flatMap]
  unfold simulated needsSimulator
  cases c.simulate <;> simp

theorem helperPage_eq {routes : List Route} (h : t.Sorts routes) (hapart : t.Apart)
    (c : Config) : (t.helperPage c).map Prod.fst = c.helperFiles routes := by
  rw [helperPage, h.simulated_eq hapart, Config.helperFiles]
  split <;> rfl

def writtenPaths (t : ModuleTree) (c : Config) (routes : List Route) : List String :=
  (t.walk.map (fun m => pagePath c.functionalDir m.1) ++ c.helperFiles routes).map Path.tidy

section WrittenPaths

variable {routes : List Route} {path : String}

theorem mem_writtenPaths :
    path ∈ t.writtenPaths c routes ↔
      (∃ m ∈ t.walk, Path.tidy (pagePath c.functionalDir m.1) = path) ∨
        ∃ file ∈ c.helperFiles routes, Path.tidy file = path := by
  simp [writtenPaths]

theorem Identified.nodup_writtenPaths (h : t.Identified)
    (hwalk : (t.walk.map fun m => keyPath m.1).Nodup) :
    (t.writtenPaths c routes).Nodup := by
  rw [writtenPaths, List.map_append, List.map_map]
  refine List.nodup_append.mpr ⟨?_, ?_, ?_⟩
  · refine List.pairwise_map.mpr ((List.pairwise_map.mp hwalk).imp_of_mem ?_)
    intro m n hm hn hne
    rw [Function.comp_apply, Function.comp_apply]
    exact h.pagePath_ne hm hn (fun heq => hne (congrArg keyPath heq)) c
  · unfold Config.helperFiles
    split
    · exact List.pairwise_singleton _ _
    · exact List.nodup_nil
  · intro path hpage path' hhelper heq
    obtain ⟨m, hm, rfl⟩ := List.mem_map.mp hpage
    obtain ⟨file, hfile, rfl⟩ := List.mem_map.mp hhelper
    rw [(Config.mem_helperFiles.mp hfile).1, Function.comp_apply] at heq
    exact h.simulatorFile_ne hm c heq.symm

theorem Identified.simulatorFile_mem_iff (h : t.Identified) (hsorts : t.Sorts routes)
    (hapart : t.Apart) :
    Path.tidy c.simulatorFile ∈ t.writtenPaths c routes ↔
      ∃ m ∈ t.walk, m.2.needsSimulator c = true := by
  have hneeds : (c.simulate && routes.any fun r => !r.parameters.isEmpty) = true ↔
      ∃ m ∈ t.walk, m.2.needsSimulator c = true := by
    rw [← hsorts.simulated_eq hapart, simulated, List.any_eq_true]
  rw [← hneeds, mem_writtenPaths]
  constructor
  · rintro (⟨m, hm, hsame⟩ | ⟨file, hfile, -⟩)
    · exact absurd hsame.symm (h.simulatorFile_ne hm c)
    · exact (Config.mem_helperFiles.mp hfile).2
  · exact fun hneeded => Or.inr ⟨_, Config.mem_helperFiles.mpr ⟨rfl, hneeded⟩, rfl⟩

theorem Identified.directory_not_mem (h : t.Identified) (hm : m ∈ t.walk) :
    Path.tidy (directoryOf c.functionalDir m.1) ∉ t.writtenPaths c routes := by
  rw [mem_writtenPaths]
  rintro (⟨n, hn, hsame⟩ | ⟨file, hfile, hsame⟩)
  · exact h.pagePath_ne_directory hm hn c hsame.symm
  · rw [(Config.mem_helperFiles.mp hfile).1] at hsame
    exact h.simulatorFile_ne_directory hm c hsame.symm

end WrittenPaths

/-! ## Generating -/

/-- A generation that does not fail has a text for every page, and writes the pages and
then the helper. -/
theorem Identified.written_of_fault_none {routes : List Route} {disk : Disk}
    (h : t.Identified) (hsorts : t.Sorts routes) (hapart : t.Apart)
    (hdone : ((t.generation c here).run disk).fault = none) :
    ((t.generation c here).run disk).written = t.writtenPaths c routes ∧
      ∀ m ∈ t.walk, ∃ text, (pageOf c here [] c.functionalDir m).2 = .ok text := by
  obtain ⟨_, -, -, hwritten, hall⟩ := (t.generation c here).files_run disk
  obtain ⟨hend, rfl⟩ := hall hdone
  rw [(h.renders c here).fault] at hend
  rw [(h.renders c here).files] at hwritten
  rcases upToFault_cases (t.walk.map (pageOf c here [] c.functionalDir) ++ t.helperPage c) with
    ⟨-, hpages⟩ | ⟨_, _, _, hfault, -⟩
  swap
  · exact nomatch hend.symm.trans hfault
  constructor
  · have hpaths := congrArg (List.map fun page => Path.tidy page.1) hpages
    rw [List.map_map] at hpaths
    rw [hwritten, writtenPaths, ← helperPage_eq hsorts hapart, List.map_append,
      List.map_map, List.map_map]
    refine hpaths.symm.trans ?_
    rw [List.map_append, List.map_map]
    rfl
  · intro m hm
    have hmem : pageOf c here [] c.functionalDir m ∈
        t.walk.map (pageOf c here [] c.functionalDir) ++ t.helperPage c :=
      List.mem_append_left _ (List.mem_map_of_mem hm)
    rw [hpages] at hmem
    obtain ⟨file, -, hfile⟩ := List.mem_map.mp hmem
    exact ⟨file.2, by rw [← hfile]⟩

end ModuleTree

open ModuleTree

/-- What is written when the routes of a document are generated without a failure. -/
theorem generate_written {host : Host} {here : WorkingDirectory} {document : Value}
    {source : String} {routes : List Route}
    (haccept : RouteDocument.routes host document source = .ok routes) (c : Config)
    (disk : Disk) (hdone : (generate c here routes disk).fault = none) :
    ∃ t summary, ofRoutes routes = .ok t ∧ Summary.ofRoutes routes = .ok summary ∧
      (generate c here routes disk).written =
        (t.walk.map (fun m => pagePath c.functionalDir m.1) ++
          c.helperFiles routes).map Path.tidy ∧
      (generate c here routes disk).written.Nodup ∧
      (∀ path ∈ (generate c here routes disk).written, path ≠ Path.tidy c.simulatorFile →
        Path.LeadsInto c.functionalDir path) ∧
      (∀ m ∈ t.walk, Path.tidy (directoryOf c.functionalDir m.1) ∉
        (generate c here routes disk).written) ∧
      (generate c here routes disk).written.length =
        summary.modules + (c.helperFiles routes).length ∧
      (Path.tidy c.simulatorFile ∈ (generate c here routes disk).written ↔
        ∃ m ∈ t.walk, m.2.needsSimulator c = true) ∧
      ∀ m ∈ t.walk, ∃ text, (pageOf c here [] c.functionalDir m).2 = .ok text ∧
        (m.2.routes = [] → text = m.2.pageText (moduleName rootName m.1) "" []) ∧
        (m.2.routes ≠ [] → ∃ libraries files stubs,
          (m.2.ledgerAfter c here (directoryOf c.functionalDir m.1)).statements =
            .ok (libraries, files) ∧
          text = m.2.pageText (moduleName rootName m.1)
            (Ledger.blockText libraries files) stubs ∧
          (ImportsHelper c here (directoryOf c.functionalDir m.1) files ↔
            m.2.needsSimulator c = true ∧
              ¬ m.2.HidesHelper c here (directoryOf c.functionalDir m.1))) := by
  obtain ⟨t, ht, hsorts, hapart, hident⟩ :=
    exists_tree (RouteDocument.named_of_routes haccept)
  have hgenerate : generate c here routes disk = (t.generation c here).run disk := by
    rw [generate, ht]
  rw [hgenerate] at hdone ⊢
  obtain ⟨hpaths, hpages⟩ := hident.written_of_fault_none hsorts hapart hdone
  have hsummary : Summary.ofRoutes routes = .ok
      { routes := routes.length, modules := t.walk.length,
        methods := Summary.methodCounts routes } := by
    rw [Summary.ofRoutes, ht]
    rfl
  rw [hpaths]
  refine ⟨t, _, ht, hsummary, rfl, hident.nodup_writtenPaths (hsorts.nodup_walk hapart),
    ?_, fun m hm => hident.directory_not_mem hm, ?_,
    hident.simulatorFile_mem_iff hsorts hapart, ?_⟩
  · intro path hpath hne
    rcases mem_writtenPaths.mp hpath with ⟨m, hm, rfl⟩ | ⟨file, hfile, rfl⟩
    · exact hident.leadsInto hm _
    · exact absurd (congrArg Path.tidy (Config.mem_helperFiles.mp hfile).1) hne
  · rw [writtenPaths, List.length_map, List.length_append, List.length_map]
  · intro m hm
    obtain ⟨text, htext⟩ := hpages m hm
    refine ⟨text, htext, fun hnone => ?_, fun hsome => ?_⟩
    · have hpage : (pageOf c here [] c.functionalDir m).2 =
          .ok (m.2.pageText (moduleName rootName m.1) "" []) := page_of_no_routes hnone
      exact Except.ok.inj (htext.symm.trans hpage)
    · obtain ⟨libraries, files, stubs, -, hstatements, hpage, hhelper⟩ :=
        page_imports_helper (moduleName rootName m.1) hsome htext
      exact ⟨libraries, files, stubs, hstatements, hpage, hhelper⟩

/-- Two routes, one of them in a module of its own and with a parameter to check. -/
theorem generate_written_of_two_routes :
    let document : Value := .map [("version", .text "1"), ("routes", .list
      [.map [("name", .text "find"), ("method", .text "GET"), ("path", .text "/pages/find"),
        ("accessors", .list [.text "pages", .text "find"]),
        ("parameters", .list [.map [("name", .text "q"), ("category", .text "query"),
          ("type", .map [("name", .text "string")])]]),
        ("output", .map [("name", .text "string")])],
       .map [("name", .text "ping"), ("method", .text "GET"), ("path", .text "/ping"),
        ("accessors", .list [.text "ping"]),
        ("output", .map [("name", .text "void")])]])]
    let c : Config := { output := "src/api", simulate := true }
    ∃ routes, RouteDocument.routes (.usual .root) document "routes.json" = .ok routes ∧
      (generate c .root routes {}).fault = none ∧
      (generate c .root routes {}).written = ["src/api/functional/pages/index.ts",
        "src/api/functional/index.ts", "src/api/utils/NestiaSimulator.ts"] := by
  intro document c
  have hall : (RouteDocument.routes (.usual .root) document
      "routes.json").toOption.any (fun routes =>
      (ofRoutes routes).toOption.any fun t => decide (t.Writable c .root ∧
        (t.walk.map (fun m => pagePath c.functionalDir m.1) ++
          c.helperFiles routes).map Path.tidy = ["src/api/functional/pages/index.ts",
            "src/api/functional/index.ts", "src/api/utils/NestiaSimulator.ts"])) = true := by
    decide +kernel
  obtain ⟨routes, haccept, hall⟩ := Except.exists_of_any hall
  obtain ⟨t, ht, hall⟩ := Except.exists_of_any hall
  obtain ⟨hwritable, hpaths⟩ := of_decide_eq_true hall
  obtain ⟨t', ht', -, -, hident⟩ := exists_tree (RouteDocument.named_of_routes haccept)
  obtain rfl := Except.ok.inj (ht.symm.trans ht')
  have hdone : (generate c .root routes {}).fault = none := by
    rw [generate, ht]
    exact hwritable.fault hident
  obtain ⟨t', _, ht', -, hwritten, -⟩ := generate_written haccept c {} hdone
  obtain rfl := Except.ok.inj (ht.symm.trans ht')
  exact ⟨routes, haccept, hdone, hwritten.trans hpaths⟩

/-- A route whose document lists another file with the specifier of the helper: the helper
is written, but no page imports it. -/
theorem helper_written_unused :
    let document : Value := .map [("version", .text "1"), ("routes", .list
      [.map [("name", .text "x"), ("method", .text "GET"), ("path", .text "/x"),
        ("accessors", .list [.text "x"]),
        ("parameters", .list [.map [("name", .text "p"), ("category", .text "query"),
          ("type", .map [("name", .text "string")])]]),
        ("output", .map [("name", .text "void")]),
        ("imports", .list [.list [.text "src/api/utils/NestiaSimulator/.ts",
          .list [.text "Foo"]]])]])]
    let c : Config := { output := "src/api", simulate := true }
    ∃ routes t, RouteDocument.routes (.usual .root) document "routes.json" = .ok routes ∧
      ofRoutes routes = .ok t ∧ (generate c .root routes {}).fault = none ∧
      Path.tidy c.simulatorFile ∈ (generate c .root routes {}).written ∧
      ∀ m ∈ t.walk, ∃ text libraries files stubs,
        (pageOf c .root [] c.functionalDir m).2 = .ok text ∧
        text = m.2.pageText (moduleName rootName m.1)
          (Ledger.blockText libraries files) stubs ∧
        ¬ ImportsHelper c .root (directoryOf c.functionalDir m.1) files := by
  intro document c
  let other : Registration := .fromFile "src/api/utils/NestiaSimulator/.ts" "Foo"
  have hall : (RouteDocument.routes (.usual .root) document
      "routes.json").toOption.any (fun routes =>
      (ofRoutes routes).toOption.any fun t => decide (t.Writable c .root ∧
        t.simulated c = true ∧ ∀ m ∈ t.walk, m.2.routes.isEmpty = false ∧
          other ∈ m.2.pageWants c .root (directoryOf c.functionalDir m.1) ∧
          Path.specifier .root (pageFile (directoryOf c.functionalDir m.1))
              "src/api/utils/NestiaSimulator/" =
            Path.specifier .root (pageFile (directoryOf c.functionalDir m.1))
              (Path.target c.simulatorFile))) = true := by
    decide +kernel
  obtain ⟨routes, haccept, hall⟩ := Except.exists_of_any hall
  obtain ⟨t, ht, hall⟩ := Except.exists_of_any hall
  obtain ⟨hwritable, hsimulated, hmodules⟩ := of_decide_eq_true hall
  obtain ⟨t', ht', hsorts, hapart, hident⟩ :=
    exists_tree (RouteDocument.named_of_routes haccept)
  obtain rfl := Except.ok.inj (ht.symm.trans ht')
  have hgenerate : generate c .root routes {} = (t.generation c .root).run {} := by
    rw [generate, ht]
  have hdone := hwritable.fault hident
  obtain ⟨hwritten, hpages⟩ := hident.written_of_fault_none hsorts hapart hdone
  refine ⟨routes, t, haccept, ht, hgenerate ▸ hdone, ?_, fun m hm => ?_⟩
  · rw [hgenerate, hwritten, hident.simulatorFile_mem_iff hsorts hapart]
    exact List.any_eq_true.mp hsimulated
  · obtain ⟨text, htext⟩ := hpages m hm
    obtain ⟨hroutes, hwanted, hsame⟩ := hmodules m hm
    have hne : m.2.routes ≠ [] := fun hnil => by
      rw [hnil] at hroutes
      exact absurd hroutes (by decide)
    obtain ⟨libraries, files, stubs, -, -, hpage, hhelper⟩ :=
      page_imports_helper (moduleName rootName m.1) hne htext
    refine ⟨text, libraries, files, stubs, htext, hpage, fun himports => ?_⟩
    have hshown := (hhelper.mp himports).2
    exact hshown ⟨other, hwanted, _, rfl, by decide +kernel, hsame⟩

end ClientSdk
