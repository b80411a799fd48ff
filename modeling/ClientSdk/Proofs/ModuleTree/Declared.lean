import ClientSdk.Proofs.Ledger.Serving
import ClientSdk.Proofs.ModuleTree.Helper
import ClientSdk.Proofs.Stub.Texts
import ClientSdk.Proofs.Text.Identifier

/-!
# Declared types in a page

A type whose structure is not known, or not to be written out, stands in a stub by its
declared name.  What the name begins with has to be imported if the document says where from.
Unless types are written out wherever they can be, a page registers all that the document
lists for its routes, whatever they do with it, so each listed name is imported from its file
(`page_imports_listed`), those that a stub writes among them (`page_imports_declared`).  What
comes from a file is lost where another file has its specifier.

Where types are written out, nothing is registered for the document's list, and a type
without a known structure is still written by its name (`declared_lost_of_clone`).
-/

namespace ClientSdk

variable {c : Config} {r : Route}

theorem StubOf.occurs_declared {wants : List Registration} {stub : String} {f : StubFunction}
    {n : StubNamespace} (h : StubOf c r wants stub f n) {type : NamedType} {inline : Bool}
    (hwrites : r.WritesType c type inline) (hname : type.ByName c inline)
    (hbreak : '\n' ∉ type.name.display.toList) : Text.Occurs type.name.display stub := by
  obtain ⟨more, declared, htext, -, hfound⟩ := h.exists_type hwrites
  cases (NamedType.text_of_byName hname).symm.trans htext
  exact hfound.occurs hbreak (.refl _)

namespace ModuleTree

variable {t : ModuleTree} {here : WorkingDirectory} {directory title text : String}

/-- A page with stubs that is written: its imports, and the stub of each route with its parts,
of which all that is wanted is wanted for the page. -/
theorem exists_stubs_of_page (hroutes : t.routes ≠ [])
    (hpage : (t.page c here title directory).1 = .ok text) :
    ∃ libraries files stubs, (t.stubs c).result = .ok stubs ∧
      (t.ledgerAfter c here directory).statements = .ok (libraries, files) ∧
      text = t.pageText title (Ledger.blockText libraries files) stubs ∧
      ∀ r ∈ t.routes, ∃ wants, ∃ stub ∈ stubs, r.stubWithImports c = ⟨wants, .ok stub⟩ ∧
        wants ⊆ (t.stubs c).wants ∧ ∃ f n, StubOf c r wants stub f n := by
  obtain ⟨libraries, files, stubs, hstubs, hwritten, htext, -⟩ :=
    page_imports_helper title hroutes hpage
  refine ⟨libraries, files, stubs, hstubs, hwritten, htext, fun r hr => ?_⟩
  obtain ⟨stub, hmem, wants, hstub, hsub⟩ := (forall₂_of_stubs t c hstubs).exists_of_mem hr
  exact ⟨wants, stub, hmem, hstub, hsub, (Route.exists_stubOf_withImports hstub).1⟩

/-! ## What the document lists -/

/-- Whether a page wants something from another file that has the specifier of a file. -/
def HidesFile (t : ModuleTree) (c : Config) (here : WorkingDirectory)
    (directory target : String) : Prop :=
  ∃ r ∈ t.pageWants c here directory, ∃ target', r.origin = .file target' ∧ target' ≠ target ∧
    Path.specifier here (pageFile directory) target' =
      Path.specifier here (pageFile directory) target

theorem exists_serving_of_not_hidden (hpage : (t.page c here title directory).1 = .ok text)
    {libraries files : List ImportStatement}
    (hwritten : (t.ledgerAfter c here directory).statements = .ok (libraries, files))
    {asked : Registration} (hasked : asked ∈ t.pageWants c here directory) {name target : String}
    (hname : asked.name = .text name) (horigin : asked.origin = .file target)
    (hshown : ¬ t.HidesFile c here directory target) :
    ∃ s ∈ files, s.Serves here (pageFile directory) asked := by
  have hserved := (records_of_page hpage).exists_serving_file hwritten hasked hname horigin
  rw [here_ledgerAfter, file_ledgerAfter] at hserved
  refine hserved fun r' hr' target' horigin' hsame => ?_
  by_contra hne
  exact hshown ⟨r', hr', target', horigin', hne, hsame⟩

/-- Unless types are written out, a page imports all names that the document lists for its
routes, each from its file if that is not hidden. -/
theorem page_imports_listed (hclone : c.clone = false)
    (hpage : (t.page c here title directory).1 = .ok text) (hr : r ∈ t.routes) :
    ∃ libraries files stubs,
      (t.ledgerAfter c here directory).statements = .ok (libraries, files) ∧
      text = t.pageText title (Ledger.blockText libraries files) stubs ∧
      (∃ wants, ∃ stub ∈ stubs, r.stubWithImports c = ⟨wants, .ok stub⟩ ∧
        ∃ f n, StubOf c r wants stub f n) ∧
      ∀ file names, (file, names) ∈ r.imports → ∀ name, .text name ∈ names →
        ¬ t.HidesFile c here directory (Path.target file) → ∃ s ∈ files,
          s.Serves here (pageFile directory) { name := .text name, origin := .ofPath file } := by
  obtain ⟨libraries, files, stubs, -, hwritten, htext, hstubs⟩ :=
    exists_stubs_of_page (List.ne_nil_of_mem hr) hpage
  obtain ⟨wants, stub, hmem, hstub, hsub, hparts⟩ := hstubs r hr
  refine ⟨libraries, files, stubs, hwritten, htext, ⟨wants, stub, hmem, hstub, hparts⟩, ?_⟩
  intro file names hfile name hname hshown
  have hlisted := (Route.exists_stubOf_withImports hstub).2 hclone file names hfile _ hname
    (.text name) rfl
  exact exists_serving_of_not_hidden hpage hwritten
    (mem_pageWants t c here directory (hsub hlisted) rfl) rfl rfl hshown

/-- Unless types are written out, a type that stands in a stub by its declared name has what
that name begins with imported, from every file that the document lists for it and that is
not hidden. -/
theorem page_imports_declared (hclone : c.clone = false)
    (hpage : (t.page c here title directory).1 = .ok text) (hr : r ∈ t.routes) :
    ∃ libraries files stubs stub,
      (t.ledgerAfter c here directory).statements = .ok (libraries, files) ∧
      text = t.pageText title (Ledger.blockText libraries files) stubs ∧
      stub ∈ stubs ∧ (r.stubWithImports c).result = .ok stub ∧
      ∀ type inline, r.WritesType c type inline → type.ByName c inline →
        ('\n' ∉ type.name.display.toList → Text.Occurs type.name.display stub) ∧
        ∀ root file names, typeRoot type.name.display = .ok root →
          (file, names) ∈ r.imports → .text root ∈ names →
          ¬ t.HidesFile c here directory (Path.target file) →
          ∃ s ∈ files, s.source = Path.specifier here (pageFile directory) (Path.target file) ∧
            root ∈ s.clause.names := by
  obtain ⟨libraries, files, stubs, hwritten, htext,
    ⟨wants, stub, hmem, hstub, f, n, hparts⟩, hlisted⟩ := page_imports_listed hclone hpage hr
  refine ⟨libraries, files, stubs, stub, hwritten, htext, hmem, by rw [hstub], ?_⟩
  intro type inline hwrites hname
  refine ⟨hparts.occurs_declared hwrites hname, ?_⟩
  intro root file names _ hfile hroot hshown
  obtain ⟨s, hs, hserves⟩ := hlisted file names hfile root hroot hshown
  exact ⟨s, hs, hserves.source, hserves.name⟩

/-- A type that is declared inside the one that the document lists. -/
theorem page_imports_declared_of_summary :
    let route : Route :=
      { name := .text "find", method := "GET", path := .text "/pages",
        accessors := [.text "find"], output := { name := .text "IPage.ISummary" },
        imports := [("src/api/structures/IPage.ts", [.text "IPage"])] }
    let c : Config := { output := "src/api" }
    let t : ModuleTree := { routes := [route] }
    c.clone = false ∧ route ∈ t.routes ∧ route.WritesType c route.output false ∧
      route.output.ByName c false ∧ typeRoot route.output.name.display = .ok "IPage" ∧
      ¬ t.HidesFile c .root "src/api/functional" (Path.target "src/api/structures/IPage.ts") ∧
      ∃ text libraries files stubs,
        (t.page c .root "api.functional" "src/api/functional").1 = .ok text ∧
        text = t.pageText "api.functional" (Ledger.blockText libraries files) stubs ∧
        ∃ s ∈ files, s.source = "../structures/IPage" ∧ "IPage" ∈ s.clause.names := by
  intro route c t
  have hroute : route ∈ t.routes := List.mem_cons_self
  have hwrites : route.WritesType c route.output false := .output (Or.inr (by decide))
  have hname : route.output.ByName c false := by decide
  have hdotted : Text.IsDotted route.output.name.display := by decide
  have hfirst : Text.firstPart route.output.name.display = "IPage" := by decide +kernel
  have hroot : typeRoot route.output.name.display = .ok "IPage" := by
    rw [Text.typeRoot_of_isDotted hdotted, hfirst]
  have horigins : ∀ o ∈ (t.pageWants c .root "src/api/functional").map Registration.origin,
      o = .file (Path.target "src/api/structures/IPage.ts") ∨ o.isLibrary = true := by
    decide +kernel
  have hshown : ¬ t.HidesFile c .root "src/api/functional"
      (Path.target "src/api/structures/IPage.ts") := by
    rintro ⟨r, hr, target, horigin, hne, -⟩
    rcases horigins _ (List.mem_map_of_mem hr) with hfile | hlibrary
    · rw [horigin] at hfile
      exact hne (Origin.file.inj hfile)
    · rw [horigin] at hlibrary
      exact absurd hlibrary Bool.false_ne_true
  have hprintable : t.Printable c .root "src/api/functional" := by decide +kernel
  obtain ⟨text, hpage⟩ := hprintable.exists_page "api.functional"
  obtain ⟨libraries, files, stubs, stub, -, htext, -, -, htypes⟩ :=
    page_imports_declared rfl hpage hroute
  obtain ⟨s, hs, hsource, hbound⟩ := (htypes route.output false hwrites hname).2 "IPage"
    "src/api/structures/IPage.ts" [.text "IPage"] hroot List.mem_cons_self List.mem_cons_self
    hshown
  have hspecifier : Path.specifier .root (pageFile "src/api/functional")
      (Path.target "src/api/structures/IPage.ts") = "../structures/IPage" := by
    decide +kernel
  exact ⟨rfl, hroute, hwrites, hname, hroot, hshown, text, libraries, files, stubs, hpage,
    htext, s, hs, hsource.trans hspecifier, hbound⟩

/-- Where types are written out, a type without a known structure is written by its name,
but not imported, though the document says where from. -/
theorem declared_lost_of_clone :
    let route : Route :=
      { name := .text "x", method := "GET", path := .text "/x", accessors := [.text "x"],
        output := { name := .text "IFoo" },
        imports := [("src/api/structures/IFoo.ts", [.text "IFoo"])] }
    let c : Config := { output := "src/api", clone := true }
    let t : ModuleTree := { routes := [route] }
    route.WritesType c route.output false ∧ route.output.ByName c false ∧
      typeRoot route.output.name.display = .ok "IFoo" ∧
      ∃ text libraries files stubs,
        (t.page c .root "api.functional" "src/api/functional").1 = .ok text ∧
        text = t.pageText "api.functional" (Ledger.blockText libraries files) stubs ∧
        (∃ stub ∈ stubs, Text.Occurs "IFoo" stub) ∧
        ∀ s ∈ libraries ++ files, "IFoo" ∉ s.clause.names := by
  intro route c t
  have hroute : route ∈ t.routes := List.mem_cons_self
  have hwrites : route.WritesType c route.output false := .output (Or.inr (by decide))
  have hname : route.output.ByName c false := by decide
  have hprintable : t.Printable c .root "src/api/functional" := by decide +kernel
  obtain ⟨text, hpage⟩ := hprintable.exists_page "api.functional"
  obtain ⟨libraries, files, stubs, -, hwritten, htext, hstubs⟩ :=
    exists_stubs_of_page (List.ne_nil_of_mem hroute) hpage
  obtain ⟨wants, stub, hmem, -, -, f, n, hparts⟩ := hstubs route hroute
  have hoccurs : Text.Occurs route.output.name.display stub :=
    hparts.occurs_declared hwrites hname (by decide)
  have hdotted : Text.IsDotted route.output.name.display := by decide
  have hfirst : Text.firstPart route.output.name.display = "IFoo" := by decide +kernel
  have hroot : typeRoot route.output.name.display = .ok "IFoo" := by
    rw [Text.typeRoot_of_isDotted hdotted, hfirst]
  have hkeys : ∀ key ∈ (t.pageWants c .root "src/api/functional").map Registration.key,
      key ≠ .text "IFoo" := by
    decide +kernel
  refine ⟨hwrites, hname, hroot, text, libraries, files, stubs, hpage, htext,
    ⟨stub, hmem, hoccurs⟩, fun s hs hbound => ?_⟩
  obtain ⟨r, hr, hkey⟩ := (records_of_page hpage).exists_of_bound hwritten
    (fun r hr => t.isText_of_default c (List.mem_filter.mp hr).1) hs hbound
  exact hkeys _ (List.mem_map_of_mem hr) hkey

end ModuleTree

end ClientSdk
