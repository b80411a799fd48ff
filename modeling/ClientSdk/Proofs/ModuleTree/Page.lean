import ClientSdk.Proofs.Ledger.Batch
import ClientSdk.Proofs.Stub.Wants

/-!
# The page of a module

A page is written in three steps: the stubs of the routes are drafted, what they want
is registered, and the import block is written (`page_eq`).  No stub depends on what
the other stubs want, the registering collides or not whatever its order, and the
block depends on the set of what is wanted.  So routes in another order give the same
page with the stubs in that order (`page_permutes`).
-/

namespace ClientSdk

/-- The simulation helper, as a page wants it. -/
def Config.helper (c : Config) : Registration :=
  { Registration.fromFile c.simulatorFile "NestiaSimulator" with typeOnly := false }

namespace ModuleTree

variable (t : ModuleTree) (c : Config) (here : WorkingDirectory) (name directory : String)

/-! ## What a page wants -/

/-- What a module wants for itself: the helper, if a route needs it. -/
def ownWants : List Registration :=
  if t.needsSimulator c then [c.helper] else []

def routeStubs : Draft (List String) :=
  t.routes.mapM fun r => r.stubWithImports c

theorem stubs_eq :
    t.stubs c = ⟨t.ownWants c ++ (t.routeStubs c).wants, (t.routeStubs c).result⟩ := by
  have hhelper : (Draft.want c.helper).result = .ok c.helper.name.display := rfl
  unfold stubs ownWants
  dsimp only
  split
  · exact Draft.bind_ok hhelper _
  · rfl

/-- The ledger of the page of a module before anything is registered. -/
def ledgerAt : Ledger :=
  .forFile here (Path.join directory indexFile)

/-- What a page registers: all that is wanted, but for what is declared in the page
itself. -/
def pageWants : List Registration :=
  (ledgerAt here directory).wanted (t.stubs c).wants

/-- What is wanted for a module is the helper, for itself, or what stubs want. -/
theorem helper_or_wanted {r : Registration} (hr : r ∈ (t.stubs c).wants) :
    (t.needsSimulator c = true ∧ r = c.helper) ∨ r.Wanted c := by
  rw [stubs_eq] at hr
  rcases List.mem_append.mp hr with hr | hr
  · unfold ownWants at hr
    split at hr
    · next hneeds => exact Or.inl ⟨hneeds, List.mem_singleton.mp hr⟩
    · exact absurd hr List.not_mem_nil
  · exact Or.inr
      ((Draft.Keeps.mapM fun (r : Route) _ => r.keeps_stubWithImports c).wants r hr)

theorem isText_of_default {r : Registration} (hr : r ∈ (t.stubs c).wants)
    (hdef : r.isDefault = true) : r.IsText := by
  rcases t.helper_or_wanted c hr with ⟨-, rfl⟩ | hwanted
  · exact absurd hdef Bool.false_ne_true
  · exact hwanted.modest.isText hdef

/-- What is wanted from another file or whatever the file is gets registered. -/
theorem mem_pageWants {r : Registration} (hr : r ∈ (t.stubs c).wants)
    (hown : r.unlessOwn = false) : r ∈ t.pageWants c here directory :=
  List.mem_filter.mpr ⟨hr, by simp [Ledger.skips, hown]⟩

/-- The stubs of a module, each with what is wanted for it. -/
theorem forall₂_of_stubs {stubs : List String} (h : (t.stubs c).result = .ok stubs) :
    List.Forall₂ (fun r stub => ∃ wants, r.stubWithImports c = ⟨wants, .ok stub⟩ ∧
      wants ⊆ (t.stubs c).wants) t.routes stubs := by
  rw [stubs_eq] at h ⊢
  have hall : t.routeStubs c = ⟨(t.routeStubs c).wants, .ok stubs⟩ := by rw [← h]
  refine (Draft.forall₂_of_mapM hall).imp ?_
  rintro r stub ⟨wants, hstub, hsub⟩
  exact ⟨wants, hstub, List.subset_append_of_subset_right _ hsub⟩

/-! ## The steps of writing a page -/

def ledgerAfter : Ledger :=
  (ledgerAt here directory).after ((t.stubs c).wants.map .register)

variable {t c here name directory}

theorem page_of_collides (h : (ledgerAt here directory).Collides (t.stubs c).wants) :
    ∃ fault, fault.IsCollision ∧ (t.page c here name directory).1 = .error fault := by
  obtain ⟨fault, hcollision, herror⟩ := Ledger.registerAll_of_collides rfl h
  refine ⟨fault, hcollision, ?_⟩
  unfold page Ledger.fulfil
  cases hanswer : (ledgerAt here directory).registerAll (t.stubs c).wants with
  | mk result l =>
      rw [hanswer] at herror
      change result = _ at herror
      subst herror
      unfold ledgerAt at hanswer
      rw [hanswer]

theorem not_collides_of_page {text : String}
    (h : (t.page c here name directory).1 = .ok text) :
    ¬ (ledgerAt here directory).Collides (t.stubs c).wants := by
  intro hcol
  have hrefused : ∃ fault, fault.IsCollision ∧
      (t.page c here name directory).1 = .error fault := page_of_collides hcol
  obtain ⟨fault, -, herror⟩ := hrefused
  exact nomatch h.symm.trans herror

/-- The ledger of a page that is written holds what the page registers. -/
theorem records_of_page {text : String} (h : (t.page c here name directory).1 = .ok text) :
    (t.ledgerAfter c here directory).Records (t.pageWants c here directory) :=
  Ledger.records_of_not_collides (not_collides_of_page h)

/-- What a page says, if nothing collides. -/
theorem page_eq (h : ¬ (ledgerAt here directory).Collides (t.stubs c).wants) :
    (t.page c here name directory).1 = do
      let stubs ← (t.stubs c).result
      if stubs.isEmpty then return t.pageText name "" stubs
      else return t.pageText name (← (t.ledgerAfter c here directory).toScript.1) stubs := by
  have hall := Ledger.registerAll_of_not_collides rfl h
  unfold ledgerAt at hall
  unfold page Ledger.fulfil
  rw [hall]
  cases (t.stubs c).result with
  | error fault => rfl
  | ok stubs =>
      change (if stubs.isEmpty = true then _ else _ : Except Fault String × Ledger).1 =
        if stubs.isEmpty = true then _ else _
      split
      · rfl
      · unfold ledgerAfter ledgerAt
        generalize (Ledger.after _ _).toScript = answer
        obtain ⟨result, l⟩ := answer
        cases result <;> rfl

theorem page_of_error {fault : Fault} (h : (t.stubs c).result = .error fault) :
    ∃ fault, (t.page c here name directory).1 = .error fault := by
  by_cases hcol : (ledgerAt here directory).Collides (t.stubs c).wants
  · obtain ⟨fault, -, herror⟩ := page_of_collides hcol
    exact ⟨fault, herror⟩
  · rw [page_eq hcol, h]
    exact ⟨fault, rfl⟩

/-- A page is written if its stubs are, nothing that they want collides, all names are
texts, and no file has an empty location. -/
theorem exists_page (title : String) {stubs : List String}
    (hstubs : (t.stubs c).result = .ok stubs)
    (hcol : ¬ (ledgerAt here directory).Collides (t.stubs c).wants)
    (htext : ∀ r ∈ t.pageWants c here directory, r.IsText)
    (hfile : ∀ r ∈ t.pageWants c here directory, r.origin ≠ .file "") :
    ∃ text, (t.page c here title directory).1 = .ok text := by
  obtain ⟨libraries, files, hstatements⟩ :=
    (Ledger.records_of_not_collides hcol).exists_statements htext hfile
  have himports : (t.ledgerAfter c here directory).toScript.1 =
      .ok (Ledger.blockText libraries files) := by
    rw [ledgerAfter, ledgerAt, Ledger.toScript_of_open (Ledger.open_after_batch _ _),
      hstatements]
    rfl
  rw [page_eq hcol, hstubs, himports]
  dsimp only [bind, Except.bind]
  split
  · exact ⟨_, rfl⟩
  · exact ⟨_, rfl⟩

/-- A page depends on the routes of its module and on the names of the modules below. -/
theorem page_congr {t' : ModuleTree} (hroutes : t'.routes = t.routes)
    (hnames : t'.children.map Prod.fst = t.children.map Prod.fst) :
    t'.page c here name directory = t.page c here name directory := by
  have hstubs : t'.stubs c = t.stubs c := by
    rw [stubs, stubs, needsSimulator, needsSimulator, hroutes]
  have hlines : t'.exportLines = t.exportLines := by
    have hmap : ∀ t : ModuleTree, t.exportLines = (t.children.map Prod.fst).map fun key =>
        "export * as " ++ key.display ++ " from \"./" ++ key.display ++ "\";" := fun t => by
      rw [exportLines, List.map_map]
      rfl
    rw [hmap, hmap, hnames]
  have htext : ∀ imports stubs, t'.pageText name imports stubs =
      t.pageText name imports stubs := fun imports stubs => by
    rw [pageText, pageText, hlines]
  rw [page, page, hstubs]
  simp only [htext]

/-- Whether a page can be written, told without writing it. -/
def Printable (t : ModuleTree) (c : Config) (here : WorkingDirectory) (directory : String) :
    Prop :=
  (t.stubs c).result.toOption.isSome = true ∧
    ((ledgerAt here directory).registerAll (t.stubs c).wants).1.toOption.isSome = true ∧
    ∀ r ∈ t.pageWants c here directory, r.name = .text r.name.display ∧ r.origin ≠ .file ""

instance : Decidable (t.Printable c here directory) :=
  inferInstanceAs (Decidable (_ ∧ _ ∧ _))

theorem Printable.exists_page (h : t.Printable c here directory) (title : String) :
    ∃ text, (t.page c here title directory).1 = .ok text := by
  obtain ⟨hstubs, hgranted, hwants⟩ := h
  cases hresult : (t.stubs c).result with
  | error fault =>
      rw [hresult] at hstubs
      exact absurd hstubs Bool.false_ne_true
  | ok stubs =>
      refine ModuleTree.exists_page title hresult (fun hcol => ?_)
        (fun r hr => ⟨_, (hwants r hr).1⟩) fun r hr => (hwants r hr).2
      obtain ⟨fault, -, hrefused⟩ := Ledger.registerAll_of_collides rfl hcol
      rw [hrefused] at hgranted
      exact absurd hgranted Bool.false_ne_true

/-! ## Routes in another order -/

/-- Files below the directory of the run can be named from every page. -/
theorem nameable_of_below (here : WorkingDirectory) {rs : List Registration} (file : String)
    (h : ∀ r ∈ rs, ∀ target, r.origin = .file target → Path.Below target) :
    Nameable here file rs where
  ne_empty r hr horigin := absurd (h r hr _ horigin).normal (by decide)
  apart r hr r' hr' target target' horigin horigin' hsame :=
    (h r hr target horigin).specifier_injective (h r' hr' target' horigin') hsame

variable {t' : ModuleTree}

theorem needsSimulator_of_perm (hroutes : t'.routes.Perm t.routes) :
    t'.needsSimulator c = t.needsSimulator c := by
  rw [needsSimulator, needsSimulator, hroutes.any_eq]

theorem wants_perm (hroutes : t'.routes.Perm t.routes) {stub : Route → String}
    (hstub : ∀ r ∈ t.routes, (r.stubWithImports c).result = .ok (stub r)) :
    (t'.stubs c).wants.Perm (t.stubs c).wants := by
  have hstub' : ∀ r ∈ t'.routes, (r.stubWithImports c).result = .ok (stub r) :=
    fun r hr => hstub r (hroutes.mem_iff.mp hr)
  rw [stubs_eq, stubs_eq, ownWants, ownWants, needsSimulator_of_perm hroutes, routeStubs,
    routeStubs, Draft.mapM_of_ok hstub, Draft.mapM_of_ok hstub']
  exact (hroutes.flatMap_right _).append_left _

theorem pageText_congr (hchildren : t'.children = t.children) (imports : String)
    (stubs : List String) : t'.pageText name imports stubs = t.pageText name imports stubs := by
  unfold pageText exportLines
  rw [hchildren]

/-- The page with stubs: the header, the imports, the modules below, and the stubs,
each behind a blank line. -/
theorem pageText_of_ne_nil {stubs : List String} (h : stubs ≠ []) (imports : String) :
    t.pageText name imports stubs =
      Text.unlines (headerLines name ++ imports :: "" :: (t.exportLines ++
        (if t.exportLines.isEmpty then [] else [""]) ++ stubs.intersperse "")) ++ "\n" := by
  unfold pageText
  dsimp only
  rw [if_neg fun hempty => h (List.isEmpty_iff.mp hempty)]

/-- A module without routes wants nothing. -/
theorem page_of_no_routes (h : t.routes = []) :
    (t.page c here name directory).1 = .ok (t.pageText name "" []) := by
  have hstubs : t.stubs c = ⟨[], .ok []⟩ := by
    have hhelper : t.needsSimulator c = false := by simp [needsSimulator, h]
    rw [stubs_eq, routeStubs, ownWants, hhelper, h]
    rfl
  rw [page, hstubs]
  rfl

/-- The page of a module whose routes all have stubs: nothing is written if what they
want collides or a name is no text, else the page has the block of the set of what is
wanted. -/
theorem page_of_results (title : String) {stub : Route → String}
    (hstub : ∀ r ∈ t.routes, (r.stubWithImports c).result = .ok (stub r))
    (hname : Nameable here (Path.clean (Path.join directory indexFile))
      (t.pageWants c here directory))
    (hroutes : t.routes ≠ []) :
    ((∃ fault, (t.page c here title directory).1 = .error fault) ∧
      ((ledgerAt here directory).Collides (t.stubs c).wants ∨
        ∃ r ∈ t.pageWants c here directory, ¬ r.IsText)) ∨
    ((t.page c here title directory).1 = .ok (t.pageText title
        (ImportBlock.text here (Path.clean (Path.join directory indexFile))
          (t.pageWants c here directory).toFinset) (t.routes.map stub)) ∧
      ¬ (ledgerAt here directory).Collides (t.stubs c).wants ∧
        ∀ r ∈ t.pageWants c here directory, r.IsText) := by
  by_cases hcol : (ledgerAt here directory).Collides (t.stubs c).wants
  · have hrefused : ∃ fault, fault.IsCollision ∧
        (t.page c here title directory).1 = .error fault := page_of_collides hcol
    obtain ⟨fault, -, herror⟩ := hrefused
    exact Or.inl ⟨⟨fault, herror⟩, Or.inl hcol⟩
  have hresult : (t.stubs c).result = .ok (t.routes.map stub) := by
    rw [stubs_eq, routeStubs, Draft.mapM_of_ok hstub]
  have hne : ¬ (t.routes.map stub).isEmpty = true := by
    simpa using hroutes
  have hpage : (t.page c here title directory).1 =
      (t.ledgerAfter c here directory).toScript.1 >>= fun imports =>
        .ok (t.pageText title imports (t.routes.map stub)) := by
    rw [page_eq hcol, hresult]
    exact if_neg hne
  obtain ⟨hwritten, hrefused⟩ :=
    Ledger.toScript_after hcol hname fun r hr => t.isText_of_default c hr
  rw [hpage]
  by_cases htext : ∀ r ∈ t.pageWants c here directory, r.IsText
  · refine Or.inr ⟨?_, hcol, htext⟩
    rw [ledgerAfter, ledgerAt, hwritten htext]
    rfl
  · have hsome : ∃ r ∈ t.pageWants c here directory, ¬ r.IsText := by
      simpa using htext
    obtain ⟨fault, herror⟩ := hrefused hsome
    refine Or.inl ⟨⟨fault, ?_⟩, Or.inr hsome⟩
    rw [ledgerAfter, ledgerAt, herror]
    rfl

/-- A module and the same module with its routes in another order: either no page is
written for both of them, or the pages are alike but for the order of the stubs, each
of which is the same text in both. -/
theorem page_permutes (hchildren : t'.children = t.children)
    (hroutes : t'.routes.Perm t.routes)
    (htargets : ∀ r ∈ t.pageWants c here directory, ∀ target, r.origin = .file target →
      Path.Below target) :
    ((∃ fault, (t.page c here name directory).1 = .error fault) ∧
      ∃ fault, (t'.page c here name directory).1 = .error fault) ∨
    ∃ (imports : String) (stub : Route → String),
      (∀ r ∈ t.routes, (r.stubWithImports c).result = .ok (stub r)) ∧
      (t.page c here name directory).1 =
        .ok (t.pageText name imports (t.routes.map stub)) ∧
      (t'.page c here name directory).1 =
        .ok (t.pageText name imports (t'.routes.map stub)) ∧
      ∀ stubs, stubs ≠ [] → t.pageText name imports stubs =
        Text.unlines (headerLines name ++ imports :: "" :: (t.exportLines ++
          (if t.exportLines.isEmpty then [] else [""]) ++ stubs.intersperse "")) ++
            "\n" := by
  rcases Draft.exists_results (·.stubWithImports c) t.routes with
    ⟨stub, hstub⟩ | ⟨r, hr, fault, herror⟩
  swap
  · obtain ⟨fault₁, h₁⟩ := Draft.mapM_of_error hr herror
    obtain ⟨fault₂, h₂⟩ := Draft.mapM_of_error (hroutes.mem_iff.mpr hr) herror
    exact Or.inl ⟨page_of_error (by rw [stubs_eq]; exact h₁),
      page_of_error (by rw [stubs_eq]; exact h₂)⟩
  have hperm := wants_perm hroutes hstub
  have hcollide : (ledgerAt here directory).Collides (t'.stubs c).wants ↔
      (ledgerAt here directory).Collides (t.stubs c).wants :=
    (Ledger.collides_iff_clashes _ _ _).2 _ hperm
  have hwanted : (t'.pageWants c here directory).Perm (t.pageWants c here directory) :=
    hperm.filter _
  have hshape : ∀ imports stubs, stubs ≠ [] → t.pageText name imports stubs = _ :=
    fun imports _ h => pageText_of_ne_nil h imports
  have hstub' : ∀ r ∈ t'.routes, (r.stubWithImports c).result = .ok (stub r) :=
    fun r hr => hstub r (hroutes.mem_iff.mp hr)
  by_cases hnone : t.routes = []
  · have hnone' : t'.routes = [] := (hnone ▸ hroutes).eq_nil
    refine Or.inr ⟨"", stub, hstub, ?_, ?_, hshape ""⟩
    · rw [page_of_no_routes hnone, hnone]
      rfl
    · rw [page_of_no_routes hnone', hnone', pageText_congr hchildren]
      rfl
  have hnone' : t'.routes ≠ [] := fun heq => hnone (heq ▸ hroutes).symm.eq_nil
  have hname := nameable_of_below here (Path.clean (Path.join directory indexFile)) htargets
  have hname' := nameable_of_below here (Path.clean (Path.join directory indexFile))
    fun r hr => htargets r (hwanted.mem_iff.mp hr)
  have hpage := page_of_results name hstub hname hnone
  have hpage' := page_of_results name hstub' hname' hnone'
  rcases hpage with ⟨herror, hwhy⟩ | ⟨hok, hapart, htext⟩
  · rcases hpage' with ⟨herror', -⟩ | ⟨-, hapart', htext'⟩
    · exact Or.inl ⟨herror, herror'⟩
    · rcases hwhy with hcol | ⟨r, hr, htext⟩
      · exact absurd (hcollide.mpr hcol) hapart'
      · exact absurd (htext' r (hwanted.mem_iff.mpr hr)) htext
  · rcases hpage' with ⟨-, hcol | ⟨r, hr, htext'⟩⟩ | ⟨hok', -, -⟩
    · exact absurd (hcollide.mp hcol) hapart
    · exact absurd (htext r (hwanted.mem_iff.mp hr)) htext'
    · rw [List.toFinset_eq_of_perm _ _ hwanted, pageText_congr hchildren] at hok'
      exact Or.inr ⟨_, stub, hstub, hok, hok', hshape _⟩

/-- Two routes that share a declared type, in both orders. -/
theorem page_permutes_of_two_routes :
    let route (name method : String) : Route :=
      { name := .text name, method, path := .text "/pages", accessors := [.text name],
        output := { name := .text "IPage" },
        imports := [("src/api/structures/IPage.ts", [.text "IPage"])] }
    let c : Config := { output := "src/api" }
    let t : ModuleTree := { routes := [route "find" "GET", route "store" "POST"] }
    let t' : ModuleTree := { routes := [route "store" "POST", route "find" "GET"] }
    t'.routes.Perm t.routes ∧
      (∀ r ∈ t.pageWants c .root "src/api/functional", ∀ target, r.origin = .file target →
        Path.Below target) ∧
      ∃ (imports : String) (stub : Route → String),
        (t.page c .root "api.functional" "src/api/functional").1 =
          .ok (t.pageText "api.functional" imports (t.routes.map stub)) ∧
        (t'.page c .root "api.functional" "src/api/functional").1 =
          .ok (t.pageText "api.functional" imports (t'.routes.map stub)) := by
  intro route c t t'
  have hroutes : t'.routes.Perm t.routes := .swap _ _ _
  have horigins : ∀ o ∈ (t.pageWants c .root "src/api/functional").map Registration.origin,
      o = .file "src/api/structures/IPage" ∨ o.isLibrary = true := by
    decide +kernel
  have htargets : ∀ r ∈ t.pageWants c .root "src/api/functional", ∀ target,
      r.origin = .file target → Path.Below target := by
    intro r hr target horigin
    have hbelow : Path.Below "src/api/structures/IPage" :=
      ⟨by decide +kernel, by decide +kernel, by decide +kernel⟩
    rcases horigins _ (List.mem_map_of_mem hr) with hfile | hlibrary
    · rw [horigin] at hfile
      exact Origin.file.inj hfile ▸ hbelow
    · rw [horigin] at hlibrary
      exact absurd hlibrary Bool.false_ne_true
  refine ⟨hroutes, htargets, ?_⟩
  have hchildren : t'.children = t.children := rfl
  rcases page_permutes hchildren hroutes htargets with ⟨herror, -⟩ | ⟨imports, stub, hrest⟩
  swap
  · exact ⟨imports, stub, hrest.2.1, hrest.2.2.1⟩
  -- The names are texts and do not collide, so the page is written.
  exfalso
  have hstubs : ∀ r ∈ t.routes,
      (r.stubWithImports c).result.toOption.isSome = true := by
    decide +kernel
  have htexts : ∀ name ∈ (t.pageWants c .root "src/api/functional").map Registration.name,
      name = .text name.display := by
    decide +kernel
  have hgranted : ((ledgerAt .root "src/api/functional").registerAll
      (t.stubs c).wants).1.toOption.isSome = true := by
    decide +kernel
  rcases Draft.exists_results (·.stubWithImports c) t.routes with
    ⟨stub, hstub⟩ | ⟨r, hr, fault, hfails⟩
  · have hname := nameable_of_below .root
      (Path.clean (Path.join "src/api/functional" indexFile)) htargets
    rcases page_of_results "api.functional" hstub hname (List.cons_ne_nil _ _) with
      ⟨-, hcol | ⟨r, hr, htext⟩⟩ | ⟨hok, -⟩
    · obtain ⟨fault, -, hfails⟩ := Ledger.registerAll_of_collides rfl hcol
      rw [hfails] at hgranted
      exact Bool.false_ne_true hgranted
    · exact htext ⟨_, htexts _ (List.mem_map_of_mem hr)⟩
    · obtain ⟨fault, hfails⟩ := herror
      exact nomatch hok.symm.trans hfails
  · have hsome := hstubs r hr
    rw [hfails] at hsome
    exact Bool.false_ne_true hsome

end ModuleTree

end ClientSdk
