import ClientSdk.Proofs.Generation.Layout
import ClientSdk.Proofs.RouteDocument.Names
import ClientSdk.Proofs.Stub.Parts
import ClientSdk.Proofs.Text.ReadName
import Mathlib.Data.List.Infix

/-!
# What modules export

A page passes each module below it on under its name, and declares a function and a
namespace for each of its routes under the name of the route.  The names are written as they
are given: those of routes are compared neither with each other nor with those of the modules
below, and what is compared is not what is read, which is a name up to a line break at its
end.  So every page exports each name once if and only if no two routes clash, of all the
routes of a client (`generate_exports`).
-/

namespace ClientSdk

variable {t : ModuleTree} {routes : List Route} {m : List Scalar × ModuleTree}

/-! ## Routes that clash -/

def Scalar.Key.read? (key : Scalar.Key) : Option String :=
  key.text?.map Text.readName

namespace Route

def readLabel (r : Route) : String :=
  Text.readName r.label

/-- Whether the name of a route reads like that of the module beside it that leads to another
route. -/
def Shadows (r r' : Route) : Prop :=
  ∃ key ∈ ModuleTree.nextKey? r.home r'.home, key.read? = some r.readLabel

/-- Whether two modules below a path have names that read alike and lead to one route each. -/
def PartsAt (p : List Scalar.Key) (r r' : Route) : Prop :=
  ∃ key ∈ ModuleTree.nextKey? p r.home, ∃ key' ∈ ModuleTree.nextKey? p r'.home,
    key ≠ key' ∧ ∃ name ∈ key.read?, key'.read? = some name

/-- Whether two routes of one client have a name exported twice from one module: both their
own, the one its own where a module leads to the other, or the names of two modules of which
each leads to one of them. -/
def Clashes (r r' : Route) : Prop :=
  (r.home = r'.home ∧ r.readLabel = r'.readLabel) ∨ r.Shadows r' ∨ r'.Shadows r ∨
    ∃ p ∈ r.home.inits, PartsAt p r r'

instance (r r' : Route) : Decidable (r.Shadows r') :=
  inferInstanceAs (Decidable (∃ _ ∈ _, _))

instance (p : List Scalar.Key) (r r' : Route) : Decidable (PartsAt p r r') :=
  inferInstanceAs (Decidable (∃ _ ∈ _, ∃ _ ∈ _, _ ∧ ∃ _ ∈ _, _))

instance (r r' : Route) : Decidable (r.Clashes r') :=
  inferInstanceAs (Decidable (_ ∨ _ ∨ _ ∨ ∃ _ ∈ _, _))

end Route

namespace ModuleTree

/-- A way goes on with a key if and only if the way with that key at the end is a part of
it. -/
theorem nextKey?_eq_some_iff {p home : List Scalar.Key} {key : Scalar.Key} :
    nextKey? p home = some key ↔ p ++ [key] <+: home := by
  unfold nextKey?
  rw [Option.ite_none_right_eq_some, List.isPrefixOf_iff_prefix]
  constructor
  · rintro ⟨⟨rest, rfl⟩, hkey⟩
    rw [List.getElem?_append_right (Nat.le_refl _), Nat.sub_self] at hkey
    obtain ⟨rest, rfl⟩ := List.head?_eq_some_iff.mp (List.head?_eq_getElem?.trans hkey)
    exact ⟨rest, by simp⟩
  · rintro ⟨rest, rfl⟩
    exact ⟨⟨key :: rest, by simp⟩, by simp⟩

theorem nextKey?_self (p : List Scalar.Key) : nextKey? p p = none := by
  simp [nextKey?]

theorem mem_nextKeys {p : List Scalar.Key} {key : Scalar.Key} :
    key ∈ nextKeys routes p ↔ ∃ r ∈ routes, nextKey? p r.home = some key := by
  rw [nextKeys, List.mem_eraseDups, List.mem_filterMap]

end ModuleTree

namespace Route

variable {r r' : Route} {p : List Scalar.Key}

theorem PartsAt.symm (h : PartsAt p r r') : PartsAt p r' r := by
  obtain ⟨key, hkey, key', hkey', hne, name, hname, hname'⟩ := h
  exact ⟨key', hkey', key, hkey, hne.symm, name, hname', hname⟩

theorem PartsAt.prefix_home (h : PartsAt p r r') : p <+: r.home := by
  obtain ⟨key, hkey, -⟩ := h
  exact (List.prefix_append p [key]).trans (ModuleTree.nextKey?_eq_some_iff.mp hkey)

theorem not_partsAt_self (p : List Scalar.Key) (r : Route) : ¬ PartsAt p r r := by
  rintro ⟨key, hkey, key', hkey', hne, -⟩
  exact hne (Option.some.inj (hkey.symm.trans hkey'))

theorem not_shadows_self (r : Route) : ¬ r.Shadows r := by
  rintro ⟨key, hkey, -⟩
  rw [ModuleTree.nextKey?_self] at hkey
  exact absurd hkey nofun

theorem Clashes.symm (h : r.Clashes r') : r'.Clashes r := by
  rcases h with ⟨hhome, hlabel⟩ | hshadows | hshadows | ⟨p, -, hparts⟩
  · exact .inl ⟨hhome.symm, hlabel.symm⟩
  · exact .inr (.inr (.inl hshadows))
  · exact .inr (.inl hshadows)
  · exact .inr (.inr (.inr ⟨p, (List.mem_inits _ _).mpr hparts.symm.prefix_home, hparts.symm⟩))

end Route

namespace ModuleTree

/-! ## The names that a page exports -/

/-- The names of the modules below, as they are written. -/
def childNames (t : ModuleTree) : List String :=
  t.children.map fun (key, _) => key.display

/-- The names that a page exports, as they are read: those of the modules below, and those of
the routes. -/
def exportedNames (t : ModuleTree) : List String :=
  (t.childNames ++ t.routes.map Route.label).map Text.readName

def exportLine (name : String) : String :=
  "export * as " ++ name ++ " from \"./" ++ name ++ "\";"

theorem exportLines_eq (t : ModuleTree) : t.exportLines = t.childNames.map exportLine := by
  rw [exportLines, childNames, List.map_map]
  rfl

/-- In a tree that is named by identifiers, modules below are looked up by the texts that
are written for them. -/
theorem Identified.exists_childName (h : t.Identified) (hm : m ∈ t.walk)
    {entry : Scalar × ModuleTree} (hentry : entry ∈ m.2.children) :
    entry.1.key = .text entry.1.display ∧ Text.isIdentifierLine entry.1.display = true := by
  obtain ⟨s, hkey, hs⟩ := h _ (mem_walk_of_child hm hentry) entry.1 (by simp)
  rw [hkey]
  exact ⟨rfl, hs⟩

theorem Identified.childKeys_eq (h : t.Identified) (hm : m ∈ t.walk) :
    m.2.childKeys = m.2.childNames.map .text := by
  rw [childKeys, keyPath, Table.keys, childNames, List.map_map, List.map_map]
  exact List.map_congr_left fun entry hentry => (h.exists_childName hm hentry).1

theorem Identified.childName (h : t.Identified) (hm : m ∈ t.walk) {name : String}
    (hname : name ∈ m.2.childNames) : Text.isIdentifierLine name = true := by
  obtain ⟨entry, hentry, rfl⟩ := List.mem_map.mp hname
  exact (h.exists_childName hm hentry).2

theorem Sorts.nodup_childNames (h : t.Sorts routes) (hapart : t.Apart)
    (hident : t.Identified) (hm : m ∈ t.walk) : m.2.childNames.Nodup := by
  refine List.Nodup.of_map Scalar.Key.text ?_
  rw [← hident.childKeys_eq hm, (h.of_mem_walk hapart hm).2]
  exact nodup_nextKeys routes _

theorem Sorts.mem_childNames (h : t.Sorts routes) (hapart : t.Apart)
    (hident : t.Identified) (hm : m ∈ t.walk) {name : String} :
    name ∈ m.2.childNames ↔ ∃ r ∈ routes, nextKey? (keyPath m.1) r.home = some (.text name) := by
  rw [← mem_nextKeys, ← (h.of_mem_walk hapart hm).2, hident.childKeys_eq hm]
  simp

theorem Sorts.exists_name (h : t.Sorts routes) (hapart : t.Apart) (hident : t.Identified)
    (hm : m ∈ t.walk) {r : Route} (hr : r ∈ routes) {key : Scalar.Key}
    (hkey : nextKey? (keyPath m.1) r.home = some key) :
    ∃ name ∈ m.2.childNames, key = .text name := by
  have hmem := mem_nextKeys.mpr ⟨r, hr, hkey⟩
  rw [← (h.of_mem_walk hapart hm).2, hident.childKeys_eq hm] at hmem
  obtain ⟨name, hname, rfl⟩ := List.mem_map.mp hmem
  exact ⟨name, hname, rfl⟩

/-- The names below a module read differently if and only if it has no routes parted by
names that read alike. -/
theorem Sorts.nodup_readChildNames (h : t.Sorts routes) (hapart : t.Apart)
    (hident : t.Identified) (hm : m ∈ t.walk) :
    (m.2.childNames.map Text.readName).Nodup ↔
      ∀ r ∈ routes, ∀ r' ∈ routes, ¬ Route.PartsAt (keyPath m.1) r r' := by
  rw [List.nodup_map_iff_inj_on (h.nodup_childNames hapart hident hm)]
  constructor
  · rintro hinj r hr r' hr' ⟨key, hkey, key', hkey', hne, read, hread, hread'⟩
    obtain ⟨name, hname, rfl⟩ := h.exists_name hapart hident hm hr hkey
    obtain ⟨name', hname', rfl⟩ := h.exists_name hapart hident hm hr' hkey'
    have hsame : Text.readName name = Text.readName name' :=
      Option.some.inj (Option.mem_def.mp hread |>.trans hread'.symm)
    exact hne (congrArg Scalar.Key.text (hinj _ hname _ hname' hsame))
  · intro hnone name hname name' hname' hsame
    by_contra hne
    obtain ⟨r, hr, hkey⟩ := (h.mem_childNames hapart hident hm).mp hname
    obtain ⟨r', hr', hkey'⟩ := (h.mem_childNames hapart hident hm).mp hname'
    exact hnone r hr r' hr' ⟨_, hkey, _, hkey', fun heq => hne (Scalar.Key.text.inj heq), _,
      rfl, congrArg some hsame.symm⟩

/-- A module exports no name twice if and only if the names of its routes read differently,
none of them reads like that of a module below, and those of the modules below read
differently. -/
theorem Sorts.nodup_exportedNames (h : t.Sorts routes) (hapart : t.Apart)
    (hident : t.Identified) (hm : m ∈ t.walk) :
    m.2.exportedNames.Nodup ↔
      (m.2.routes.Pairwise fun r r' => r.readLabel ≠ r'.readLabel) ∧
        (∀ r ∈ m.2.routes, ∀ r' ∈ routes, ¬ r.Shadows r') ∧
        ∀ r ∈ routes, ∀ r' ∈ routes, ¬ Route.PartsAt (keyPath m.1) r r' := by
  have hhome : ∀ r ∈ m.2.routes, r.home = keyPath m.1 := fun r hr =>
    ((h.mem_routes_iff hapart hm).mp hr).2
  have hshadows : (∀ name ∈ m.2.childNames.map Text.readName,
      ∀ label ∈ m.2.routes.map Route.readLabel, name ≠ label) ↔
        ∀ r ∈ m.2.routes, ∀ r' ∈ routes, ¬ r.Shadows r' := by
    constructor
    · rintro hne r hr r' hr' ⟨key, hkey, hread⟩
      rw [hhome r hr] at hkey
      obtain ⟨name, hname, rfl⟩ := h.exists_name hapart hident hm hr' hkey
      exact hne _ (List.mem_map_of_mem hname) _ (List.mem_map_of_mem hr) (Option.some.inj hread)
    · rintro hnone read hread label hlabel rfl
      obtain ⟨name, hname, hread⟩ := List.mem_map.mp hread
      obtain ⟨r, hr, rfl⟩ := List.mem_map.mp hlabel
      obtain ⟨r', hr', hkey⟩ := (h.mem_childNames hapart hident hm).mp hname
      rw [← hhome r hr] at hkey
      exact hnone r hr r' hr' ⟨_, hkey, congrArg some hread⟩
  have hlabels : (m.2.routes.map Route.readLabel).Nodup ↔
      m.2.routes.Pairwise fun r r' => r.readLabel ≠ r'.readLabel := List.pairwise_map
  have hread : m.2.exportedNames =
      m.2.childNames.map Text.readName ++ m.2.routes.map Route.readLabel := by
    rw [exportedNames, List.map_append, List.map_map]
    rfl
  rw [hread, List.nodup_append, h.nodup_readChildNames hapart hident hm, hlabels, hshadows,
    and_comm, and_assoc]

theorem Sorts.not_clashes (h : t.Sorts routes) (hapart : t.Apart) (hident : t.Identified)
    (hnodup : ∀ m ∈ t.walk, m.2.exportedNames.Nodup) {r r' : Route}
    (hsub : [r, r'].Sublist routes) : ¬ r.Clashes r' := by
  have hof := fun m hm => (h.nodup_exportedNames hapart hident hm).mp (hnodup m hm)
  have hshadows : ∀ r ∈ routes, ∀ r' ∈ routes, ¬ r.Shadows r' := by
    intro r hr r' hr'
    obtain ⟨m, hm, -, hmem⟩ := h.exists_module hapart hr
    exact (hof m hm).2.1 r hmem r' hr'
  have hr : r ∈ routes := hsub.subset List.mem_cons_self
  have hr' : r' ∈ routes := hsub.subset (List.mem_cons_of_mem _ List.mem_cons_self)
  rintro (⟨hhome, hlabel⟩ | hclash | hclash | ⟨p, hp, hclash⟩)
  · -- Both are in the module of the first, in the same order.
    obtain ⟨m, hm, hplace, -⟩ := h.exists_module hapart hr
    have hlabels := (hof m hm).1
    have hboth := hsub.filter fun r => decide (r.home = keyPath m.1)
    rw [List.filter_cons_of_pos (by simp [hplace]),
      List.filter_cons_of_pos (by simp [hplace, hhome]), List.filter_nil] at hboth
    rw [(h.of_mem_walk hapart hm).1] at hlabels
    exact List.pairwise_iff_forall_sublist.mp hlabels hboth hlabel
  · exact hshadows r hr r' hr' hclash
  · exact hshadows r' hr' r hr hclash
  · -- The module where they part is on the way to the first.
    obtain ⟨m, hm, rfl⟩ := List.mem_map.mp (h.prefix_mem_walk hr ((List.mem_inits _ _).mp hp))
    exact (hof m hm).2.2 r hr r' hr' hclash

theorem Sorts.forall_nodup_exportedNames (h : t.Sorts routes) (hapart : t.Apart)
    (hident : t.Identified) :
    (∀ m ∈ t.walk, m.2.exportedNames.Nodup) ↔
      routes.Pairwise fun r r' => ¬ r.Clashes r' := by
  constructor
  · intro hnodup
    exact List.pairwise_iff_forall_sublist.mpr fun hsub =>
      h.not_clashes hapart hident hnodup hsub
  · intro hclashes m hm
    have hsymm : Std.Symm fun r r' : Route => ¬ r.Clashes r' :=
      ⟨fun _ _ hnot hclash => hnot hclash.symm⟩
    rw [h.nodup_exportedNames hapart hident hm, (h.of_mem_walk hapart hm).1]
    refine ⟨?_, fun r hr r' hr' hshadows => ?_, fun r hr r' hr' hparts => ?_⟩
    · refine List.pairwise_filter.mpr (hclashes.imp ?_)
      intro r r' hapart' hr hr' hlabel
      have hhome : r.home = r'.home :=
        (of_decide_eq_true hr).trans (of_decide_eq_true hr').symm
      exact hapart' (.inl ⟨hhome, hlabel⟩)
    · have hne : r ≠ r' := by
        rintro rfl
        exact r.not_shadows_self hshadows
      exact hclashes.forall (List.mem_filter.mp hr).1 hr' hne (.inr (.inl hshadows))
    · have hne : r ≠ r' := by
        rintro rfl
        exact r.not_partsAt_self _ hparts
      exact hclashes.forall hr hr' hne
        (.inr (.inr (.inr ⟨_, (List.mem_inits _ _).mpr hparts.prefix_home, hparts⟩)))

end ModuleTree

/-! ## What a stub declares -/

def Declares (stub name : String) : Prop :=
  ∃ (f : StubFunction) (n : StubNamespace), f.name = name ∧ n.name = name ∧
    stub = Text.unlines [f.text, n.text]

theorem isPrefix_signature (parameters : List String) :
    "(".toList <+: (signature parameters).toList := by
  unfold signature
  split
  · exact ⟨[')'], rfl⟩
  · split <;> simp
  · simp

theorem StubFunction.occurs_head (f : StubFunction) :
    Text.Occurs ("export async function " ++ f.name ++ "(") f.text := by
  have hline : Text.Occurs ("export async function " ++ f.name ++ "(")
      ("export async function " ++ f.name ++ signature (f.parameters.map Binding.text) ++
        ": Promise<" ++ f.returns ++ "> \x7b") := by
    refine ((Text.Occurs.append_right ?_ _).append_right _).append_right _
    rw [Text.Occurs, String.toList_append, String.toList_append (s := _ ++ f.name)]
    exact ((List.prefix_append_right_inj _).mpr (isPrefix_signature _)).isInfix
  exact hline.trans (Text.occurs_intercalate (by simp))

theorem StubNamespace.occurs_head (n : StubNamespace) :
    Text.Occurs ("export namespace " ++ n.name ++ " \x7b\n") n.text :=
  ((Text.Occurs.refl _).append_right _).append_right _

theorem Declares.introduces {stub name : String} (h : Declares stub name)
    (hname : Text.isIdentifierLine name = true) :
    Text.Introduces "export async function " (Text.readName name) stub ∧
      Text.Introduces "export namespace " (Text.readName name) stub := by
  obtain ⟨f, n, rfl, hn, rfl⟩ := h
  have hfunction : Text.Occurs f.text (Text.unlines [f.text, n.text]) :=
    Text.occurs_intercalate List.mem_cons_self
  have hscope : Text.Occurs n.text (Text.unlines [f.text, n.text]) :=
    Text.occurs_intercalate (List.mem_cons_of_mem _ List.mem_cons_self)
  refine ⟨Text.introduces_of_occurs (c := '(') hname rfl (f.occurs_head.trans hfunction), ?_⟩
  rw [← hn] at hname ⊢
  exact Text.introduces_of_occurs (c := ' ') hname rfl (n.occurs_head.trans hscope)

theorem introduces_exportLine {name : String} (hname : Text.isIdentifierLine name = true) :
    Text.Introduces "export * as " (Text.readName name) (ModuleTree.exportLine name) :=
  Text.introduces_of_occurs (c := ' ') hname rfl
    (((Text.Occurs.refl _).append_right _).append_right _)

theorem Route.declares {c : Config} {r : Route} {wants : List Registration} {stub : String}
    (h : r.stubWithImports c = ⟨wants, .ok stub⟩) : Declares stub r.label := by
  obtain ⟨⟨f, n, hstub⟩, -⟩ := exists_stubOf_withImports h
  exact ⟨f, n, hstub.function.name, hstub.scope.name, hstub.text⟩

open ModuleTree

/-- A page that is written declares its routes, one after the other. -/
theorem ModuleTree.declares_of_page {t : ModuleTree} {c : Config}
    {title directory text : String} (hpage : (t.page c here title directory).1 = .ok text) :
    ∃ imports stubs, text = t.pageText title imports stubs ∧
      List.Forall₂ (fun r stub => Declares stub r.label) t.routes stubs := by
  by_cases hroutes : t.routes = []
  · have hnone : (t.page c here title directory).1 = .ok (t.pageText title "" []) :=
      page_of_no_routes hroutes
    refine ⟨"", [], Except.ok.inj (hpage.symm.trans hnone), ?_⟩
    rw [hroutes]
    exact .nil
  · obtain ⟨libraries, files, stubs, hstubs, -, htext, -⟩ :=
      page_imports_helper title hroutes hpage
    refine ⟨_, stubs, htext, (forall₂_of_stubs t c hstubs).imp ?_⟩
    rintro r stub ⟨wants, hstub, -⟩
    exact r.declares hstub

/-- What the modules of a client export, if it is generated without a failure: each module
below once, and each of their routes in order, all under the names that are read where they
are written.  These are all different if and only if no two routes clash. -/
theorem generate_exports {host : Host} {here : WorkingDirectory} {document : Value}
    {source : String} {routes : List Route}
    (haccept : RouteDocument.routes host document source = .ok routes) (c : Config)
    (disk : Disk) (hdone : (generate c here routes disk).fault = none) :
    ∃ t, ofRoutes routes = .ok t ∧
      (∀ m ∈ t.walk, Path.tidy (pagePath c.functionalDir m.1) ∈
          (generate c here routes disk).written ∧
        ∃ text imports stubs, (pageOf c here [] c.functionalDir m).2 = .ok text ∧
          text = m.2.pageText (moduleName rootName m.1) imports stubs ∧
          m.2.exportLines = m.2.childNames.map exportLine ∧ m.2.childNames.Nodup ∧
          (∀ name ∈ m.2.childNames,
            Text.Introduces "export * as " (Text.readName name) (exportLine name)) ∧
          (m.2.routes = routes.filter fun r => r.home = keyPath m.1) ∧
          List.Forall₂ (fun r stub => Declares stub r.label ∧
            Text.Introduces "export async function " r.readLabel stub ∧
            Text.Introduces "export namespace " r.readLabel stub) m.2.routes stubs) ∧
      ((∀ m ∈ t.walk, m.2.exportedNames.Nodup) ↔
        routes.Pairwise fun r r' => ¬ r.Clashes r') := by
  obtain ⟨t, ht, hsorts, hapart, hident⟩ :=
    exists_tree (RouteDocument.named_of_routes haccept)
  have hgenerate : generate c here routes disk = (t.generation c here).run disk := by
    rw [generate, ht]
  rw [hgenerate] at hdone ⊢
  obtain ⟨hwritten, hpages⟩ := hident.written_of_fault_none hsorts hapart hdone
  refine ⟨t, ht, fun m hm => ⟨?_, ?_⟩, hsorts.forall_nodup_exportedNames hapart hident⟩
  · rw [hwritten]
    exact mem_writtenPaths.mpr (Or.inl ⟨m, hm, rfl⟩)
  · obtain ⟨text, htext⟩ := hpages m hm
    obtain ⟨imports, stubs, hpage, hstubs⟩ := declares_of_page htext
    have hroutes := (hsorts.of_mem_walk hapart hm).1
    have hlabels : ∀ r ∈ m.2.routes, Text.isIdentifierLine r.label = true := fun r hr =>
      (RouteDocument.identifiers_of_routes haccept
        ((hsorts.mem_routes_iff hapart hm).mp hr).1).1
    refine ⟨text, imports, stubs, htext, hpage, m.2.exportLines_eq,
      hsorts.nodup_childNames hapart hident hm,
      fun name hname => introduces_exportLine (hident.childName hm hname), hroutes, ?_⟩
    exact ((List.forall₂_and_left _ _).mpr ⟨hlabels, hstubs⟩).imp
      fun r stub h => ⟨h.2, h.2.introduces h.1⟩

/-- A route beside a module, under another name, and two routes of one name in different
modules: no module exports a name twice. -/
theorem generate_exports_of_apart :
    let route (accessors : List String) (name : String) : Value :=
      .map [("name", .text name), ("method", .text "GET"), ("path", .text "/"),
        ("accessors", .list (accessors.map .text)), ("output", .map [("name", .text "void")])]
    let document : Value := .map [("version", .text "1"),
      ("routes", .list [route ["x", "y"] "y", route ["y"] "y", route ["z"] "z"])]
    let c : Config := { output := "src/api" }
    ∃ routes, RouteDocument.routes (.usual .root) document "routes.json" = .ok routes ∧
      (generate c .root routes {}).fault = none ∧
      ∃ t, ofRoutes routes = .ok t ∧ t.exportedNames = ["x", "y", "z"] ∧
        ∀ m ∈ t.walk, m.2.exportedNames.Nodup := by
  intro route document c
  have hall : (RouteDocument.routes (.usual .root) document
      "routes.json").toOption.any (fun routes =>
      decide (routes.Pairwise fun r r' => ¬ r.Clashes r') &&
        (ofRoutes routes).toOption.any fun t =>
          decide (t.Writable c .root ∧ t.exportedNames = ["x", "y", "z"])) = true := by
    decide +kernel
  obtain ⟨routes, haccept, hall⟩ := Except.exists_of_any hall
  obtain ⟨hclashes, hall⟩ := (Bool.and_eq_true _ _).mp hall
  obtain ⟨t, ht, hall⟩ := Except.exists_of_any hall
  obtain ⟨hwritable, hnames⟩ := of_decide_eq_true hall
  have hdone : (generate c .root routes {}).fault = none :=
    hwritable.fault_generate (RouteDocument.named_of_routes haccept) ht
  obtain ⟨t', ht', -, hexports⟩ := generate_exports haccept c {} hdone
  obtain rfl := Except.ok.inj (ht.symm.trans ht')
  exact ⟨routes, haccept, hdone, t, ht, hnames, hexports.mpr (of_decide_eq_true hclashes)⟩

/-- A route that has the name of a module beside it: the client is generated, but the page
of the root exports the name twice. -/
theorem exports_twice_of_shadows :
    let route (accessors : List String) : Value :=
      .map [("name", .text "x"), ("method", .text "GET"), ("path", .text "/"),
        ("accessors", .list (accessors.map .text)), ("output", .map [("name", .text "void")])]
    let document : Value := .map [("version", .text "1"),
      ("routes", .list [route ["x", "y"], route ["x"]])]
    let c : Config := { output := "src/api" }
    ∃ routes t, RouteDocument.routes (.usual .root) document "routes.json" = .ok routes ∧
      ofRoutes routes = .ok t ∧ (generate c .root routes {}).fault = none ∧
      t.exportedNames = ["x", "x"] ∧ ¬ ∀ m ∈ t.walk, m.2.exportedNames.Nodup := by
  intro route document c
  have hall : (RouteDocument.routes (.usual .root) document
      "routes.json").toOption.any (fun routes =>
      (ofRoutes routes).toOption.any fun t =>
        decide (t.Writable c .root ∧ t.exportedNames = ["x", "x"])) = true := by
    decide +kernel
  obtain ⟨routes, haccept, hall⟩ := Except.exists_of_any hall
  obtain ⟨t, ht, hall⟩ := Except.exists_of_any hall
  obtain ⟨hwritable, hnames⟩ := of_decide_eq_true hall
  have hdone : (generate c .root routes {}).fault = none :=
    hwritable.fault_generate (RouteDocument.named_of_routes haccept) ht
  refine ⟨routes, t, haccept, ht, hdone, hnames, fun hnodup => ?_⟩
  have hroot := hnodup ([], t) (root_mem_walk t)
  rw [hnames] at hroot
  exact absurd hroot (by decide)

end ClientSdk
