import ClientSdk.Generation
import ClientSdk.Proofs.ModuleTree.Location

/-!
# The plan of a tree

The plan of a module goes down the tree with directories that get longer; the walk
lists the modules with the names that lead to them.  Both come to the same: a plan
writes the pages of the walk, each into the directory that its names lead to, until
one of them fails, and ends with the fault of that one (`renders_plan`).

What a plan does on the way is `Orderly`: every file is written right after its
directory is made.
-/

namespace ClientSdk

/-! ## Pages in order -/

/-- The pages up to the first that fails, and its fault.  A page is given by the path of
its file and by its text, or why there is none. -/
def upToFault : List (String × Except Fault String) → List (String × String) × Option Fault
  | [] => ([], none)
  | (path, .ok text) :: pages => ((path, text) :: (upToFault pages).1, (upToFault pages).2)
  | (_, .error fault) :: _ => ([], some fault)

theorem upToFault_append (pages pages' : List (String × Except Fault String)) :
    upToFault (pages ++ pages') =
      match (upToFault pages).2 with
      | none => ((upToFault pages).1 ++ (upToFault pages').1, (upToFault pages').2)
      | some _ => upToFault pages := by
  induction pages with
  | nil => rfl
  | cons page pages ih =>
      obtain ⟨path, result⟩ := page
      cases result with
      | error fault => rfl
      | ok text =>
          simp only [List.cons_append, upToFault, ih]
          cases hfault : (upToFault pages).2 with
          | none => rfl
          | some fault => simp only [hfault]

/-- Either all pages have a text, or there is a first one that has none. -/
theorem upToFault_cases (pages : List (String × Except Fault String)) :
    ((upToFault pages).2 = none ∧
      pages = (upToFault pages).1.map fun file => (file.1, .ok file.2)) ∨
    ∃ path fault rest, (upToFault pages).2 = some fault ∧
      pages = (upToFault pages).1.map (fun file => (file.1, .ok file.2)) ++
        (path, .error fault) :: rest := by
  induction pages with
  | nil => exact Or.inl ⟨rfl, rfl⟩
  | cons page pages ih =>
      obtain ⟨path, result⟩ := page
      cases result with
      | error fault => exact Or.inr ⟨path, fault, pages, rfl, rfl⟩
      | ok text =>
          rcases ih with ⟨hnone, hall⟩ | ⟨path', fault, rest, hsome, hcut⟩
          · exact Or.inl ⟨hnone, congrArg ((path, Except.ok text) :: ·) hall⟩
          · exact Or.inr ⟨path', fault, rest, hsome,
              congrArg ((path, Except.ok text) :: ·) hcut⟩

theorem upToFault_of_ok {pages : List (String × Except Fault String)}
    (h : ∀ page ∈ pages, ∃ text, page.2 = .ok text) : (upToFault pages).2 = none := by
  rcases upToFault_cases pages with ⟨hnone, -⟩ | ⟨path, fault, rest, -, hcut⟩
  · exact hnone
  · obtain ⟨text, htext⟩ := h (path, .error fault) (by rw [hcut]; simp)
    exact nomatch htext

theorem mem_of_upToFault {pages : List (String × Except Fault String)}
    {file : String × String} (h : file ∈ (upToFault pages).1) :
    (file.1, .ok file.2) ∈ pages := by
  have hmem : (file.1, .ok file.2) ∈
      (upToFault pages).1.map fun file => (file.1, (.ok file.2 : Except Fault String)) :=
    List.mem_map_of_mem h
  rcases upToFault_cases pages with ⟨-, hall⟩ | ⟨path, fault, rest, -, hcut⟩
  · rw [hall]
    exact hmem
  · rw [hcut]
    exact List.mem_append_left _ hmem

/-! ## Plans -/

/-- Actions that write a file only right after its directory is made, and make no
directories but the given ones. -/
inductive Orderly (directories : String → Prop) : List Action → Prop
  | nil : Orderly directories []
  | report (event : Event) {actions : List Action} : Orderly directories actions →
      Orderly directories (.report event :: actions)
  | makeDirectory {path : String} {actions : List Action} : directories path →
      Orderly directories actions → Orderly directories (.makeDirectory path :: actions)
  | write {path : String} (text : String) {actions : List Action} :
      directories (Path.directory path) → Orderly directories actions →
      Orderly directories (.makeDirectory (Path.directory path) :: .write path text :: actions)

namespace Orderly

variable {directories : String → Prop} {actions actions' : List Action}

theorem append (h : Orderly directories actions) (h' : Orderly directories actions') :
    Orderly directories (actions ++ actions') := by
  induction h with
  | nil => exact h'
  | report event _ ih => exact .report event ih
  | makeDirectory hpath _ ih => exact .makeDirectory hpath ih
  | write text hpath _ ih => exact .write text hpath ih

theorem reports (events : List Event) : Orderly directories (events.map .report) := by
  induction events with
  | nil => exact .nil
  | cons event events ih => exact .report event ih

end Orderly

/-- The files that actions write, with their texts, in order. -/
def filesOf (actions : List Action) : List (String × String) :=
  actions.filterMap fun
    | .write path text => some (path, text)
    | _ => none

namespace Plan

/-- The files that a plan writes, with their texts, in order. -/
def files (p : Plan) : List (String × String) :=
  filesOf p.actions

/-- A plan that writes the given pages, up to the first that fails, and makes their
directories and the given ones. -/
structure Renders (p : Plan) (directories : String → Prop)
    (pages : List (String × Except Fault String)) : Prop where
  files : p.files = (upToFault pages).1
  fault : p.fault = (upToFault pages).2
  orderly : Orderly directories p.actions

variable {p q : Plan} {directories : String → Prop}
  {pages pages' : List (String × Except Fault String)}

theorem Renders.andThen (hp : p.Renders directories pages)
    (hq : q.Renders directories pages') :
    (p.andThen q).Renders directories (pages ++ pages') := by
  have hend := hp.fault
  cases hfault : p.fault with
  | some fault =>
      rw [hfault] at hend
      have hplan : p.andThen q = p := by rw [Plan.andThen, hfault]
      have hpages : upToFault (pages ++ pages') = upToFault pages := by
        rw [upToFault_append, ← hend]
      rw [hplan]
      exact ⟨hpages ▸ hp.files, hpages ▸ hp.fault, hp.orderly⟩
  | none =>
      rw [hfault] at hend
      have hplan : p.andThen q = { actions := p.actions ++ q.actions, fault := q.fault } := by
        rw [Plan.andThen, hfault]
      have hpages : upToFault (pages ++ pages') =
          ((upToFault pages).1 ++ (upToFault pages').1, (upToFault pages').2) := by
        rw [upToFault_append, ← hend]
      rw [hplan]
      refine ⟨?_, ?_, hp.orderly.append hq.orderly⟩
      · rw [hpages, ← hp.files, ← hq.files]
        exact List.filterMap_append
      · rw [hpages]
        exact hq.fault

theorem Renders.makeDirectory {path : String} (h : directories path) :
    (ofActions [.makeDirectory path]).Renders directories [] :=
  ⟨rfl, rfl, .makeDirectory h .nil⟩

theorem Renders.nil : (ofActions []).Renders directories [] :=
  ⟨rfl, rfl, .nil⟩

end Plan

namespace ModuleTree

/-! ## The pages of a tree -/

/-- The page of a module of the walk, in a tree that stands behind `keys` and in a
directory. -/
def pageOf (c : Config) (here : WorkingDirectory) (keys : List Scalar) (directory : String)
    (m : List Scalar × ModuleTree) : String × Except Fault String :=
  (pagePath directory m.1,
    (m.2.page c here (moduleName rootName (keys ++ m.1)) (directoryOf directory m.1)).1)

theorem renders_pagePlan (c : Config) (here : WorkingDirectory) (t : ModuleTree)
    (keys : List Scalar)
    {directory : String} {directories : String → Prop}
    (hdirectory : directories (Path.directory (Path.join directory indexFile))) :
    (t.pagePlan c here keys directory).Renders directories
      [pageOf c here keys directory ([], t)] := by
  have hpage : pageOf c here keys directory ([], t) = (Path.join directory indexFile,
      (t.page c here (moduleName rootName keys) directory).1) := by
    rw [pageOf, List.append_nil]
    rfl
  rw [hpage]
  unfold pagePlan
  cases t.page c here (moduleName rootName keys) directory with
  | mk result ledger =>
      have hreports : filesOf (ledger.events.map Action.report) = [] := by
        simp [filesOf, List.filterMap_map]
      cases result with
      | error fault => exact ⟨hreports, rfl, .reports _⟩
      | ok text =>
          refine ⟨?_, rfl, (Orderly.reports _).append
            (.write text hdirectory (.report _ .nil))⟩
          change filesOf (_ ++ writeActions _ text) = _
          rw [filesOf, List.filterMap_append, ← filesOf, hreports]
          rfl

/-- A plan writes the pages of the walk, each into the directory of its module. -/
theorem renders_plan (c : Config) (here : WorkingDirectory) {t : ModuleTree}
    (h : t.Identified) (keys : List Scalar) (directory : String) {directories : String → Prop}
    (hdirectories : ∀ m ∈ t.walk, directories (directoryOf directory m.1) ∧
      directories (Path.directory (pagePath directory m.1))) :
    (t.plan c here keys directory).Renders directories
      (t.walk.map (pageOf c here keys directory)) := by
  induction t using inductOn generalizing keys directory with
  | node children routes ih =>
      have hchildren : ∀ children' : List (Scalar × ModuleTree), children' ⊆ children →
          (planChildren c here keys directory children').Renders directories
            (children'.flatMap fun child => child.2.walk.map fun m =>
              pageOf c here keys directory (behind child.1 m)) := by
        intro children' hsub
        induction children' with
        | nil => exact .nil
        | cons child rest ihrest =>
            obtain ⟨k, node⟩ := child
            have hchild : (k, node) ∈ children := hsub List.mem_cons_self
            obtain ⟨s, hk, -⟩ := h.exists_text hchild
            change k = .text s at hk
            subst hk
            have hbelow := ih _ hchild (h.of_mem hchild) (keys ++ [.text s])
              (Path.join directory s) fun m hm =>
                hdirectories _ (behind_mem_walk hchild hm)
            have hpages : (node.walk.map fun m =>
                pageOf c here keys directory (behind (.text s) m)) =
                node.walk.map (pageOf c here (keys ++ [.text s]) (Path.join directory s)) := by
              refine List.map_congr_left fun m _ => ?_
              rw [pageOf, pageOf, List.append_assoc]
              rfl
            rw [planChildren, List.flatMap_cons, hpages]
            exact hbelow.andThen (ihrest fun m hm => hsub (List.mem_cons_of_mem _ hm))
      rw [plan, walk_mk, List.map_append, List.map_flatMap]
      simp only [List.map_map]
      have hroot := hdirectories ([], ⟨children, routes⟩) (root_mem_walk _)
      refine Plan.Renders.andThen ?_ (renders_pagePlan c here _ keys hroot.2)
      rw [← List.nil_append (List.flatMap _ _)]
      exact Plan.Renders.andThen (.makeDirectory hroot.1) (hchildren children fun _ hm => hm)

/-- The page of the helper, if some module needs it. -/
def helperPage (t : ModuleTree) (c : Config) : List (String × Except Fault String) :=
  if t.simulated c then [(c.simulatorFile, .ok (Simulator.source c))] else []

theorem eq_of_mem_helperPage {t : ModuleTree} {c : Config}
    {page : String × Except Fault String} (h : page ∈ t.helperPage c) :
    t.simulated c = true ∧ page = (c.simulatorFile, .ok (Simulator.source c)) := by
  unfold helperPage at h
  split at h
  · next hneeds => exact ⟨hneeds, List.mem_singleton.mp h⟩
  · exact absurd h List.not_mem_nil

/-- The plan of a client writes the pages of the walk and then the helper. -/
theorem renders_generation (c : Config) (here : WorkingDirectory) {t : ModuleTree}
    (h : t.Identified)
    {directories : String → Prop}
    (hdirectories : ∀ m ∈ t.walk, directories (directoryOf c.functionalDir m.1) ∧
      directories (Path.directory (pagePath c.functionalDir m.1)))
    (hhelper : t.simulated c = true → directories (Path.directory c.simulatorFile)) :
    (t.generation c here).Renders directories
      (t.walk.map (pageOf c here [] c.functionalDir) ++ t.helperPage c) := by
  have hplan : (t.simulatorPlan c).Renders directories (t.helperPage c) := by
    unfold simulatorPlan helperPage
    split
    · next hneeds => exact ⟨rfl, rfl, .write _ (hhelper hneeds) (.report _ .nil)⟩
    · exact .nil
  have hreport : ∀ event : Event,
      (Plan.ofActions [.report event]).Renders directories [] := fun event =>
    ⟨rfl, rfl, .report event .nil⟩
  have hall := ((renders_plan c here h [] c.functionalDir hdirectories).andThen hplan).andThen
    (hreport (.generated
      ((t.plan c here [] c.functionalDir).andThen (t.simulatorPlan c)).written.length c.output))
  rwa [List.append_nil] at hall

/-- The same, wherever the directories are. -/
theorem Identified.renders (c : Config) (here : WorkingDirectory) {t : ModuleTree}
    (h : t.Identified) :
    (t.generation c here).Renders (fun _ => True)
      (t.walk.map (pageOf c here [] c.functionalDir) ++ t.helperPage c) :=
  renders_generation c here h (fun _ _ => ⟨trivial, trivial⟩) fun _ => trivial

end ModuleTree

end ClientSdk
