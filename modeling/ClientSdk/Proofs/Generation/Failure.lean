import ClientSdk.Proofs.CommandLine
import ClientSdk.Proofs.Generation.Outputs

/-!
# Generations that fail

If a page cannot be rendered, the pages before it are on the disk, complete, and nothing
else has changed: the first page that fails in the order of the walk is the one whose
fault is reported (`Identified.run_of_failing`).  What any run leaves on the disk are
texts of whole pages, and a page knows nothing of the routes of other modules
(`generate_stops_at_first_failing`).

The disk has to take what is written.  If the directory of the tree cannot be made, the
run ends before any page is written, whatever the pages are (`generate_of_unmakeable`,
`unwritable_output_hides_failing`).
-/

namespace ClientSdk

open ModuleTree

namespace ModuleTree

variable {t : ModuleTree} {c : Config} {here : WorkingDirectory} {disk : Disk}

theorem generation_of_fault {fault : Fault}
    (h : (t.plan c here [] c.functionalDir).fault = some fault) :
    t.generation c here = t.plan c here [] c.functionalDir := by
  have hstop : ∀ q, (t.plan c here [] c.functionalDir).andThen q =
      t.plan c here [] c.functionalDir :=
    fun q => by rw [Plan.andThen, h]
  rw [generation, hstop, hstop]

/-- What is written if a page fails: the texts of the pages in front of the first such
page, and no other file. -/
theorem Identified.run_of_failing (h : t.Identified)
    (hdisk : Unobstructed disk c.output t.pageOutputs)
    (hfails : ∃ m ∈ t.walk, ∃ fault, (pageOf c here [] c.functionalDir m).2 = .error fault) :
    ∃ before m after fault files, t.walk = before ++ m :: after ∧
      before.map (pageOf c here [] c.functionalDir) =
        files.map (fun file => (file.1, .ok file.2)) ∧
      (pageOf c here [] c.functionalDir m).2 = .error fault ∧
      ((t.generation c here).run disk).fault = some fault ∧
      ((t.generation c here).run disk).disk.files = Table.insertAll disk.files (byPlace files) := by
  obtain ⟨hend, hfiles⟩ := h.run_plan hdisk
  have hrenders : (t.plan c here [] c.functionalDir).Renders (fun _ => True)
      (t.walk.map (pageOf c here [] c.functionalDir)) :=
    renders_plan c here h [] c.functionalDir fun _ _ => ⟨trivial, trivial⟩
  rcases upToFault_cases (t.walk.map (pageOf c here [] c.functionalDir)) with
    ⟨-, hall⟩ | ⟨path, fault, rest, hfault, hcut⟩
  · obtain ⟨m, hm, fault, herror⟩ := hfails
    have hmem : pageOf c here [] c.functionalDir m ∈
        t.walk.map (pageOf c here [] c.functionalDir) :=
      List.mem_map_of_mem hm
    rw [hall] at hmem
    obtain ⟨file, -, hfile⟩ := List.mem_map.mp hmem
    rw [← hfile] at herror
    exact nomatch herror
  · obtain ⟨before, others, hwalk, hbefore, hothers⟩ := List.map_eq_append_iff.mp hcut
    obtain ⟨m, after, hm, hpage, -⟩ := List.map_eq_cons_iff.mp hothers
    have hplan : t.generation c here = t.plan c here [] c.functionalDir :=
      generation_of_fault (hrenders.fault.trans hfault)
    rw [hplan]
    exact ⟨before, m, after, fault, _, hm ▸ hwalk, hbefore, by rw [hpage],
      hend.trans hfault, hfiles⟩

/-- The places of pages and of the helper that come later are no places of earlier
pages. -/
theorem Identified.not_mem_places (h : t.Identified)
    (hnodup : (t.walk.map fun m => keyPath m.1).Nodup)
    {before after : List (List Scalar × ModuleTree)} (hwalk : t.walk = before ++ after)
    {files : List (String × String)}
    (hfiles : before.map (pageOf c here [] c.functionalDir) =
      files.map fun file => (file.1, .ok file.2))
    {path : String} (hpath : path = c.simulatorFile ∨
      ∃ n ∈ after, path = pagePath c.functionalDir n.1) :
    Path.normalize path ∉ Table.keys (byPlace files) := by
  intro hmem
  obtain ⟨file, hfile, hplace⟩ : ∃ file ∈ files, Path.normalize file.1 = Path.normalize path := by
    simpa [Table.keys, byPlace] using hmem
  have hpage : (file.1, (.ok file.2 : Except Fault String)) ∈
      before.map (pageOf c here [] c.functionalDir) := by
    rw [hfiles]
    exact List.mem_map.mpr ⟨file, hfile, rfl⟩
  obtain ⟨m, hm, hsame⟩ := List.mem_map.mp hpage
  have hmwalk : m ∈ t.walk := hwalk ▸ List.mem_append_left _ hm
  rw [← (Prod.mk.inj hsame).1] at hplace
  change Path.normalize (pagePath c.functionalDir m.1) = _ at hplace
  rw [pagePath_functionalDir] at hplace
  rcases hpath with rfl | ⟨n, hn, rfl⟩
  · rw [Config.simulatorFile_eq] at hplace
    exact Output.helper_ne_page m.1
      ((h.plain hmwalk).eq_of_normalize Output.plain_helper hplace).symm
  · have hnwalk : n ∈ t.walk := hwalk ▸ List.mem_append_right _ hn
    rw [pagePath_functionalDir] at hplace
    have hnames := h.names_eq_of_page hmwalk hnwalk
      ((h.plain hmwalk).eq_of_normalize (h.plain hnwalk) hplace)
    rw [hwalk, List.map_append] at hnodup
    exact (List.nodup_append.mp hnodup).2.2 _ (List.mem_map_of_mem hm) _
      (List.mem_map_of_mem hn) (congrArg keyPath hnames)

theorem actions_andThen (p q : Plan) : p.actions <+: (p.andThen q).actions := by
  unfold Plan.andThen
  split
  · exact List.prefix_append _ _
  · exact List.prefix_rfl

theorem exists_actions_generation (t : ModuleTree) (c : Config) :
    ∃ rest, (t.generation c here).actions = .makeDirectory c.functionalDir :: rest := by
  obtain ⟨children, routes⟩ := t
  have hfirst : [Action.makeDirectory c.functionalDir] <+:
      (generation c here ⟨children, routes⟩).actions := by
    rw [generation, plan]
    exact (actions_andThen (Plan.ofActions [.makeDirectory c.functionalDir]) _).trans
      ((actions_andThen _ _).trans ((actions_andThen _ _).trans (actions_andThen _ _)))
  obtain ⟨rest, hrest⟩ := hfirst
  exact ⟨rest, hrest.symm⟩

theorem makeDirectory_of_long_output (disk : Disk) (hslash : '/' ∉ c.output.toList)
    (hnull : '\x00' ∉ c.output.toList)
    (hname : Disk.nameLimit < c.output.utf8ByteSize) :
    ∃ text, disk.makeDirectory c.functionalDir = .error (.disk (.nameTooLong text)) := by
  have hstep : Path.IsStep c.output := by
    refine ⟨fun heq => ?_, fun heq => ?_, hslash⟩
    · exact absurd (heq ▸ hname) (by decide)
    · exact absurd (heq ▸ hname) (by decide)
  have hfunctional : Path.IsStep "functional" := ⟨by decide, by decide, by decide⟩
  have hsteps : (Path.written c.functionalDir).steps = [c.output, "functional"] := by
    rw [Config.functionalDir, Path.written_join _ hfunctional]
    dsimp only
    rw [Path.steps_written_step hstep]
    rfl
  refine disk.makeDirectory_of_long ?_ hsteps (fun heq => ?_) hname
  · exact Output.not_mem_join (by decide) hnull (by decide)
  · exact absurd (heq ▸ hname) (by decide)

theorem generate_of_unmakeable {routes : List Route} (ht : ofRoutes routes = .ok t)
    {fault : Fault} (h : disk.makeDirectory c.functionalDir = .error fault) :
    (generate c here routes disk).fault = some fault ∧
      (generate c here routes disk).disk = disk := by
  obtain ⟨rest, hrest⟩ := exists_actions_generation t c
  have hfirst : Progress.act { disk } (.makeDirectory c.functionalDir) =
      { disk, fault := some fault } := by
    rw [Progress.act_of_none rfl]
    dsimp only
    rw [h]
  have hrun : (t.generation c here).actions.foldl Progress.act { disk } =
      { disk, fault := some fault } := by
    rw [hrest, List.foldl_cons, hfirst, Progress.foldl_act_of_fault rfl]
  rw [generate, ht]
  dsimp only
  rw [Plan.run, hrun]
  exact ⟨rfl, rfl⟩

/-- Whatever the disk is like, what a run writes are the texts of whole pages, and the
helper. -/
theorem Identified.files_of_run (h : t.Identified) (c : Config) (disk : Disk) :
    ∃ files, ((t.generation c here).run disk).disk.files =
        Table.insertAll disk.files (byPlace files) ∧
      ∀ file ∈ files, file = (c.simulatorFile, Simulator.source c) ∨
        ∃ m ∈ t.walk, pageOf c here [] c.functionalDir m = (file.1, .ok file.2) := by
  obtain ⟨files, hpre, hfiles, -, -⟩ := (t.generation c here).files_run disk
  refine ⟨files, hfiles, fun file hfile => ?_⟩
  have hmem := hpre.subset hfile
  rw [(h.renders c here).files] at hmem
  rcases List.mem_append.mp (mem_of_upToFault hmem) with hpage | hpage
  · obtain ⟨m, hm, hsame⟩ := List.mem_map.mp hpage
    exact Or.inr ⟨m, hm, hsame⟩
  · obtain ⟨hpath, htext⟩ := Prod.mk.inj (eq_of_mem_helperPage hpage).2
    exact Or.inl (Prod.ext hpath (Except.ok.inj htext))

end ModuleTree

/-- A generation stops at the first page that fails, and leaves the texts of the pages in
front of it; every text that a run leaves is that of a whole page, which depends on the
options, the names that lead to its module, the routes of the module and the names of the
modules below it; and a command that fails because of what it reads writes nothing. -/
theorem generate_stops_at_first_failing {routes : List Route}
    (haccessors : ∀ r ∈ routes,
      RouteDocument.grammar.violations (.list r.accessors) .accessors = []) (c : Config) :
    ∃ t, ofRoutes routes = .ok t ∧
      (∀ disk, Unobstructed disk c.output t.pageOutputs →
        (∃ m ∈ t.walk, ∃ fault, (pageOf c here [] c.functionalDir m).2 = .error fault) →
        ∃ before m after fault files, t.walk = before ++ m :: after ∧
          before.map (pageOf c here [] c.functionalDir) =
            files.map (fun file => (file.1, .ok file.2)) ∧
          (pageOf c here [] c.functionalDir m).2 = .error fault ∧
          (generate c here routes disk).fault = some fault ∧
          (generate c here routes disk).disk.files =
            Table.insertAll disk.files (byPlace files) ∧
          ∀ path, (path = c.simulatorFile ∨
              ∃ n ∈ m :: after, path = pagePath c.functionalDir n.1) →
            Table.get? (generate c here routes disk).disk.files (Path.normalize path) =
              Table.get? disk.files (Path.normalize path)) ∧
      (∀ disk, ∃ files, (generate c here routes disk).disk.files =
          Table.insertAll disk.files (byPlace files) ∧
        ∀ file ∈ files, file = (c.simulatorFile, Simulator.source c) ∨
          ∃ m ∈ t.walk, pageOf c here [] c.functionalDir m = (file.1, .ok file.2)) ∧
      (∀ m ∈ t.walk, ∀ node : ModuleTree,
        (node.routes = routes.filter fun r => r.home = keyPath m.1) →
        node.children.map Prod.fst = m.2.children.map Prod.fst →
        pageOf c here [] c.functionalDir (m.1, node) = pageOf c here [] c.functionalDir m) ∧
      ∀ (host : Host) (args : List String) (disk : Disk),
        ((CommandLine.run host args disk).ending = .exit 0 ∨
          (CommandLine.run host args disk).ending = .exit 2 ∨
          ∃ fault o,
            CommandLine.Fails host disk (CommandLine.Invocation.ofArguments args) fault ∧
            CommandLine.run host args disk = CommandLine.Outcome.withFault o fault) ∧
        ∀ fault, CommandLine.Fails host disk (CommandLine.Invocation.ofArguments args) fault →
          fault.OfInput → CommandLine.run host args disk =
            ({ disk } : CommandLine.Outcome).withFault fault := by
  have hnamed : ∀ r ∈ routes, r.Named := fun r hr =>
    RouteDocument.named_of_accessors (haccessors r hr)
  obtain ⟨t, ht, hsorts, hapart, hident⟩ := exists_tree hnamed
  have hgenerate : ∀ disk, generate c here routes disk = (t.generation c here).run disk := by
    intro disk
    rw [generate, ht]
  refine ⟨t, ht, fun disk hdisk hfails => ?_, fun disk => ?_, fun m hm node hroutes hnames => ?_,
    fun host args disk => ⟨CommandLine.ending_of_run host args disk, fun fault hfault hinput =>
      CommandLine.run_of_ofInput hfault hinput⟩⟩
  · obtain ⟨before, m, after, fault, files, hwalk, hbefore, herror, hend, hfiles⟩ :=
      hident.run_of_failing hdisk hfails
    rw [hgenerate]
    refine ⟨before, m, after, fault, files, hwalk, hbefore, herror, hend, hfiles, ?_⟩
    intro path hpath
    rw [hfiles]
    exact Table.get?_insertAll_of_not_mem
      (hident.not_mem_places (hsorts.nodup_walk hapart) hwalk hbefore hpath)
  · rw [hgenerate]
    exact hident.files_of_run c disk
  · have hsame : node.routes = m.2.routes :=
      hroutes.trans (hsorts.of_mem_walk hapart hm).1.symm
    rw [pageOf, pageOf, page_congr hsame hnames]

/-- Three routes, the second of which has imports that collide. -/
theorem generate_stops_at_colliding_module :
    let route (names : List String) (imports : List (String × List Value)) : Route :=
      { name := .text "r", method := "GET", path := .text "/r",
        accessors := names.map .text, output := { name := .text "void" }, imports }
    let routes := [route ["a", "x"] [],
      route ["b", "y"] [("A.ts", [.text "Foo"]), ("B.ts", [.text "Foo"])], route ["z"] []]
    let c : Config := { output := "src/api" }
    (∀ r ∈ routes,
      RouteDocument.grammar.violations (.list r.accessors) .accessors = []) ∧
      ∃ t fault text, ofRoutes routes = .ok t ∧ Unobstructed {} c.output t.pageOutputs ∧
        (generate c .root routes {}).fault = some fault ∧
        (generate c .root routes {}).disk.files = [("src/api/functional/a/index.ts", text)] := by
  intro route routes c
  have haccessors : ∀ r ∈ routes,
      RouteDocument.grammar.violations (.list r.accessors) .accessors = [] := by
    decide +kernel
  have hall : (ofRoutes routes).toOption.any (fun t =>
      decide (t.walk.map Prod.fst = [[.text "a"], [.text "b"], []] ∧
        (∀ m ∈ t.walk, (m.1 = [.text "a"] →
          m.2.Printable c .root (directoryOf c.functionalDir m.1)) ∧
          (m.1 = [.text "b"] →
            (pageOf c .root [] c.functionalDir m).2.toOption.isNone = true)) ∧
        ∀ o ∈ t.pageOutputs, (∀ s ∈ (Path.written (o.file c.output)).steps,
          s.utf8ByteSize ≤ Disk.nameLimit) ∧
            (Path.tidy (o.file c.output)).utf8ByteSize ≤ Disk.pathLimit)) = true := by
    decide +kernel
  obtain ⟨t, ht, hall⟩ := Except.exists_of_any hall
  obtain ⟨hwalk, hpages, hshort⟩ := of_decide_eq_true hall
  obtain ⟨t', ht', -, -, hident⟩ := exists_tree fun r hr =>
    RouteDocument.named_of_accessors (haccessors r hr)
  obtain rfl := Except.ok.inj (ht.symm.trans ht')
  obtain ⟨t', ht', hfailing, -⟩ := generate_stops_at_first_failing haccessors c
  obtain rfl := Except.ok.inj (ht.symm.trans ht')
  obtain ⟨a, rest, hmodules, ha, hrest⟩ := List.map_eq_cons_iff.mp hwalk
  obtain ⟨b, rest, rfl, hb, -⟩ := List.map_eq_cons_iff.mp hrest
  rw [hmodules] at hpages
  obtain ⟨text, htext⟩ : ∃ text, (pageOf c .root [] c.functionalDir a).2 = .ok text :=
    ((hpages a (by simp)).1 ha).exists_page _
  obtain ⟨fault, herror⟩ := Except.exists_of_isNone ((hpages b (by simp)).2 hb)
  have hdisk : Unobstructed {} c.output t.pageOutputs := by
    refine .of_empty (fun o ho => hident.plain_of_mem (c := c) (List.mem_append_left _ ho))
      ?_ ?_ hshort
    · decide +kernel
    · decide +kernel
  obtain ⟨before, m, after, fault', files, hcut, hbefore, hm, hend, hfiles, -⟩ :=
    hfailing {} hdisk ⟨b, by rw [hmodules]; simp, fault, herror⟩
  refine ⟨haccessors, t, fault', text, ht, hdisk, hend, ?_⟩
  have hok : ∀ n ∈ before, ∃ text, (pageOf c .root [] c.functionalDir n).2 = .ok text := by
    intro n hn
    have hpage : pageOf c .root [] c.functionalDir n ∈
        before.map (pageOf c .root [] c.functionalDir) :=
      List.mem_map_of_mem hn
    rw [hbefore] at hpage
    obtain ⟨file, -, hfile⟩ := List.mem_map.mp hpage
    exact ⟨file.2, by rw [← hfile]⟩
  -- The first module has a page and the second has none, so one page is in front.
  rw [hmodules] at hcut
  rcases before with _ | ⟨a', _ | ⟨b', before⟩⟩
  · obtain ⟨rfl, -⟩ := List.cons.inj hcut
    cases htext.symm.trans hm
  · obtain ⟨rfl, -⟩ := List.cons.inj hcut
    obtain ⟨file, rfl, hfile⟩ := List.map_eq_singleton_iff.mp hbefore.symm
    have hplace : Path.normalize (pagePath c.functionalDir a.1) =
        "src/api/functional/a/index.ts" := by
      rw [ha]
      decide +kernel
    have htext' : file.2 = text := by
      rw [← hfile] at htext
      exact Except.ok.inj htext
    have hpath : file.1 = pagePath c.functionalDir a.1 := congrArg Prod.fst hfile
    rw [hfiles, byPlace, List.map_singleton, htext', hpath, hplace]
    rfl
  · obtain ⟨rfl, hrest⟩ := List.cons.inj hcut
    obtain ⟨rfl, -⟩ := List.cons.inj hrest
    obtain ⟨text', htext'⟩ := hok b (by simp)
    cases htext'.symm.trans herror

/-- Imports that collide, below a root that no path can have and below one whose name is
too long: the page cannot be rendered, but it is the disk whose fault is reported. -/
theorem unwritable_output_hides_failing :
    let routes : List Route := [{
      name := .text "x", method := "GET", path := .text "/x", accessors := [.text "x"],
      output := { name := .text "void" },
      imports := [("A.ts", [.text "Foo"]), ("B.ts", [.text "Foo"])] }]
    (∀ r ∈ routes,
      RouteDocument.grammar.violations (.list r.accessors) .accessors = []) ∧
      ∃ t, ofRoutes routes = .ok t ∧ t.walk.map Prod.fst = [[]] ∧
        ∀ c : Config, c ∈ [{ output := "a\x00b" },
            { output := String.ofList (List.replicate 256 'a') }] →
          (∃ m ∈ t.walk, ∃ fault, (pageOf c .root [] c.functionalDir m).2 = .error fault ∧
            fault.IsCollision) ∧
          ∃ fault, (generate c .root routes {}).fault = some fault ∧ ¬ fault.IsCollision := by
  intro routes
  have hall : (ofRoutes routes).toOption.any (fun t =>
      decide (t.walk.map Prod.fst = [[]] ∧ ∀ m ∈ t.walk,
        ∀ c ∈ [({ output := "a\x00b" } : Config),
            { output := String.ofList (List.replicate 256 'a') }],
          ((ledgerAt .root (directoryOf c.functionalDir m.1)).registerAll
            (m.2.stubs c).wants).1.toOption.isNone = true)) = true := by
    decide +kernel
  obtain ⟨t, ht, hall⟩ := Except.exists_of_any hall
  obtain ⟨hwalk, hrefused⟩ := of_decide_eq_true hall
  refine ⟨by decide +kernel, t, ht, hwalk, fun c hc => ⟨?_, ?_⟩⟩
  · refine ⟨([], t), root_mem_walk t, ?_⟩
    have hcol : (ledgerAt .root (directoryOf c.functionalDir [])).Collides (t.stubs c).wants := by
      by_contra hcol
      obtain ⟨fault, hfault⟩ := Except.exists_of_isNone (hrefused _ (root_mem_walk t) c hc)
      rw [Ledger.registerAll_of_not_collides rfl hcol] at hfault
      exact absurd hfault nofun
    obtain ⟨fault, hcollision, herror⟩ : ∃ fault, fault.IsCollision ∧
        (pageOf c .root [] c.functionalDir ([], t)).2 = .error fault := page_of_collides hcol
    exact ⟨fault, herror, hcollision⟩
  · obtain ⟨fault, hmake, hfault⟩ : ∃ fault,
        ({} : Disk).makeDirectory c.functionalDir = .error fault ∧ ¬ fault.IsCollision := by
      rcases List.mem_cons.mp hc with rfl | hc
      · exact ⟨_, Disk.makeDirectory_of_null _ (by decide +kernel),
          fun ⟨_, _, _, _, h⟩ => nomatch h⟩
      · obtain rfl := List.mem_singleton.mp hc
        have hnot : ∀ d : Char, d ≠ 'a' →
            d ∉ (String.ofList (List.replicate 256 'a')).toList := by
          intro d hd hmem
          rw [String.toList_ofList] at hmem
          exact hd (List.eq_of_mem_replicate hmem)
        obtain ⟨text, hmake⟩ := makeDirectory_of_long_output
          (c := { output := String.ofList (List.replicate 256 'a') }) {}
          (hnot '/' (by decide)) (hnot '\x00' (by decide)) (by decide +kernel)
        exact ⟨_, hmake, fun ⟨_, _, _, _, h⟩ => nomatch h⟩
    exact ⟨fault, (generate_of_unmakeable ht hmake).1, hfault⟩

end ClientSdk
