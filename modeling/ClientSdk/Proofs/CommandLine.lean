import ClientSdk.CommandLine
import ClientSdk.Proofs.Generation.Faults

/-!
# How commands fail

A command fails where the options are read, where the document is read, where the client
is written, or where the routes are counted (`Fails`); every run that ends with a fault
ends with one of these (`ending_of_run`).  Nothing is written before all is read, and what
is written later on fails in other ways.  So a fault in the options or in the document
leaves the disk as it was (`run_of_ofInput`).
-/

namespace ClientSdk

theorem RouteDocument.exists_document {host : Host} {disk : Disk} {path : String}
    {routes : List Route}
    (h : load host disk path = .ok routes) :
    ∃ document source, RouteDocument.routes host document source = .ok routes := by
  obtain ⟨there, -, h⟩ := Except.bind_eq_ok_iff.mp h
  cases there with
  | false => exact nomatch h
  | true =>
      obtain ⟨text, -, htext⟩ := Except.bind_eq_ok_iff.mp h
      unfold ofText at htext
      split at htext
      · exact nomatch htext
      · exact nomatch htext
      · exact ⟨_, _, htext⟩

namespace CommandLine

variable {host : Host} {disk : Disk} {fault : Fault}

/-- The ways in which a command line comes to a fault on a disk. -/
inductive Fails (host : Host) (disk : Disk) : Invocation → Fault → Prop
  | level {command : Command} : Fails host disk (.run none command) wrongKind
  | options {level : Level} {a : GenerateArguments} {fault : Fault} :
      configFor host a disk = .error fault → Fails host disk (.run (some level) (.generate a)) fault
  | document {level : Level} {a : GenerateArguments} {config : Config} {fault : Fault} :
      configFor host a disk = .ok config → loadRoutes host disk a.routes = .error fault →
      Fails host disk (.run (some level) (.generate a)) fault
  | generation {level : Level} {a : GenerateArguments} {config : Config}
      {routes : List Route} {loaded : Event} {fault : Fault} :
      configFor host a disk = .ok config → loadRoutes host disk a.routes = .ok (routes, loaded) →
      (generate config host.here routes disk).fault = some fault →
      Fails host disk (.run (some level) (.generate a)) fault
  | report {level : Level} {path : OptionValue} {format : ReportFormat} {fault : Fault} :
      loadRoutes host disk path = .error fault →
      Fails host disk (.run (some level) (.report path format)) fault
  | summary {level : Level} {path : OptionValue} {format : ReportFormat}
      {routes : List Route} {loaded : Event} {fault : Fault} :
      loadRoutes host disk path = .ok (routes, loaded) →
      Summary.ofRoutes routes = .error fault →
      Fails host disk (.run (some level) (.report path format)) fault

theorem named_of_loadRoutes {path : OptionValue} {routes : List Route} {loaded : Event}
    (h : loadRoutes host disk path = .ok (routes, loaded)) : ∀ r ∈ routes, r.Named := by
  obtain ⟨file, -, h⟩ := Except.bind_eq_ok_iff.mp h
  obtain ⟨routes', hload, h⟩ := Except.bind_eq_ok_iff.mp h
  obtain ⟨rfl, -⟩ := Prod.mk.inj (Except.ok.inj h)
  obtain ⟨document, source, hroutes⟩ := RouteDocument.exists_document hload
  exact RouteDocument.named_of_routes hroutes

/-! ## What a command does -/

section Generate

variable {a : GenerateArguments} {config : Config} {routes : List Route} {loaded : Event}

theorem runGenerate_of_options (level : Level) (h : configFor host a disk = .error fault) :
    runGenerate host level a disk = ({ disk } : Outcome).withFault fault := by
  rw [runGenerate, h]
  rfl

theorem runGenerate_of_document (level : Level) (hconfig : configFor host a disk = .ok config)
    (h : loadRoutes host disk a.routes = .error fault) :
    runGenerate host level a disk = ({ disk } : Outcome).withFault fault := by
  rw [runGenerate, hconfig, h]
  rfl

theorem runGenerate_of_loaded (level : Level) (hconfig : configFor host a disk = .ok config)
    (hroutes : loadRoutes host disk a.routes = .ok (routes, loaded)) :
    ∃ o : Outcome, o.disk = (generate config host.here routes disk).disk ∧ o.ending = .exit 0 ∧
      runGenerate host level a disk = match (generate config host.here routes disk).fault with
        | some fault => o.withFault fault
        | none => { o with
            stdout := o.stdout ++ "[sdkgen] wrote " ++ toString
              (generate config host.here routes disk).written.length ++ " file(s)\n" } := by
  let progress := generate config host.here routes disk
  refine ⟨{
    disk := progress.disk
    stdout := "[sdkgen] " ++ toString routes.length ++ " route(s): " ++
      a.routes.getD "" ++ " -> " ++ config.functionalDir ++ "\n"
    stderr := some (eventLines level (loaded :: progress.events)) }, rfl, rfl, ?_⟩
  rw [runGenerate, hconfig, hroutes]
  rfl

end Generate

/-- A run is over as it should be, or it is misused, or it ends with a fault that it
comes to in one of the ways. -/
theorem ending_of_run (host : Host) (args : List String) (disk : Disk) :
    (run host args disk).ending = .exit 0 ∨ (run host args disk).ending = .exit 2 ∨
      ∃ fault o, Fails host disk (Invocation.ofArguments args) fault ∧
        run host args disk = Outcome.withFault o fault := by
  unfold run
  cases Invocation.ofArguments args with
  | stop reason =>
      cases reason with
      | version => exact Or.inl rfl
      | help => exact Or.inl rfl
      | invalid => exact Or.inr (Or.inl rfl)
  | run level? command =>
      cases level? with
      | none => exact Or.inr (Or.inr ⟨wrongKind, { disk }, .level, rfl⟩)
      | some level =>
          cases command with
          | generate a =>
              dsimp only
              cases hconfig : configFor host a disk with
              | error fault =>
                  exact Or.inr (Or.inr ⟨fault, _, .options hconfig,
                    runGenerate_of_options _ hconfig⟩)
              | ok config =>
                  cases hroutes : loadRoutes host disk a.routes with
                  | error fault =>
                      exact Or.inr (Or.inr ⟨fault, _, .document hconfig hroutes,
                        runGenerate_of_document _ hconfig hroutes⟩)
                  | ok parts =>
                      obtain ⟨routes, loaded⟩ := parts
                      obtain ⟨o, -, hending, hrun⟩ :=
                        runGenerate_of_loaded level hconfig hroutes
                      cases hfault : (generate config host.here routes disk).fault with
                      | none =>
                          rw [hfault] at hrun
                          exact Or.inl (by rw [hrun]; exact hending)
                      | some fault =>
                          rw [hfault] at hrun
                          exact Or.inr (Or.inr ⟨fault, o,
                            .generation hconfig hroutes hfault, hrun⟩)
          | report path format =>
              dsimp only
              cases hroutes : loadRoutes host disk path with
              | error fault =>
                  refine Or.inr (Or.inr ⟨fault, { disk }, .report hroutes, ?_⟩)
                  rw [runReport, hroutes]
              | ok parts =>
                  obtain ⟨routes, loaded⟩ := parts
                  rw [runReport, hroutes]
                  dsimp only
                  cases hsummary : Summary.ofRoutes routes with
                  | error fault =>
                      exact Or.inr (Or.inr ⟨fault, _, .summary hroutes hsummary, rfl⟩)
                  | ok summary => exact Or.inl rfl

/-- A command that fails because of the options or the document does nothing but report
the fault. -/
theorem run_of_ofInput {args : List String}
    (h : Fails host disk (Invocation.ofArguments args) fault) (hinput : fault.OfInput) :
    run host args disk = ({ disk } : Outcome).withFault fault := by
  unfold run
  generalize Invocation.ofArguments args = invocation at h ⊢
  cases h with
  | level => exact absurd hinput id
  | options hconfig => exact runGenerate_of_options _ hconfig
  | document hconfig hroutes => exact runGenerate_of_document _ hconfig hroutes
  | generation _ hroutes hfault =>
      exact absurd hinput (ofOutput_generate (named_of_loadRoutes hroutes) hfault).not_ofInput
  | report hroutes =>
      dsimp only
      rw [runReport, hroutes]
  | summary hroutes hsummary =>
      obtain ⟨t, ht, -⟩ := ModuleTree.exists_tree (named_of_loadRoutes hroutes)
      rw [Summary.ofRoutes, ht] at hsummary
      exact nomatch hsummary

end CommandLine

end ClientSdk
