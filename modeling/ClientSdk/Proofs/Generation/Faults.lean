import ClientSdk.Proofs.Generation.Run
import ClientSdk.Proofs.ModuleTree.Page

/-!
# How a generation fails

What is read can be at fault (`Fault.OfInput`), and so can be what is written.  A page
fails because of the data of its routes or because of its imports (`failsBy_page`), and
the disk fails because of a path or of what stands there (`failsBy_makeDirectory`,
`failsBy_write`).  So a generation never fails with a fault of what is read
(`ofOutput_generate`, `OfOutput.not_ofInput`): once the options and the routes are there,
nothing is wrong with them any more.
-/

namespace ClientSdk

open Except (FailsBy)

namespace Fault

def OfInput : Fault → Prop
  | .config _ | .configUnreadable _ | .invalidDocument _ _ | .documentUnreadable _ => True
  | _ => False

/-- A fault in what is written: the data of routes, the imports of a page, or the disk. -/
def OfOutput : Fault → Prop
  | .value _ | .unresolvedType _ | .importCollision _ _ _ _ | .ledgerClosed _ | .disk _ =>
      True
  | _ => False

variable {fault : Fault}

theorem OfOutput.not_ofInput (h : fault.OfOutput) : ¬ fault.OfInput := by
  intro hinput
  -- One of the two is false of each kind of fault.
  cases fault <;> first | exact h | exact hinput

theorem OfData.ofOutput (h : fault.OfData) : fault.OfOutput := by
  cases fault <;> trivial

theorem IsCollision.ofOutput (h : fault.IsCollision) : fault.OfOutput := by
  obtain ⟨_, _, _, _, rfl⟩ := h
  trivial

end Fault

/-! ## Pages -/

namespace Ledger

theorem failsBy_specifier (l : Ledger) (target : String) :
    (l.specifier target).FailsBy Fault.OfOutput := by
  unfold specifier
  split
  · exact .error trivial
  · exact .ok _

theorem failsBy_namedStatement (s : Supply) (source : String) (flag : Bool) :
    (s.namedStatement source flag).FailsBy Fault.OfOutput := by
  refine FailsBy.bind ?_ fun names => ?_
  · unfold Supply.namesOf
    split
    · exact .ok _
    · exact .error trivial
  · cases names <;> exact .ok _

theorem failsBy_blockOf (t : Table Supply) : (blockOf t).FailsBy Fault.OfOutput :=
  (FailsBy.mapM fun e _ => (failsBy_namedStatement e.2 e.1 false).bind fun _ =>
    (failsBy_namedStatement e.2 e.1 true).bind fun _ => .ok _).map _

theorem failsBy_statements (l : Ledger) : l.statements.FailsBy Fault.OfOutput := by
  refine (failsBy_blockOf _).bind fun _ => FailsBy.bind ?_ fun _ => ?_
  · exact FailsBy.foldlM (fun e _ _ => (l.failsBy_specifier e.1).bind fun _ => .ok _) _
  · exact (failsBy_blockOf _).bind fun _ => .ok _

theorem failsBy_toScript (l : Ledger) : l.toScript.1.FailsBy Fault.OfOutput := by
  unfold toScript
  split
  · exact .error trivial
  · exact l.failsBy_statements.map _

end Ledger

namespace ModuleTree

variable (t : ModuleTree) (c : Config) (here : WorkingDirectory) (name directory : String)

theorem failsBy_stubs : (t.stubs c).result.FailsBy Fault.OfOutput := by
  intro fault hfault
  rw [stubs_eq] at hfault
  have husual : (t.routeStubs c).Usual :=
    Draft.Keeps.mapM fun r _ => r.usual_stubWithImports c
  exact (husual.fails fault hfault).ofOutput

theorem failsBy_page : (t.page c here name directory).1.FailsBy Fault.OfOutput := by
  by_cases hcol : (ledgerAt here directory).Collides (t.stubs c).wants
  · have hrefused : ∃ fault, fault.IsCollision ∧
        (t.page c here name directory).1 = .error fault := page_of_collides hcol
    obtain ⟨fault, hcollision, herror⟩ := hrefused
    rw [herror]
    exact .error hcollision.ofOutput
  · rw [page_eq hcol]
    refine (t.failsBy_stubs c).bind fun stubs => ?_
    split
    · exact .ok _
    · exact (Ledger.failsBy_toScript _).bind fun _ => .ok _

end ModuleTree

/-! ## The disk -/

namespace Disk

variable (d : Disk) (path : String)

theorem failsBy_checkPath : (checkPath path).FailsBy Fault.OfOutput := by
  unfold checkPath
  split
  · exact .error trivial
  · exact .ok ()

theorem failsBy_makeDirectory : (d.makeDirectory path).FailsBy Fault.OfOutput := by
  refine (failsBy_checkPath path).bind fun _ => ?_
  dsimp only
  cases d.makeSteps (Path.written path).slashes (Path.written path).steps.reverse with
  | ok disk => exact .ok disk
  | error fault => exact .error trivial

theorem failsBy_write (text : String) : (d.write path text).FailsBy Fault.OfOutput := by
  refine (failsBy_checkPath path).bind fun _ => ?_
  dsimp only
  split
  · exact .error trivial
  · split
    · exact .error trivial
    · exact .error trivial
    · exact .ok _

end Disk

/-! ## Runs -/

theorem Progress.ofOutput_act {p : Progress} (h : ∀ fault, p.fault = some fault → fault.OfOutput)
    (a : Action) : ∀ fault, (p.act a).fault = some fault → fault.OfOutput := by
  cases hp : p.fault with
  | some fault =>
      rw [act_of_fault hp]
      exact h
  | none =>
      rw [act_of_none hp]
      cases a with
      | makeDirectory path =>
          dsimp only
          have hmake := p.disk.failsBy_makeDirectory path
          cases hresult : p.disk.makeDirectory path with
          | ok disk => exact h
          | error fault =>
              rintro _ ⟨⟩
              exact hmake fault hresult
      | write path text =>
          dsimp only
          have hwrite := p.disk.failsBy_write path text
          cases hresult : p.disk.write path text with
          | ok disk => exact h
          | error fault =>
              rintro _ ⟨⟩
              exact hwrite fault hresult
      | report event => exact h

theorem Progress.ofOutput_foldl_act {p : Progress}
    (h : ∀ fault, p.fault = some fault → fault.OfOutput) (actions : List Action) :
    ∀ fault, (actions.foldl act p).fault = some fault → fault.OfOutput := by
  induction actions generalizing p with
  | nil => exact h
  | cons a actions ih => exact ih (Progress.ofOutput_act h a)

namespace ModuleTree

variable {t : ModuleTree} {c : Config} {here : WorkingDirectory}

theorem Identified.ofOutput_generation (h : t.Identified) {fault : Fault}
    (hfault : (t.generation c here).fault = some fault) : fault.OfOutput := by
  rw [(h.renders c here).fault] at hfault
  rcases upToFault_cases (t.walk.map (pageOf c here [] c.functionalDir) ++ t.helperPage c) with
    ⟨hnone, -⟩ | ⟨path, fault', rest, hsome, hcut⟩
  · exact nomatch hfault.symm.trans hnone
  obtain rfl := Option.some.inj (hfault.symm.trans hsome)
  have hmem : (path, .error fault) ∈
      t.walk.map (pageOf c here [] c.functionalDir) ++ t.helperPage c := by
    rw [hcut]
    simp
  rcases List.mem_append.mp hmem with hmem | hmem
  · obtain ⟨m, -, hpage⟩ := List.mem_map.mp hmem
    exact m.2.failsBy_page c here _ _ fault (Prod.mk.inj hpage).2
  · exact nomatch (Prod.mk.inj (eq_of_mem_helperPage hmem).2).2

end ModuleTree

/-- A generation for routes with proper accessors fails because of what it writes. -/
theorem ofOutput_generate {routes : List Route} (hnamed : ∀ r ∈ routes, r.Named) {c : Config}
    {disk : Disk} {fault : Fault} (h : (generate c here routes disk).fault = some fault) :
    fault.OfOutput := by
  obtain ⟨t, ht, -, -, hident⟩ := ModuleTree.exists_tree hnamed
  rw [generate, ht] at h
  rcases Option.or_eq_some_iff.mp h with hrun | ⟨-, hplan⟩
  · exact Progress.ofOutput_foldl_act (p := { disk }) (fun _ h => nomatch h) _ fault hrun
  · exact hident.ofOutput_generation hplan

end ClientSdk
