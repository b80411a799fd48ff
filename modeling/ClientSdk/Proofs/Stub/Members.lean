import ClientSdk.Proofs.Stub.Texts
import Mathlib.Data.List.Nodup

/-!
# The members of a namespace

The namespace of a stub declares types, the contract and functions.  The function of the stub
refers to them behind the name of the namespace, and they refer to each other by their own
names (`Refers`).  What is declared and what is referred to is decided in different places,
from the options, the parameters and the result of the route.

Both agree: whatever is referred to is declared, once, and nothing is declared that the route
does not have under the options (`Route.stub_closed`).
-/

namespace ClientSdk

open Text (Occurs)

/-! ## Declarations -/

/-- What a namespace can declare. -/
inductive Member where
  | input
  | output
  | contract
  | path
  | random
  | simulate
deriving DecidableEq, Repr

namespace Member

/-- All that a namespace can declare, in the order of the declarations. -/
def all : List Member := [.input, .output, .contract, .path, .random, .simulate]

/-- How the declaration begins: a type is declared as one, all else as a value. -/
def heading : Member → String
  | .input => "export type Input = "
  | .output => "export type Output = "
  | .contract => "export const METADATA = "
  | .path => "export const path = "
  | .random => "export const random = "
  | .simulate => "export const simulate = "

end Member

theorem PathFunction.exists_text (f : PathFunction) :
    ∃ rest, f.text = "export const path = " ++ rest := by
  rw [text]
  split <;> (simp only [String.append_assoc]; exact ⟨_, rfl⟩)

theorem RandomFunction.exists_text (f : RandomFunction) :
    ∃ rest, f.text = "export const random = " ++ rest := by
  refine ⟨signature ["g?: Partial<typia.IRandomGenerator>"] ++ (": " ++ (f.target ++ (" =>\n" ++
    Text.indent ("typia.random<" ++ f.target ++ ">(g);")))), ?_⟩
  simp only [← String.append_assoc]
  rfl

theorem SimulateFunction.exists_text (f : SimulateFunction) :
    ∃ rest, f.text = "export const simulate = " ++ rest := by
  rw [text]
  split <;> (simp only [String.append_assoc]; exact ⟨_, rfl⟩)

namespace StubNamespace

def declarations (n : StubNamespace) : List (Member × String) :=
  (n.input.map fun type => (.input, typeText "Input" type)).toList ++
    (n.output.map fun type => (.output, typeText "Output" type)).toList ++
    [(.contract, n.contract.text), (.path, n.path.text)] ++
    (n.random.map fun f => (.random, f.text)).toList ++
    (n.simulate.map fun f => (.simulate, f.text)).toList

def members (n : StubNamespace) : List Member :=
  n.declarations.map Prod.fst

def has (n : StubNamespace) : Member → Bool
  | .input => n.input.isSome
  | .output => n.output.isSome
  | .contract => true
  | .path => true
  | .random => n.random.isSome
  | .simulate => n.simulate.isSome

variable {n : StubNamespace}

theorem unlines_types (first second next : String) (blocks : List String) :
    Text.unlines (Text.unlines [first, second] :: next :: blocks) =
      Text.unlines (first :: second :: next :: blocks) := by
  refine String.toList_inj.mp ?_
  simp [Text.unlines, String.toList_intercalate]

theorem unlines_blocks (n : StubNamespace) :
    Text.unlines n.blocks = Text.unlines (n.declarations.map Prod.snd) := by
  obtain ⟨name, input, output, contract, path, random, simulate⟩ := n
  have hoption : ∀ {α : Type} (m : Member) (text : α → String) (o : Option α),
      (o.map fun a => (m, text a)).toList.map Prod.snd = (o.map text).toList := by
    intro α m text o
    cases o <;> rfl
  simp only [blocks, declarations, List.map_append, hoption, typeBlock]
  cases input <;> cases output
  · rfl
  · rfl
  · rfl
  · exact unlines_types _ _ _ _

theorem heading_of_mem {d : Member × String} (hd : d ∈ n.declarations) :
    ∃ rest, d.2 = d.1.heading ++ rest := by
  simp only [declarations, List.mem_append, Option.mem_toList,
    Option.map_eq_some_iff, List.mem_cons, List.not_mem_nil, or_false] at hd
  rcases hd with (((⟨type, -, rfl⟩ | ⟨type, -, rfl⟩) | rfl | rfl) | ⟨f, -, rfl⟩) | ⟨f, -, rfl⟩
  · exact ⟨type ++ ";", String.append_assoc⟩
  · exact ⟨type ++ ";", String.append_assoc⟩
  · exact ⟨_, String.append_assoc⟩
  · exact PathFunction.exists_text n.path
  · exact RandomFunction.exists_text f
  · exact SimulateFunction.exists_text f

theorem members_eq (n : StubNamespace) : n.members = Member.all.filter n.has := by
  obtain ⟨name, input, output, contract, path, random, simulate⟩ := n
  cases input <;> cases output <;> cases random <;> cases simulate <;> rfl

end StubNamespace

variable {c : Config} {r : Route} {wants : List Registration} {stub : String}
  {f : StubFunction} {n : StubNamespace}

/-- Whether a route has the member under the options: the types of its body and of its result,
a made-up result, and what simulates it. -/
def Route.has (c : Config) (r : Route) : Member → Bool
  | .input => r.body?.isSome
  | .output => c.propagate || !r.output.void
  | .contract => true
  | .path => true
  | .random => c.simulate && !r.output.void
  | .simulate => c.simulate

theorem NamespaceOf.has_eq (h : NamespaceOf c r wants n) (m : Member) : n.has m = r.has c m := by
  obtain ⟨more, houtput, -⟩ := h.output
  obtain ⟨others, hsimulation, -⟩ := h.simulation
  cases m with
  | input =>
      show n.input.isSome = r.body?.isSome
      cases hbody : r.body? with
      | none =>
          rw [h.no_input hbody]
          rfl
      | some body =>
          obtain ⟨asked, type, -, -, hinput⟩ := h.input body hbody
          rw [hinput]
          rfl
  | output =>
      show n.output.isSome = (c.propagate || !r.output.void)
      generalize n.output = output at houtput ⊢
      cases houtput with
      | propagated hpropagate _ => rw [hpropagate]; rfl
      | void hplain hvoid => rw [hplain, hvoid]; rfl
      | primitive hplain hfull _ _ => rw [hplain, hfull]; rfl
      | plain hplain hfull _ _ => rw [hplain, hfull]; rfl
  | contract => rfl
  | path => rfl
  | random =>
      show n.random.isSome = (c.simulate && !r.output.void)
      generalize n.random = random, n.simulate = simulate at hsimulation ⊢
      cases hsimulation with
      | off hoff => rw [hoff]; rfl
      | on hrandom hsimulate => rw [hsimulate.simulated, hrandom.isSome_eq]; rfl
  | simulate =>
      show n.simulate.isSome = c.simulate
      generalize n.random = random, n.simulate = simulate at hsimulation ⊢
      cases hsimulation with
      | off hoff => rw [hoff]; rfl
      | on _ hsimulate => rw [hsimulate.simulated]; rfl

/-! ## References -/

/-- Where a stub refers to a member of the namespace, with the text that it does it by: the
function behind the name of the namespace, in the types of its parameters and of its result, in
the options of its call and where it simulates the route; and the functions of the namespace by
the name alone, where they say what they return, ask for a check or make up a result. -/
inductive Refers (r : Route) (f : StubFunction) (n : StubNamespace) : Member → String → Prop
  | body {p : Parameter} : p ∈ r.parameters → p.category = .body →
      Refers r f n .input (p.label ++ ": " ++ f.name ++ ".Input")
  | promised : f.returns = f.name ++ ".Output" →
      Refers r f n .output ("Promise<" ++ f.returns ++ ">")
  | options : Refers r f n .contract ("..." ++ f.name ++ ".METADATA")
  | template : Refers r f n .contract ("template: " ++ f.name ++ ".METADATA.path")
  | location : Refers r f n .path ("path: " ++ f.name ++ ".path(")
  | simulated {code : Code} : f.simulate = some code → f.name ++ ".simulate" ∈ code.callees →
      Refers r f n .simulate (f.name ++ ".simulate(")
  | drawn {g : RandomFunction} : n.random = some g → g.target = "Output" →
      Refers r f n .output "typia.random<Output>(g)"
  | returned {g : SimulateFunction} : n.simulate = some g → g.result.isSome = true →
      Refers r f n .output ": Output => "
  | checked {g : SimulateFunction} : n.simulate = some g → g.assertions ≠ [] →
      Refers r f n .contract "method: METADATA.method"
  | located {g : SimulateFunction} : n.simulate = some g → g.assertions ≠ [] →
      Refers r f n .path "path: path("
  | made {g : SimulateFunction} {code : Code} : n.simulate = some g → g.result = some code →
      "random" ∈ code.callees → Refers r f n .random "random("

theorem Route.isSome_body?_of_mem {p : Parameter} (hp : p ∈ r.parameters)
    (hbody : p.category = .body) : r.body?.isSome = true := by
  have hmem : p ∈ r.parametersOf .body := List.mem_filter.mpr ⟨hp, by rw [hbody]; decide⟩
  rw [body?, List.isSome_head?]
  exact List.ne_nil_of_mem hmem

theorem Code.callees_madeUp : r.madeUp.callees = if r.output.void then [] else ["random"] := by
  unfold Route.madeUp
  split <;> rfl

theorem Route.random_mem_callees {code : Code} (h : r.simulated? c = some code) :
    "random" ∈ code.callees ↔ r.output.void = false := by
  have hmade : "random" ∈ r.madeUp.callees ↔ r.output.void = false := by
    rw [Code.callees_madeUp]
    cases r.output.void <;> decide
  rw [← hmade]
  unfold simulated? at h
  split at h
  · cases h
    simp [Code.callees, Code.entryCallees, Code.value]
  · split at h
    · cases h
    · cases h
      rfl

theorem Route.isSome_simulated? : (r.simulated? c).isSome = (c.propagate || !r.output.void) := by
  unfold simulated?
  cases c.propagate <;> cases r.output.void <;> rfl

/-! ## References are found -/

theorem StubFunction.occurs_returns (f : StubFunction) :
    Occurs ("Promise<" ++ f.returns ++ ">") f.text := by
  have hline : Occurs ("Promise<" ++ f.returns ++ ">") ("export async function " ++ f.name ++
      signature (f.parameters.map Binding.text) ++ ": Promise<" ++ f.returns ++ "> \x7b") :=
    ⟨("export async function " ++ f.name ++ signature (f.parameters.map Binding.text) ++
      ": ").toList, " \x7b".toList, by simp⟩
  exact hline.trans (Text.occurs_intercalate (by simp))

theorem SimulateFunction.occurs_returns {g : SimulateFunction} (hresult : g.result.isSome = true) :
    Occurs ": Output => " g.text := by
  have hhead : "export const simulate = " ++ signature (g.parameters.map Binding.text) ++ ": " ++
      (if g.result.isSome then "Output" else "void") ++ " => " =
        "export const simulate = " ++ signature (g.parameters.map Binding.text) ++
          ": Output => " := by
    rw [if_pos hresult, String.append_assoc, String.append_assoc]
    rfl
  rw [text, hhead]
  split
  · exact (((Occurs.refl _).append_left _).append_right _)
  · exact ((((Occurs.refl _).append_left _).append_right _).append_right _).append_right _

theorem RandomFunction.occurs_target {g : RandomFunction} (htarget : g.target = "Output") :
    Occurs "typia.random<Output>(g)" g.text := by
  have hcall : Occurs "typia.random<Output>(g)" ("typia.random<" ++ g.target ++ ">(g);") := by
    rw [htarget]
    exact ⟨[], [';'], by simp⟩
  exact (Text.occurs_indent (by decide) hcall).append_left _

theorem occurs_assertStatement {names : List String} {type : Value} {part : String}
    {callee : String} {entries : List CodeEntry} {e : CodeEntry} (hbreak : '\n' ∉ part.toList)
    (hcall : assertCall names type = .call callee [.object entries]) (he : e ∈ entries)
    (h : Occurs part e.text) : Occurs part (assertStatement names type) := by
  have hobject : Occurs part (assertCall names type).text := by
    rw [hcall]
    exact Code.occurs_argument hbreak List.mem_cons_self (Code.occurs_entry hbreak he h) _
  exact (hobject.append_left _).append_right _

theorem AssertionsOf.exists_cons {statements : List String} (h : AssertionsOf r statements)
    (hsome : statements ≠ []) :
    ∃ names type rest, statements = assertStatement names type :: rest := by
  cases h with
  | none _ => exact absurd rfl hsome
  | some _ _ => exact ⟨_, _, _, rfl⟩

theorem Route.has_output_of_returnType {name : String} (h : r.returnType c = name ++ ".Output") :
    r.has c .output = true := by
  show (c.propagate || !r.output.void) = true
  unfold returnType at h
  split at h
  · have hlength : "void".length = (name ++ ".Output").length := congrArg String.length h
    rw [String.length_append] at hlength
    change 4 = name.length + 7 at hlength
    omega
  · next hfull =>
      revert hfull
      cases c.propagate <;> cases r.output.void <;> decide

theorem FunctionOf.returned (h : FunctionOf c r wants f) :
    f.returns = f.name ++ ".Output" ∨ f.returns = "void" ∧ r.has c .output = false := by
  rw [h.returns, h.name, Route.returnType]
  show _ ∨ _ ∧ (c.propagate || !r.output.void) = false
  cases c.propagate <;> cases r.output.void <;> simp

/-- What is made up is the result that is declared, or what the document declares it to be. -/
theorem RandomOf.target {g : RandomFunction} (h : RandomOf c r (some g)) :
    g.target = "Output" ∨
      c.propagate = true ∧ ∃ more, r.output.text c false = ⟨more, .ok g.target⟩ := by
  cases h with
  | declared _ hpropagate htarget => exact .inr ⟨hpropagate, _, htarget⟩
  | member _ _ => exact .inl rfl

theorem Route.has_output_of_random (h : r.has c .random = true) : r.has c .output = true := by
  obtain ⟨-, hfull⟩ := (Bool.and_eq_true _ _).mp h
  show (c.propagate || !r.output.void) = true
  rw [hfull, Bool.or_true]

namespace StubOf

theorem occurs_checked (h : StubOf c r wants stub f n) {g : SimulateFunction}
    (hg : n.simulate = some g) (hsome : g.assertions ≠ []) {part : String}
    (hbreak : '\n' ∉ part.toList)
    (hpart : ∀ names type, Occurs part (assertStatement names type)) : Occurs part stub := by
  obtain ⟨names, type, rest, hcons⟩ := (h.scope.of_simulate hg).assertions.exists_cons hsome
  have hmem : assertStatement names type ∈ g.statements := by
    rw [SimulateFunction.statements, hcons]
    exact List.mem_cons_self
  exact h.occurs_scope (StubNamespace.occurs_simulate hg hbreak
    (SimulateFunction.occurs_statement hbreak hmem (hpart names type)))

/-- What a stub refers to is a member that the route has. -/
theorem has_of_refers (h : StubOf c r wants stub f n) {m : Member} {part : String}
    (href : Refers r f n m part) : r.has c m = true := by
  cases href with
  | body hp hbody => exact Route.isSome_body?_of_mem hp hbody
  | promised hreturns =>
      rw [h.function.returns] at hreturns
      exact Route.has_output_of_returnType hreturns
  | options | template | location | checked _ _ | located _ _ => rfl
  | simulated hcode _ =>
      show c.simulate = true
      rw [h.function.simulate] at hcode
      split at hcode
      · next hon => exact hon
      · cases hcode
  | drawn hg _ =>
      have hrandom : n.random.isSome = true := by rw [hg]; rfl
      exact Route.has_output_of_random ((h.scope.has_eq .random).symm.trans hrandom)
  | returned hg hresult =>
      show (c.propagate || !r.output.void) = true
      rw [← Route.isSome_simulated?, ← (h.scope.of_simulate hg).result]
      exact hresult
  | made hg hresult hcallee =>
      have hsimulated := (h.scope.of_simulate hg).result
      rw [hresult] at hsimulated
      have hfull := (Route.random_mem_callees hsimulated.symm).mp hcallee
      show (c.simulate && !r.output.void) = true
      rw [(h.scope.of_simulate hg).simulated, hfull]
      rfl

theorem exists_body (h : StubOf c r wants stub f n) {p : Parameter} (hp : p ∈ r.parameters)
    (hbody : p.category = .body) :
    ∃ b ∈ f.parameters, b.text = p.label ++ ": " ++ f.name ++ ".Input" := by
  obtain ⟨rest, hparameters, hbindings⟩ := h.function.bindings
  obtain ⟨b, hb, hname, more, htype, -⟩ := List.Forall₂.exists_of_mem hbindings hp
  have hinput : b.type = r.label ++ ".Input" := by
    rw [Route.parameterType, hbody] at htype
    exact (Draft.of_pure_eq htype).1.symm
  refine ⟨b, ?_, ?_⟩
  · rw [hparameters]
    exact List.mem_cons_of_mem _ hb
  · rw [Binding.text, hname, hinput, h.function.name, ← String.append_assoc]

/-- Where a stub refers to a member, the reference is found in it. -/
theorem occurs_of_refers (h : StubOf c r wants stub f n) {m : Member} {part : String}
    (href : Refers r f n m part) (hbreak : '\n' ∉ part.toList) : Occurs part stub := by
  have hroute : f.fetch.route = f.name := h.function.route.trans h.function.name.symm
  cases href with
  | body hp hbody =>
      obtain ⟨b, hb, htext⟩ := h.exists_body hp hbody
      rw [← htext] at hbreak ⊢
      exact h.occurs_function (StubFunction.occurs_parameter hbreak hb (Occurs.refl _))
  | promised _ => exact h.occurs_function f.occurs_returns
  | options =>
      refine h.occurs_function (StubFunction.occurs_option rfl hbreak List.mem_cons_self ?_)
      rw [CodeEntry.text, hroute, String.append_assoc]
      exact Occurs.refl _
  | template =>
      refine h.occurs_function (StubFunction.occurs_option rfl hbreak
        (List.mem_cons_of_mem _ List.mem_cons_self) ?_)
      rw [CodeEntry.text, hroute, String.append_assoc]
      exact Occurs.refl _
  | location =>
      refine h.occurs_function (StubFunction.occurs_option rfl hbreak
        (List.mem_cons_of_mem _ (List.mem_cons_of_mem _ List.mem_cons_self)) ?_)
      show Occurs _ ("path: " ++ (f.fetch.route ++ ".path(" ++ _ ++ ")"))
      rw [hroute, ← String.append_assoc, ← String.append_assoc, ← String.append_assoc]
      exact ((Occurs.refl _).append_right _).append_right _
  | simulated hcode hcallee =>
      refine h.occurs_function (StubFunction.occurs_simulation hcode hbreak ?_)
      have hopen : f.name ++ ".simulate(" = f.name ++ ".simulate" ++ "(" := by
        rw [String.append_assoc]
        rfl
      rw [hopen] at hbreak ⊢
      exact Code.occurs_of_mem_callees hbreak hcallee
  | drawn hg htarget =>
      exact h.occurs_scope (StubNamespace.occurs_random hg hbreak
        (RandomFunction.occurs_target htarget))
  | returned hg hresult =>
      exact h.occurs_scope (StubNamespace.occurs_simulate hg hbreak
        (SimulateFunction.occurs_returns hresult))
  | checked hg hsome =>
      refine h.occurs_checked hg hsome hbreak ?_
      intro names type
      exact occurs_assertStatement hbreak rfl List.mem_cons_self (Occurs.refl _)
  | located hg hsome =>
      refine h.occurs_checked hg hsome hbreak ?_
      intro names type
      refine occurs_assertStatement hbreak rfl
        (List.mem_cons_of_mem _ (List.mem_cons_of_mem _ List.mem_cons_self)) ?_
      show Occurs "path: path(" ("path: " ++ ("path(" ++ _ ++ ")"))
      rw [← String.append_assoc, ← String.append_assoc]
      exact ((Occurs.refl _).append_right _).append_right _
  | @made g code hg hresult hcallee =>
      have hmem : "return " ++ code.text ++ ";" ∈ g.statements := by
        rw [SimulateFunction.statements, hresult]
        exact List.mem_append_right _ List.mem_cons_self
      have hclosed : '\n' ∉ ("random" ++ "(").toList := hbreak
      have hcall : Occurs "random(" code.text := Code.occurs_of_mem_callees hclosed hcallee
      exact h.occurs_scope (StubNamespace.occurs_simulate hg hbreak
        (SimulateFunction.occurs_statement hbreak hmem ((hcall.append_left _).append_right _)))

end StubOf

/-! ## Namespaces are closed -/

/-- A namespace in which all is declared, once, that the function and the namespace itself
refer to, and just what the route has under the options.  No other result is promised, and none
is made up but that and what the document declares it to be. -/
structure Route.Closed (c : Config) (r : Route) (stub : String) (f : StubFunction)
    (n : StubNamespace) : Prop where
  name : n.name = f.name
  blocks : Text.unlines n.blocks = Text.unlines (n.declarations.map Prod.snd)
  headings : ∀ d ∈ n.declarations, ∃ rest, d.2 = d.1.heading ++ rest
  members : n.members = Member.all.filter (r.has c)
  declared : ∀ m part, Refers r f n m part → n.members.count m = 1
  returned : f.returns = f.name ++ ".Output" ∨ f.returns = "void" ∧ r.has c .output = false
  drawn : ∀ g, n.random = some g → g.target = "Output" ∨
    c.propagate = true ∧ ∃ more, r.output.text c false = ⟨more, .ok g.target⟩
  found : ∀ m part, Refers r f n m part → '\n' ∉ part.toList → Occurs part stub

/-- A stub that is written is a function and a namespace that is closed. -/
theorem Route.stub_closed {l : Ledger} (h : (l.fulfil (r.stub c)).1 = .ok stub) :
    ∃ f n, r.WrittenAs c stub f n ∧ r.Closed c stub f n := by
  obtain ⟨f, n, hwritten, hstub⟩ := exists_stubOf_fulfil h
  have hmembers : n.members = Member.all.filter (r.has c) := by
    rw [n.members_eq, funext hstub.scope.has_eq]
  refine ⟨f, n, hwritten, {
    name := hstub.scope.name.trans hstub.function.name.symm
    blocks := n.unlines_blocks
    headings := fun d hd => StubNamespace.heading_of_mem hd
    members := hmembers
    declared := ?_
    returned := hstub.function.returned
    drawn := fun g hg => (hstub.scope.of_random hg).target
    found := fun m part href hbreak => hstub.occurs_of_refers href hbreak }⟩
  intro m part href
  have hmem : m ∈ n.members := by
    rw [hmembers, List.mem_filter]
    exact ⟨by cases m <;> decide, hstub.has_of_refers href⟩
  refine List.count_eq_one_of_mem ?_ hmem
  rw [hmembers]
  exact List.filter_sublist.nodup (by decide)

/-- A route with a body behind another parameter, under all options, and one that takes and
returns nothing, under none. -/
theorem Route.stub_closed_of_routes :
    let store : Route :=
      { name := .text "store", method := "POST", path := .text "/things/:id",
        accessors := [.text "store"], output := { name := .text "IThing" },
        parameters := [
          { name := .text "id", category := .path, type := { name := .text "string" } },
          { name := .text "input", category := .body, type := { name := .text "IStore" } }] }
    let erase : Route :=
      { name := .text "erase", method := "DELETE", path := .text "/things",
        accessors := [.text "erase"], output := { name := .text "void" } }
    let every : Config := { output := "src/api", simulate := true, propagate := true }
    let plain : Config := { output := "src/api" }
    let l := Ledger.forFile .root "src/api/functional/index.ts"
    (∃ stub f n, (l.fulfil (store.stub every)).1 = .ok stub ∧
      store.WrittenAs every stub f n ∧ store.Closed every stub f n ∧
        n.members = Member.all ∧ n.members.count .input = 1) ∧
    ∃ stub f n, (l.fulfil (erase.stub plain)).1 = .ok stub ∧
      erase.WrittenAs plain stub f n ∧ erase.Closed plain stub f n ∧
        n.members = [.contract, .path] := by
  intro store erase every plain l
  have hstore : (l.fulfil (store.stub every)).1.toOption.any (fun _ => true) = true := by
    decide +kernel
  have herase : (l.fulfil (erase.stub plain)).1.toOption.any (fun _ => true) = true := by
    decide +kernel
  constructor
  · obtain ⟨stub, hstub, -⟩ := Except.exists_of_any hstore
    obtain ⟨f, n, hwritten, hclosed⟩ := stub_closed hstub
    refine ⟨stub, f, n, hstub, hwritten, hclosed, hclosed.members.trans (by decide), ?_⟩
    exact hclosed.declared _ _ (.body (List.mem_cons_of_mem _ List.mem_cons_self) rfl)
  · obtain ⟨stub, hstub, -⟩ := Except.exists_of_any herase
    obtain ⟨f, n, hwritten, hclosed⟩ := stub_closed hstub
    exact ⟨stub, f, n, hstub, hwritten, hclosed, hclosed.members.trans (by decide)⟩

end ClientSdk
