import ClientSdk.Proofs.Ledger.Gains
import ClientSdk.Proofs.Stub.Wants

/-!
# The parts of a stub

A stub that is written has parts that are, and wants what they want.  Each function that
drafts a part is taken apart once: what the drafts it is made of give and want, and what
comes out of them.  Where the options decide between several ways, there is one constructor
for each of them (`InputOf`, `OutputOf`, `SimulationOf`).  All of it is put together in
`StubOf`, from which everything else that is said of stubs is read off.
-/

namespace ClientSdk

variable {c : Config} {r : Route} {wants : List Registration}

/-- Whether a type is written by its declared name: its structure is not known, or it is
not to be written out. -/
def NamedType.ByName (c : Config) (inline : Bool) (t : NamedType) : Prop :=
  t.shape.isNone = true ∨ (inline || c.clone) = false

instance (inline : Bool) (t : NamedType) : Decidable (t.ByName c inline) :=
  inferInstanceAs (Decidable (_ ∨ _))

theorem NamedType.text_of_byName {inline : Bool} {t : NamedType} (h : t.ByName c inline) :
    t.text c inline = ⟨[], .ok t.name.display⟩ := by
  unfold NamedType.text
  split
  · next shape hshape =>
      have hinline : (inline || c.clone) = false := h.resolve_left (by simp [hshape])
      simp only [hinline]
      rfl
  · rfl

/-- A type that is written out is drafted from its structure. -/
theorem NamedType.text_of_shape {inline : Bool} {type : NamedType} {shape : TypeShape}
    (hshape : type.shape = some shape) (hinline : (inline || c.clone) = true) :
    type.text c inline = TypeExpr.text <$> TypeExpr.ofShape c false shape := by
  unfold NamedType.text
  rw [hshape]
  exact if_pos hinline

/-! ## What the parts are made of -/

/-- How the type of a body comes about: wrapped, or as it is declared. -/
inductive InputOf (c : Config) (body : Parameter) : List Registration → String → Prop
  | resolved {wants : List Registration} {declared : String} : c.primitive = true →
      body.type.text c false = ⟨wants, .ok declared⟩ →
      InputOf c body (wants ++ [.fromLibrary c.fetcher "Resolved"])
        (wrapped "Resolved" declared)
  | plain {wants : List Registration} {declared : String} : c.primitive = false →
      body.type.text c false = ⟨wants, .ok declared⟩ → InputOf c body wants declared

/-- The types of all responses by status, if there is one status. -/
def envelopeType (status declared : String) : String :=
  "\x7b\n" ++ Text.indent (status ++ ": " ++ declared ++ ";") ++ "\n\x7d"

/-- The types of all responses of a route, by status. -/
def Route.envelope (r : Route) (declared : String) : String :=
  envelopeType r.propagatedStatus.display declared

/-- How the type of a result comes about: in an envelope, not at all, wrapped, or as it is
declared. -/
inductive OutputOf (c : Config) (r : Route) : List Registration → Option String → Prop
  | propagated {wants : List Registration} {declared : String} : c.propagate = true →
      r.output.text c false = ⟨wants, .ok declared⟩ →
      OutputOf c r (.fromLibrary c.fetcher "IPropagation" :: wants)
        (some (wrapped "IPropagation" (r.envelope declared)))
  | void : c.propagate = false → r.output.void = true → OutputOf c r [] none
  | primitive {wants : List Registration} {declared : String} : c.propagate = false →
      r.output.void = false → c.primitive = true →
      r.output.text c false = ⟨wants, .ok declared⟩ →
      OutputOf c r (wants ++ [.fromLibrary c.fetcher "Primitive"])
        (some (wrapped "Primitive" declared))
  | plain {wants : List Registration} {declared : String} : c.propagate = false →
      r.output.void = false → c.primitive = false →
      r.output.text c false = ⟨wants, .ok declared⟩ → OutputOf c r wants (some declared)

/-- How parameters of the route become those of a function: each under its name, with the
type that is drafted for it. -/
def ParametersOf (c : Config) (r : Route) (wants : List Registration) (ps : List Parameter)
    (bindings : List Binding) : Prop :=
  List.Forall₂ (fun p b => b.name = p.label ∧
    ∃ more, r.parameterType c p = ⟨more, .ok b.type⟩ ∧ more ⊆ wants) ps bindings

/-- How the parameters of a function come about: the connection, and then the parameters of
the route. -/
def BindingsOf (c : Config) (r : Route) (wants : List Registration)
    (bindings : List Binding) : Prop :=
  ∃ rest, bindings = { name := "connection", type := "IConnection" } :: rest ∧
    ParametersOf c r wants r.parameters rest

/-- The call that begins the checks of a simulation. -/
def assertCall (names : List String) (type : Value) : Code :=
  .call "NestiaSimulator.assert" [.object [
    .field "method" (.plain "METADATA.method"),
    .field "host" (.plain "connection.host"),
    .field "path" (.plain ("path(" ++ ", ".intercalate names ++ ")")),
    .field "contentType" (.value type)]]

/-- The statement that begins the checks of a simulation. -/
def assertStatement (names : List String) (type : Value) : String :=
  "const assert = " ++ (assertCall names type).text ++ ";"

/-- How the checks of a simulation come about: there are some if there are parameters. -/
inductive AssertionsOf (r : Route) : List String → Prop
  | none : r.parameters = [] → AssertionsOf r []
  | some {names : List String} : r.parameters ≠ [] → r.locationNames = .ok names →
      AssertionsOf r
        (assertStatement names (r.requestType?.getD (.text (contentTypeFor false))) ::
          r.parameters.map Parameter.assertion)

/-- How the function that simulates a route comes about. -/
structure SimulateOf (c : Config) (r : Route) (wants : List Registration)
    (f : SimulateFunction) : Prop where
  simulated : c.simulate = true
  assertions : AssertionsOf r f.assertions
  bindings : BindingsOf c r wants f.parameters
  result : f.result = r.simulated? c
  wants_typia : .typia ∈ wants

/-- How the function that makes up results comes about, if there are any: it makes what the
namespace declares or, if that is an envelope, what is in it. -/
inductive RandomOf (c : Config) (r : Route) : Option RandomFunction → Prop
  | void : r.output.void = true → RandomOf c r none
  | declared {more : List Registration} {target : String} : r.output.void = false →
      c.propagate = true → r.output.text c false = ⟨more, .ok target⟩ →
      RandomOf c r (some { target })
  | member : r.output.void = false → c.propagate = false →
      RandomOf c r (some { target := "Output" })

/-- How the functions of a simulation come about, if there are any. -/
inductive SimulationOf (c : Config) (r : Route) :
    List Registration → Option RandomFunction → Option SimulateFunction → Prop
  | off : c.simulate = false → SimulationOf c r [] none none
  | on {wants : List Registration} {random : Option RandomFunction} {f : SimulateFunction} :
      RandomOf c r random → SimulateOf c r wants f → SimulationOf c r wants random (some f)

theorem RandomOf.isSome_eq {random : Option RandomFunction} (h : RandomOf c r random) :
    random.isSome = !r.output.void := by
  cases h with
  | void hvoid => rw [hvoid]; rfl
  | declared hfull _ _ => rw [hfull]; rfl
  | member hfull _ => rw [hfull]; rfl

theorem ParametersOf.mono {more : List Registration} {ps : List Parameter}
    {bindings : List Binding} (h : ParametersOf c r wants ps bindings) (hsub : wants ⊆ more) :
    ParametersOf c r more ps bindings := by
  refine h.imp ?_
  rintro p b ⟨hname, asked, htype, hasked⟩
  exact ⟨hname, asked, htype, List.Subset.trans hasked hsub⟩

theorem ParametersOf.names_eq {ps : List Parameter} {bindings : List Binding}
    (h : ParametersOf c r wants ps bindings) :
    bindings.map Binding.name = ps.map Parameter.label := by
  induction h with
  | nil => rfl
  | cons hb _ ih => rw [List.map_cons, List.map_cons, hb.1, ih]

theorem BindingsOf.mono {more : List Registration} {bindings : List Binding}
    (h : BindingsOf c r wants bindings) (hsub : wants ⊆ more) :
    BindingsOf c r more bindings := by
  obtain ⟨rest, hbindings, hall⟩ := h
  exact ⟨rest, hbindings, hall.mono hsub⟩

theorem BindingsOf.names_eq {bindings : List Binding} (h : BindingsOf c r wants bindings) :
    bindings.map Binding.name = "connection" :: r.parameters.map Parameter.label := by
  obtain ⟨rest, rfl, hall⟩ := h
  rw [List.map_cons, hall.names_eq]

theorem SimulateOf.mono {more : List Registration} {f : SimulateFunction}
    (h : SimulateOf c r wants f) (hsub : wants ⊆ more) : SimulateOf c r more f :=
  { h with
    bindings := h.bindings.mono hsub
    wants_typia := hsub h.wants_typia }

/-- How the function of a stub comes about. -/
structure FunctionOf (c : Config) (r : Route) (wants : List Registration)
    (f : StubFunction) : Prop where
  name : f.name = r.label
  fetcher : f.fetch.fetcher = r.fetcherName
  route : f.fetch.route = r.label
  connection : f.fetch.connection = r.connectionCode
  location : r.locationNames = .ok f.fetch.locationNames
  body : f.fetch.body = r.body?.map Parameter.label
  returns : f.returns = r.returnType c
  simulate : f.simulate = if c.simulate then some (Code.call (r.label ++ ".simulate")
    (.plain "connection" :: r.parameters.map fun p => .plain p.label)) else none
  bindings : BindingsOf c r wants f.parameters
  wants_fetcher : .fetcher c r.fetcherName ∈ wants
  wants_connection : .fromLibrary c.fetcher "IConnection" ∈ wants

/-- How the function that builds a location comes about. -/
structure PathOf (c : Config) (r : Route) (wants : List Registration) (f : PathFunction) :
    Prop where
  parameters : ParametersOf c r wants r.locationParameters f.parameters
  location : r.location = .ok f.location
  queries : f.queries = r.parametersOf .query

theorem PathOf.mono {more : List Registration} {f : PathFunction} (h : PathOf c r wants f)
    (hsub : wants ⊆ more) : PathOf c r more f where
  parameters := h.parameters.mono hsub
  location := h.location
  queries := h.queries

/-- How the namespace of a stub comes about. -/
structure NamespaceOf (c : Config) (r : Route) (wants : List Registration)
    (n : StubNamespace) : Prop where
  name : n.name = r.label
  contract : n.contract = r.contract
  path : PathOf c r wants n.path
  input : ∀ body, r.body? = some body →
    ∃ more type, InputOf c body more type ∧ more ⊆ wants ∧ n.input = some type
  no_input : r.body? = none → n.input = none
  output : ∃ more, OutputOf c r more n.output ∧ more ⊆ wants
  simulation : ∃ more, SimulationOf c r more n.random n.simulate ∧ more ⊆ wants

/-- What the stub of a route is the text of: the function and the namespace that are drafted
for the route. -/
structure Route.WrittenAs (c : Config) (r : Route) (stub : String) (f : StubFunction)
    (n : StubNamespace) : Prop where
  function : (r.stubFunction c).result = .ok f
  scope : (r.stubNamespace c).result = .ok n
  text : stub = Text.unlines [f.text, n.text]

/-- How a stub comes about. -/
structure StubOf (c : Config) (r : Route) (wants : List Registration) (stub : String)
    (f : StubFunction) (n : StubNamespace) : Prop where
  text : stub = Text.unlines [f.text, n.text]
  function : FunctionOf c r wants f
  scope : NamespaceOf c r wants n

namespace Route

open Draft

/-! ## Drafts that give something -/

theorem inputOf {body : Parameter} {type : String}
    (h : inputType c body = ⟨wants, .ok type⟩) : InputOf c body wants type := by
  obtain ⟨first, declared, rest, hdeclared, hrest, rfl⟩ := of_bind_eq h
  split at hrest
  · next hprimitive =>
      obtain ⟨asked, wrapper, last, hwrapper, hlast, rfl⟩ := of_bind_eq hrest
      obtain ⟨rfl, rfl⟩ := of_want_eq hwrapper
      obtain ⟨rfl, rfl⟩ := of_pure_eq hlast
      exact .resolved hprimitive hdeclared
  · next hprimitive =>
      obtain ⟨rfl, rfl⟩ := of_pure_eq hrest
      rw [List.append_nil]
      exact .plain (by simpa using hprimitive) hdeclared

theorem outputOf {output : Option String} (h : r.outputType? c = ⟨wants, .ok output⟩) :
    OutputOf c r wants output := by
  unfold outputType? at h
  split at h
  · next hpropagate =>
      obtain ⟨asked, wrapper, rest, hwrapper, hrest, rfl⟩ := of_bind_eq h
      obtain ⟨rfl, rfl⟩ := of_want_eq hwrapper
      obtain ⟨first, declared, last, hdeclared, hlast, rfl⟩ := of_bind_eq hrest
      obtain ⟨rfl, rfl⟩ := of_pure_eq hlast
      rw [List.append_nil]
      exact .propagated hpropagate hdeclared
  next hpropagate =>
  have hplain : c.propagate = false := by simpa using hpropagate
  split at h
  · next hvoid =>
      obtain ⟨rfl, rfl⟩ := of_pure_eq h
      exact .void hplain hvoid
  next hvoid =>
  have hfull : r.output.void = false := by simpa using hvoid
  split at h
  · next hprimitive =>
      obtain ⟨first, declared, rest, hdeclared, hrest, rfl⟩ := of_bind_eq h
      obtain ⟨asked, wrapper, last, hwrapper, hlast, rfl⟩ := of_bind_eq hrest
      obtain ⟨rfl, rfl⟩ := of_want_eq hwrapper
      obtain ⟨rfl, rfl⟩ := of_pure_eq hlast
      exact .primitive hplain hfull hprimitive hdeclared
  · next hprimitive =>
      obtain ⟨first, declared, rest, hdeclared, hrest, rfl⟩ := of_bind_eq h
      obtain ⟨rfl, rfl⟩ := of_pure_eq hrest
      rw [List.append_nil]
      exact .plain hplain hfull (by simpa using hprimitive) hdeclared

theorem parametersOf_eq {ps : List Parameter} {bindings : List Binding}
    (h : r.bindings c ps = ⟨wants, .ok bindings⟩) : ParametersOf c r wants ps bindings := by
  refine (forall₂_of_mapM h).imp ?_
  rintro p b ⟨more, hb, hmore⟩
  obtain ⟨asked, type, _, htype, hend, rfl⟩ := of_bind_eq hb
  obtain ⟨rfl, rfl⟩ := of_pure_eq hend
  rw [List.append_nil] at hmore
  exact ⟨rfl, asked, htype, hmore⟩

theorem bindingsOf {bindings : List Binding}
    (h : r.allBindings c = ⟨wants, .ok bindings⟩) :
    BindingsOf c r wants bindings ∧ .fromLibrary c.fetcher "IConnection" ∈ wants := by
  obtain ⟨asked, connection, more, hconnection, hmore, rfl⟩ := of_bind_eq h
  obtain ⟨rfl, rfl⟩ := of_want_eq hconnection
  obtain ⟨first, rest, last, hrest, hlast, rfl⟩ := of_bind_eq hmore
  obtain ⟨rfl, rfl⟩ := of_pure_eq hlast
  refine ⟨⟨rest, rfl, (parametersOf_eq hrest).mono ?_⟩, List.mem_cons_self⟩
  intro w hw
  simp [hw]

theorem functionOf {f : StubFunction} (h : r.stubFunction c = ⟨wants, .ok f⟩) :
    FunctionOf c r wants f := by
  obtain ⟨first, bindings, rest, hbindings, hrest, rfl⟩ := of_bind_eq h
  obtain ⟨second, fetch, more, hfetch, hmore, rfl⟩ := of_bind_eq hrest
  obtain ⟨third, comment, last, -, hlast, rfl⟩ := of_bind_eq hmore
  obtain ⟨rfl, -⟩ := of_pure_eq hlast
  obtain ⟨asked, fetcher, others, hfetcher, hothers, rfl⟩ := of_bind_eq hfetch
  obtain ⟨rfl, rfl⟩ := of_want_eq hfetcher
  obtain ⟨_, names, _, hnames, hend, -⟩ := of_bind_eq hothers
  obtain ⟨rfl, -⟩ := of_pure_eq hend
  obtain ⟨hparameters, hconnection⟩ := bindingsOf hbindings
  exact {
    name := rfl
    fetcher := rfl
    route := rfl
    connection := rfl
    location := (of_lift_eq hnames).1
    body := rfl
    returns := rfl
    simulate := rfl
    bindings := hparameters.mono (List.subset_append_left _ _)
    wants_fetcher := by simp [Registration.fetcher, Registration.fromLibrary]
    wants_connection := List.mem_append_left _ hconnection }

theorem randomOf {random : Option RandomFunction}
    (h : r.randomFunction? c = ⟨wants, .ok random⟩) : RandomOf c r random := by
  unfold randomFunction? at h
  split at h
  · next hvoid =>
      obtain ⟨rfl, -⟩ := of_pure_eq h
      exact .void hvoid
  next hvoid =>
  have hfull : r.output.void = false := by simpa using hvoid
  split at h
  · next hpropagate =>
      obtain ⟨_, target, _, htarget, hlast, -⟩ := of_bind_eq h
      obtain ⟨rfl, -⟩ := of_pure_eq hlast
      exact .declared hfull hpropagate htarget
  · next hpropagate =>
      obtain ⟨rfl, -⟩ := of_pure_eq h
      exact .member hfull (by simpa using hpropagate)

theorem assertionsOf {statements : List String} (h : r.assertions = .ok statements) :
    AssertionsOf r statements := by
  unfold assertions at h
  split at h
  · next hnone =>
      cases h
      exact .none (List.isEmpty_iff.mp hnone)
  · next hsome =>
      obtain ⟨names, hnames, hstatements⟩ := Except.bind_eq_ok_iff.mp h
      cases hstatements
      exact .some (fun hnil => hsome (List.isEmpty_iff.mpr hnil)) hnames

theorem simulateOf {f : SimulateFunction} (hon : c.simulate = true)
    (h : r.simulateFunction c = ⟨wants, .ok f⟩) : SimulateOf c r wants f := by
  obtain ⟨asked, typia, rest, htypia, hrest, rfl⟩ := of_bind_eq h
  obtain ⟨-, rfl⟩ := of_want_eq htypia
  obtain ⟨second, bindings, more, hbindings, hmore, rfl⟩ := of_bind_eq hrest
  obtain ⟨third, assertions, last, hassertions, hlast, rfl⟩ := of_bind_eq hmore
  obtain ⟨rfl, -⟩ := of_pure_eq hlast
  exact {
    simulated := hon
    assertions := assertionsOf (of_lift_eq hassertions).1
    bindings := (bindingsOf hbindings).1.mono fun w hw => by simp [hw]
    result := rfl
    wants_typia := List.mem_cons_self }

theorem pathOf {f : PathFunction} (h : r.pathFunction c = ⟨wants, .ok f⟩) :
    PathOf c r wants f := by
  obtain ⟨first, bindings, rest, hbindings, hrest, rfl⟩ := of_bind_eq h
  obtain ⟨second, location, last, hlocation, hlast, rfl⟩ := of_bind_eq hrest
  obtain ⟨rfl, -⟩ := of_pure_eq hlast
  exact ⟨(parametersOf_eq hbindings).mono (List.subset_append_left _ _),
    (of_lift_eq hlocation).1, rfl⟩

theorem namespaceOf {n : StubNamespace} (h : r.stubNamespace c = ⟨wants, .ok n⟩) :
    NamespaceOf c r wants n := by
  unfold stubNamespace at h
  extract_lets scope at h
  -- All but the type of the body, which is drafted first.
  have hscope : ∀ {rest : List Registration} {input : Option String},
      scope input = ⟨rest, .ok n⟩ → (n.name = r.label ∧ n.contract = r.contract) ∧
        n.input = input ∧ PathOf c r rest n.path ∧
        (∃ more, OutputOf c r more n.output ∧ more ⊆ rest) ∧
          ∃ more, SimulationOf c r more n.random n.simulate ∧ more ⊆ rest := by
    intro rest input hrest
    obtain ⟨first, output, second, houtput, hsecond, rfl⟩ := of_bind_eq hrest
    obtain ⟨_, contract, rest, hcontract, hthird, rfl⟩ := of_bind_eq hsecond
    obtain ⟨hwritten, rfl⟩ := of_lift_eq hcontract
    obtain ⟨-, rfl⟩ := Value.unlessTooLong_eq_ok_iff.mp hwritten
    obtain ⟨third, path, fourth, hpath, hfourth, rfl⟩ := of_bind_eq hthird
    have hlocation : PathOf c r (first ++ (third ++ fourth)) path :=
      (pathOf hpath).mono fun w hw => by simp [hw]
    extract_lets close at hfourth
    split at hfourth
    · next hon =>
        obtain ⟨fifth, random, sixth, hrandom, hsixth, rfl⟩ := of_bind_eq hfourth
        obtain ⟨asked, simulate, last, hsimulate, hlast, rfl⟩ := of_bind_eq hsixth
        obtain ⟨_, _, end', hpair, hend, rfl⟩ := of_bind_eq hlast
        obtain ⟨rfl, -⟩ := of_pure_eq hpair
        obtain ⟨rfl, -⟩ := of_pure_eq hend
        refine ⟨⟨rfl, rfl⟩, rfl, hlocation, ⟨first, outputOf houtput, by simp⟩, asked, ?_, ?_⟩
        · exact .on (randomOf hrandom) (simulateOf hon hsimulate)
        · intro w hw
          simp [hw]
    · next hoff =>
        obtain ⟨_, _, last, hpair, hlast, rfl⟩ := of_bind_eq hfourth
        obtain ⟨rfl, -⟩ := of_pure_eq hpair
        obtain ⟨rfl, -⟩ := of_pure_eq hlast
        exact ⟨⟨rfl, rfl⟩, rfl, hlocation, ⟨first, outputOf houtput, by simp⟩, [],
          .off (by simpa using hoff), List.nil_subset _⟩
  cases hbody : r.body? with
  | none =>
      rw [hbody] at h
      obtain ⟨_, input, rest, hinput, hrest, rfl⟩ := of_bind_eq h
      obtain ⟨rfl, rfl⟩ := of_pure_eq hinput
      obtain ⟨⟨hname, hcontract⟩, hnone, hpath, houtput, hsimulation⟩ := hscope hrest
      exact {
        name := hname
        contract := hcontract
        path := hpath
        input := fun body hsome => nomatch hbody.symm.trans hsome
        no_input := fun _ => hnone
        output := houtput
        simulation := hsimulation }
  | some body =>
      rw [hbody] at h
      obtain ⟨first, input, rest, hinput, hrest, rfl⟩ := of_bind_eq h
      rw [map_eq_pure_bind] at hinput
      obtain ⟨asked, type, _, htype, hlast, rfl⟩ := of_bind_eq hinput
      obtain ⟨rfl, rfl⟩ := of_pure_eq hlast
      obtain ⟨⟨hname, hcontract⟩, hsome, hpath, ⟨more, houtput, hmore⟩, others, hsimulation,
        hothers⟩ := hscope hrest
      refine {
        name := hname
        contract := hcontract
        path := hpath.mono fun w hw => by simp [hw]
        input := fun body' hbody' => ?_
        no_input := fun hnone => nomatch hbody.symm.trans hnone
        output := ⟨more, houtput, List.subset_append_of_subset_right _ hmore⟩
        simulation := ⟨others, hsimulation, List.subset_append_of_subset_right _ hothers⟩ }
      obtain rfl := Option.some.inj (hbody.symm.trans hbody')
      exact ⟨asked, type, inputOf htype, by simp, hsome⟩

/-- What a loop over a list of drafts gives is given by each of them, if none of them
ends the loop. -/
theorem of_forIn_eq {α : Type} {as : List α} {f : α → PUnit → Draft (ForInStep PUnit)}
    (hgoes : ∀ a more step, f a ⟨⟩ = ⟨more, .ok step⟩ → step = .yield ⟨⟩)
    (h : forIn as PUnit.unit f = ⟨wants, .ok ⟨⟩⟩) :
    ∀ a ∈ as, ∃ more, f a ⟨⟩ = ⟨more, .ok (.yield ⟨⟩)⟩ ∧ more ⊆ wants := by
  induction as generalizing wants with
  | nil => exact fun _ ha => absurd ha List.not_mem_nil
  | cons a as ih =>
      rw [List.forIn_cons] at h
      obtain ⟨first, step, rest, hfirst, hrest, rfl⟩ := of_bind_eq h
      obtain rfl := hgoes a first step hfirst
      intro a' ha'
      rcases List.mem_cons.mp ha' with rfl | ha'
      · exact ⟨first, hfirst, List.subset_append_left _ _⟩
      · obtain ⟨more, hmore, hsub⟩ := ih hrest a' ha'
        exact ⟨more, hmore, List.subset_append_of_subset_right _ hsub⟩

theorem listed_mem_wants (h : r.wantImports = ⟨wants, .ok ()⟩) {file : String}
    {names : List Value} (hfile : (file, names) ∈ r.imports) {v : Value} (hv : v ∈ names)
    {name : Scalar} (hname : v.scalar? = some name) :
    { name, origin := .ofPath file } ∈ wants := by
  obtain ⟨first, _, last, hloop, hlast, rfl⟩ := of_bind_eq h
  obtain ⟨-, rfl⟩ := of_pure_eq hlast
  have hentries := of_forIn_eq (fun _ _ _ hstep => by
    obtain ⟨_, _, _, -, hend, -⟩ := of_bind_eq hstep
    exact (of_pure_eq hend).1.symm) hloop
  obtain ⟨more, hentry, hmore⟩ := hentries _ hfile
  obtain ⟨second, _, last, hnames, hlast, rfl⟩ := of_bind_eq hentry
  have hwanted := of_forIn_eq (fun _ _ _ hstep => by
    split at hstep
    · obtain ⟨_, _, _, -, hend, -⟩ := of_bind_eq hstep
      exact (of_pure_eq hend).1.symm
    · obtain ⟨_, _, _, hfails, -, -⟩ := of_bind_eq hstep
      exact nomatch hfails) hnames
  obtain ⟨asked, hv, hasked⟩ := hwanted _ hv
  rw [hname] at hv
  obtain ⟨last', _, _, hwant, -, rfl⟩ := of_bind_eq hv
  obtain ⟨-, rfl⟩ := of_want_eq hwant
  refine List.mem_append_left _ (hmore (List.mem_append_left _ (hasked ?_)))
  exact List.mem_cons_self

end Route

theorem FunctionOf.mono {more : List Registration} {f : StubFunction}
    (h : FunctionOf c r wants f) (hsub : wants ⊆ more) : FunctionOf c r more f :=
  { h with
    bindings := h.bindings.mono hsub
    wants_fetcher := hsub h.wants_fetcher
    wants_connection := hsub h.wants_connection }

theorem NamespaceOf.mono {more : List Registration} {n : StubNamespace}
    (h : NamespaceOf c r wants n) (hsub : wants ⊆ more) : NamespaceOf c r more n where
  name := h.name
  contract := h.contract
  path := h.path.mono hsub
  input body hbody := by
    obtain ⟨asked, type, htype, hasked, hinput⟩ := h.input body hbody
    exact ⟨asked, type, htype, List.Subset.trans hasked hsub, hinput⟩
  no_input := h.no_input
  output := by
    obtain ⟨asked, houtput, hasked⟩ := h.output
    exact ⟨asked, houtput, List.Subset.trans hasked hsub⟩
  simulation := by
    obtain ⟨asked, hsimulation, hasked⟩ := h.simulation
    exact ⟨asked, hsimulation, List.Subset.trans hasked hsub⟩

namespace NamespaceOf

variable {n : StubNamespace}

theorem exists_propagated (h : NamespaceOf c r wants n) (hpropagate : c.propagate = true) :
    ∃ declared, n.output = some (wrapped "IPropagation" (r.envelope declared)) ∧
      .fromLibrary c.fetcher "IPropagation" ∈ wants := by
  obtain ⟨more, houtput, hmore⟩ := h.output
  generalize n.output = output at houtput ⊢
  cases houtput with
  | propagated _ _ => exact ⟨_, rfl, hmore (by simp)⟩
  | void hnot _ | primitive hnot _ _ _ | plain hnot _ _ _ =>
      exact absurd (hpropagate.symm.trans hnot) (by decide)

theorem exists_simulate (h : NamespaceOf c r wants n) (hon : c.simulate = true) :
    ∃ f, n.simulate = some f ∧ n.random.isSome = (!r.output.void) ∧ SimulateOf c r wants f := by
  obtain ⟨more, hsimulation, hmore⟩ := h.simulation
  generalize n.random = random, n.simulate = simulate at hsimulation ⊢
  cases hsimulation with
  | off hoff => exact absurd (hon.symm.trans hoff) (by decide)
  | on hrandom hsimulate => exact ⟨_, rfl, hrandom.isSome_eq, hsimulate.mono hmore⟩

theorem isSome_simulate (h : NamespaceOf c r wants n) : n.simulate.isSome = c.simulate := by
  obtain ⟨more, hsimulation, -⟩ := h.simulation
  generalize n.random = random, n.simulate = simulate at hsimulation ⊢
  cases hsimulation with
  | off hoff => exact hoff.symm
  | on _ hsimulate => exact hsimulate.simulated.symm

theorem of_simulate (h : NamespaceOf c r wants n) {f : SimulateFunction}
    (hf : n.simulate = some f) : SimulateOf c r wants f := by
  obtain ⟨more, hsimulation, hmore⟩ := h.simulation
  rw [hf] at hsimulation
  generalize n.random = random at hsimulation
  cases hsimulation with
  | on _ hsimulate => exact hsimulate.mono hmore

theorem of_random (h : NamespaceOf c r wants n) {g : RandomFunction} (hg : n.random = some g) :
    RandomOf c r (some g) := by
  obtain ⟨more, hsimulation, -⟩ := h.simulation
  rw [hg] at hsimulation
  generalize n.simulate = simulate at hsimulation
  cases hsimulation with
  | on hrandom _ => exact hrandom

end NamespaceOf

theorem Route.exists_stubOf {stub : String} (h : r.stub c = ⟨wants, .ok stub⟩) :
    ∃ f n, r.WrittenAs c stub f n ∧ StubOf c r wants stub f n := by
  obtain ⟨first, f, rest, hf, hrest, rfl⟩ := Draft.of_bind_eq h
  obtain ⟨second, n, last, hn, hlast, rfl⟩ := Draft.of_bind_eq hrest
  obtain ⟨rfl, rfl⟩ := Draft.of_pure_eq hlast
  refine ⟨f, n, ⟨congrArg Draft.result hf, congrArg Draft.result hn, rfl⟩, rfl, ?_, ?_⟩
  · exact (functionOf hf).mono (by simp)
  · exact (namespaceOf hn).mono (by simp)

/-- A stub for which a ledger grants what it wants, with its parts. -/
theorem Route.exists_stubOf_fulfil {l : Ledger} {stub : String}
    (h : (l.fulfil (r.stub c)).1 = .ok stub) :
    ∃ f n, r.WrittenAs c stub f n ∧ StubOf c r (r.stub c).wants stub f n := by
  have hresult : (r.stub c).result = .ok stub :=
    (Ledger.registerAll_of_fulfil (Prod.ext h rfl)).2
  refine exists_stubOf ?_
  rw [← hresult]

/-- A stub that is written with what the document lists for its route, unless types are
written out instead. -/
theorem Route.exists_stubOf_withImports {stub : String}
    (h : r.stubWithImports c = ⟨wants, .ok stub⟩) :
    (∃ f n, StubOf c r wants stub f n) ∧
      (c.clone = false → ∀ file names, (file, names) ∈ r.imports → ∀ v ∈ names,
        ∀ name, v.scalar? = some name → { name, origin := .ofPath file } ∈ wants) := by
  unfold stubWithImports at h
  extract_lets stub at h
  split at h
  · obtain ⟨first, _, rest, hlisted, hrest, rfl⟩ := Draft.of_bind_eq h
    obtain ⟨f, n, -, hstub⟩ := exists_stubOf hrest
    refine ⟨⟨f, n, hstub.text, hstub.function.mono (by simp), hstub.scope.mono (by simp)⟩, ?_⟩
    intro _ file names hfile v hv name hname
    exact List.mem_append_left _ (listed_mem_wants hlisted hfile hv hname)
  · next hclone =>
      obtain ⟨f, n, -, hstub⟩ := exists_stubOf h
      exact ⟨⟨f, n, hstub⟩, fun hnot => absurd (by simp [hnot]) hclone⟩

end ClientSdk
