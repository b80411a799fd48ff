import ClientSdk.Proofs.Stub.Agreement
import ClientSdk.Proofs.Stub.Mention
import ClientSdk.Proofs.Stub.Names

/-!
# The calls in a stub

The functions of a stub call each other, and they pass their parameters by position.  Each
parameter list and each list of arguments is drafted on its own from the parameters of the
route.  They are the same parameters in the same order (`Route.CallsMatch`): those of the path
and the query where a location is built, and all of them, behind the connection, where the
route is simulated.

What a stub takes it sends: headers and query as entries of an object, in order, and the body as
the last argument of the call.  Only a path parameter can be left out, and it is unless the path
has its field where it is found (`Route.calls_match`).
-/

namespace ClientSdk

variable {c : Config} {r : Route} {wants : List Registration} {stub : String}
  {f : StubFunction} {n : StubNamespace}

/-! ## What is declared -/

namespace Route

def typeOf (c : Config) (r : Route) (p : Parameter) : String :=
  (r.parameterType c p).result.toOption.getD ""

def declared (c : Config) (r : Route) (p : Parameter) : Binding :=
  { name := p.label, type := r.typeOf c p }

end Route

theorem ParametersOf.eq_map {ps : List Parameter} {bindings : List Binding}
    (h : ParametersOf c r wants ps bindings) : bindings = ps.map (r.declared c) := by
  refine (List.Forall₂.map_eq (h.imp ?_)).symm
  rintro p b ⟨hname, more, htype, -⟩
  rw [Route.declared, Route.typeOf, htype, ← hname]
  rfl

theorem ParametersOf.result_eq {ps : List Parameter} {bindings : List Binding}
    (h : ParametersOf c r wants ps bindings) {p : Parameter} (hp : p ∈ ps) :
    (r.parameterType c p).result = .ok (r.typeOf c p) := by
  obtain ⟨b, -, -, more, htype, -⟩ := h.exists_of_mem hp
  rw [Route.typeOf, htype]
  rfl

/-! ## What is passed and sent -/

/-- A call with names as arguments, on one line. -/
def callText (callee : String) (names : List String) : String :=
  callee ++ "(" ++ ", ".intercalate names ++ ")"

/-- The members of what an expression stands for: the entries of an object, or all that it has. -/
def Code.members : Code → List CodeEntry
  | .object entries => entries
  | code => [.spread code.text]

/-- The object whose members are the query, as an expression. -/
def PathFunction.querySource : List Parameter → Code
  | [q] => if q.field.truthy then .object [queryEntry q] else .plain q.label
  | qs => .object (qs.map queryEntry)

/-- Whether a parameter is sent: it is filled into the location, a member of the query, an entry
of the headers, or the body, which is the last argument. -/
def Sent (f : StubFunction) (n : StubNamespace) (p : Parameter) : Prop :=
  match p.category with
  | .path => .hole p.label ∈ n.path.location
  | .query => PathFunction.queryEntry p ∈ (PathFunction.querySource n.path.queries).members
  | .header => headerEntry p ∈ f.fetch.headers
  | .body => ∃ callee front, f.fetch.code = .call callee (front ++ [.plain p.label])

namespace PathFunction

theorem queryObject_eq (qs : List Parameter) : queryObject qs = (querySource qs).text := by
  match qs with
  | [] => rfl
  | [q] =>
      rw [queryObject, querySource]
      split <;> rfl
  | _ :: _ :: _ => rfl

theorem members_querySource (qs : List Parameter) :
    (querySource qs).members = qs.map queryEntry := by
  unfold querySource
  split
  · next q =>
      split
      · rfl
      · next hfield =>
        have hentry : queryEntry q = .spread q.label := if_neg hfield
        rw [List.map_singleton, hentry]
        rfl
  · rfl

end PathFunction

namespace Route

theorem locationNames_eq {names : List String} (h : r.locationNames = .ok names) :
    names = r.locationLabels ∧ ∀ p ∈ r.locationParameters, ∃ name, p.name = .text name := by
  have hname : ∀ {p : Parameter} {name : String}, p.name.asName = .ok name →
      p.name = .text name := by
    intro p name hp
    cases hvalue : p.name with
    | text s =>
        rw [hvalue] at hp
        rw [Except.ok.inj hp]
    | _ =>
        rw [hvalue] at hp
        cases hp
  have hall := Except.forall₂_of_mapM h
  refine ⟨(List.Forall₂.map_eq (hall.imp fun p name hp => ?_)).symm, fun p hp => ?_⟩
  · rw [Parameter.label, hname hp]
    rfl
  · obtain ⟨name, -, hp⟩ := hall.exists_of_mem hp
    exact ⟨name, hname hp⟩

theorem mem_locationParameters_of_path {p : Parameter} (hp : p ∈ r.parametersOf .path) :
    p ∈ r.locationParameters := by
  obtain ⟨hmem, hcategory⟩ := List.mem_filter.mp hp
  exact List.mem_filter.mpr ⟨hmem, by rw [hcategory, Bool.true_or]⟩

theorem toList_body? (h : (r.parametersOf .body).length ≤ 1) :
    r.body?.toList = r.parametersOf .body := by
  rw [body?]
  rcases hbodies : r.parametersOf .body with _ | ⟨body, _ | ⟨body', bodies⟩⟩
  · rfl
  · rfl
  · rw [hbodies] at h
    exact absurd h (by simp)

end Route

/-! ## Calls that match -/

/-- How the calls in a stub match the functions that they call, and what is sent. -/
structure Route.CallsMatch (c : Config) (r : Route) (f : StubFunction) (n : StubNamespace) :
    Prop where
  /-- Each parameter has a type. -/
  types : ∀ p ∈ r.parameters, (r.parameterType c p).result = .ok (r.typeOf c p)
  /-- The stub takes the connection and all parameters. -/
  parameters : f.parameters =
    { name := "connection", type := "IConnection" } :: r.parameters.map (r.declared c)
  /-- A location is built from the parameters of the path and the query. -/
  location : n.path.parameters = r.locationParameters.map (r.declared c)
  /-- The location that the stub asks for. -/
  locationCall : ∃ entries, f.fetch.options = .object entries ∧
    CodeEntry.valueOf? "path" entries =
      some (.plain (callText (n.name ++ ".path") (n.path.parameters.map Binding.name)))
  /-- The location that a simulation checks. -/
  checkedCall : ∀ g, n.simulate = some g → r.parameters ≠ [] → ∃ type rest,
    g.assertions = assertStatement (n.path.parameters.map Binding.name) type :: rest
  /-- There is a simulation if the options ask for it. -/
  simulated : n.simulate.isSome = c.simulate
  /-- A simulation takes what the stub takes, and is given all of it. -/
  simulation : ∀ g, n.simulate = some g → g.parameters = f.parameters ∧
    f.simulate = some (.call (n.name ++ ".simulate") (g.parameters.map fun b => .plain b.name))
  /-- Without a simulation none is called. -/
  unsimulated : n.simulate = none → f.simulate = none
  /-- The header parameters are added in order, and behind them the content type. -/
  headers : f.fetch.headers = (r.parametersOf .header).map headerEntry ++
    (r.requestType?.map fun type => CodeEntry.field contentTypeKey (.value type)).toList
  /-- The members of the query are the query parameters in order. -/
  query : (PathFunction.querySource n.path.queries).members =
    (r.parametersOf .query).map PathFunction.queryEntry
  /-- With a query, each of its members is added to the location. -/
  queryLoop : r.parametersOf .query ≠ [] →
    n.path.text = "export const path = " ++ signature (n.path.parameters.map Binding.text) ++
      " => " ++ "\x7b\n" ++ Text.indent (Text.unlines n.path.queryStatements) ++ "\n\x7d;" ∧
    "for (const [key, value] of Object.entries(" ++
      (PathFunction.querySource n.path.queries).text ++ " as any))" ∈ n.path.queryStatements
  /-- The body is the last argument. -/
  body : f.fetch.code = .call (f.fetch.fetcher ++ "." ++ f.fetch.method)
    ([f.fetch.connection, f.fetch.options] ++
      (r.parametersOf .body).map fun p => .plain p.label)

namespace StubOf

theorem locationNames_eq (h : StubOf c r wants stub f n) :
    f.fetch.locationNames = n.path.parameters.map Binding.name := by
  rw [h.names_path]
  exact (Route.locationNames_eq h.function.location).1

theorem parameters_eq (h : StubOf c r wants stub f n) : f.parameters =
    { name := "connection", type := "IConnection" } :: r.parameters.map (r.declared c) := by
  obtain ⟨rest, hparameters, hrest⟩ := h.function.bindings
  rw [hparameters, hrest.eq_map]

theorem locationCall (h : StubOf c r wants stub f n) : ∃ entries,
    f.fetch.options = .object entries ∧ CodeEntry.valueOf? "path" entries =
      some (.plain (callText (n.name ++ ".path") (n.path.parameters.map Binding.name))) := by
  have hcall : f.fetch.route ++ ".path(" ++ ", ".intercalate f.fetch.locationNames ++ ")" =
      callText (n.name ++ ".path") (n.path.parameters.map Binding.name) := by
    have hopen : ".path(" = ".path" ++ "(" := rfl
    rw [h.locationNames_eq, h.function.route, ← h.scope.name, hopen, callText]
    simp only [String.append_assoc]
  refine ⟨_, rfl, ?_⟩
  rw [hcall]
  simp [CodeEntry.valueOf?]

theorem checkedCall (h : StubOf c r wants stub f n) {g : SimulateFunction}
    (hg : n.simulate = some g) (hsome : r.parameters ≠ []) : ∃ type rest,
      g.assertions = assertStatement (n.path.parameters.map Binding.name) type :: rest := by
  have hassertions := (h.scope.of_simulate hg).assertions
  generalize g.assertions = statements at hassertions ⊢
  cases hassertions with
  | none hnil => exact absurd hnil hsome
  | some _ hnames =>
      obtain ⟨rfl, -⟩ := Route.locationNames_eq hnames
      rw [h.names_path]
      exact ⟨_, _, rfl⟩

/-- The stub and the simulation are drafted with the same parameters. -/
theorem simulation (h : StubOf c r wants stub f n) {g : SimulateFunction}
    (hg : n.simulate = some g) : g.parameters = f.parameters ∧
      f.simulate = some (.call (n.name ++ ".simulate")
        (g.parameters.map fun b => .plain b.name)) := by
  have hsimulate := h.scope.of_simulate hg
  obtain ⟨rest, hparameters, hrest⟩ := hsimulate.bindings
  have hequal : g.parameters = f.parameters := by
    rw [hparameters, hrest.eq_map, h.parameters_eq]
  refine ⟨hequal, ?_⟩
  rw [h.function.simulate, if_pos hsimulate.simulated, hequal, h.parameters_eq, h.scope.name]
  simp [Route.declared]

theorem queryLoop (h : StubOf c r wants stub f n) (hsome : r.parametersOf .query ≠ []) :
    n.path.text = "export const path = " ++ signature (n.path.parameters.map Binding.text) ++
      " => " ++ "\x7b\n" ++ Text.indent (Text.unlines n.path.queryStatements) ++ "\n\x7d;" ∧
    "for (const [key, value] of Object.entries(" ++
      (PathFunction.querySource n.path.queries).text ++ " as any))" ∈ n.path.queryStatements := by
  have hqueries : n.path.queries.isEmpty = false := by
    rw [h.scope.path.queries]
    simpa using hsome
  constructor
  · rw [PathFunction.text, hqueries, if_neg Bool.false_ne_true]
  · rw [← PathFunction.queryObject_eq]
    exact List.mem_cons_of_mem _ List.mem_cons_self

theorem callsMatch (h : StubOf c r wants stub f n) (hbody : (r.parametersOf .body).length ≤ 1) :
    r.CallsMatch c f n where
  types p hp := by
    obtain ⟨_, -, hparameters⟩ := h.function.bindings
    exact hparameters.result_eq hp
  parameters := h.parameters_eq
  location := h.scope.path.parameters.eq_map
  locationCall := h.locationCall
  checkedCall _ hg hsome := h.checkedCall hg hsome
  simulated := h.scope.isSome_simulate
  simulation _ hg := h.simulation hg
  unsimulated hnone := by
    have hoff : c.simulate = false := by
      rw [← h.scope.isSome_simulate, hnone]
      rfl
    rw [h.function.simulate, hoff, if_neg Bool.false_ne_true]
  headers := by
    rw [Route.headers_of_connection h.function.connection, Route.headerEntries]
    cases r.requestType? <;> rfl
  query := by
    rw [PathFunction.members_querySource, h.scope.path.queries]
  queryLoop hsome := h.queryLoop hsome
  body := by
    rw [FetchCall.code, h.function.body, ← Route.toList_body? hbody]
    cases r.body? <;> rfl

theorem sent_iff (h : StubOf c r wants stub f n) (hbody : (r.parametersOf .body).length ≤ 1) :
    ∃ path, r.path = .text path ∧ ∀ p ∈ r.parameters, Sent f n p ↔
      (p.category = .path → ∃ q field, r.holder? field = some q ∧ q.label = p.label ∧
        Finds path.toList field.toList) := by
  have hmatch := h.callsMatch hbody
  obtain ⟨-, hnames⟩ := Route.locationNames_eq h.function.location
  obtain ⟨path, hpath, hholes⟩ := Route.hole_mem_location_iff h.scope.path.location
    fun p hp => hnames p (Route.mem_locationParameters_of_path hp)
  refine ⟨path, hpath, fun p hp => ?_⟩
  have hmem : p ∈ r.parametersOf p.category := List.mem_filter.mpr ⟨hp, beq_self_eq_true _⟩
  unfold Sent
  cases hcategory : p.category with
  | path => simp only [hholes, forall_const]
  | query =>
      refine iff_of_true ?_ nofun
      dsimp only
      rw [hmatch.query]
      exact List.mem_map_of_mem (hcategory ▸ hmem)
  | header =>
      refine iff_of_true ?_ nofun
      dsimp only
      rw [hmatch.headers]
      exact List.mem_append_left _ (List.mem_map_of_mem (hcategory ▸ hmem))
  | body =>
      rw [hcategory] at hmem
      have hone : (r.parametersOf .body).length = 1 :=
        le_antisymm hbody (List.length_pos_of_mem hmem)
      obtain ⟨q, hq⟩ := List.length_eq_one_iff.mp hone
      obtain rfl : p = q := List.mem_singleton.mp (hq ▸ hmem)
      have hcode := hmatch.body
      rw [hq] at hcode
      exact iff_of_true ⟨_, [f.fetch.connection, f.fetch.options], hcode⟩ nofun

end StubOf

/-- A stub that is written calls its functions as they are declared, and sends what it takes.  A
path parameter is filled in if and only if the path has its field where it is found, and no
later one has this field.  What the path mentions is found, unless a span begins with its last
character. -/
theorem Route.calls_match {l : Ledger} (h : (l.fulfil (r.stub c)).1 = .ok stub)
    (hbody : (r.parametersOf .body).length ≤ 1) :
    ∃ f n path, r.WrittenAs c stub f n ∧ r.path = .text path ∧ r.CallsMatch c f n ∧
      (∀ p ∈ r.parameters, Sent f n p ↔
        (p.category = .path → ∃ q field, r.holder? field = some q ∧ q.label = p.label ∧
          Finds path.toList field.toList)) ∧
      ∀ field, Mentions path.toList field →
        Finds path.toList field ∨ CutIn path.toList field := by
  obtain ⟨f, n, hwritten, hstub⟩ := exists_stubOf_fulfil h
  obtain ⟨path, hpath, hsent⟩ := hstub.sent_iff hbody
  exact ⟨f, n, path, hwritten, hpath, hstub.callsMatch hbody, hsent,
    fun _ hfield => finds_or_cutIn hfield⟩

/-- A route that is simulated, with parameters of all categories out of order. -/
theorem Route.calls_match_of_all :
    let r : Route :=
      { name := .text "update", method := "PUT", path := .text "/shops/:shop/items/:id",
        accessors := [.text "update"], output := { name := .text "IItem" },
        parameters := [
          { name := .text "page", category := .query, type := { name := .text "IPage" } },
          { name := .text "input", category := .body, type := { name := .text "IUpdate" } },
          { name := .text "item", category := .path, field := .text "id",
            type := { name := .text "string" } },
          { name := .text "locale", category := .header, field := .text "x-locale",
            type := { name := .text "string" } },
          { name := .text "shop", category := .path, type := { name := .text "string" } }] }
    let c : Config := { output := "src/api", simulate := true }
    let l := Ledger.forFile .root "src/api/functional/index.ts"
    ∃ stub f n, (l.fulfil (r.stub c)).1 = .ok stub ∧ (r.parametersOf .body).length ≤ 1 ∧
      r.WrittenAs c stub f n ∧ r.CallsMatch c f n ∧
      n.path.parameters.map Binding.name = ["page", "item", "shop"] ∧
      (∃ g, n.simulate = some g ∧ g.parameters = f.parameters) ∧
      ∀ p ∈ r.parameters, Sent f n p := by
  intro r c l
  have hstub : (l.fulfil (r.stub c)).1.toOption.any (fun _ => true) = true := by decide +kernel
  obtain ⟨stub, hstub, -⟩ := Except.exists_of_any hstub
  have hbody : (r.parametersOf .body).length ≤ 1 := by decide
  obtain ⟨f, n, path, hwritten, hpath, hmatch, hsent, -⟩ := calls_match hstub hbody
  obtain rfl : "/shops/:shop/items/:id" = path := Value.text.inj hpath
  have hitem : Finds "/shops/:shop/items/:id".toList "id".toList :=
    ⟨"/shops/:shop/items/".toList, "id".toList, by decide, by decide⟩
  have hshop : Finds "/shops/:shop/items/:id".toList "shop".toList :=
    ⟨"/shops/".toList, "shop/items/:id".toList, by decide, by decide⟩
  have hnames : n.path.parameters.map Binding.name = ["page", "item", "shop"] := by
    rw [hmatch.location]
    rfl
  obtain ⟨g, hg⟩ := Option.isSome_iff_exists.mp hmatch.simulated
  refine ⟨stub, f, n, hstub, hbody, hwritten, hmatch, hnames,
    ⟨g, hg, (hmatch.simulation g hg).1⟩, fun p hp => (hsent p hp).mpr ?_⟩
  simp only [r, List.mem_cons, List.not_mem_nil, or_false] at hp
  rcases hp with rfl | rfl | rfl | rfl | rfl
  · exact nofun
  · exact nofun
  · exact fun _ => ⟨_, "id", rfl, rfl, hitem⟩
  · exact nofun
  · exact fun _ => ⟨_, "shop", rfl, rfl, hshop⟩

/-- A path that mentions a parameter whose name ends with the dollar of a span: the stub takes
the parameter, and it is not sent. -/
theorem Route.mentioned_unsent :
    let p : Parameter :=
      { name := .text "id$", category := .path, type := { name := .text "string" } }
    let r : Route :=
      { name := .text "x", method := "GET", path := .text "/:id$\x7bx\x7d",
        accessors := [.text "x"], output := { name := .text "void" }, parameters := [p] }
    let c : Config := { output := "src/api" }
    let l := Ledger.forFile .root "src/api/functional/index.ts"
    ∃ stub f n, (l.fulfil (r.stub c)).1 = .ok stub ∧ r.WrittenAs c stub f n ∧
      f.parameters.map Binding.name = ["connection", "id$"] ∧
      Mentions "/:id$\x7bx\x7d".toList "id$".toList ∧ r.holder? "id$" = some p ∧
      ¬ Sent f n p := by
  intro p r c l
  have hstub : (l.fulfil (r.stub c)).1.toOption.any (fun _ => true) = true := by decide +kernel
  obtain ⟨stub, hstub, -⟩ := Except.exists_of_any hstub
  obtain ⟨f, n, hwritten, hparts⟩ := exists_stubOf_fulfil hstub
  have hlocation : r.location.toOption.any
      (fun location => decide (.hole "id$" ∉ location)) = true := by decide +kernel
  obtain ⟨location, hlocation, hunsent⟩ := Except.exists_of_any hlocation
  obtain rfl : location = n.path.location :=
    Except.ok.inj (hlocation.symm.trans hparts.scope.path.location)
  have hnowhere : .hole "id$" ∉ n.path.location := of_decide_eq_true hunsent
  have hmentions : Mentions "/:id$\x7bx\x7d".toList "id$".toList :=
    ⟨['/'], "id$\x7bx\x7d".toList, by decide, by decide⟩
  exact ⟨stub, f, n, hstub, hwritten, hparts.function.bindings.names_eq, hmentions, rfl,
    hnowhere⟩

end ClientSdk
