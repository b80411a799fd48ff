import ClientSdk.Host.Usual
import ClientSdk.Proofs.RouteDocument.Grammar
import ClientSdk.Proofs.Stub.Members
import ClientSdk.Proofs.Text.ReadName

/-!
# The parameters of the functions of a stub

A stub has up to three functions that take parameters of the route: the one that a client
calls, the one that builds the location and the one that simulates the route.  Their parameters
are named as the route names them, and nothing is done for their names to differ from each
other or from those that the functions use themselves.

So it is up to the route: the names are apart in all functions of its stub, where they are read
up to a line break at their end, if and only if they are in the route (`Route.stub_names`).  The
grammar of documents does not ask for that (`Route.names_meet_of_document`).
-/

namespace ClientSdk

open Text

variable {c : Config} {r : Route} {wants : List Registration} {stub : String}
  {f : StubFunction} {n : StubNamespace}

/-! ## Names that functions use -/

/-- What a function uses besides its parameters: the namespace that has the name of the
route. -/
def StubFunction.uses (f : StubFunction) : List String :=
  [f.fetch.route]

/-- The names that are declared where a location with a query is built. -/
def queryNames : List String := ["variables", "location", "key", "value", "elem"]

/-- What the function uses besides its parameters: nothing if there is no query. -/
def PathFunction.uses (f : PathFunction) : List String :=
  if f.queries.isEmpty then [] else queryNames

/-- The names that are declared or called where parameters are checked. -/
def checkNames : List String := ["assert", "path", "METADATA", "typia", "NestiaSimulator"]

/-- What the function uses besides its parameters: the names of the checks if there are some,
and `random` if a result is made up. -/
def SimulateFunction.uses (f : SimulateFunction) : List String :=
  (if f.assertions.isEmpty then [] else checkNames) ++
    (if f.result.any fun code => code.callees.contains "random" then ["random"] else [])

def readNames (parameters : List Binding) : List String :=
  (parameters.map Binding.name).map readName

/-- Whether the parameters of a function have different names, as they are read, and none of
them is used for something else. -/
def ParametersApart (parameters : List Binding) (uses : List String) : Prop :=
  (readNames parameters).Nodup ∧ ∀ s ∈ uses, readName s ∉ readNames parameters

theorem Binding.leadingIdentifier?_text {b : Binding} (h : isIdentifierLine b.name = true) :
    leadingIdentifier? b.text.toList = some (readName b.name).toList := by
  rw [Binding.text, String.append_assoc, String.toList_append]
  refine leadingIdentifier?_identifierLine h fun c hc => ?_
  rw [String.toList_append] at hc
  cases hc
  decide

/-! ## Names that a route gives -/

def Route.labels (r : Route) : List String :=
  r.parameters.map Parameter.label

def Route.locationLabels (r : Route) : List String :=
  r.locationParameters.map Parameter.label

def Route.readLabels (r : Route) : List String :=
  r.labels.map readName

/-- The names of the parameters that the location depends on, as they are read. -/
def Route.readLocationLabels (r : Route) : List String :=
  r.locationLabels.map readName

/-- Whether the names of a route and of its parameters, as they are read, stay apart from each
other and from what is used in a stub under the options. -/
structure Route.NamesApart (c : Config) (r : Route) : Prop where
  labels : r.readLabels.Nodup
  connection : "connection" ∉ r.readLabels
  own : readName r.label ∉ "connection" :: r.readLabels
  query : r.parametersOf .query ≠ [] → ∀ s ∈ queryNames, s ∉ r.readLocationLabels
  checks : c.simulate = true → ∀ s ∈ checkNames, s ∉ r.readLabels
  random : c.simulate = true → r.output.void = false → "random" ∉ r.readLabels

theorem Route.locationLabels_sublist (r : Route) : r.locationLabels.Sublist r.labels :=
  List.filter_sublist.map _

theorem readName_eq_of_mem {s : String} (hs : s ∈ queryNames ++ checkNames ++ ["random"]) :
    readName s = s := by
  revert s
  decide

theorem Route.calls_random : (r.simulated? c).any (fun code => code.callees.contains "random") =
    !r.output.void := by
  cases hsimulated : r.simulated? c with
  | none =>
      have hnone : (r.simulated? c).isSome = (c.propagate || !r.output.void) :=
        isSome_simulated?
      rw [hsimulated] at hnone
      exact (Bool.or_eq_false_iff.mp hnone.symm).2.symm
  | some code =>
      rw [Bool.eq_iff_iff, Option.any_some, List.contains_iff_mem, random_mem_callees hsimulated,
        Bool.not_eq_true']

namespace StubOf

theorem names_function (h : StubOf c r wants stub f n) :
    f.parameters.map Binding.name = "connection" :: r.labels :=
  h.function.bindings.names_eq

theorem names_path (h : StubOf c r wants stub f n) :
    n.path.parameters.map Binding.name = r.locationLabels :=
  h.scope.path.parameters.names_eq

theorem names_simulate (h : StubOf c r wants stub f n) {g : SimulateFunction}
    (hg : n.simulate = some g) : g.parameters.map Binding.name = "connection" :: r.labels :=
  (h.scope.of_simulate hg).bindings.names_eq

theorem readNames_function (h : StubOf c r wants stub f n) :
    readNames f.parameters = "connection" :: r.readLabels := by
  rw [readNames, h.names_function]
  rfl

theorem readNames_path (h : StubOf c r wants stub f n) :
    readNames n.path.parameters = r.readLocationLabels := by
  rw [readNames, h.names_path]
  rfl

theorem readNames_simulate (h : StubOf c r wants stub f n) {g : SimulateFunction}
    (hg : n.simulate = some g) : readNames g.parameters = "connection" :: r.readLabels := by
  rw [readNames, h.names_simulate hg]
  rfl

theorem apart_function_iff (h : StubOf c r wants stub f n) :
    ParametersApart f.parameters f.uses ↔ r.readLabels.Nodup ∧ "connection" ∉ r.readLabels ∧
      readName r.label ∉ "connection" :: r.readLabels := by
  have huses : f.uses = [r.label] := by rw [StubFunction.uses, h.function.route]
  rw [ParametersApart, h.readNames_function, huses, List.nodup_cons, List.forall_mem_singleton]
  tauto

theorem apart_path_iff (h : StubOf c r wants stub f n) :
    ParametersApart n.path.parameters n.path.uses ↔ r.readLocationLabels.Nodup ∧
      (r.parametersOf .query ≠ [] → ∀ s ∈ queryNames, s ∉ r.readLocationLabels) := by
  rw [ParametersApart, h.readNames_path, PathFunction.uses, h.scope.path.queries]
  refine and_congr_right fun _ => ?_
  cases r.parametersOf .query with
  | nil => simp
  | cons q qs =>
      have hread : ∀ s ∈ queryNames, readName s = s := fun s hs =>
        readName_eq_of_mem (by simp [hs])
      simp +contextual [hread]

theorem apart_simulate_iff (h : StubOf c r wants stub f n) {g : SimulateFunction}
    (hg : n.simulate = some g) :
    ParametersApart g.parameters g.uses ↔ ("connection" :: r.readLabels).Nodup ∧
      (∀ s ∈ checkNames, s ∉ r.readLabels) ∧
        (r.output.void = false → "random" ∉ r.readLabels) := by
  have hassertions := (h.scope.of_simulate hg).assertions
  have hapart : ∀ names : List String, names ⊆ checkNames ++ ["random"] →
      ((∀ s ∈ names, readName s ∉ "connection" :: r.readLabels) ↔
        ∀ s ∈ names, s ∉ r.readLabels) := by
    intro names hnames
    refine forall₂_congr fun s hs => not_congr ?_
    have hmem := hnames hs
    rw [readName_eq_of_mem (List.append_assoc queryNames _ _ ▸ List.mem_append_right _ hmem),
      List.mem_cons]
    refine or_iff_right fun heq => ?_
    rw [heq] at hmem
    exact absurd hmem (by decide)
  rw [ParametersApart, h.readNames_simulate hg, SimulateFunction.uses,
    (h.scope.of_simulate hg).result,
    Route.calls_random, List.forall_mem_append]
  refine and_congr_right fun _ => and_congr ?_ ?_
  · generalize g.assertions = statements at hassertions ⊢
    cases hassertions with
    | none hnil =>
        have hlabels : r.readLabels = [] := by
          rw [Route.readLabels, Route.labels, hnil, List.map_nil, List.map_nil]
        simp [hlabels]
    | some _ _ => exact hapart checkNames (List.subset_append_left _ _)
  · cases r.output.void with
    | true => simp
    | false => simpa using hapart ["random"] (List.subset_append_right _ _)

end StubOf

/-! ## Names that are apart -/

/-- The parameters of the functions of a stub have the names that the route gives, in order,
behind the connection, and each is read at its head.  They are apart from each other and from
all that the functions use if and only if the names of the route are. -/
theorem Route.stub_names {l : Ledger} (h : (l.fulfil (r.stub c)).1 = .ok stub) :
    ∃ f n, r.WrittenAs c stub f n ∧
      f.parameters.map Binding.name = "connection" :: r.labels ∧
      n.path.parameters.map Binding.name = r.locationLabels ∧
      (∀ g, n.simulate = some g → g.parameters.map Binding.name = "connection" :: r.labels) ∧
      (∀ b : Binding, isIdentifierLine b.name = true →
        leadingIdentifier? b.text.toList = some (readName b.name).toList) ∧
      ((ParametersApart f.parameters f.uses ∧
          ParametersApart n.path.parameters n.path.uses ∧
          ∀ g, n.simulate = some g → ParametersApart g.parameters g.uses) ↔
        r.NamesApart c) := by
  obtain ⟨f, n, hwritten, hstub⟩ := exists_stubOf_fulfil h
  refine ⟨f, n, hwritten, hstub.names_function, hstub.names_path,
    fun g hg => hstub.names_simulate hg, fun b => b.leadingIdentifier?_text, ?_⟩
  rw [hstub.apart_function_iff, hstub.apart_path_iff]
  constructor
  · rintro ⟨⟨hlabels, hconnection, hown⟩, ⟨-, hquery⟩, hsimulate⟩
    have hon : c.simulate = true → (∀ s ∈ checkNames, s ∉ r.readLabels) ∧
        (r.output.void = false → "random" ∉ r.readLabels) := by
      intro hon
      obtain ⟨g, hg, -⟩ := hstub.scope.exists_simulate hon
      exact ((hstub.apart_simulate_iff hg).mp (hsimulate g hg)).2
    exact {
      labels := hlabels
      connection := hconnection
      own := hown
      query := hquery
      checks := fun hsimulated => (hon hsimulated).1
      random := fun hsimulated => (hon hsimulated).2 }
  · intro hapart
    refine ⟨⟨hapart.labels, hapart.connection, hapart.own⟩,
      ⟨(r.locationLabels_sublist.map readName).nodup hapart.labels, hapart.query⟩, fun g hg => ?_⟩
    have hon : c.simulate = true := (hstub.scope.of_simulate hg).simulated
    exact (hstub.apart_simulate_iff hg).mpr
      ⟨List.nodup_cons.mpr ⟨hapart.connection, hapart.labels⟩, hapart.checks hon,
        hapart.random hon⟩

/-- A route that is simulated and whose location has a query: all names are apart. -/
theorem Route.stub_names_of_apart :
    let r : Route :=
      { name := .text "find", method := "GET", path := .text "/things/:id",
        accessors := [.text "find"], output := { name := .text "IThing" },
        parameters := [
          { name := .text "id", category := .path, type := { name := .text "string" } },
          { name := .text "page", category := .query, field := .text "page",
            type := { name := .text "number" } }] }
    let c : Config := { output := "src/api", simulate := true }
    let l := Ledger.forFile .root "src/api/functional/index.ts"
    ∃ stub f n, (l.fulfil (r.stub c)).1 = .ok stub ∧ r.WrittenAs c stub f n ∧
      f.parameters.map Binding.name = ["connection", "id", "page"] ∧
      ParametersApart f.parameters f.uses ∧ ParametersApart n.path.parameters n.path.uses ∧
      ∀ g, n.simulate = some g → ParametersApart g.parameters g.uses := by
  intro r c l
  have hstub : (l.fulfil (r.stub c)).1.toOption.any (fun _ => true) = true := by decide +kernel
  obtain ⟨stub, hstub, -⟩ := Except.exists_of_any hstub
  obtain ⟨f, n, hwritten, hnames, -, -, -, hapart⟩ := stub_names hstub
  refine ⟨stub, f, n, hstub, hwritten, hnames, hapart.mpr ?_⟩
  exact {
    labels := by decide
    connection := by decide
    own := by decide
    query := fun _ => by decide
    checks := fun _ => by decide
    random := fun _ _ => by decide }

/-- A document with a header parameter `connection` and a query parameter `key`: it gives a
route, and in the stub both names meet others. -/
theorem Route.names_meet_of_document :
    let parameter (name category : String) : Value :=
      .map [("name", .text name), ("category", .text category),
        ("type", .map [("name", .text "string")])]
    let document : Value := .map [("routes", .list [.map
      [("name", .text "x"), ("method", .text "GET"), ("path", .text "/x"),
       ("accessors", .list [.text "x"]),
       ("parameters", .list [parameter "connection" "header", parameter "key" "query"])]])]
    let c : Config := { output := "src/api" }
    let l := Ledger.forFile .root "src/api/functional/index.ts"
    ∃ routes, RouteDocument.routes (.usual .root) document "routes.json" = .ok routes ∧
      ∃ r ∈ routes,
      ∃ stub f n, (l.fulfil (r.stub c)).1 = .ok stub ∧ r.WrittenAs c stub f n ∧
        f.parameters.map Binding.name = ["connection", "connection", "key"] ∧
        ¬ ParametersApart f.parameters f.uses ∧
        ¬ ParametersApart n.path.parameters n.path.uses := by
  intro parameter document c l
  have hall : (RouteDocument.routes (.usual .root) document
      "routes.json").toOption.any (fun routes =>
      routes.any fun r => decide (r.labels = ["connection", "key"] ∧
        r.locationLabels = ["key"] ∧ (r.parametersOf .query).length = 1) &&
          (l.fulfil (r.stub c)).1.toOption.any fun _ => true) = true := by
    decide +kernel
  obtain ⟨routes, haccept, hany⟩ := Except.exists_of_any hall
  obtain ⟨r, hr, hboth⟩ := List.any_eq_true.mp hany
  obtain ⟨hfacts, hstub⟩ := (Bool.and_eq_true _ _).mp hboth
  obtain ⟨hlabels, hlocation, hquery⟩ := of_decide_eq_true hfacts
  obtain ⟨stub, hstub, -⟩ := Except.exists_of_any hstub
  obtain ⟨f, n, hwritten, hparts⟩ := exists_stubOf_fulfil hstub
  have hsome : r.parametersOf .query ≠ [] := List.ne_nil_of_length_eq_add_one hquery
  refine ⟨routes, haccept, r, hr, stub, f, n, hstub, hwritten, ?_, ?_, ?_⟩
  · rw [hparts.names_function, hlabels]
  · rw [hparts.apart_function_iff, Route.readLabels, hlabels]
    exact fun hapart => absurd hapart.2.1 (by decide)
  · rw [hparts.apart_path_iff, Route.readLocationLabels, hlocation]
    exact fun hapart => absurd (hapart.2 hsome) (by decide)

end ClientSdk
