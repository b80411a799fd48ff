import ClientSdk.Host.Usual
import ClientSdk.Proofs.Path.Join
import ClientSdk.Proofs.RouteDocument.Reading
import ClientSdk.Proofs.Stub.Names

/-!
# The names that documents declare

The name of a route is declared by its stub, as a function and as a namespace, and the names of
its parameters in the functions of the stub.  They are written as they stand in the document,
where they have to be identifiers.  That disregards a line break at the end, and it does not
look for the words that the language keeps for itself, as is done where a name becomes the key
of a member.

So what a document declares can be declared unless it is such a word or ends in a line break
(`RouteDocument.declared_names`), and each of these names gets through.
-/

namespace ClientSdk

namespace Text

/-- Whether a text can be declared: an identifier that the language does not keep for
itself. -/
def IsDeclarable (s : String) : Prop :=
  isIdentifierChars s.toList = true ∧ s ∉ reservedWords

instance (s : String) : Decidable (IsDeclarable s) :=
  inferInstanceAs (Decidable (_ ∧ _))

/-- Of an identifier with a line break at its end at most, the line break is all that can be
wrong. -/
theorem isIdentifierChars_iff {s : String} (h : isIdentifierLine s = true) :
    isIdentifierChars s.toList = true ↔ '\n' ∉ s.toList := by
  constructor
  · exact break_not_mem_of_isIdentifierChars
  · intro hbreak
    obtain ⟨cs, hcs, hs | hs⟩ := isIdentifierLine_iff.mp h
    · rwa [hs]
    · rw [hs] at hbreak
      exact absurd (List.mem_append_right _ List.mem_cons_self) hbreak

theorem isDeclarable_iff {s : String} (h : isIdentifierLine s = true) :
    IsDeclarable s ↔ '\n' ∉ s.toList ∧ s ∉ reservedWords :=
  and_congr_left' (isIdentifierChars_iff h)

end Text

/-! ## Names in a document -/

namespace RouteDocument

theorem keeps_of_entriesAt {members : List (String × Value)} {key : String} {place : Place}
    {items : List Value}
    (hkeeps : ∀ w, Table.get? members key = some w → grammar.violations w (.listOf place) = [])
    (h : (Value.map members).entriesAt key = .ok items) :
    ∀ w ∈ items, grammar.violations w place = [] := by
  obtain ⟨listed, hlisted, hitems⟩ := Except.bind_eq_ok_iff.mp h
  obtain rfl : (Table.get? members key).getD .null = listed := Except.ok.inj hlisted
  cases hget : Table.get? members key with
  | none =>
      rw [hget] at hitems
      cases hitems
      exact fun _ hw => absurd hw List.not_mem_nil
  | some w =>
      obtain ⟨vs, rfl, -, hvs⟩ : ∃ vs, w = .list vs ∧ _ ∧
          ∀ w ∈ vs, grammar.violations w place = [] :=
        Grammar.exists_items rfl rfl rfl (hkeeps w hget)
      rw [hget] at hitems
      cases vs with
      | nil =>
          cases hitems
          exact hvs
      | cons v vs =>
          cases hitems
          exact hvs

theorem name_of_parameter {v : Value} {p : Parameter}
    (h : grammar.violations v .parameter = []) (hread : Parameter.ofValue v = .ok p) :
    Text.isIdentifierLine p.label = true := by
  obtain ⟨members, rfl, -, hfields⟩ := Grammar.exists_members rfl rfl h
  unfold Parameter.ofValue at hread
  simp only [Except.bind_eq_ok_iff, pure, Except.pure, Except.ok.injEq] at hread
  obtain ⟨name, hname, hrest⟩ := hread
  obtain ⟨_, -, _, -, _, -, _, -, _, -, _, -, rfl⟩ := hrest
  have hkeeps := hfields "name" .identifier name (by decide) (of_member hname)
  obtain ⟨s, rfl, hs⟩ := Grammar.exists_identifier rfl rfl rfl hkeeps
  exact hs

theorem names_of_route {v : Value} {r : Route} (h : grammar.violations v .route = [])
    (hread : Route.ofValue v = .ok r) :
    Text.isIdentifierLine r.label = true ∧ ∀ s ∈ r.labels, Text.isIdentifierLine s = true := by
  obtain ⟨members, rfl, -, hfields⟩ := Grammar.exists_members rfl rfl h
  unfold Route.ofValue at hread
  simp only [Except.bind_eq_ok_iff, pure, Except.pure, Except.ok.injEq] at hread
  obtain ⟨name, hname, _, -, _, -, _, -, _, -, _, -, _, -, hrest⟩ := hread
  obtain ⟨entries, hentries, parameters, hparameters, hrest⟩ := hrest
  obtain ⟨_, -, _, -, _, -, _, -, _, -, _, -, _, -, _, -, _, -, rfl⟩ := hrest
  constructor
  · have hkeeps := hfields "name" .identifier name (by decide) (of_member hname)
    obtain ⟨s, rfl, hs⟩ := Grammar.exists_identifier rfl rfl rfl hkeeps
    exact hs
  · intro s hs
    obtain ⟨p, hp, rfl⟩ := List.mem_map.mp hs
    obtain ⟨w, hw, hread⟩ := Except.exists_of_mem_mapM hparameters hp
    have hkeeps := keeps_of_entriesAt
      (fun w => hfields "parameters" (.listOf .parameter) w (by decide)) hentries
    exact name_of_parameter (hkeeps w hw) hread

theorem identifiers_of_routes {host : Host} {document : Value} {source : String}
    {rs : List Route}
    (h : routes host document source = .ok rs) {r : Route} (hr : r ∈ rs) :
    Text.isIdentifierLine r.label = true ∧ ∀ s ∈ r.labels, Text.isIdentifierLine s = true := by
  obtain ⟨item, hitem, hread⟩ := exists_item_of_routes h hr
  exact names_of_route hitem hread

/-! ## Names that get through -/

def namedParameter (s : String) : Value :=
  .map [("name", .text s), ("category", .text "query"), ("type", .map [("name", .text "string")])]

def namedRoute (s : String) : Value :=
  .map [("name", .text s), ("method", .text "GET"), ("path", .text "/"),
    ("accessors", .list [.text "x"]), ("parameters", .list [namedParameter s])]

def namedDocument (s : String) : Value :=
  .map [("routes", .list [namedRoute s])]

/-- One route, with the name of itself and of its parameter. -/
def ReadsNamed (s : String) (rs : List Route) : Prop :=
  rs.map (fun r => (r.label, r.labels)) = [(s, [s])]

instance (s : String) (rs : List Route) : Decidable (ReadsNamed s rs) :=
  inferInstanceAs (Decidable (_ = _))

theorem ReadsNamed.exists_route {s : String} {rs : List Route} (h : ReadsNamed s rs) :
    ∃ r, rs = [r] ∧ r.label = s ∧ r.labels = [s] := by
  obtain ⟨r, hr, hnames⟩ := List.map_eq_singleton_iff.mp h
  exact ⟨r, hr, Prod.mk.inj hnames⟩

end RouteDocument

/-! ## Names in a stub -/

/-- The names that a stub declares: those of the function and of the namespace, and those of
the parameters of all functions. -/
def declaredNames (f : StubFunction) (n : StubNamespace) : List String :=
  f.name :: n.name :: (f.parameters ++ n.path.parameters ++
    ((n.simulate.map SimulateFunction.parameters).getD [])).map Binding.name

theorem StubOf.mem_declaredNames {c : Config} {r : Route} {wants : List Registration}
    {stub : String} {f : StubFunction} {n : StubNamespace} (h : StubOf c r wants stub f n)
    {s : String} : s ∈ declaredNames f n ↔ s = r.label ∨ s = "connection" ∨ s ∈ r.labels := by
  have hsimulate : ∀ s ∈ ((n.simulate.map SimulateFunction.parameters).getD []).map
      Binding.name, s ∈ "connection" :: r.labels := by
    cases hg : n.simulate with
    | none => exact fun _ hs => absurd hs List.not_mem_nil
    | some g =>
        intro s hs
        rw [← h.names_simulate hg]
        exact hs
  rw [declaredNames, List.mem_cons, List.mem_cons, List.map_append, List.map_append,
    List.mem_append, List.mem_append, h.names_function, h.names_path, h.function.name,
    h.scope.name]
  constructor
  · rintro (hs | hs | (hs | hs) | hs)
    · exact .inl hs
    · exact .inl hs
    · exact .inr (List.mem_cons.mp hs)
    · exact .inr (.inr (r.locationLabels_sublist.subset hs))
    · exact .inr (List.mem_cons.mp (hsimulate s hs))
  · rintro (hs | hs)
    · exact .inl hs
    · exact .inr (.inr (.inl (.inl (List.mem_cons.mpr hs))))

/-- What the stub of a route declares besides the connection, an accepted document names: the
route and its parameters.  All of it are identifiers, but for a line break at the end, and can
be declared unless they have one or are kept by the language. -/
theorem RouteDocument.declared_names {host : Host} {document : Value} {source : String}
    {rs : List Route}
    (haccept : routes host document source = .ok rs) {r : Route} (hr : r ∈ rs) {c : Config}
    {l : Ledger} {stub : String} (h : (l.fulfil (r.stub c)).1 = .ok stub) :
    ∃ f n, r.WrittenAs c stub f n ∧
      (∀ s, s ∈ declaredNames f n ↔ s = r.label ∨ s = "connection" ∨ s ∈ r.labels) ∧
      ∀ s ∈ declaredNames f n, Text.isIdentifierLine s = true ∧
        (Text.IsDeclarable s ↔ '\n' ∉ s.toList ∧ s ∉ Text.reservedWords) := by
  obtain ⟨f, n, hwritten, hparts⟩ := Route.exists_stubOf_fulfil h
  obtain ⟨hlabel, hlabels⟩ := identifiers_of_routes haccept hr
  refine ⟨f, n, hwritten, fun s => hparts.mem_declaredNames, ?_⟩
  intro s hs
  have hline : Text.isIdentifierLine s = true := by
    rcases hparts.mem_declaredNames.mp hs with rfl | rfl | hs
    · exact hlabel
    · decide
    · exact hlabels s hs
  exact ⟨hline, Text.isDeclarable_iff hline⟩

/-- A name that is an identifier and no word of the language: it gets through, and what the
stub declares can be declared. -/
theorem RouteDocument.declared_names_of_name :
    let c : Config := { output := "src/api", simulate := true }
    let l := Ledger.forFile .root "src/api/functional/index.ts"
    ∃ r, routes (.usual .root) (namedDocument "$item") "routes.json" = .ok [r] ∧
      r.label = "$item" ∧ ∃ stub f n, (l.fulfil (r.stub c)).1 = .ok stub ∧ r.WrittenAs c stub f n ∧
        ∀ s ∈ declaredNames f n, Text.IsDeclarable s := by
  intro c l
  have hall : (routes (.usual .root) (namedDocument "$item") "routes.json").toOption.any (fun rs =>
      decide (ReadsNamed "$item" rs) &&
        rs.all fun r => (l.fulfil (r.stub c)).1.toOption.any fun _ => true) = true := by
    decide +kernel
  obtain ⟨rs, haccept, htest⟩ := Except.exists_of_any hall
  obtain ⟨hnamed, hstubs⟩ := (Bool.and_eq_true _ _).mp htest
  obtain ⟨r, rfl, hlabel, hlabels⟩ := (of_decide_eq_true hnamed).exists_route
  obtain ⟨stub, hstub, -⟩ := Except.exists_of_any (List.all_eq_true.mp hstubs r List.mem_cons_self)
  obtain ⟨f, n, hwritten, hnames, hdeclarable⟩ :=
    declared_names haccept List.mem_cons_self hstub
  refine ⟨r, haccept, hlabel, stub, f, n, hstub, hwritten, fun s hs => ?_⟩
  refine (hdeclarable s hs).2.mpr ?_
  rcases (hnames s).mp hs with rfl | rfl | hs
  · rw [hlabel]
    decide
  · decide
  · rw [hlabels] at hs
    rw [List.mem_singleton.mp hs]
    decide

/-- A route named by a word of the language, and one with a line break behind its name: both
documents are accepted, and neither name can be declared. -/
theorem RouteDocument.undeclarable_names :
    let c : Config := { output := "src/api" }
    let l := Ledger.forFile .root "src/api/functional/index.ts"
    ∀ s ∈ ["delete", "x\n"], ¬ Text.IsDeclarable s ∧
      ∃ r, routes (.usual .root) (namedDocument s) "routes.json" = .ok [r] ∧
        ∃ stub f n, (l.fulfil (r.stub c)).1 = .ok stub ∧ r.WrittenAs c stub f n ∧
          f.name = s ∧ n.name = s := by
  intro c l s hs
  have hall : (["delete", "x\n"].all fun s =>
      (routes (.usual .root) (namedDocument s) "routes.json").toOption.any fun rs =>
        decide (ReadsNamed s rs) &&
          rs.all fun r => (l.fulfil (r.stub c)).1.toOption.any fun _ => true) = true := by
    decide +kernel
  obtain ⟨rs, haccept, htest⟩ := Except.exists_of_any (List.all_eq_true.mp hall s hs)
  obtain ⟨hnamed, hstubs⟩ := (Bool.and_eq_true _ _).mp htest
  obtain ⟨r, rfl, hlabel, -⟩ := (of_decide_eq_true hnamed).exists_route
  obtain ⟨stub, hstub, -⟩ := Except.exists_of_any (List.all_eq_true.mp hstubs r List.mem_cons_self)
  obtain ⟨f, n, hwritten, hparts⟩ := Route.exists_stubOf_fulfil hstub
  refine ⟨?_, r, haccept, stub, f, n, hstub, hwritten, ?_, ?_⟩
  · simp only [List.mem_cons, List.not_mem_nil, or_false] at hs
    rcases hs with rfl | rfl <;> decide
  · exact hparts.function.name.trans hlabel
  · exact hparts.scope.name.trans hlabel

end ClientSdk
