import ClientSdk.Proofs.Except
import ClientSdk.Proofs.Schema
import ClientSdk.RouteDocument
import Mathlib.Data.List.Basic

/-!
# Values that keep to a grammar

What a value looks like at a place of which it breaks no rule: a list whose items
keep to the place of items (`exists_items`), or a mapping that has the keys it has to
have and whose members keep to their places (`exists_members`).  So a document that
gives routes at all gives routes whose accessors are identifiers
(`named_of_routes`).
-/

namespace ClientSdk

namespace Grammar

variable {π : Type} {g : Grammar π} {place : π} {r : Rule π}

theorem fits_of_violations {v : Value} (hg : g place = [r]) (h : g.violations v place = []) :
    r.Fits v :=
  ((violations_eq_nil_iff_of_rule hg).mp h).1

theorem holds_of_violations {v : Value} (hg : g place = [r]) (hkinds : r.kinds ≠ [])
    (h : g.violations v place = []) : r.kinds.any (·.holds v) = true :=
  List.any_eq_true.mpr
    ((Rule.allowsKind_of_fits (fits_of_violations hg h)).resolve_left hkinds)

theorem exists_choice {v : Value} (hg : g place = [r]) (hchoices : r.choices ≠ [])
    (h : g.violations v place = []) : ∃ s ∈ r.choices, v = .text s :=
  (Rule.choice_of_fits (fits_of_violations hg h)).resolve_left hchoices

/-- The items of a list that breaks no rule, if its place asks for lists. -/
theorem exists_items {v : Value} {items : π} (hg : g place = [r]) (hkinds : r.kinds = [.array])
    (hitems : r.items = some items) (h : g.violations v place = []) :
    ∃ vs, v = .list vs ∧ r.Fits v ∧ ∀ w ∈ vs, g.violations w items = [] := by
  obtain ⟨hfits, hparts⟩ := (violations_eq_nil_iff_of_rule hg).mp h
  obtain ⟨vs, rfl⟩ : ∃ vs, v = .list vs := by
    simpa [Rule.AllowsKind, hkinds, Kind.holds_iff] using Rule.allowsKind_of_fits hfits
  exact ⟨vs, rfl, hfits,
    Rule.of_items (P := fun w inner => g.violations w inner = []) hitems hparts⟩

/-- The members of a mapping that breaks no rule, if its place asks for mappings. -/
theorem exists_members {v : Value} (hg : g place = [r]) (hkinds : r.kinds = [.object])
    (h : g.violations v place = []) :
    ∃ members, v = .map members ∧
      (∀ key ∈ r.required, ∃ w, Table.get? members key = some w) ∧
      ∀ key inner w, (key, inner) ∈ r.fields → Table.get? members key = some w →
        g.violations w inner = [] := by
  obtain ⟨hfits, hparts⟩ := (violations_eq_nil_iff_of_rule hg).mp h
  obtain ⟨members, rfl⟩ : ∃ members, v = .map members := by
    simpa [Rule.AllowsKind, hkinds, Kind.holds_iff] using Rule.allowsKind_of_fits hfits
  refine ⟨members, rfl, fun key hkey => ?_, fun key inner w hfield hw => ?_⟩
  · exact Option.isSome_iff_exists.mp ((Rule.fits_iff.mp hfits).2.2 key hkey)
  · exact hparts (.key key) inner w (.field hfield) hw

theorem exists_identifier {v : Value} (hg : g place = [r]) (hkinds : r.kinds = [.string])
    (hidentifier : r.identifier = true) (h : g.violations v place = []) :
    ∃ s, v = .text s ∧ Text.isIdentifierLine s = true := by
  have hfits := fits_of_violations hg h
  obtain ⟨s, rfl⟩ : ∃ s, v = .text s := by
    simpa [Rule.AllowsKind, hkinds, Kind.holds_iff] using Rule.allowsKind_of_fits hfits
  exact ⟨s, rfl, (Rule.fits_iff.mp hfits).2.2.1 hidentifier⟩

end Grammar

/-- A route whose accessors are identifiers, one at least. -/
def Route.Named (r : Route) : Prop :=
  ∃ names : List String, r.accessors = names.map .text ∧ names ≠ [] ∧
    ∀ s ∈ names, Text.isIdentifierLine s = true

namespace RouteDocument

theorem violations_eq_nil_iff {document : Value} :
    violations document = [] ↔ grammar.violations document .document = [] :=
  Grammar.sorted_eq_nil_iff

theorem fits_listRule_iff {place : Place} {v : Value} :
    (listRule place).Fits v ↔ ∃ items, v = .list items := by
  rw [Rule.fits_iff]
  cases v <;> simp [listRule, Rule.AllowsKind, Kind.holds]

theorem exists_names {v : Value} (h : grammar.violations v .accessors = []) :
    ∃ names : List String, v = .list (names.map .text) ∧ names ≠ [] ∧
      ∀ s ∈ names, Text.isIdentifierLine s = true := by
  obtain ⟨vs, rfl, hfits, hitems⟩ : ∃ vs, v = .list vs ∧
      ({ kinds := [.array], minItems := 1, items := some .identifier } : Rule Place).Fits v ∧
        ∀ w ∈ vs, grammar.violations w .identifier = [] :=
    Grammar.exists_items rfl rfl rfl h
  have hnames : ∀ vs : List Value, (∀ w ∈ vs, grammar.violations w .identifier = []) →
      ∃ names : List String, vs = names.map .text ∧
        ∀ s ∈ names, Text.isIdentifierLine s = true := by
    intro vs hvs
    induction vs with
    | nil => exact ⟨[], rfl, by simp⟩
    | cons w vs ih =>
        obtain ⟨s, rfl, hs⟩ :=
          Grammar.exists_identifier rfl rfl rfl (hvs w List.mem_cons_self)
        obtain ⟨names, rfl, hall⟩ := ih fun w' hw' => hvs w' (List.mem_cons_of_mem _ hw')
        refine ⟨s :: names, rfl, fun s' hs' => ?_⟩
        rcases List.mem_cons.mp hs' with rfl | hs'
        · exact hs
        · exact hall s' hs'
  obtain ⟨names, rfl, hall⟩ := hnames vs hitems
  refine ⟨names, rfl, ?_, hall⟩
  rintro rfl
  exact absurd (Rule.fits_iff.mp hfits).2.2.1 (by decide)

theorem named_of_accessors {r : Route}
    (h : grammar.violations (.list r.accessors) .accessors = []) : r.Named := by
  obtain ⟨names, hnames, hrest⟩ := exists_names h
  exact ⟨names, Value.list.inj hnames, hrest⟩

theorem of_member {members : List (String × Value)} {key : String} {w : Value}
    (h : (Value.map members).member key = .ok w) : Table.get? members key = some w := by
  simp only [Value.member] at h
  split at h
  · next w' hw =>
      cases h
      exact hw
  · cases h

theorem accessors_of_route {v : Value} {r : Route} (h : grammar.violations v .route = [])
    (hread : Route.ofValue v = .ok r) :
    grammar.violations (.list r.accessors) .accessors = [] := by
  obtain ⟨members, rfl, -, hfields⟩ := Grammar.exists_members rfl rfl h
  unfold Route.ofValue at hread
  simp only [Except.bind_eq_ok_iff, pure, Except.pure, Except.ok.injEq] at hread
  obtain ⟨_, -, _, -, _, -, listed, hlisted, accessors, hentries, hrest⟩ := hread
  obtain ⟨_, -, _, -, _, -, _, -, _, -, _, -, _, -, hrest⟩ := hrest
  obtain ⟨_, -, _, -, _, -, _, -, _, -, _, -, rfl⟩ := hrest
  have hkeeps := hfields "accessors" .accessors listed (by decide) (of_member hlisted)
  obtain ⟨names, rfl, -⟩ := exists_names hkeeps
  cases hentries
  exact hkeeps

theorem of_routes {host : Host} {document : Value} {source : String} {rs : List Route}
    (h : routes host document source = .ok rs) :
    problems host document = .ok [] ∧
      (do (← (← document.member "routes").entries).mapM Route.ofValue) = .ok rs := by
  obtain ⟨found, hfound, hrest⟩ := Except.bind_eq_ok_iff.mp h
  cases hempty : found.isEmpty with
  | false =>
      rw [hempty] at hrest
      exact absurd hrest nofun
  | true =>
      rw [hempty] at hrest
      rw [List.isEmpty_iff.mp hempty] at hfound
      exact ⟨hfound, hrest⟩

/-- The nesting of the document can be followed to its end, and what is put into words while
it is checked can be put into words. -/
structure Checkable (host : Host) (document : Value) : Prop where
  follows : host.follows document = true
  worded : ∀ remark ∈ grammar.remarks document .document,
    ∃ said, host.wording remark.breach remark.value = .ok said

/-- How the check of a document fails: at its depth, or at what cannot be put into words. -/
inductive CheckFails (host : Host) (document : Value) : Fault → Prop
  | depth : host.follows document = false → CheckFails host document (.value .endless)
  | wording {remark : Violation} {fault : Fault} :
      remark ∈ grammar.remarks document .document →
      host.wording remark.breach remark.value = .error fault → CheckFails host document fault

theorem checkable_of_all {host : Host} {document : Value} (hfollows : host.follows document = true)
    (hworded : ((grammar.remarks document .document).all fun remark =>
      (host.wording remark.breach remark.value).toOption.isSome) = true) :
    Checkable host document := by
  refine ⟨hfollows, fun remark hremark => ?_⟩
  have hsome := List.all_eq_true.mp hworded remark hremark
  obtain ⟨said, hsaid⟩ := Option.isSome_iff_exists.mp hsome
  exact ⟨said, Except.toOption_eq_some_iff.mp hsaid⟩

section Problems

variable {host : Host} {document : Value}

theorem problems_of_follows (h : host.follows document = true) :
    problems host document = (do
      let _ ← (grammar.remarks document .document).mapM fun remark =>
        host.wording remark.breach remark.value
      (violations document).mapM (Violation.text host.wording)) := by
  unfold problems
  rw [h]
  show ((forIn _ _ _ : Except Fault PUnit) >>= fun _ => _) = _
  rw [Except.forIn_eq_mapM]
  cases (grammar.remarks document .document).mapM fun remark =>
    host.wording remark.breach remark.value <;> rfl

theorem text_of_wording {w : Violation} {said : String}
    (h : host.wording w.breach w.value = .ok said) :
    w.text host.wording = .ok (w.place ++ ": " ++ said) := by
  rw [Violation.text, h]
  rfl

/-- What is found is one problem for each violation. -/
theorem forall₂_problems {found : List String} (h : problems host document = .ok found) :
    List.Forall₂ (fun w text => w.text host.wording = .ok text) (violations document) found := by
  unfold problems at h
  split at h
  · exact absurd h nofun
  · obtain ⟨_, -, h⟩ := Except.bind_eq_ok_iff.mp h
    exact Except.forall₂_of_mapM h

/-- A document that can be checked has its problems, none or some. -/
theorem Checkable.exists_problems (h : Checkable host document) :
    ∃ found, problems host document = .ok found := by
  obtain ⟨said, hsaid⟩ := Except.exists_mapM h.worded
  rw [problems_of_follows h.follows, hsaid]
  refine Except.exists_mapM fun w hw => ?_
  obtain ⟨text, htext⟩ := h.worded w
    (Grammar.mem_remarks_of_mem_violations (Grammar.mem_sorted.mp hw))
  exact ⟨_, text_of_wording htext⟩

theorem not_checkable_of_isNone (h : (problems host document).toOption.isNone = true) :
    ¬ Checkable host document := by
  intro hcheck
  obtain ⟨found, hfound⟩ := hcheck.exists_problems
  obtain ⟨fault, hfault⟩ := Except.exists_of_isNone h
  exact absurd (hfound.symm.trans hfault) nofun

/-- A document that cannot be checked fails for one of the reasons why it cannot. -/
theorem exists_checkFails (h : ¬ Checkable host document) :
    ∃ fault, CheckFails host document fault ∧ problems host document = .error fault := by
  cases hfollows : host.follows document with
  | false =>
      refine ⟨_, .depth hfollows, ?_⟩
      unfold problems
      rw [hfollows]
      rfl
  | true =>
      cases hsaid : (grammar.remarks document .document).mapM fun remark =>
          host.wording remark.breach remark.value with
      | ok said =>
          refine absurd ⟨hfollows, fun remark hremark => ?_⟩ h
          obtain ⟨text, -, htext⟩ := Except.mem_of_mapM hsaid hremark
          exact ⟨text, htext⟩
      | error fault =>
          have hways : Except.FailsBy (CheckFails host document)
              ((grammar.remarks document .document).mapM fun remark =>
                host.wording remark.breach remark.value) :=
            .mapM fun remark hremark fault hfault => .wording hremark hfault
          refine ⟨fault, hways fault hsaid, ?_⟩
          rw [problems_of_follows hfollows, hsaid]
          rfl

end Problems

theorem violations_of_routes {host : Host} {document : Value} {source : String} {rs : List Route}
    (h : routes host document source = .ok rs) :
    grammar.violations document .document = [] := by
  have hnone := forall₂_problems (of_routes h).1
  exact violations_eq_nil_iff.mp (List.forall₂_nil_right_iff.mp hnone)

/-- A route of a document is read from a value that keeps to the grammar. -/
theorem exists_item_of_routes {host : Host} {document : Value} {source : String}
    {rs : List Route} (h : routes host document source = .ok rs) {r : Route} (hr : r ∈ rs) :
    ∃ item, grammar.violations item .route = [] ∧ Route.ofValue item = .ok r := by
  obtain ⟨members, rfl, -, hfields⟩ : ∃ members, document = .map members ∧ _ ∧
      ∀ key inner w, (key, inner) ∈ [("routes", Place.listOf .route)] →
        Table.get? members key = some w → grammar.violations w inner = [] :=
    Grammar.exists_members rfl rfl (violations_of_routes h)
  obtain ⟨listed, hlisted, hitems⟩ := Except.bind_eq_ok_iff.mp (of_routes h).2
  obtain ⟨items, hentries, hread⟩ := Except.bind_eq_ok_iff.mp hitems
  obtain ⟨item, hitem, hroute⟩ := Except.exists_of_mem_mapM hread hr
  have hlist := hfields "routes" (.listOf .route) listed List.mem_cons_self
    (of_member hlisted)
  obtain ⟨vs, rfl, -, hvs⟩ : ∃ vs, listed = .list vs ∧ _ ∧
      ∀ w ∈ vs, grammar.violations w .route = [] :=
    Grammar.exists_items rfl rfl rfl hlist
  cases hentries
  exact ⟨item, hvs item hitem, hroute⟩

/-- The routes of a document have accessors that keep to the grammar. -/
theorem named_of_routes {host : Host} {document : Value} {source : String} {rs : List Route}
    (h : routes host document source = .ok rs) : ∀ r ∈ rs, r.Named := by
  intro r hr
  obtain ⟨item, hitem, hroute⟩ := exists_item_of_routes h hr
  exact named_of_accessors (accessors_of_route hitem hroute)

end RouteDocument

end ClientSdk
