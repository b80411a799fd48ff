import ClientSdk.Proofs.Path.Join
import ClientSdk.Proofs.RouteDocument.Wording

/-!
# Which documents are accepted, and where the others are wrong

The route documents written out as a grammar of their own (`RouteDocument.Derives`): a
production for each form that a value may have at a place.  The rules accept a value at a
place if and only if it is derived there (`keeps_iff_derives`), so a document has no
problems if and only if it is derived as one, and otherwise the problems are all breaches
of what is asked of the values inside the document, each under its path and in the words of
the host, which name no other rule if they name rules at all (`problems_are_breaches`).  None
is reported if the host cannot follow the document to its end, or has no words for a value in
it (`problems_of_long_integer`).
-/

namespace ClientSdk

namespace RouteDocument

/-! ## The grammar written out -/

def Has (members : List (String × Value)) (key : String) : Prop :=
  (Table.get? members key).isSome = true

/-- A mapping that has nothing under the key but what the predicate says. -/
def At (members : List (String × Value)) (key : String) (P : Value → Prop) : Prop :=
  ∀ w, Table.get? members key = some w → P w

/-- A name: an identifier, with one line break behind it at most. -/
def IsName (s : String) : Prop :=
  ∃ cs, Text.isIdentifierChars cs = true ∧ (s.toList = cs ∨ s.toList = cs ++ ['\n'])

/-- The values that a route document may have at a place.  Mappings may have further members,
whatever they hold. -/
inductive Derives : Place → Value → Prop
  | document {m : List (String × Value)} : Has m "routes" →
      At m "routes" (Derives (.listOf .route)) → Derives .document (.map m)
  | route {m : List (String × Value)} :
      Has m "name" → Has m "method" → Has m "path" → Has m "accessors" →
      At m "name" (Derives .identifier) → At m "method" (Derives .method) →
      At m "path" (Derives .text) → At m "encrypted" (Derives .boolean) →
      At m "status" (Derives .status) → At m "content_type" (Derives .optionalText) →
      At m "symbol" (Derives .optionalText) → At m "description" (Derives .optionalText) →
      At m "tags" (Derives (.listOf .docTag)) → At m "accessors" (Derives .accessors) →
      At m "parameters" (Derives (.listOf .parameter)) → At m "output" (Derives .namedType) →
      At m "imports" (Derives (.listOf .importEntry)) → Derives .route (.map m)
  | parameter {m : List (String × Value)} : Has m "name" → Has m "category" → Has m "type" →
      At m "name" (Derives .identifier) → At m "category" (Derives .category) →
      At m "field" (Derives .optionalText) → At m "encrypted" (Derives .boolean) →
      At m "type" (Derives .namedType) → Derives .parameter (.map m)
  | namedType {m : List (String × Value)} : Has m "name" →
      At m "name" (Derives .nonEmptyText) → At m "metadata" (Derives .shape) →
      Derives .namedType (.map m)
  | shape {m : List (String × Value)} :
      At m "any" (Derives .boolean) → At m "required" (Derives .boolean) →
      At m "optional" (Derives .boolean) → At m "nullable" (Derives .boolean) →
      At m "escaped" (Derives .escaped) → At m "constants" (Derives (.listOf .constant)) →
      At m "templates" (Derives (.listOf (.listOf .shape))) →
      At m "atomics" (Derives (.listOf .atomic)) → At m "tuples" (Derives (.listOf .tuple)) →
      At m "arrays" (Derives (.listOf .array)) → At m "objects" (Derives (.listOf .object)) →
      At m "aliases" (Derives (.listOf .aliasName)) → At m "natives" (Derives (.listOf .text)) →
      At m "rest" (Derives .shape) → Derives .shape (.map m)
  | escaped {m : List (String × Value)} : Has m "original" → Has m "returns" →
      At m "original" (Derives .shape) → At m "returns" (Derives .shape) →
      Derives .escaped (.map m)
  | aliasName {m : List (String × Value)} : Has m "name" →
      At m "name" (Derives .nonEmptyText) → Derives .aliasName (.map m)
  | object {m : List (String × Value)} :
      At m "name" (Derives .optionalText) → At m "description" (Derives .optionalText) →
      At m "jsdoc_tags" (Derives (.listOf .docTag)) →
      At m "properties" (Derives (.listOf .property)) → Derives .object (.map m)
  | property {m : List (String × Value)} : Has m "key" → Has m "value" →
      At m "key" (Derives .shape) → At m "value" (Derives .shape) →
      At m "description" (Derives .optionalText) →
      At m "jsdoc_tags" (Derives (.listOf .docTag)) → Derives .property (.map m)
  | tuple {m : List (String × Value)} : Has m "elements" →
      At m "name" (Derives .optionalText) → At m "elements" (Derives (.listOf .shape)) →
      Derives .tuple (.map m)
  | array {m : List (String × Value)} : Has m "value" →
      At m "name" (Derives .optionalText) → At m "value" (Derives .shape) →
      At m "tags" (Derives (.listOf (.listOf .validationTag))) → Derives .array (.map m)
  | atomic {m : List (String × Value)} : Has m "type" → At m "type" (Derives .atomicKind) →
      At m "tags" (Derives (.listOf (.listOf .validationTag))) → Derives .atomic (.map m)
  | constant {m : List (String × Value)} : Has m "type" → Has m "values" →
      At m "type" (Derives .constantKind) → At m "values" (Derives (.listOf .literal)) →
      Derives .constant (.map m)
  | validationTag {m : List (String × Value)} : Has m "name" → Has m "value" →
      At m "name" (Derives .nonEmptyText) → At m "kind" (Derives .text) →
      At m "value" (Derives .literal) → Derives .validationTag (.map m)
  | docTag {m : List (String × Value)} : Has m "name" →
      At m "name" (Derives .nonEmptyText) → At m "text" (Derives .docText) →
      Derives .docTag (.map m)
  | docPart {m : List (String × Value)} :
      At m "text" (Derives .text) → At m "kind" (Derives .text) → Derives .docPart (.map m)
  | noDocText : Derives .docText .null
  | docText (s : String) : Derives .docText (.text s)
  | docParts {parts : List Value} : (∀ w ∈ parts, Derives .docPart w) →
      Derives .docText (.list parts)
  | importEntry {library names : Value} : Derives .text library →
      Derives (.listOf .text) names → Derives .importEntry (.list [library, names])
  | accessors {names : List Value} : names ≠ [] → (∀ w ∈ names, Derives .identifier w) →
      Derives .accessors (.list names)
  | category {s : String} : s ∈ ["path", "query", "body", "header"] →
      Derives .category (.text s)
  | method {s : String} : s ∈ ["GET", "POST", "PUT", "PATCH", "DELETE", "HEAD", "get", "post",
      "put", "patch", "delete", "head"] → Derives .method (.text s)
  | atomicKind {s : String} : s ∈ ["boolean", "bigint", "number", "integer", "float",
      "string"] → Derives .atomicKind (.text s)
  | constantKind {s : String} : s ∈ ["boolean", "bigint", "number", "string"] →
      Derives .constantKind (.text s)
  | identifier {s : String} : IsName s → Derives .identifier (.text s)
  | boolean (b : Bool) : Derives .boolean (.bool b)
  | noStatus : Derives .status .null
  | status (n : ℤ) : Derives .status (.int n)
  /-- A number that is written with a point, and is an integer. -/
  | pointedStatus {x : Binary64} {n : ℤ} : x.integer? = some n → Derives .status (.float x)
  | text (s : String) : Derives .text (.text s)
  | nonEmptyText {s : String} : s ≠ "" → Derives .nonEmptyText (.text s)
  | noText : Derives .optionalText .null
  | optionalText (s : String) : Derives .optionalText (.text s)
  | boolLiteral (b : Bool) : Derives .literal (.bool b)
  | intLiteral (n : ℤ) : Derives .literal (.int n)
  | floatLiteral (x : Binary64) : Derives .literal (.float x)
  | textLiteral (s : String) : Derives .literal (.text s)
  | listOf {place : Place} {items : List Value} : (∀ w ∈ items, Derives place w) →
      Derives (.listOf place) (.list items)

/-! ## It is the grammar of the rules -/

section Mappings

variable {place : Place} {required : List String} {fields : List (String × Place)}
  {members : List (String × Value)}

theorem fits_mapping_iff {v : Value} : (mappingOf required fields).Fits v ↔
    ∃ members, v = .map members ∧ ∀ key ∈ required, Has members key := by
  rw [Rule.fits_iff]
  cases v <;> simp [mappingOf, Rule.AllowsKind, Kind.holds, Has]

theorem keeps_mapping (hg : grammar place = [mappingOf required fields])
    (hrequired : ∀ key ∈ required, Has members key)
    (hfields : ∀ f ∈ fields, ∀ w, Table.get? members f.1 = some w → grammar.Keeps w f.2) :
    grammar.Keeps (.map members) place :=
  Grammar.keeps_map (by simp [hg]) (fits_mapping_iff.mpr ⟨members, rfl, hrequired⟩) hfields

theorem exists_mapping {v : Value} {P : Value → Place → Prop}
    (hfits : (mappingOf required fields).Fits v)
    (hparts : ∀ step inner x, (mappingOf required fields).Leads step inner →
      v.part? step = some x → P x inner) :
    ∃ members, v = .map members ∧ (∀ key ∈ required, Has members key) ∧
      ∀ f ∈ fields, At members f.1 (P · f.2) := by
  obtain ⟨members, rfl, hrequired⟩ := fits_mapping_iff.mp hfits
  exact ⟨members, rfl, hrequired, fun f hf w hw => hparts (.key f.1) f.2 w (.field hf) hw⟩

end Mappings

theorem exists_text_of_fits {r : Rule Place} {v : Value} (hkinds : r.kinds = [.string])
    (h : r.Fits v) : ∃ s, v = .text s := by
  simpa [Rule.AllowsKind, hkinds, Kind.holds_iff] using Rule.allowsKind_of_fits h

theorem keeps_of_derives {place : Place} {v : Value} (h : Derives place v) :
    grammar.Keeps v place := by
  induction h with
  | document | route | parameter | namedType | shape | escaped | aliasName | object
  | property | tuple | array | atomic | constant | validationTag | docTag | docPart =>
      -- The keys and the members are the arguments and the hypotheses of the induction.
      refine keeps_mapping rfl ?_ ?_ <;>
        simp only [List.forall_mem_cons, List.not_mem_nil, false_implies, implies_true,
          and_true] <;>
        and_intros <;> assumption
  | listOf _ ih =>
      exact Grammar.keeps_items (List.mem_singleton_self _) (fits_listRule_iff.mpr ⟨_, rfl⟩)
        rfl rfl ih
  | docParts _ ih =>
      have hrule : listRule .docPart ∈ grammar .docText :=
        List.mem_cons_of_mem _ (List.mem_cons_of_mem _ List.mem_cons_self)
      exact Grammar.keeps_items hrule (fits_listRule_iff.mpr ⟨_, rfl⟩) rfl rfl ih
  | accessors hne _ ih =>
      refine Grammar.keeps_items (List.mem_singleton_self _) ?_ rfl rfl ih
      simpa [Rule.fits_iff, Rule.AllowsKind, Kind.holds, Nat.one_le_iff_ne_zero] using hne
  | importEntry _ _ hlibrary hnames =>
      refine .of_rule (List.mem_singleton_self _) ?_ fun step inner x hleads hx => ?_
      · simp [Rule.fits_iff, Rule.AllowsKind, Kind.holds]
      · cases hleads with
        | field => cases hx
        | item hitems => cases hitems
        | @firstItem i _ hfirst =>
            rcases i with _ | _ | i
            · cases hfirst
              cases hx
              exact hlibrary
            · cases hfirst
              cases hx
              exact hnames
            · cases hfirst
  | noDocText =>
      refine Grammar.keeps_scalar (List.mem_cons_of_mem _ List.mem_cons_self) ?_ fun _ => rfl
      simp [Rule.fits_iff, Rule.AllowsKind, Kind.holds]
  | docText s =>
      refine Grammar.keeps_scalar List.mem_cons_self ?_ fun _ => rfl
      simp [Rule.fits_iff, Rule.AllowsKind, Kind.holds]
  | identifier hs =>
      refine Grammar.keeps_scalar (List.mem_singleton_self _) ?_ fun _ => rfl
      simpa [Rule.fits_iff, Rule.AllowsKind, Kind.holds] using Text.isIdentifierLine_iff.mpr hs
  | nonEmptyText hs =>
      refine Grammar.keeps_scalar (List.mem_singleton_self _) ?_ fun _ => rfl
      simpa [Rule.fits_iff, Rule.AllowsKind, Kind.holds, Nat.one_le_iff_ne_zero] using hs
  | _ =>
      refine Grammar.keeps_scalar (List.mem_singleton_self _) ?_ fun _ => rfl
      simp_all [Rule.fits_iff, Rule.AllowsKind, Kind.holds]

theorem derives_of_keeps {place : Place} {v : Value} (h : grammar.Keeps v place) :
    Derives place v := by
  induction h with
  | @of_rule v place r hr hfits hparts ih =>
      have hkind := Rule.allowsKind_of_fits hfits
      cases place with
      | document | route | parameter | namedType | shape | escaped | aliasName | object
      | property | tuple | array | atomic | constant | validationTag | docTag | docPart =>
          obtain rfl := List.mem_singleton.mp hr
          obtain ⟨members, rfl, hrequired, hfields⟩ := exists_mapping hfits ih
          -- Each argument of the production is one of the keys or of the fields of the rule.
          constructor <;> first | exact hrequired _ (by decide) | exact hfields (_, _) (by decide)
      | listOf items =>
          obtain rfl := List.mem_singleton.mp hr
          obtain ⟨items, rfl⟩ := fits_listRule_iff.mp hfits
          exact .listOf (Rule.of_items rfl ih)
      | docText =>
          rcases hr with _ | ⟨_, _ | ⟨_, _ | ⟨_, hr⟩⟩⟩
          · obtain ⟨s, rfl⟩ := exists_text_of_fits rfl hfits
            exact .docText s
          · obtain rfl : v = .null := by simpa [Rule.AllowsKind, Kind.holds_iff] using hkind
            exact .noDocText
          · obtain ⟨items, rfl⟩ := fits_listRule_iff.mp hfits
            exact .docParts (Rule.of_items rfl ih)
          · exact absurd hr List.not_mem_nil
      | importEntry =>
          obtain rfl := List.mem_singleton.mp hr
          obtain ⟨items, rfl⟩ : ∃ items, v = .list items := by
            simpa [Rule.AllowsKind, Kind.holds_iff] using hkind
          obtain ⟨-, -, hleast, hmost⟩ := Rule.fits_iff.mp hfits
          obtain ⟨library, names, rfl⟩ :=
            List.length_eq_two.mp (Nat.le_antisymm (hmost 2 rfl) hleast)
          exact .importEntry (ih (.index 0) .text library (.firstItem rfl) rfl)
            (ih (.index 1) (.listOf .text) names (.firstItem rfl) rfl)
      | accessors =>
          obtain rfl := List.mem_singleton.mp hr
          obtain ⟨items, rfl⟩ : ∃ items, v = .list items := by
            simpa [Rule.AllowsKind, Kind.holds_iff] using hkind
          obtain ⟨-, -, hleast, -⟩ := Rule.fits_iff.mp hfits
          exact .accessors (List.length_pos_iff.mp hleast) (Rule.of_items rfl ih)
      | category | method | atomicKind | constantKind =>
          obtain rfl := List.mem_singleton.mp hr
          obtain ⟨s, hs, rfl⟩ := (Rule.choice_of_fits hfits).resolve_left (List.cons_ne_nil _ _)
          constructor
          exact hs
      | identifier =>
          obtain rfl := List.mem_singleton.mp hr
          obtain ⟨s, rfl⟩ := exists_text_of_fits rfl hfits
          exact .identifier (Text.isIdentifierLine_iff.mp ((Rule.fits_iff.mp hfits).2.2.1 rfl))
      | boolean =>
          obtain rfl := List.mem_singleton.mp hr
          obtain ⟨b, rfl⟩ : ∃ b, v = .bool b := by
            simpa [Rule.AllowsKind, Kind.holds_iff] using hkind
          exact .boolean b
      | status =>
          obtain rfl := List.mem_singleton.mp hr
          obtain (⟨n, rfl⟩ | ⟨x, rfl, n, hn⟩) | rfl :
              ((∃ n, v = .int n) ∨ ∃ x, v = .float x ∧ ∃ n, x.integer? = some n) ∨ v = .null := by
            simpa [Rule.AllowsKind, Kind.holds_iff] using hkind
          · exact .status n
          · exact .pointedStatus hn
          · exact .noStatus
      | literal =>
          obtain rfl := List.mem_singleton.mp hr
          obtain ⟨b, rfl⟩ | (⟨n, rfl⟩ | ⟨x, rfl⟩) | ⟨s, rfl⟩ : (∃ b, v = .bool b) ∨
              ((∃ n, v = .int n) ∨ ∃ x, v = .float x) ∨ ∃ s, v = .text s := by
            simpa [Rule.AllowsKind, Kind.holds_iff] using hkind
          · exact .boolLiteral b
          · exact .intLiteral n
          · exact .floatLiteral x
          · exact .textLiteral s
      | text =>
          obtain rfl := List.mem_singleton.mp hr
          obtain ⟨s, rfl⟩ := exists_text_of_fits rfl hfits
          exact .text s
      | nonEmptyText =>
          obtain rfl := List.mem_singleton.mp hr
          obtain ⟨s, rfl⟩ := exists_text_of_fits rfl hfits
          refine .nonEmptyText ?_
          rintro rfl
          exact absurd (Rule.fits_iff.mp hfits).2.2.2 (by decide)
      | optionalText =>
          obtain rfl := List.mem_singleton.mp hr
          obtain ⟨s, rfl⟩ | rfl : (∃ s, v = .text s) ∨ v = .null := by
            simpa [Rule.AllowsKind, Kind.holds_iff] using hkind
          · exact .optionalText s
          · exact .noText

/-- The rules accept at a place what is derived there. -/
theorem keeps_iff_derives {place : Place} {v : Value} :
    grammar.Keeps v place ↔ Derives place v :=
  ⟨derives_of_keeps, keeps_of_derives⟩

theorem typed_rules {place : Place} {r : Rule Place} (hg : grammar place = [r]) : r.Typed := by
  cases place with
  | document | route | parameter | namedType | shape | escaped | aliasName | object
  | property | tuple | array | atomic | constant | validationTag | docTag | docPart =>
      cases hg
      exact Rule.typed_of_kinds rfl (.inr ⟨rfl, rfl⟩) (.inr ⟨⟨rfl, rfl⟩, rfl, rfl⟩)
        (.inl List.mem_cons_self)
  | listOf | importEntry | accessors =>
      cases hg
      exact Rule.typed_of_kinds rfl (.inr ⟨rfl, rfl⟩) (.inl List.mem_cons_self)
        (.inr ⟨rfl, rfl⟩)
  | category | method | atomicKind | constantKind =>
      cases hg
      exact Rule.typed_of_any rfl
  | identifier | text | nonEmptyText | optionalText =>
      cases hg
      exact Rule.typed_of_kinds rfl (.inl List.mem_cons_self) (.inr ⟨⟨rfl, rfl⟩, rfl, rfl⟩)
        (.inr ⟨rfl, rfl⟩)
  | boolean | status | literal =>
      cases hg
      exact Rule.typed_of_kinds rfl (.inr ⟨rfl, rfl⟩) (.inr ⟨⟨rfl, rfl⟩, rfl, rfl⟩)
        (.inr ⟨rfl, rfl⟩)
  | docText => cases hg

/-! ## What is reported -/

/-- How a path is written: the root of the document, then a dot and the key or the number in
brackets, for each step. -/
inductive WrittenPath : List Step → String → Prop
  | root : WrittenPath [] "$"
  | key {path : List Step} {text : String} (k : String) : WrittenPath path text →
      WrittenPath (path ++ [.key k]) (text ++ "." ++ k)
  | index {path : List Step} {text : String} (i : ℕ) : WrittenPath path text →
      WrittenPath (path ++ [.index i]) (text ++ "[" ++ toString i ++ "]")

theorem writtenPath_place (w : Violation) : WrittenPath w.path w.place := by
  obtain ⟨path, value, breach⟩ := w
  show WrittenPath path (Violation.place ⟨path, value, breach⟩)
  induction path using List.reverseRecOn with
  | nil => exact .root
  | append_singleton path step ih =>
      cases step with
      | key k =>
          have hplace : Violation.place ⟨path ++ [.key k], value, breach⟩ =
              Violation.place ⟨path, value, breach⟩ ++ "." ++ k := by
            simp [Violation.place, String.append_assoc]
          rw [hplace]
          exact .key k ih
      | index i =>
          have hplace : Violation.place ⟨path ++ [.index i], value, breach⟩ =
              Violation.place ⟨path, value, breach⟩ ++ "[" ++ toString i ++ "]" := by
            simp [Violation.place, String.append_assoc]
          rw [hplace]
          exact .index i ih

theorem mem_violations_iff {document : Value} {w : Violation} :
    w ∈ violations document ↔ document.at? w.path = some w.value ∧
      ∃ place, grammar.Leads .document w.path place ∧ grammar.Breaks place w.value w.breach := by
  rw [violations, Grammar.mem_sorted]
  constructor
  · intro hw
    obtain ⟨place, hleads, hat, hbreaks⟩ := Grammar.of_mem_violations hw
    exact ⟨hat, place, hleads, hbreaks⟩
  · rintro ⟨hat, place, hleads, hbreaks⟩
    exact Grammar.mem_violations_of_breaks (fun _ _ => typed_rules) hleads hat hbreaks

/-- A document that cannot be checked, for its depth or for what cannot be put into words,
fails with that.  Any other has no problems if and only if it is derived as a document.  The
problems come in the order of their places, which are compared step by step as texts.  They
are all that is wrong, and nothing else: at a path there is a value inside the document that
breaks what the grammar asks of it at the place where it stands, and that is not derived there.
The text of a problem is the path and, behind it, the words for this breach by this value; if
words name rules, no other breach is put into the same words. -/
theorem problems_are_breaches (host : Host) (document : Value) :
    (¬ Checkable host document →
      ∃ fault, CheckFails host document fault ∧ problems host document = .error fault) ∧
    (Checkable host document → ∃ (errors : List Violation) (found : List String),
      problems host document = .ok found ∧
      (found = [] ↔ Derives .document document) ∧
      (errors.Pairwise fun v w => v.path.map Step.label ≤ w.path.map Step.label) ∧
      (∀ w, w ∈ errors ↔ document.at? w.path = some w.value ∧
        ∃ place, grammar.Leads .document w.path place ∧
          grammar.Breaks place w.value w.breach) ∧
      List.Forall₂ (fun w text => ∃ path said, WrittenPath w.path path ∧
        host.wording w.breach w.value = .ok said ∧ text = path ++ ": " ++ said ∧
        (NamesRules host.wording → ∀ b, Asked b → host.wording b w.value = .ok said →
          b = w.breach)) errors found) ∧
    ∀ place v b, grammar.Breaks place v b → ¬ Derives place v := by
  refine ⟨exists_checkFails, fun hcheck => ?_,
    fun place v b hbreaks h => hbreaks.not_keeps (keeps_of_derives h)⟩
  obtain ⟨found, hfound⟩ := hcheck.exists_problems
  have hall := forall₂_problems hfound
  refine ⟨violations document, found, hfound, ?_, Grammar.pairwise_sorted _,
    fun w => mem_violations_iff, ?_⟩
  · have hnone : found = [] ↔ violations document = [] := by
      constructor
      · rintro rfl
        exact List.forall₂_nil_right_iff.mp hall
      · intro h
        rw [h] at hall
        exact List.forall₂_nil_left_iff.mp hall
    rw [hnone, violations_eq_nil_iff, Grammar.violations_eq_nil_iff, keeps_iff_derives]
  · refine (List.forall₂_and_left _ _).mpr ⟨fun w hw => mem_violations_iff.mp hw, hall⟩ |>.imp ?_
    rintro w text ⟨⟨-, place, -, hbreaks⟩, htext⟩
    obtain ⟨said, hsaid, hpure⟩ := Except.bind_eq_ok_iff.mp htext
    refine ⟨w.place, said, writtenPath_place w, hsaid, (Except.ok.inj hpure).symm,
      fun hnames b hb hwords => ?_⟩
    exact hnames w.value b w.breach said hb ⟨place, w.value, hbreaks⟩ hwords hsaid

/-- A document whose routes are an integer that is too long to be written. -/
def longDocument : Value :=
  .map [("routes", .int (Nat.pow 16 3600))]

/-- No problem is reported of a document that breaks a rule with a long integer. -/
theorem problems_of_long_integer :
    ¬ Derives .document longDocument ∧
      problems (.usual .root) longDocument = .error (.value .tooLongToWrite) := by
  have hbroken : violations longDocument ≠ [] :=
    fun h => absurd (List.isEmpty_iff.mpr h) (by decide +kernel)
  refine ⟨fun h => hbroken ?_, ?_⟩
  · exact violations_eq_nil_iff.mpr (Grammar.violations_eq_nil_iff.mpr (keeps_of_derives h))
  · have hcheck : ¬ Checkable (.usual .root) longDocument :=
      not_checkable_of_isNone (by decide +kernel)
    obtain ⟨fault, hfault, hproblems⟩ := exists_checkFails hcheck
    rw [hproblems]
    cases hfault with
    | depth h => exact absurd h nofun
    | wording _ hwording => rw [eq_tooLongToWrite hwording]

/-- A text in the place of routes, and an integer there that is too long. -/
theorem problems_of_text_and_long_integer :
    let host := Host.usual .root
    let document := Value.map [("routes", .text "x")]
    NamesRules host.wording ∧
      (¬ Checkable host longDocument ∧ ∃ fault, CheckFails host longDocument fault ∧
        problems host longDocument = .error fault) ∧
      Checkable host document ∧
      problems host document = .ok ["$.routes: 'x' is not of type 'array'"] ∧
      ∃ w : Violation, document.at? w.path = some w.value ∧
        (∃ place, grammar.Leads .document w.path place ∧
          grammar.Breaks place w.value w.breach ∧ ¬ Derives place w.value) ∧
        ∃ path said, WrittenPath w.path path ∧ host.wording w.breach w.value = .ok said ∧
          "$.routes: 'x' is not of type 'array'" = path ++ ": " ++ said ∧
          ∀ b, Asked b → host.wording b w.value = .ok said → b = w.breach := by
  intro host document
  have hcheck : Checkable host document := checkable_of_all rfl (by decide +kernel)
  have hlong : ¬ Checkable host longDocument := not_checkable_of_isNone (by decide +kernel)
  have hproblems : problems host document = .ok ["$.routes: 'x' is not of type 'array'"] :=
    Except.toOption_eq_some_iff.mp (by decide +kernel)
  obtain ⟨-, hreported, hderived⟩ := problems_are_breaches host document
  obtain ⟨errors, found, hfound, -, -, hbreach, htexts⟩ := hreported hcheck
  obtain rfl := Except.ok.inj (hproblems.symm.trans hfound)
  cases htexts with
  | @cons w _ _ _ htext _ =>
      obtain ⟨hat, place, hleads, hbreaks⟩ := (hbreach w).mp List.mem_cons_self
      obtain ⟨path, said, hpath, hsaid, htext, hnamed⟩ := htext
      exact ⟨namesRules_usual, ⟨hlong, (problems_are_breaches host longDocument).1 hlong⟩, hcheck,
        hproblems, w, hat, ⟨place, hleads, hbreaks, hderived place _ _ hbreaks⟩,
        path, said, hpath, hsaid, htext, hnamed namesRules_usual⟩

end RouteDocument

end ClientSdk
