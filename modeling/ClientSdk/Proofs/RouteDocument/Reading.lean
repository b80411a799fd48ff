import ClientSdk.Host.Usual
import ClientSdk.Proofs.RouteDocument.Grammar

/-!
# Reading documents that keep to the grammar

A document that breaks no rule can be read, but for one thing: the grammar lets any
literal stand for an integer beyond the floating-point numbers, and not every literal
denotes one.  `routes_settle` says that this is all there is.  It is put together from
`Reads`, said of one decoder after the other: for a value that keeps to the place of the
decoder there is a result if and only if all constants in the value can be read, and
otherwise it is the reading of an integer that fails.

Which constants are in a value is said by the grammar alone (`Grammar.Holds`).  The
decoder of shapes goes as deep as the value does, so it is by induction on the depth that
it `Reads`; the other decoders do because those that they are made of do.
-/

namespace ClientSdk

/-! ## Values inside values -/

/-- A value at a place holds another one at the place of that one. -/
inductive Grammar.Holds {π : Type} (g : Grammar π) : Value → π → Value → π → Prop
  | self (v : Value) (place : π) : Holds g v place v place
  | member {members : List (String × Value)} {place : π} {r : Rule π} {key : String}
      {w : Value} {inner : π} {x : Value} {last : π} : r ∈ g place →
      (key, inner) ∈ r.fields → Table.get? members key = some w →
      Holds g w inner x last → Holds g (.map members) place x last
  | firstItem {items : List Value} {place : π} {r : Rule π} {w : Value} {inner : π}
      {x : Value} {last : π} : r ∈ g place → (w, inner) ∈ items.zip r.firstItems →
      Holds g w inner x last → Holds g (.list items) place x last
  | item {items : List Value} {place : π} {r : Rule π} {w : Value} {inner : π}
      {x : Value} {last : π} : r ∈ g place → r.items = some inner → w ∈ items →
      Holds g w inner x last → Holds g (.list items) place x last

/-- A constant whose values can be read: if it is one of big integers, each of them
denotes an integer. -/
def Value.IsReadableConstant (constant : Value) : Prop :=
  ∀ values, constant.member "type" = .ok (.text "bigint") →
    constant.member "values" = .ok (.list values) →
      ∀ v ∈ values, ∃ n, v.toInteger = .ok n

/-- The failure to read an integer from a literal. -/
def Fault.IsUnreadable : Fault → Prop
  | .value (.notInteger _ _) => True
  | .value (.tooManyDigits _) => True
  | .value .nanNotInteger => True
  | .value .infinityNotInteger => True
  | _ => False

namespace RouteDocument

open Except (Settles)

/-- A value at a place all of whose constants can be read. -/
structure Readable (v : Value) (place : Place) : Prop where
  constants : ∀ constant, grammar.Holds v place constant .constant →
    constant.IsReadableConstant

/-- Whether no constant can be inside a value at the place. -/
def Place.quiet : Place → Bool
  | .document | .route | .parameter | .namedType | .shape | .escaped | .object
  | .property | .tuple | .array | .constant => false
  | .listOf items => items.quiet
  | _ => true

section Places

variable {place inner : Place} {r : Rule Place}

theorem quiet_rules (h : place.quiet = true) : ∀ r ∈ grammar place,
    (∀ f ∈ r.fields, f.2.quiet = true) ∧ (∀ p ∈ r.firstItems, p.quiet = true) ∧
      ∀ p ∈ r.items, p.quiet = true := by
  have hall : ((grammar place).all fun r => r.fields.all (·.2.quiet) &&
      r.firstItems.all Place.quiet && r.items.all Place.quiet) = true := by
    cases place with
    | listOf items => simpa [grammar, listRule, Place.quiet] using h
    | _ => first | rfl | exact absurd h Bool.false_ne_true
  intro r hr
  have hrule := List.all_eq_true.mp hall r hr
  simp only [Bool.and_eq_true, List.all_eq_true, Option.all_eq_true] at hrule
  exact ⟨hrule.1.1, hrule.1.2, hrule.2⟩

theorem quiet_of_holds {v w : Value} {last : Place} (hw : grammar.Holds v place w last)
    (h : place.quiet = true) : last.quiet = true := by
  induction hw with
  | self _ _ => exact h
  | member hr hfield _ _ ih => exact ih ((quiet_rules h _ hr).1 _ hfield)
  | firstItem hr hfirst _ ih =>
      exact ih ((quiet_rules h _ hr).2.1 _ (List.of_mem_zip hfirst).2)
  | item hr hitems _ _ ih => exact ih ((quiet_rules h _ hr).2.2 _ hitems)

theorem readable_of_quiet (v : Value) (h : place.quiet = true) : Readable v place where
  constants _ hconstant := absurd (quiet_of_holds hconstant h) Bool.false_ne_true

theorem readable_map_iff {members : List (String × Value)} (hg : grammar place = [r])
    (hplace : place ≠ .constant) :
    Readable (.map members) place ↔
      ∀ f ∈ r.fields, ∀ w, Table.get? members f.1 = some w → Readable w f.2 := by
  have hr : r ∈ grammar place := by simp [hg]
  constructor
  · intro h f hf w hw
    exact ⟨fun constant hconstant => h.constants constant (.member hr hf hw hconstant)⟩
  · intro h
    refine ⟨fun constant hconstant => ?_⟩
    cases hconstant with
    | self => exact absurd rfl hplace
    | member hr' hfield hw hrest =>
        rw [hg, List.mem_singleton] at hr'
        subst hr'
        exact (h _ hfield _ hw).constants constant hrest

theorem readable_list_iff {items : List Value} :
    Readable (.list items) (.listOf place) ↔ ∀ w ∈ items, Readable w place := by
  have hr : listRule place ∈ grammar (.listOf place) := List.mem_singleton_self _
  constructor
  · intro h w hw
    exact ⟨fun constant hconstant => h.constants constant (.item hr rfl hw hconstant)⟩
  · intro h
    refine ⟨fun constant hconstant => ?_⟩
    cases hconstant with
    | firstItem hr' hfirst _ =>
        rw [List.mem_singleton.mp hr'] at hfirst
        exact absurd hfirst (by simp [listRule])
    | item hr' hitems hw hrest =>
        rw [List.mem_singleton.mp hr'] at hitems
        cases hitems
        exact (h _ hw).constants constant hrest

end Places

/-! ## Parts of lists and mappings -/

/-- A decoder for the values at a place that are nested at most `n` deep: it has a result
if all constants can be read, and otherwise it is an integer that cannot. -/
def Reads {α : Type} (n : ℕ) (place : Place) (read : Value → Except Fault α) : Prop :=
  ∀ v, grammar.violations v place = [] → v.depth ≤ n →
    Settles Fault.IsUnreadable (Readable v place) (read v)

section Parts

variable {α β : Type} {n : ℕ} {place : Place} {read : Value → Except Fault α}

theorem Reads.listOf (h : Reads n place read) :
    Reads n (.listOf place) fun v => v.entries >>= fun items => items.mapM read := by
  intro v hv hdepth
  obtain ⟨items, rfl, -, hitems⟩ : ∃ items, v = .list items ∧ _ ∧
      ∀ w ∈ items, grammar.violations w place = [] :=
    Grammar.exists_items rfl rfl rfl hv
  refine Settles.congr (Settles.mapM fun w hw => h w (hitems w hw) ?_) readable_list_iff.symm
  rw [Value.depth] at hdepth
  exact Nat.le_trans (Value.depth_le_of_mem hw) (Nat.le_of_succ_le hdepth)

theorem Reads.ifTruthy (h : Reads n place read) : Reads n (.listOf place) fun v =>
    if v.truthy then v.entries >>= fun items => items.mapM read else .ok [] := by
  intro v hv hdepth
  obtain ⟨items, rfl, -⟩ : ∃ items, v = .list items ∧ _ ∧ _ :=
    Grammar.exists_items rfl rfl rfl hv
  cases items with
  | nil => exact h.listOf _ hv hdepth
  | cons item items => exact h.listOf _ hv hdepth

theorem Reads.total (hplace : place.quiet = true)
    (h : ∀ v, grammar.violations v place = [] → ∃ a, read v = .ok a) : Reads n place read := by
  intro v hv _
  obtain ⟨a, ha⟩ := h v hv
  rw [ha]
  exact (Settles.ok a).congr (iff_of_true trivial (readable_of_quiet v hplace))

variable {members : List (String × Value)} {key : String} {f : α → Except Fault β}
  {good : Prop}

theorem member_eq_ok {w : Value} (hw : Table.get? members key = some w) :
    (Value.map members).member key = .ok w := by
  rw [Value.member, hw]

theorem settles_member {w : Value} {f : Value → Except Fault β}
    (hw : Table.get? members key = some w) (hf : Settles Fault.IsUnreadable good (f w)) :
    Settles Fault.IsUnreadable good ((Value.map members).member key >>= f) := by
  rw [member_eq_ok hw]
  exact hf

theorem settles_items {items : List Value} {f : List Value → Except Fault β}
    (hf : Settles Fault.IsUnreadable good (f items)) :
    Settles Fault.IsUnreadable good ((Value.list items).entries >>= f) :=
  hf

theorem settles_flag {default : Bool} {f : Bool → Except Fault β}
    (hf : ∀ b, Settles Fault.IsUnreadable good (f b)) :
    Settles Fault.IsUnreadable good ((Value.map members).flag key default >>= f) :=
  hf _

theorem settles_memberOrNull {f : Value → Except Fault β}
    (hf : ∀ w, Settles Fault.IsUnreadable good (f w)) :
    Settles Fault.IsUnreadable good ((Value.map members).memberOrNull key >>= f) :=
  hf _

/-- The members of a mapping whose members keep to their places, read one by one. -/
structure Fits (n : ℕ) (fields : List (String × Place)) (members : List (String × Value)) :
    Prop where
  keeps : ∀ field ∈ fields, ∀ w, Table.get? members field.1 = some w →
    grammar.violations w field.2 = []
  depth : Value.depthOfMembers members ≤ n

variable {fields : List (String × Place)}

theorem Fits.reads (h : Fits n fields members) (hfield : (key, place) ∈ fields)
    (hread : Reads n place read) {w : Value} (hw : Table.get? members key = some w) :
    Settles Fault.IsUnreadable (Readable w place) (read w) :=
  hread w (h.keeps _ hfield w hw) (Nat.le_trans (Value.depth_le_of_get? hw) h.depth)

theorem Fits.optional (h : Fits n fields members) (key : String)
    (hfield : (key, place) ∈ fields)
    (hread : Reads n place read) (hnull : Settles Fault.IsUnreadable True (read .null))
    (hf : ∀ a, Settles Fault.IsUnreadable good (f a)) :
    Settles Fault.IsUnreadable
      ((∀ w, Table.get? members key = some w → Readable w place) ∧ good)
      ((Value.map members).memberOrNull key >>= fun w => read w >>= f) := by
  show Settles _ _ (read ((Table.get? members key).getD .null) >>= f)
  cases hw : Table.get? members key with
  | none => exact (hnull.bind hf).congr (and_congr_left' (by simp))
  | some w => exact ((h.reads hfield hread hw).bind hf).congr (and_congr_left' (by simp))

theorem Fits.entries (h : Fits n fields members) (key : String)
    (hfield : (key, .listOf place) ∈ fields)
    (hread : Reads n place read) {f : List α → Except Fault β}
    (hf : ∀ as, Settles Fault.IsUnreadable good (f as)) :
    Settles Fault.IsUnreadable
      ((∀ w, Table.get? members key = some w → Readable w (.listOf place)) ∧ good)
      ((Value.map members).entriesAt key >>= fun items => items.mapM read >>= f) := by
  have hentries : ((Value.map members).entriesAt key >>= fun items => items.mapM read >>= f) =
      ((Value.map members).memberOrNull key >>= fun w =>
        (if w.truthy then w.entries >>= fun items => items.mapM read else .ok []) >>= f) := by
    rw [Value.entriesAt, bind_assoc]
    congr 1
    funext w
    split
    · rw [bind_assoc]
    · rfl
  rw [hentries]
  exact h.optional key hfield hread.ifTruthy (.ok []) hf

theorem Fits.entriesAt (h : Fits n fields members) (key : String) (place : Place)
    (hfield : (key, .listOf place) ∈ fields)
    {f : List Value → Except Fault β}
    (hf : ∀ items, Settles Fault.IsUnreadable good (f items)) :
    Settles Fault.IsUnreadable good ((Value.map members).entriesAt key >>= f) := by
  show Settles _ _ ((if ((Table.get? members key).getD .null).truthy then _ else _) >>= f)
  cases hw : Table.get? members key with
  | none => exact hf []
  | some w =>
      obtain ⟨items, rfl, -⟩ : ∃ items, w = .list items ∧ _ ∧ _ :=
        Grammar.exists_items rfl rfl rfl (h.keeps _ hfield w hw)
      cases items with
      | nil => exact hf []
      | cons item items => exact hf (item :: items)

theorem Reads.ifMapping {r : Rule Place} (hg : grammar place = [r]) (hkinds : r.kinds = [.object])
    (h : Reads n place read) : Reads n place (ifMapping read) := by
  intro v hv hdepth
  obtain ⟨members, rfl, -⟩ := Grammar.exists_members hg hkinds hv
  exact (h _ hv hdepth).map some

end Parts

/-! ## Decoders -/

section Decoders

variable {n : ℕ}

theorem exists_fits {place : Place} {r : Rule Place} (hg : grammar place = [r])
    (hkinds : r.kinds = [.object]) {v : Value} (hv : grammar.violations v place = [])
    (hdepth : v.depth ≤ n + 1) :
    ∃ members, v = .map members ∧ Fits n r.fields members ∧
      ∀ key ∈ r.required, ∃ w, Table.get? members key = some w := by
  obtain ⟨members, rfl, hrequired, hfields⟩ := Grammar.exists_members hg hkinds hv
  rw [Value.depth] at hdepth
  exact ⟨members, rfl, ⟨fun field hfield w hw => hfields _ _ w hfield hw,
    Nat.le_of_succ_le_succ hdepth⟩, hrequired⟩

theorem exists_text {place : Place} {r : Rule Place} (hg : grammar place = [r])
    (hkinds : r.kinds = [.string]) {v : Value} (hv : grammar.violations v place = []) :
    ∃ s, v = .text s := by
  have hkind := Grammar.holds_of_violations hg (by simp [hkinds]) hv
  rw [hkinds] at hkind
  cases v <;> first | exact ⟨_, rfl⟩ | exact absurd hkind (by simp [Kind.holds])

theorem settles_toInteger {v : Value} (hv : grammar.violations v .literal = []) :
    Settles Fault.IsUnreadable (∃ n, v.toInteger = .ok n) v.toInteger where
  exists_iff := Iff.rfl
  fails := by
    have hkind : [Kind.boolean, .number, .string].any (·.holds v) = true :=
      Grammar.holds_of_violations rfl (List.cons_ne_nil _ _) hv
    cases v with
    | bool b => exact .ok _
    | int n => exact .ok n
    | float x =>
        cases x with
        | nan => exact .error trivial
        | infinite _ => exact .error trivial
        | finite _ _ _ => exact .ok _
    | text s =>
        rw [Value.toInteger]
        split
        · exact .ok _
        · exact .error trivial
        · exact .error trivial
    | null => exact absurd hkind (by decide)
    | list _ => exact absurd hkind (by simp [Kind.holds])
    | map _ => exact absurd hkind (by simp [Kind.holds])

theorem readable_constant_iff {members : List (String × Value)} :
    Readable (.map members) .constant ↔ (Value.map members).IsReadableConstant := by
  constructor
  · exact fun h => h.constants _ (.self _ _)
  · intro h
    refine ⟨fun constant hconstant => ?_⟩
    cases hconstant with
    | self => exact h
    | member hr hfield hw hrest =>
        rw [List.mem_singleton.mp hr] at hfield
        have hquiet : ∀ f ∈ (mappingOf ["type", "values"] [("type", .constantKind),
            ("values", .listOf .literal)]).fields, f.2.quiet = true := by decide
        exact absurd (quiet_of_holds hrest (hquiet _ hfield)) Bool.false_ne_true

theorem reads_constant : Reads n .constant Constant.ofValue := by
  intro v hv hdepth
  obtain ⟨members, rfl, hfits, hrequired⟩ :=
    exists_fits rfl rfl hv (Nat.le_succ_of_le hdepth)
  obtain ⟨kind, hkind⟩ := hrequired "type" (by decide)
  obtain ⟨listed, hlisted⟩ := hrequired "values" (by decide)
  obtain ⟨values, rfl, -, hvalues⟩ : ∃ values, listed = .list values ∧ _ ∧
      ∀ w ∈ values, grammar.violations w .literal = [] :=
    Grammar.exists_items rfl rfl rfl
      (hfits.keeps ("values", .listOf .literal) (by decide) _ hlisted)
  unfold Constant.ofValue
  have hread : Settles Fault.IsUnreadable
      (∀ w ∈ values, ∃ n, w.toInteger = .ok n)
      (values.mapM fun w => do return Value.int (← w.toInteger)) :=
    .mapM fun w hw => (settles_toInteger (hvalues w hw)).map _
  by_cases hbig : kind = .text "bigint"
  · subst hbig
    refine Settles.congr (settles_member hkind (settles_member hlisted
      (hread.bind fun _ => .ok _))) ?_
    rw [readable_constant_iff, Value.IsReadableConstant, member_eq_ok hkind,
      member_eq_ok hlisted]
    simp
  · have hother : Readable (.map members) .constant := by
      refine readable_constant_iff.mpr fun _ htype => ?_
      rw [member_eq_ok hkind] at htype
      exact absurd (Except.ok.inj htype) hbig
    refine Settles.congr (settles_member hkind (settles_member hlisted ?_))
      (iff_of_true trivial hother)
    split
    · exact absurd rfl hbig
    · exact .ok _

theorem reads_tagMatrix : Reads n (.listOf (.listOf .validationTag)) TagMatrix.ofValue := by
  have htag : Reads n .validationTag ValidationTag.ofValue := by
    refine .total rfl fun v hv => ?_
    obtain ⟨members, rfl, hrequired, hfields⟩ :=
      Grammar.exists_members rfl rfl hv
    obtain ⟨name, hname⟩ := hrequired "name" (by decide)
    obtain ⟨value, hvalue⟩ := hrequired "value" (by decide)
    obtain ⟨s, rfl⟩ := exists_text rfl rfl (hfields "name" .nonEmptyText name (by decide) hname)
    unfold ValidationTag.ofValue
    rw [member_eq_ok hname, member_eq_ok hvalue]
    exact ⟨_, rfl⟩
  exact htag.listOf.ifTruthy

theorem reads_docTag : Reads n .docTag DocTag.ofValue := by
  refine .total rfl fun v hv => ?_
  obtain ⟨members, rfl, hrequired, -⟩ :=
    Grammar.exists_members rfl rfl hv
  obtain ⟨name, hname⟩ := hrequired "name" (by decide)
  unfold DocTag.ofValue
  rw [member_eq_ok hname]
  exact ⟨_, rfl⟩

theorem reads_atomic : Reads n .atomic Atomic.ofValue := by
  intro v hv hdepth
  obtain ⟨members, rfl, hfits, hrequired⟩ :=
    exists_fits rfl rfl hv (Nat.le_succ_of_le hdepth)
  obtain ⟨kind, hkind⟩ := hrequired "type" (by decide)
  refine Settles.congr (settles_member hkind
    (hfits.optional "tags" (by decide) reads_tagMatrix (.ok []) fun _ => .ok _)) ?_
  simp +decide [readable_of_quiet]

theorem reads_alias : Reads n .aliasName Alias.ofValue := by
  refine .total rfl fun v hv => ?_
  obtain ⟨members, rfl, hrequired, -⟩ :=
    Grammar.exists_members rfl rfl hv
  obtain ⟨name, hname⟩ := hrequired "name" (by decide)
  unfold Alias.ofValue
  rw [member_eq_ok hname]
  exact ⟨_, rfl⟩

theorem reads_array {shape : Value → Except Fault TypeShape} (h : Reads n .shape shape) :
    Reads n .array (ArrayShape.ofValue shape) := by
  intro v hv hdepth
  obtain ⟨members, rfl, hfits, hrequired⟩ :=
    exists_fits rfl rfl hv (Nat.le_succ_of_le hdepth)
  obtain ⟨value, hvalue⟩ := hrequired "value" (by decide)
  refine Settles.congr (settles_member hvalue
    ((hfits.reads (by decide) h hvalue).bind fun _ =>
      hfits.optional "tags" (by decide) reads_tagMatrix (.ok []) fun _ => .ok _)) ?_
  rw [readable_map_iff rfl (by decide)]
  simp +decide [mappingOf, hvalue, readable_of_quiet]

theorem reads_tuple {shape : Value → Except Fault TypeShape} (h : Reads n .shape shape) :
    Reads n .tuple (TupleShape.ofValue shape) := by
  intro v hv hdepth
  obtain ⟨members, rfl, hfits, -⟩ :=
    exists_fits rfl rfl hv (Nat.le_succ_of_le hdepth)
  refine Settles.congr (hfits.entries "elements" (by decide) h fun _ => .ok _) ?_
  rw [readable_map_iff rfl (by decide)]
  simp +decide [mappingOf, readable_of_quiet]

section Shapes

variable {shape : Value → Except Fault TypeShape}

theorem reads_escaped (h : Reads n .shape shape) :
    Reads n .escaped (EscapedShape.ofValue shape) := by
  intro v hv hdepth
  obtain ⟨members, rfl, hfits, hrequired⟩ :=
    exists_fits rfl rfl hv (Nat.le_succ_of_le hdepth)
  obtain ⟨declared, hdeclared⟩ := hrequired "original" (by decide)
  obtain ⟨sent, hsent⟩ := hrequired "returns" (by decide)
  refine Settles.congr (settles_member hdeclared
    ((hfits.reads (by decide) h hdeclared).bind fun _ =>
      settles_member hsent ((hfits.reads (by decide) h hsent).bind fun _ => .ok _))) ?_
  rw [readable_map_iff rfl (by decide)]
  simp [mappingOf, hdeclared, hsent]

theorem reads_property (h : Reads n .shape shape) :
    Reads n .property (PropertyShape.ofValue shape) := by
  intro v hv hdepth
  obtain ⟨members, rfl, hfits, hrequired⟩ :=
    exists_fits rfl rfl hv (Nat.le_succ_of_le hdepth)
  obtain ⟨key, hkey⟩ := hrequired "key" (by decide)
  obtain ⟨value, hvalue⟩ := hrequired "value" (by decide)
  refine Settles.congr (settles_member hkey
    ((hfits.reads (by decide) h hkey).bind fun _ => settles_member hvalue
      ((hfits.reads (by decide) h hvalue).bind fun _ => settles_memberOrNull fun _ =>
        hfits.optional "jsdoc_tags" (by decide) reads_docTag.ifTruthy (.ok []) fun _ => .ok _))) ?_
  rw [readable_map_iff rfl (by decide)]
  simp +decide [mappingOf, hkey, hvalue, readable_of_quiet]

theorem reads_object (h : Reads n .shape shape) :
    Reads n .object (ObjectShape.ofValue shape) := by
  intro v hv hdepth
  obtain ⟨members, rfl, hfits, -⟩ :=
    exists_fits rfl rfl hv (Nat.le_succ_of_le hdepth)
  refine Settles.congr (hfits.entries "properties" (by decide) (reads_property h) fun _ =>
    settles_memberOrNull fun _ => settles_memberOrNull fun _ =>
      hfits.optional "jsdoc_tags" (by decide) reads_docTag.ifTruthy (.ok []) fun _ => .ok _) ?_
  rw [readable_map_iff rfl (by decide)]
  simp +decide [mappingOf, readable_of_quiet]

theorem reads_ofParts (h : Reads n .shape shape) :
    Reads (n + 1) .shape (TypeShape.ofParts shape) := by
  intro v hv hdepth
  obtain ⟨members, rfl, hfits, -⟩ := exists_fits rfl rfl hv hdepth
  refine Settles.congr (settles_flag fun _ => settles_flag fun _ => settles_flag fun _ =>
    settles_flag fun _ =>
      hfits.optional "escaped" (by decide) ((reads_escaped h).ifMapping rfl rfl) (.ok none) fun _ =>
      hfits.entries "constants" (by decide) reads_constant fun _ =>
      hfits.entries "templates" (by decide) h.listOf fun _ =>
      hfits.entries "atomics" (by decide) reads_atomic fun _ =>
      hfits.entries "tuples" (by decide) (reads_tuple h) fun _ =>
      hfits.entries "arrays" (by decide) (reads_array h) fun _ =>
      hfits.entries "objects" (by decide) (reads_object h) fun _ =>
      hfits.entries "aliases" (by decide) reads_alias fun _ =>
      hfits.entriesAt "natives" .text (by decide) fun _ =>
      hfits.optional "rest" (by decide) (h.ifMapping rfl rfl) (.ok none) fun _ => .ok _) ?_
  rw [readable_map_iff rfl (by decide)]
  simp +decide [mappingOf, readable_of_quiet]

theorem reads_ofDepth (n : ℕ) : Reads n .shape (TypeShape.ofDepth n) := by
  induction n with
  | zero =>
      intro v hv hdepth
      obtain ⟨members, rfl, -⟩ := Grammar.exists_members rfl rfl hv
      exact absurd hdepth (Nat.not_succ_le_zero _)
  | succ n ih => exact reads_ofParts ih

theorem reads_shape : Reads n .shape TypeShape.ofValue :=
  fun v hv _ => reads_ofDepth v.depth v hv (Nat.le_refl _)

end Shapes

theorem reads_namedType : Reads n .namedType NamedType.ofValue := by
  intro v hv hdepth
  obtain ⟨members, rfl, hfits, hrequired⟩ :=
    exists_fits rfl rfl hv (Nat.le_succ_of_le hdepth)
  obtain ⟨name, hname⟩ := hrequired "name" (by decide)
  have hshape := hfits.optional "metadata" (f := fun shape => .ok (NamedType.mk name shape))
    (by decide) (reads_shape.ifMapping rfl rfl) (.ok none) fun _ => .ok _
  unfold NamedType.ofValue
  rw [member_eq_ok hname]
  refine Settles.congr hshape ?_
  rw [readable_map_iff rfl (by decide)]
  simp +decide [mappingOf, readable_of_quiet]

theorem reads_parameter : Reads n .parameter Parameter.ofValue := by
  intro v hv hdepth
  obtain ⟨members, rfl, hfits, hrequired⟩ :=
    exists_fits rfl rfl hv (Nat.le_succ_of_le hdepth)
  obtain ⟨name, hname⟩ := hrequired "name" (by decide)
  obtain ⟨category, hcategory⟩ := hrequired "category" (by decide)
  obtain ⟨type, htype⟩ := hrequired "type" (by decide)
  have hread : Reads n .category Category.ofValue := by
    refine .total rfl fun v hv => ?_
    obtain ⟨s, hs, rfl⟩ : ∃ s ∈ ["path", "query", "body", "header"], v = .text s :=
      Grammar.exists_choice rfl (List.cons_ne_nil _ _) hv
    simp only [List.mem_cons, List.not_mem_nil, or_false] at hs
    rcases hs with rfl | rfl | rfl | rfl <;> exact ⟨_, rfl⟩
  refine Settles.congr (settles_member hname (settles_member hcategory
    ((hfits.reads (by decide) hread hcategory).bind fun _ => settles_member htype
      ((hfits.reads (by decide) reads_namedType htype).bind fun _ =>
        settles_memberOrNull fun _ => settles_flag fun _ => .ok _)))) ?_
  rw [readable_map_iff rfl (by decide)]
  simp +decide [mappingOf, hname, hcategory, htype, readable_of_quiet]

theorem exists_import {v : Value} (hv : grammar.violations v .importEntry = []) :
    ∃ file names, v = .list [file, .list names] := by
  obtain ⟨hfits, hparts⟩ := (Grammar.violations_eq_nil_iff_of_rule rfl).mp hv
  obtain ⟨items, rfl⟩ : ∃ items, v = .list items := by
    simpa [Rule.AllowsKind, Kind.holds_iff] using Rule.allowsKind_of_fits hfits
  obtain ⟨-, -, hleast, hmost⟩ := Rule.fits_iff.mp hfits
  obtain ⟨file, listed, rfl⟩ := List.length_eq_two.mp (Nat.le_antisymm (hmost 2 rfl) hleast)
  obtain ⟨names, rfl, -⟩ : ∃ names, listed = .list names ∧ _ ∧ _ :=
    Grammar.exists_items rfl rfl rfl
      (hparts (.index 1) (.listOf .text) listed (.firstItem rfl) rfl)
  exact ⟨file, names, rfl⟩

theorem reads_import : Reads n .importEntry importOfValue := by
  refine .total rfl fun v hv => ?_
  obtain ⟨file, names, rfl⟩ := exists_import hv
  exact ⟨_, rfl⟩

theorem reads_route : Reads n .route Route.ofValue := by
  intro v hv hdepth
  obtain ⟨members, rfl, hfits, hrequired⟩ :=
    exists_fits rfl rfl hv (Nat.le_succ_of_le hdepth)
  obtain ⟨name, hname⟩ := hrequired "name" (by decide)
  obtain ⟨method, hmethod⟩ := hrequired "method" (by decide)
  obtain ⟨path, hpath⟩ := hrequired "path" (by decide)
  obtain ⟨accessors, haccessors⟩ := hrequired "accessors" (by decide)
  obtain ⟨names, rfl, -⟩ :=
    exists_names (hfits.keeps ("accessors", .accessors) (by decide) _ haccessors)
  have houtput : Reads n .namedType fun v =>
      NamedType.ofValue (if v.truthy then v else voidType) := by
    intro v hv hdepth
    obtain ⟨members, rfl, -, hrequired⟩ := exists_fits rfl rfl hv (Nat.le_succ_of_le hdepth)
    obtain ⟨name, hname⟩ := hrequired "name" (by decide)
    cases members with
    | nil => exact nomatch hname
    | cons member members => exact reads_namedType _ hv hdepth
  have hvoid : Settles Fault.IsUnreadable True (NamedType.ofValue voidType) :=
    .ok (NamedType.mk (.text "void") none)
  refine Settles.congr (settles_member hname (settles_member hmethod (settles_member hpath
    (settles_member haccessors (settles_items
      (hfits.optional "output" (by decide) houtput hvoid fun _ =>
        hfits.entries "parameters" (by decide) reads_parameter fun _ =>
        hfits.entries "imports" (by decide) reads_import fun _ => settles_flag fun _ =>
        settles_memberOrNull fun _ => settles_memberOrNull fun _ => settles_memberOrNull fun _ =>
        settles_memberOrNull fun _ =>
        hfits.entries "tags" (by decide) reads_docTag fun _ => .ok _)))))) ?_
  rw [readable_map_iff rfl (by decide)]
  simpa +decide [mappingOf, readable_of_quiet] using and_comm

theorem reads_document : Reads n .document fun document =>
    document.member "routes" >>= fun listed =>
      listed.entries >>= fun items => items.mapM Route.ofValue := by
  intro v hv hdepth
  obtain ⟨members, rfl, hfits, hrequired⟩ :=
    exists_fits rfl rfl hv (Nat.le_succ_of_le hdepth)
  obtain ⟨listed, hlisted⟩ := hrequired "routes" (by decide)
  refine Settles.congr (settles_member hlisted
    (hfits.reads (by decide) reads_route.listOf hlisted)) ?_
  rw [readable_map_iff rfl (by decide)]
  simp [mappingOf, hlisted]

end Decoders

/-! ## Documents -/

section Routes

variable {host : Host} {document : Value}

theorem routes_of_problems {found : List String} (hfound : problems host document = .ok found)
    (h : violations document ≠ []) (source : String) :
    routes host document source = .error (.invalidDocument source found) := by
  have hall := forall₂_problems hfound
  unfold routes
  rw [hfound]
  cases found with
  | nil => exact absurd (List.forall₂_nil_right_iff.mp hall) h
  | cons text texts => rfl

theorem routes_of_no_violations (hcheck : Checkable host document)
    (h : violations document = []) (source : String) :
    routes host document source = (document.member "routes" >>= fun listed =>
      listed.entries >>= fun items => items.mapM Route.ofValue) := by
  obtain ⟨found, hfound⟩ := hcheck.exists_problems
  have hall := forall₂_problems hfound
  rw [h] at hall
  cases hall
  unfold routes
  rw [hfound]
  rfl

end Routes

/-- A document that cannot be checked, for its depth or for what cannot be put into words,
fails with that.  Of those that can, one that breaks rules is refused with all its problems,
and one that breaks none has one route for each of its entries, in order, if and only if all
constants in it can be read; if not, it is the reading of an integer that fails. -/
theorem routes_settle (host : Host) (document : Value) (source : String) :
    (¬ Checkable host document →
      ∃ fault, CheckFails host document fault ∧ routes host document source = .error fault) ∧
    (Checkable host document → violations document ≠ [] →
      ∃ found, List.Forall₂ (fun w text => w.text host.wording = .ok text)
          (violations document) found ∧
        routes host document source = .error (.invalidDocument source found)) ∧
    (Checkable host document → violations document = [] →
      ((∃ rs, routes host document source = .ok rs) ↔
        ∀ constant, grammar.Holds document .document constant .constant →
          constant.IsReadableConstant) ∧
      (∀ rs, routes host document source = .ok rs →
        ∃ items, document.member "routes" = .ok (.list items) ∧
          List.Forall₂ (fun item r => Route.ofValue item = .ok r) items rs) ∧
      ∀ fault, routes host document source = .error fault → fault.IsUnreadable) := by
  refine ⟨fun hcheck => ?_, fun hcheck h => ?_, fun hcheck h => ?_⟩
  · obtain ⟨fault, hfault, hproblems⟩ := exists_checkFails hcheck
    refine ⟨fault, hfault, ?_⟩
    unfold routes
    rw [hproblems]
    rfl
  · obtain ⟨found, hfound⟩ := hcheck.exists_problems
    exact ⟨found, forall₂_problems hfound, routes_of_problems hfound h source⟩
  rw [routes_of_no_violations hcheck h]
  have hkeeps := violations_eq_nil_iff.mp h
  have hsettles := reads_document document hkeeps (Nat.le_refl _)
  refine ⟨hsettles.exists_iff.trans ⟨fun h => h.constants, fun h => ⟨h⟩⟩, ?_, hsettles.fails⟩
  intro rs hrs
  obtain ⟨listed, hlisted, hrest⟩ := Except.bind_eq_ok_iff.mp hrs
  obtain ⟨items, hitems, hread⟩ := Except.bind_eq_ok_iff.mp hrest
  obtain ⟨members, rfl, -, hfields⟩ := Grammar.exists_members rfl rfl hkeeps
  obtain ⟨vs, rfl, -⟩ : ∃ vs, listed = .list vs ∧ _ ∧ _ :=
    Grammar.exists_items rfl rfl rfl
      (hfields "routes" (.listOf .route) listed (by decide) (of_member hlisted))
  cases hitems
  exact ⟨items, hlisted, Except.forall₂_of_mapM hread⟩

/-- A document with a route that returns one of the big integers `values`. -/
def bigintDocument (values : List Value) : Value :=
  .map [("routes", .list [.map
    [("name", .text "x"), ("method", .text "GET"), ("path", .text "/x"),
     ("accessors", .list [.text "x"]),
     ("output", .map [("name", .text "X"), ("metadata", .map [("constants", .list [.map
       [("type", .text "bigint"), ("values", .list values)]])])])]])]

/-- The statement for integers as a number and as a text, for a text that denotes none, for a
document without routes, and for one with an integer in their place that is too long. -/
theorem routes_settle_of_bigints :
    let host := Host.usual .root
    let good := bigintDocument [.int (-5), .text "12"]
    let bad := bigintDocument [.text "abc"]
    let long := Value.map [("routes", .int (Nat.pow 16 3600))]
    (Checkable host good ∧ violations good = [] ∧
      (∀ constant, grammar.Holds good .document constant .constant →
        constant.IsReadableConstant) ∧
      ∃ rs, routes host good "r" = .ok rs) ∧
    (Checkable host bad ∧ violations bad = [] ∧
      ∃ fault, fault.IsUnreadable ∧ routes host bad "r" = .error fault) ∧
    (Checkable host (.map []) ∧ violations (.map []) ≠ [] ∧
      ∃ found, routes host (.map []) "r" = .error (.invalidDocument "r" found)) ∧
    ¬ Checkable host long ∧
      ∃ fault, CheckFails host long fault ∧ routes host long "r" = .error fault := by
  intro host good bad long
  have hgood : violations good = [] := List.isEmpty_iff.mp (by decide +kernel)
  have hbad : violations bad = [] := List.isEmpty_iff.mp (by decide +kernel)
  have hnone : violations (.map []) ≠ [] :=
    fun h => absurd (List.isEmpty_iff.mpr h) (by decide +kernel)
  have hcheckGood : Checkable host good := checkable_of_all rfl (by decide +kernel)
  have hcheckBad : Checkable host bad := checkable_of_all rfl (by decide +kernel)
  have hcheckNone : Checkable host (.map []) := checkable_of_all rfl (by decide +kernel)
  have hlong : ¬ Checkable host long := not_checkable_of_isNone (by decide +kernel)
  have hread : ∃ rs, routes host good "r" = .ok rs := by
    have hall : (routes host good "r").toOption.any (fun _ => true) = true := by
      decide +kernel
    obtain ⟨rs, hrs, -⟩ := Except.exists_of_any hall
    exact ⟨rs, hrs⟩
  obtain ⟨found, -, hfound⟩ := (routes_settle host (.map []) "r").2.1 hcheckNone hnone
  obtain ⟨fault, hfault⟩ : ∃ fault, routes host bad "r" = .error fault :=
    Except.exists_of_isNone (by decide +kernel)
  exact ⟨⟨hcheckGood, hgood, ((routes_settle host good "r").2.2 hcheckGood hgood).1.mp hread,
    hread⟩, ⟨hcheckBad, hbad, fault,
      ((routes_settle host bad "r").2.2 hcheckBad hbad).2.2 fault hfault, hfault⟩,
    ⟨hcheckNone, hnone, found, hfound⟩, hlong, (routes_settle host long "r").1 hlong⟩

/-- The text that a fault says is no integer, with the base. -/
def unreadText? : Fault → Option (Nat × String)
  | .value (.notInteger base s) => some (base, s)
  | _ => none

theorem eq_of_unreadText? {fault : Fault} {base : Nat} {s : String}
    (h : unreadText? fault = some (base, s)) : fault = .value (.notInteger base s) := by
  unfold unreadText? at h
  split at h
  · cases h
    rfl
  · cases h

/-- No rule is broken by a text that denotes no integer, and it cannot be read. -/
theorem bigint_text_unread :
    violations (bigintDocument [.text "abc"]) = [] ∧
      routes (.usual .root) (bigintDocument [.text "abc"]) "routes.json" =
        .error (.value (.notInteger 10 "abc")) := by
  refine ⟨List.isEmpty_iff.mp (by decide +kernel), ?_⟩
  have hunread : (((routes (.usual .root) (bigintDocument [.text "abc"])
      "routes.json").map fun _ => none).tryCatch fun fault =>
        .ok (unreadText? fault)).toOption = some (some (10, "abc")) := by
    decide +kernel
  cases hroutes : routes (.usual .root) (bigintDocument [.text "abc"]) "routes.json" with
  | ok rs =>
      rw [hroutes] at hunread
      exact absurd (Option.some.inj hunread) (by simp)
  | error fault =>
      rw [hroutes] at hunread
      rw [eq_of_unreadText? (Option.some.inj hunread)]

end RouteDocument

end ClientSdk
