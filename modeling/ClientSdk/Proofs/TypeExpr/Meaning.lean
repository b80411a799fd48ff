import ClientSdk.Proofs.TypeExpr.Regrouping

/-!
# What values a type admits

A union admits what one of its members admits, an intersection what all of them do
(`TypeExpr.Admits`).  A tag matrix stands for alternatives of tags that hold together
(`TagMatrix.Admits`), and a type with a tag matrix admits those values of the type below
that meet one of the rows that are written (`tags_restrict`).  Empty rows are not written.
So the meaning of the matrix is kept if all of its rows are empty or none is, and in no other
case.
-/

namespace ClientSdk

namespace TypeExpr

mutual

/-- Whether a type admits a value, where `holds` says of the types without operators whether
the value is of them. -/
def Admits (holds : TypeExpr → Prop) : TypeExpr → Prop
  | .union members => SomeAdmits holds members
  | .intersection members => AllAdmit holds members
  | .documented _ body => body.Admits holds
  | t => holds t

def SomeAdmits (holds : TypeExpr → Prop) : List TypeExpr → Prop
  | [] => False
  | t :: ts => t.Admits holds ∨ SomeAdmits holds ts

def AllAdmit (holds : TypeExpr → Prop) : List TypeExpr → Prop
  | [] => True
  | t :: ts => t.Admits holds ∧ AllAdmit holds ts

end

section Admits

variable {holds : TypeExpr → Prop} {ts : List TypeExpr}

@[simp] theorem someAdmits_iff : SomeAdmits holds ts ↔ ∃ t ∈ ts, t.Admits holds := by
  induction ts with
  | nil => simp [SomeAdmits]
  | cons t ts ih => simp [SomeAdmits, ih]

@[simp] theorem allAdmit_iff : AllAdmit holds ts ↔ ∀ t ∈ ts, t.Admits holds := by
  induction ts with
  | nil => simp [AllAdmit]
  | cons t ts ih => simp [AllAdmit, ih]

theorem admits_unionOf (hne : ts ≠ []) :
    (unionOf ts).Admits holds ↔ ∃ t ∈ ts, t.Admits holds := by
  match ts with
  | [] => exact absurd rfl hne
  | [t] => simp [unionOf]
  | _ :: _ :: _ => exact someAdmits_iff

theorem admits_intersectionOf : (intersectionOf ts).Admits holds ↔ ∀ t ∈ ts, t.Admits holds := by
  match ts with
  | [] => exact allAdmit_iff
  | [t] => simp [intersectionOf]
  | _ :: _ :: _ => exact allAdmit_iff

theorem admits_outline (holds : TypeExpr → Prop) (t : TypeExpr) :
    t.outline.Admits holds ↔ t.Admits fun u => holds u.outline := by
  have hmembers : ∀ members : List TypeExpr, (∀ u ∈ members, sizeOf u < sizeOf t) →
      ∀ u ∈ members, (u.outline.Admits holds ↔ u.Admits fun u => holds u.outline) :=
    fun members hlt u hu =>
      have := hlt u hu
      admits_outline holds u
  cases t with
  | union members =>
      have hmembers := hmembers members fun u hu => sizeOf_lt_of_mem_children hu
      simp only [outline, Admits, outlineOfTypes_eq, someAdmits_iff, List.mem_map,
        exists_exists_and_eq_and]
      exact exists_congr fun u => and_congr_right (hmembers u)
  | intersection members =>
      have hmembers := hmembers members fun u hu => sizeOf_lt_of_mem_children hu
      simp only [outline, Admits, outlineOfTypes_eq, allAdmit_iff, List.forall_mem_map]
      exact forall₂_congr hmembers
  | documented comment body =>
      exact hmembers [body] (fun u hu => sizeOf_lt_of_mem_children hu) body List.mem_cons_self
  | _ => rfl
termination_by sizeOf t

end Admits

end TypeExpr

/-! ## Validation tags -/

open TypeExpr

theorem Value.exists_literalForm_null (v : Value) :
    ∃ text, v.literalForm .null = .ok text := by
  cases v <;> exact ⟨_, rfl⟩

def ValidationTag.argument (tag : ValidationTag) : String :=
  (tag.value.literalForm .null).toOption.getD ""

def ValidationTag.type (tag : ValidationTag) : TypeExpr :=
  .tag tag.instanceName tag.argument

/-- Whether a value meets one of the rows of a tag matrix, which is to meet all tags of the
row. -/
def TagMatrix.Admits (holds : TypeExpr → Prop) (tags : TagMatrix) : Prop :=
  ∃ row ∈ tags, ∀ tag ∈ row, holds tag.type

/-- Whether one of the tags has an argument that is too long to be written. -/
def TagMatrix.TooLong (tags : TagMatrix) : Prop :=
  ∃ row ∈ tags, ∃ tag ∈ row, tag.value.isTooLong = true

def TagMatrix.written (tags : TagMatrix) : TagMatrix :=
  tags.filter fun row => !row.isEmpty

namespace TagMatrix

variable {tags : TagMatrix}

theorem mem_written {row : List ValidationTag} : row ∈ tags.written ↔ row ∈ tags ∧ row ≠ [] := by
  simp [written]

theorem written_eq_nil_iff : tags.written = [] ↔ ∀ row ∈ tags, row = [] := by
  simp [written, List.filter_eq_nil_iff]

theorem written_eq_self_iff : tags.written = tags ↔ ∀ row ∈ tags, row ≠ [] := by
  simp [written, List.filter_eq_self]

theorem tooLong_written : tags.written.TooLong ↔ tags.TooLong := by
  constructor
  · rintro ⟨row, hrow, hlong⟩
    exact ⟨row, (mem_written.mp hrow).1, hlong⟩
  · rintro ⟨row, hrow, tag, htag, hlong⟩
    exact ⟨row, mem_written.mpr ⟨hrow, List.ne_nil_of_mem htag⟩, tag, htag, hlong⟩

end TagMatrix

namespace TypeExpr

def tagged (base : TypeExpr) : TagMatrix → TypeExpr
  | [] => base
  | [row] => intersectionOf (base :: row.map ValidationTag.type)
  | first :: second :: rest =>
      intersectionOf [base, unionOf ((first :: second :: rest).map fun row =>
        intersectionOf (row.map ValidationTag.type))]

variable {holds : TypeExpr → Prop}

theorem admits_row {row : List ValidationTag} :
    (intersectionOf (row.map ValidationTag.type)).Admits holds ↔
      ∀ tag ∈ row, holds tag.type := by
  rw [admits_intersectionOf, List.forall_mem_map]
  rfl

/-- A tagged type admits what the type below does that meets one of the rows, if there are
any. -/
theorem admits_tagged (base : TypeExpr) (rows : TagMatrix) :
    (tagged base rows).Admits holds ↔ base.Admits holds ∧ (rows = [] ∨ rows.Admits holds) := by
  match rows with
  | [] => simp [tagged]
  | [row] =>
      rw [tagged, admits_intersectionOf, List.forall_mem_cons, ← admits_intersectionOf, admits_row]
      simp [TagMatrix.Admits]
  | first :: second :: rest =>
      rw [tagged, admits_intersectionOf, List.forall_mem_cons, List.forall_mem_singleton,
        admits_unionOf (by simp)]
      simp only [List.mem_map, exists_exists_and_eq_and, admits_row, TagMatrix.Admits]
      simp

/-! ### Drafts -/

variable (c : Config)

theorem result_ofTag (tag : ValidationTag) :
    (ofTag c tag).result =
      if tag.value.isTooLong then .error (.value .tooLongToWrite) else .ok tag.type := by
  obtain ⟨text, htext⟩ := tag.value.exists_literalForm_null
  unfold ofTag ValidationTag.type ValidationTag.argument Value.literalType Value.unlessTooLong
  dsimp only
  rw [htext]
  cases tag.value.isTooLong <;> rfl

theorem result_ofTag_of_short {tag : ValidationTag} (h : tag.value.isTooLong = false) :
    (ofTag c tag).result = .ok tag.type := by
  rw [result_ofTag, if_neg (by simp [h])]

theorem failsBy_ofTag (tag : ValidationTag) :
    (ofTag c tag).result.FailsBy (· = .value .tooLongToWrite) := by
  rw [result_ofTag]
  split
  · exact .error rfl
  · exact .ok _

theorem result_tags_of_long {row : List ValidationTag}
    (h : ∃ tag ∈ row, tag.value.isTooLong = true) :
    (row.mapM (ofTag c)).result = .error (.value .tooLongToWrite) := by
  obtain ⟨tag, htag, hlong⟩ := h
  rw [Draft.result_mapM]
  exact Except.mapM_eq_error (fun tag _ => failsBy_ofTag c tag) htag
    (by rw [result_ofTag, if_pos hlong])

theorem result_ofRow {row : List ValidationTag} (h : ∀ tag ∈ row, tag.value.isTooLong = false) :
    (ofRow c row).result = .ok (intersectionOf (row.map ValidationTag.type)) := by
  rw [ofRow, Draft.mapM_of_ok fun tag htag => result_ofTag_of_short c (h tag htag)]
  rfl

theorem failsBy_ofRow (row : List ValidationTag) :
    (ofRow c row).result.FailsBy (· = .value .tooLongToWrite) := by
  rw [ofRow, map_eq_pure_bind, Draft.result_bind, Draft.result_mapM]
  exact (Except.FailsBy.mapM fun tag _ => failsBy_ofTag c tag).bind fun _ => .ok _

theorem result_withTags (base : TypeExpr) {tags : TagMatrix} (h : ¬ tags.TooLong) :
    (withTags c base tags).result = .ok (tagged base tags.written) := by
  have hshort : ∀ row ∈ tags.written, ∀ tag ∈ row, tag.value.isTooLong = false := by
    intro row hrow tag htag
    by_contra hlong
    exact h ⟨row, (TagMatrix.mem_written.mp hrow).1, tag, htag, by simpa using hlong⟩
  unfold withTags
  rw [← TagMatrix.written]
  generalize tags.written = rows at hshort
  match rows with
  | [] => rfl
  | [row] =>
      dsimp only
      rw [Draft.mapM_of_ok fun tag htag =>
        result_ofTag_of_short c (hshort row List.mem_cons_self tag htag)]
      rfl
  | first :: second :: rest =>
      dsimp only
      rw [Draft.mapM_of_ok fun row hrow => result_ofRow c (hshort row hrow)]
      rfl

theorem result_withTags_of_long (base : TypeExpr) {tags : TagMatrix} (h : tags.TooLong) :
    (withTags c base tags).result = .error (.value .tooLongToWrite) := by
  obtain ⟨row, hrow, hlong⟩ := TagMatrix.tooLong_written.mpr h
  unfold withTags
  rw [← TagMatrix.written]
  generalize tags.written = rows at hrow
  match rows with
  | [only] =>
      obtain rfl := List.mem_singleton.mp hrow
      dsimp only
      rw [Draft.result_bind, result_tags_of_long c hlong]
      rfl
  | first :: second :: rest =>
      have hfails : ((first :: second :: rest).mapM (ofRow c)).result =
          .error (.value .tooLongToWrite) := by
        rw [Draft.result_mapM]
        refine Except.mapM_eq_error (fun row _ => failsBy_ofRow c row) hrow ?_
        rw [ofRow, map_eq_pure_bind, Draft.result_bind, result_tags_of_long c hlong]
        rfl
      dsimp only
      rw [Draft.result_bind, hfails]
      rfl

theorem eq_tagged_of_withTags {base t : TypeExpr} {tags : TagMatrix}
    (h : (withTags c base tags).result = .ok t) : t = tagged base tags.written := by
  by_cases hlong : tags.TooLong
  · rw [result_withTags_of_long c base hlong] at h
    exact absurd h nofun
  · rw [result_withTags c base hlong] at h
    exact (Except.ok.inj h).symm

/-! ### Parts -/

end TypeExpr

def ShapePart.untagged : ShapePart → ShapePart
  | .atomic a => .atomic { a with tags := [] }
  | .array a => .array { a with tags := [] }
  | part => part

namespace TypeExpr

theorem result_atomic (c : Config) (a : Atomic) :
    (ofPart c (.atomic a)).result =
      do return [← (withTags c (.keyword (← atomicKeyword a.kind)) a.tags).result] := by
  rw [ofPart, ofAtomic, Draft.result_bind, Draft.result_bind, bind_assoc]
  rfl

theorem result_array (c : Config) (a : ArrayShape) :
    (ofPart c (.array a)).result =
      do return [← (withTags c (.array (← (ofShape c false a.value).result)) a.tags).result] := by
  obtain ⟨value, tags, name⟩ := a
  rw [ofPart, ofArrays, ofArrays, Draft.result_bind]
  simp only [Draft.result_bind]
  rfl

variable {c : Config} {part : ShapePart} {base : TypeExpr}

theorem result_of_untagged (h : (ofPart c part.untagged).result = .ok [base]) :
    (ofPart c part).result = do return [← (withTags c base part.tags).result] := by
  cases part with
  | atomic a =>
      rw [ShapePart.untagged, result_atomic] at h
      obtain ⟨word, hword, hbase⟩ := Except.bind_eq_ok_iff.mp h
      cases hbase
      rw [result_atomic, hword]
      rfl
  | array a =>
      rw [ShapePart.untagged, result_array] at h
      obtain ⟨element, helement, hbase⟩ := Except.bind_eq_ok_iff.mp h
      cases hbase
      rw [result_array, helement]
      rfl
  | _ => exact h

theorem base_of_tags (h : (ofPart c part.untagged).result = .ok [base]) (htags : part.tags ≠ []) :
    (∃ word, base = .keyword word) ∨ ∃ element, base = .array element := by
  cases part with
  | atomic a =>
      rw [ShapePart.untagged, result_atomic] at h
      obtain ⟨word, -, hbase⟩ := Except.bind_eq_ok_iff.mp h
      cases hbase
      exact .inl ⟨word, rfl⟩
  | array a =>
      rw [ShapePart.untagged, result_array] at h
      obtain ⟨element, -, hbase⟩ := Except.bind_eq_ok_iff.mp h
      cases hbase
      exact .inr ⟨element, rfl⟩
  | _ => exact absurd rfl htags

theorem means_matrix_iff (hbase : (∃ word, base = .keyword word) ∨ ∃ element, base = .array element)
    {tags : TagMatrix} (htags : tags ≠ []) :
    (∀ holds, (tagged base tags.written).Admits holds ↔ base.Admits holds ∧ tags.Admits holds) ↔
      (∀ row ∈ tags, row = []) ∨ ∀ row ∈ tags, row ≠ [] := by
  constructor
  · intro h
    by_contra hmixed
    obtain ⟨hfilled, hempty⟩ := not_or.mp hmixed
    push Not at hfilled hempty
    obtain ⟨filled, hfilled⟩ := hfilled
    obtain ⟨empty, hempty, rfl⟩ := hempty
    -- A value of the type below that meets no tag at all.
    let untagged : TypeExpr → Prop := fun u => ∀ name argument, u ≠ .tag name argument
    have hadmits : base.Admits untagged := by
      rcases hbase with ⟨word, rfl⟩ | ⟨element, rfl⟩ <;> exact fun _ _ => by simp
    have hmeets : tags.Admits untagged := ⟨[], hempty, fun _ htag => absurd htag List.not_mem_nil⟩
    rcases ((admits_tagged base _).mp ((h untagged).mpr ⟨hadmits, hmeets⟩)).2 with
      hnone | ⟨row, hrow, hall⟩
    · exact hfilled.2 (TagMatrix.written_eq_nil_iff.mp hnone filled hfilled.1)
    · obtain ⟨tag, htag⟩ := List.exists_mem_of_ne_nil row (TagMatrix.mem_written.mp hrow).2
      exact hall tag htag _ _ rfl
  · rintro (hempty | hfilled) holds
    · obtain ⟨row, hrow⟩ := List.exists_mem_of_ne_nil tags htags
      have hmeets : tags.Admits holds :=
        ⟨row, hrow, fun tag htag => absurd (hempty row hrow ▸ htag) List.not_mem_nil⟩
      rw [admits_tagged, TagMatrix.written_eq_nil_iff.mpr hempty]
      simp [hmeets]
    · rw [admits_tagged, TagMatrix.written_eq_self_iff.mpr hfilled, or_iff_right htags]

theorem shapes_untagged (part : ShapePart) : part.untagged.shapes = part.shapes := by
  cases part <;> rfl

theorem isPlain_untagged (h : part.IsPlain) : part.untagged.IsPlain := by
  cases part with
  | atomic | array => exact ⟨by simp [ShapePart.NamesDotted, ShapePart.untagged],
      by simp [ShapePart.LiteralValues, ShapePart.untagged], trivial⟩
  | _ => exact h

/-- A plain part is written as a type whose text is read back. -/
theorem read?_of_isPlain {t : TypeExpr} (hplain : part.IsPlain)
    (hinside : ∀ s ∈ part.shapes, s.NamesDotted ∧ s.LiteralValues ∧ s.Uncommented)
    (ht : (ofPart c part).result = .ok [t]) : TypeText.read? t.text = some t.outline := by
  refine read?_of_legible (legible_ofPart hplain (fun s hs inEscape => ?_) [t] ht t
    List.mem_cons_self)
  obtain ⟨hnames, hliterals, hcomments⟩ := hinside s hs
  exact legible_ofShape c (fun deeper hdeeper =>
    ⟨hnames deeper hdeeper, hliterals deeper hdeeper, hcomments deeper hdeeper⟩) inEscape

/-- A part that is an array or a primitive type is written with its validation tags whenever it
is written without them and no argument of a tag is too long, and as the same type if it has
none.  The type admits the values of the type below that meet one of the rows of the matrix,
where empty rows are left out, so the meaning of the matrix is kept if and only if all of its
rows are empty or none of them is.  The text of the type is read back with that meaning. -/
theorem tags_restrict (h : (ofPart c part.untagged).result = .ok [base]) :
    (part.tags.TooLong → (ofPart c part).result = .error (.value .tooLongToWrite)) ∧
    (¬ part.tags.TooLong →
      ∃ t, (ofPart c part).result = .ok [t] ∧ (part.tags = [] → t = base) ∧
        (∀ holds, t.Admits holds ↔
          base.Admits holds ∧ (part.tags.written = [] ∨ part.tags.written.Admits holds)) ∧
        (part.tags ≠ [] →
          ((∀ holds, t.Admits holds ↔ base.Admits holds ∧ part.tags.Admits holds) ↔
            (∀ row ∈ part.tags, row = []) ∨ ∀ row ∈ part.tags, row ≠ [])) ∧
        (part.IsPlain → (∀ s ∈ part.shapes, s.NamesDotted ∧ s.LiteralValues ∧ s.Uncommented) →
          ∃ u v, TypeText.read? t.text = some u ∧ TypeText.read? base.text = some v ∧
            ∀ holds, u.Admits holds ↔
              v.Admits holds ∧ (part.tags.written = [] ∨ part.tags.written.Admits holds))) := by
  refine ⟨fun hlong => ?_, fun hshort => ?_⟩
  · rw [result_of_untagged h, result_withTags_of_long c base hlong]
    rfl
  have hwritten : (ofPart c part).result = .ok [tagged base part.tags.written] := by
    rw [result_of_untagged h, result_withTags c base hshort]
    rfl
  refine ⟨_, hwritten, ?_, fun _ => admits_tagged base _, fun htags =>
    means_matrix_iff (base_of_tags h htags) htags, fun hplain hinside => ?_⟩
  · intro hnone
    rw [hnone]
    rfl
  · refine ⟨_, _, read?_of_isPlain hplain hinside hwritten,
      read?_of_isPlain (isPlain_untagged hplain) (shapes_untagged part ▸ hinside) h,
      fun holds => ?_⟩
    rw [admits_outline, admits_outline]
    exact admits_tagged base _

theorem isPlain_taggedAtomic : (ShapePart.atomic taggedAtomic).IsPlain := by
  refine ⟨?_, ?_, trivial⟩
  · simp only [ShapePart.NamesDotted, taggedAtomic, List.forall_mem_cons]
    decide
  · simp [ShapePart.LiteralValues, taggedAtomic, Value.isLiteral]

/-- The statement for a text that is a UUID or has one to three characters. -/
theorem tags_restrict_of_taggedAtomic :
    ∃ t u : TypeExpr, (ofPart { output := "api" } (.atomic taggedAtomic)).result = .ok [t] ∧
      TypeText.read? t.text = some u ∧
      ∀ holds, u.Admits holds ↔ holds (.literal "string") ∧
        (holds (.tag "Format" "\"uuid\"") ∨
          holds (.tag "MinLength" "1") ∧ holds (.tag "MaxLength" "3")) := by
  have hbase : (ofPart { output := "api" } (ShapePart.atomic taggedAtomic).untagged).result =
      .ok [.keyword "string"] := rfl
  have hrows : (ShapePart.atomic taggedAtomic).tags.written = taggedAtomic.tags := rfl
  have hshort : ¬ (ShapePart.atomic taggedAtomic).tags.TooLong := by
    simp [TagMatrix.TooLong, ShapePart.tags, taggedAtomic]
    decide
  obtain ⟨t, ht, -, -, -, hread⟩ := (tags_restrict hbase).2 hshort
  obtain ⟨u, v, hu, hv, hadmits⟩ :=
    hread isPlain_taggedAtomic fun s hs => absurd hs List.not_mem_nil
  refine ⟨t, u, ht, hu, fun holds => ?_⟩
  have hstring : TypeText.read? (TypeExpr.keyword "string").text = some (.literal "string") := rfl
  obtain rfl : v = .literal "string" := Option.some.inj (hv.symm.trans hstring)
  rw [hadmits, hrows]
  refine and_congr_right fun _ => ?_
  simp only [taggedAtomic, TagMatrix.Admits, List.mem_cons, List.not_mem_nil, or_false,
    exists_eq_or_imp, exists_eq_left, forall_eq_or_imp, forall_eq, List.cons_ne_nil, false_or]
  rfl

/-- A text that has to meet no tag at all, or has at least one character. -/
def freeAtomic : Atomic :=
  { kind := .text "string", tags := [[],
    [{ name := "MinLength<1>", kind := .text "minLength", value := .int 1 }]] }

/-- The alternative without tags is lost beside another one: the empty text is a text and meets
the matrix, and the type does not admit it. -/
theorem empty_row_lost :
    ∃ t : TypeExpr, (ofPart { output := "api" } (.atomic freeAtomic)).result = .ok [t] ∧
      t.text = "string & MinLength<1>" ∧
      ∃ holds : TypeExpr → Prop, (TypeExpr.keyword "string").Admits holds ∧
        freeAtomic.tags.Admits holds ∧ ¬ t.Admits holds := by
  refine ⟨.intersection [.keyword "string", .tag "MinLength" "1"], rfl, rfl,
    fun u => u = .keyword "string", rfl,
    ⟨[], List.mem_cons_self, fun _ htag => absurd htag List.not_mem_nil⟩, ?_⟩
  simp [Admits, AllAdmit]

end TypeExpr

end ClientSdk
