import ClientSdk.Proofs.TypeExpr.Meaning
import ClientSdk.Proofs.TypeExpr.Members
import ClientSdk.Proofs.TypeExpr.Written

/-!
# The halves of an object

An object without a name of its own is written as an intersection of object types.  The
properties whose keys are one literal value each (`TypeShape.IsLiteral`) make up one of them,
and each of the others is one with an index of its own.  `ObjectShape.IsWritten` says so of a
type, of its text and of what the text is read back as, and `object_written` that it holds of
every such object in a shape that can be written, however deep it stands.

The two halves are a partition of the properties: each of them is in just one, as often as in
the object, and in the same order.
-/

namespace ClientSdk

open TypeExpr (withComment intersectionOf braced memberText)

/-! ## Keys -/

/-- The value is all that the shape describes: it stands alone in its constant, and the shape has
no other part, null and undefined included. -/
def TypeShape.IsLiteral (s : TypeShape) (value : Value) : Prop :=
  s.rest = none ∧ ∃ kind, s.constants = [⟨kind, [value]⟩] ∧ s.parts false = [.literal kind value]

theorem TypeShape.soleLiteral?_eq_some_iff {s : TypeShape} {value : Value} :
    s.soleLiteral? = some value ↔ s.IsLiteral value := by
  constructor
  · intro h
    unfold soleLiteral? at h
    split at h
    · next htest =>
      split at h
      · next kind found hconstants =>
        obtain rfl : found = value := Option.some.inj h
        simp only [Bool.and_eq_true, Bool.not_eq_true', beq_iff_eq] at htest
        obtain ⟨⟨hrequired, hnullable⟩, hsize⟩ := htest
        rw [size, hconstants] at hsize
        simp only [List.flatMap_cons, List.flatMap_nil, List.append_nil, List.length_cons,
          List.length_nil] at hsize
        have hnone : s.any.toNat = 0 ∧ s.escaped.isSome.toNat = 0 ∧ s.templates.length = 0 ∧
            s.atomics.length = 0 ∧ s.tuples.length = 0 ∧ s.arrays.length = 0 ∧
            s.objects.length = 0 ∧ s.aliases.length = 0 ∧ s.natives.length = 0 ∧
            s.rest.isSome.toNat = 0 := by omega
        simp only [Bool.toNat_eq_zero, List.length_eq_zero_iff, Option.isSome_eq_false_iff,
          Option.isNone_iff_eq_none] at hnone
        obtain ⟨hany, hescaped, htemplates, hatomics, htuples, harrays, hobjects, haliases,
          hnatives, hrest⟩ := hnone
        refine ⟨hrest, kind, hconstants, ?_⟩
        simp [parts, ShapePart.ofSwitches, hany, hnullable, hrequired, hescaped, hconstants,
          htemplates, hatomics, htuples, harrays, hobjects, haliases, hnatives]
      · cases h
    · cases h
  · rintro ⟨hrest, kind, hconstants, hparts⟩
    have hlength := s.length_parts hrest
    have hsize : 1 ≤ s.size := by
      rw [size, hconstants]
      simp only [List.flatMap_cons, List.flatMap_nil, List.append_nil, List.length_cons,
        List.length_nil]
      omega
    rw [hparts, List.length_singleton] at hlength
    have htest : (s.required && !s.nullable && s.size == 1) = true := by
      have hnullable : s.nullable.toNat = 0 := by omega
      have hrequired : (!s.required).toNat = 0 := by omega
      simp only [Bool.toNat_eq_zero, Bool.not_eq_false'] at hnullable hrequired
      rw [hnullable, hrequired, Bool.not_false, Bool.and_self, Bool.true_and, beq_iff_eq]
      omega
    rw [soleLiteral?, if_pos htest, hconstants]

theorem TypeShape.isSoleLiteral_iff {s : TypeShape} :
    s.isSoleLiteral = true ↔ ∃ value, s.IsLiteral value := by
  simp only [isSoleLiteral, Option.isSome_iff_exists, soleLiteral?_eq_some_iff]

/-! ## Halves -/

/-- The members of the object types of an object: the named ones together, left out if there are
none but others, then the others one by one. -/
def TypeMember.halves (regular dynamic : List TypeMember) : List (List TypeMember) :=
  (if regular.isEmpty && !dynamic.isEmpty then [] else [regular]) ++ dynamic.map fun m => [m]

theorem TypeExpr.objectOf_eq (regular dynamic : List TypeMember) :
    objectOf regular dynamic =
      intersectionOf ((TypeMember.halves regular dynamic).map .object) := by
  unfold objectOf TypeMember.halves
  split <;> simp [Function.comp_def]

theorem TypeExpr.text_object (members : List TypeMember) :
    (TypeExpr.object members).text = braced (members.map memberText) := by
  rw [text, memberTexts_eq]

theorem TypeExpr.text_intersectionOf_objects (memberss : List (List TypeMember)) :
    (intersectionOf (memberss.map .object)).text =
      " & ".intercalate (memberss.map fun members => braced (members.map memberText)) := by
  have hgroup : ∀ members s, group (.object members) s = s := fun _ _ => rfl
  match memberss with
  | [] => rfl
  | [members] => simp [intersectionOf, text_object]
  | first :: second :: rest =>
      simp [intersectionOf, text, groupedTexts_eq, memberTexts_eq, Function.comp_def, hgroup]

theorem TypeExpr.text_withComment (comment : String) (t : TypeExpr) :
    (withComment comment t).text = Comment.above comment t.text := by
  unfold withComment
  split
  · next hempty =>
    rw [String.isEmpty_iff.mp hempty]
    rfl
  · rw [text]

theorem TypeExpr.outline_withComment (comment : String) (t : TypeExpr) :
    (withComment comment t).outline = t.outline := by
  unfold withComment
  split
  · rfl
  · rw [outline]

theorem TypeExpr.outline_intersectionOf (ts : List TypeExpr) :
    (intersectionOf ts).outline = intersectionOf (ts.map outline) := by
  match ts with
  | [] => rfl
  | [t] => rfl
  | first :: second :: rest =>
      rw [intersectionOf, outline, outlineOfTypes_eq] <;> simp [intersectionOf]

/-- A type is what the object is written as: the members are written for the properties, the
named ones for those with a literal key and the others for the rest, and the type is the
intersection of the object types of both halves, under the comment of the object.  If there are
no comments and all names and values are plain, it is read back as that. -/
structure ObjectShape.IsWritten (c : Config) (o : ObjectShape) (u : TypeExpr) (comment : String)
    (regular dynamic : List TypeMember) : Prop where
  commented : Comment.body [] o.description o.docTags = .ok comment
  named : List.Forall₂ (TypeMember.Writes c) o.regular regular
  indexed : List.Forall₂ (TypeMember.Writes c) o.dynamic dynamic
  type : u = withComment comment
    (intersectionOf ((TypeMember.halves regular dynamic).map .object))
  text : u.text = Comment.above comment (" & ".intercalate
    ((TypeMember.halves regular dynamic).map fun members => braced (members.map memberText)))
  outline : u.outline = intersectionOf ((TypeMember.halves regular dynamic).map
    fun members => .object (members.map TypeMember.outline))
  reads : (ShapePart.object o).IsPlain → (∀ s ∈ (ShapePart.object o).shapes,
      s.NamesDotted ∧ s.LiteralValues ∧ s.Uncommented) →
    TypeText.read? u.text = some u.outline

namespace TypeExpr

variable {c : Config} {s : TypeShape} {inEscape : Bool} {t : TypeExpr} {o : ObjectShape}

theorem exists_isWritten {ts : List TypeExpr} (hanonymous : o.anonymous = .ok true)
    (h : (ofPart c (.object o)).result = .ok ts) :
    ∃ u comment regular dynamic, ts = [u] ∧ o.IsWritten c u comment regular dynamic := by
  obtain ⟨regular, dynamic, comment, hregular, hdynamic, hcomment, rfl⟩ :=
    forall₂_of_object hanonymous h
  refine ⟨_, comment, regular, dynamic, rfl, hcomment, hregular, hdynamic, ?_, ?_, ?_,
    fun hplain hinside => read?_of_isPlain hplain hinside h⟩
  · rw [objectOf_eq]
  · rw [text_withComment, objectOf_eq, text_intersectionOf_objects]
  · rw [outline_withComment, objectOf_eq, outline_intersectionOf, List.map_map]
    simp only [Function.comp_def, outline, outlineOfMembers_eq]

/-- Each object without a name of its own that is written in a shape, however deep, stands in
the type of the shape as the intersection of its halves (`ObjectShape.IsWritten`).  Of the
properties just those are in the first half whose keys are one literal value and nothing else,
and together the halves hold each property as often as the object does, in its order. -/
theorem object_written {l l' : Ledger} (hwrite : l.fulfil (ofShape c inEscape s) = (.ok t, l'))
    (hobject : s.Writes inEscape (.object o)) (hanonymous : o.anonymous = .ok true) :
    (∃ u comment regular dynamic, (ofPart c (.object o)).result = .ok [u] ∧ t.Has u ∧
      Text.StandsIn u.text t.text ∧ o.IsWritten c u comment regular dynamic) ∧
    (∀ p ∈ o.properties, (p ∈ o.regular ↔ ∃ value, p.key.IsLiteral value) ∧
      (p ∈ o.dynamic ↔ ¬ ∃ value, p.key.IsLiteral value)) ∧
    o.regular.Sublist o.properties ∧ o.dynamic.Sublist o.properties ∧
    (o.regular ++ o.dynamic).Perm o.properties := by
  obtain ⟨-, hresult⟩ := Ledger.registerAll_of_fulfil hwrite
  obtain ⟨ts, hts, hhas⟩ := exists_of_writes hobject hresult
  obtain ⟨u, comment, regular, dynamic, rfl, hwritten⟩ := exists_isWritten hanonymous hts
  have hu := hhas u List.mem_cons_self
  refine ⟨⟨u, comment, regular, dynamic, hts, hu, standsIn_of_has hu, hwritten⟩,
    fun p hp => ⟨?_, ?_⟩, List.filter_sublist, List.filter_sublist, ?_⟩
  · rw [ObjectShape.regular, List.mem_filter, TypeShape.isSoleLiteral_iff]
    exact and_iff_right hp
  · rw [ObjectShape.dynamic, List.mem_filter, Bool.not_eq_true', ← Bool.not_eq_true,
      TypeShape.isSoleLiteral_iff]
    exact and_iff_right hp
  · exact List.filter_append_perm _ _

theorem plain_of_parts (h : ∀ part ∈ s.parts false, part.IsPlain ∧ part.shapes = []) :
    s.NamesDotted ∧ s.LiteralValues ∧ s.Uncommented := by
  have hplain : ∀ part, s.Contains part → part.IsPlain := by
    intro part hpart
    cases hpart with
    | part hpart => exact (h part hpart).1
    | inside hpart hinner _ =>
        rw [(h _ hpart).2] at hinner
        cases hinner
  exact ⟨fun part hpart => (hplain part hpart).names,
    fun part hpart => (hplain part hpart).literals,
    fun part hpart => (hplain part hpart).comments⟩

/-- An object with names and indexes in turns.  The key of its third property would be a name if
it were not null besides. -/
def interleavedObject : ObjectShape :=
  { properties := [
    { key := atomicSegment "string", value := atomicSegment "number" },
    { key := literalSegment "b", value := { atomicSegment "boolean" with required := false } },
    { key := { literalSegment "n" with nullable := true }, value := atomicSegment "bigint" },
    { key := literalSegment "a b", value := atomicSegment "string" }] }

def interleavedType : TypeExpr :=
  .intersection [
    .object [.property "" "b" true (.union [.keyword "undefined", .keyword "boolean"]),
      .property "" "\"a b\"" false (.keyword "string")],
    .object [.index "" (.keyword "string") (.keyword "number")],
    .object [.index "" (.union [.keyword "null", .literal "\"n\""]) (.keyword "bigint")]]

/-- The statement for this object inside an array. -/
theorem object_written_of_interleavedObject :
    ((Ledger.forFile .root "api/a.ts").fulfil (ofShape { output := "api" } false
        { arrays := [{ value := { objects := [interleavedObject] } }] })).1 =
          .ok (.array interleavedType) ∧
      interleavedType.text = "\x7b\n  b?: undefined | boolean;\n  \"a b\": string;\n\x7d" ++
        " & \x7b\n  [key: string]: number;\n\x7d" ++
        " & \x7b\n  [key: null | \"n\"]: bigint;\n\x7d" ∧
      TypeText.read? interleavedType.text = some interleavedType.outline := by
  have hwritten : ((Ledger.forFile .root "api/a.ts").fulfil (ofShape { output := "api" } false
      { arrays := [{ value := { objects := [interleavedObject] } }] })).1 =
        .ok (.array interleavedType) := rfl
  have hobject : TypeShape.Writes { arrays := [{ value := { objects := [interleavedObject] } }] }
      false (.object interleavedObject) :=
    .inside (List.mem_singleton_self _) .array (.part (List.mem_singleton_self _))
  obtain ⟨⟨u, comment, regular, dynamic, hu, -, -, hobject⟩, -⟩ :=
    object_written (Prod.ext hwritten rfl) hobject rfl
  have hresult : (ofPart { output := "api" } (.object interleavedObject)).result =
      .ok [interleavedType] := rfl
  obtain rfl : u = interleavedType :=
    List.head_eq_of_cons_eq (Except.ok.inj (hu.symm.trans hresult))
  have hliteral : ∀ kind text, (ShapePart.literal kind (.text text)).IsPlain :=
    fun kind text => ⟨trivial, rfl, trivial⟩
  have hatomic : ∀ kind, (ShapePart.atomic { kind }).IsPlain := fun kind =>
    ⟨by simp [ShapePart.NamesDotted], by simp [ShapePart.LiteralValues], trivial⟩
  have hswitch : ShapePart.null.IsPlain ∧ ShapePart.undefined.IsPlain :=
    ⟨⟨trivial, trivial, trivial⟩, ⟨trivial, trivial, trivial⟩⟩
  refine ⟨hwritten, rfl, hobject.reads ⟨?_, trivial, rfl, rfl, ?_⟩ fun s hs => plain_of_parts ?_⟩
  · rintro name ⟨⟩
  · simp [interleavedObject, Value.truthy]
  · simp only [ShapePart.shapes, interleavedObject, List.flatMap_cons, List.flatMap_nil,
      List.cons_append, List.nil_append, List.mem_cons, List.not_mem_nil, or_false] at hs
    rcases hs with rfl | rfl | rfl | rfl | rfl | rfl | rfl | rfl <;>
      simp [TypeShape.parts, ShapePart.ofSwitches, atomicSegment, literalSegment,
        ShapePart.shapes, hliteral, hatomic, hswitch]

end TypeExpr

end ClientSdk
