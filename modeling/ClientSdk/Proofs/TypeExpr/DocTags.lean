import ClientSdk.Proofs.Comment
import ClientSdk.Proofs.TypeExpr.Written
import ClientSdk.Shape.Decode

/-!
# Documentation tags that say what the type says

A documentation tag of a property is left out of its comment if a validation tag of the type
says the same.  What is looked at are the kinds of the validation tags of the primitive types
(`Comment.eq_of_remaining`).  A validation tag of an array is not looked at, and the kind of a
tag that comes without one is its name in lower case throughout.  So a tag that the type has
already is left out if and only if a validation tag of a primitive type has its name as the
kind (`doc_tags_written`); the others stay in their order.
-/

namespace ClientSdk

/-- The name under which documentation has a validation tag: its own, the first letter in
lower case. -/
def ValidationTag.docName (tag : ValidationTag) : String :=
  match tag.instanceName.toList with
  | [] => ""
  | c :: cs => String.ofList (Text.lowerChar c ++ cs)

def TypeShape.atomicTags (s : TypeShape) : List ValidationTag :=
  s.atomics.flatMap fun a => a.tags.flatten

def TypeShape.ownTags (s : TypeShape) : List ValidationTag :=
  s.atomicTags ++ s.arrays.flatMap fun a => a.tags.flatten

theorem Scalar.eq_text_of_sameKey {v : Scalar} {name : String}
    (h : (Scalar.text name).sameKey v = true) : v = .text name := by
  rw [sameKey, Bool.and_eq_true, beq_iff_eq] at h
  exact eq_text_of_key h.1.symm

theorem Value.sameKey_text {v : Value} {name : String} :
    (Value.text name).sameKey v = true ↔ v = .text name := by
  constructor
  · intro h
    cases v with
    | text s => exact congrArg Value.text (Scalar.sameKey_text.mp h).symm
    | list => cases h
    | map => cases h
    | _ => cases Scalar.eq_text_of_sameKey h
  · rintro rfl
    exact Scalar.sameKey_text.mpr rfl

theorem ValidationTag.kind_of_value {data : Value} {tag : ValidationTag}
    (h : ValidationTag.ofValue data = .ok tag) :
    ∃ kind, data.member? "kind" = .ok kind ∧
      tag.kind = kind.getD (.text (Text.lower tag.instanceName)) := by
  obtain ⟨given, -, h⟩ := Except.bind_eq_ok_iff.mp h
  obtain ⟨name, -, h⟩ := Except.bind_eq_ok_iff.mp h
  obtain ⟨kind, hkind, h⟩ := Except.bind_eq_ok_iff.mp h
  obtain ⟨value, -, h⟩ := Except.bind_eq_ok_iff.mp h
  cases h
  exact ⟨kind, hkind, rfl⟩

namespace Comment

theorem eq_of_asKey {v w : Value} (h : asKey v = .ok w) : v = w := by
  unfold asKey at h
  split at h
  · exact Except.ok.inj h
  · cases h

/-- The tags that remain are those whose names are no kind of a validation tag of a primitive
type. -/
theorem eq_of_remaining {s : TypeShape} {tags kept : List DocTag}
    (h : remaining s.atomics tags = .ok kept) :
    kept = tags.filter fun tag => !(s.atomicTags.any fun v => tag.name.sameKey v.kind) := by
  have hany : ∀ name : Value, (kindsOf s.atomics).any name.sameKey =
      s.atomicTags.any fun v => name.sameKey v.kind := fun name => by
    rw [kindsOf, List.any_map]
    rfl
  unfold remaining at h
  split at h
  · next hnone =>
      cases h
      rcases hnone with hnone | hnone
      · simp [TypeShape.atomicTags, List.isEmpty_iff.mp hnone]
      · simp [List.isEmpty_iff.mp hnone]
  · obtain ⟨kinds, hkinds, h⟩ := Except.bind_eq_ok_iff.mp h
    have hsame : kindsOf s.atomics = kinds :=
      List.forall₂_eq_eq_eq ▸ (Except.forall₂_of_mapM hkinds).imp fun _ _ => eq_of_asKey
    subst hsame
    refine Except.eq_filter_of_filterM (fun tag _ b hb => ?_) h
    obtain ⟨name, hname, hb⟩ := Except.bind_eq_ok_iff.mp hb
    cases hb
    rw [← eq_of_asKey hname, hany]

end Comment

namespace TypeExpr

variable {c : Config} {s : TypeShape} {inEscape : Bool} {t : TypeExpr} {o : ObjectShape}
  {p : PropertyShape}

/-- Each property of a written object has a member in its type, under a comment of the
description and of the documentation tags whose names are not the kind of a validation tag of
one of the primitive types of the property, in their order.  So a documentation tag that says what
a validation tag of the property says is left out if and only if a validation tag of a primitive
type has its name as the kind, be it the same one or another; those of arrays do not count.  The
kind is the one that the document gives, or the whole name in lower case. -/
theorem doc_tags_written {l l' : Ledger}
    (hwrite : l.fulfil (ofShape c inEscape s) = (.ok t, l'))
    (hobject : s.Writes inEscape (.object o)) (hanonymous : o.anonymous = .ok true)
    (hp : p ∈ o.properties) :
    ∃ members m lines kept, t.Has (.object members) ∧ m ∈ members ∧ m.Writes c p ∧
      Comment.descriptionLines p.description = .ok lines ∧
      m.comment = Text.unlines (lines ++
        (if p.description.truthy && !kept.isEmpty then [""] else []) ++ kept.map Comment.tagLine) ∧
      kept = p.docTags.filter (fun tag =>
        !(p.value.atomicTags.any fun v => tag.name.sameKey v.kind)) ∧
      (∀ v ∈ p.value.ownTags, ∀ tag ∈ p.docTags, tag.name = .text v.docName →
        (tag ∉ kept ↔ ∃ w ∈ p.value.atomicTags, w.kind = .text v.docName)) ∧
      ∀ data v, ValidationTag.ofValue data = .ok v → ∃ kind, data.member? "kind" = .ok kind ∧
        v.kind = kind.getD (.text (Text.lower v.instanceName)) := by
  obtain ⟨-, hresult⟩ := Ledger.registerAll_of_fulfil hwrite
  obtain ⟨ts, hts, hhas⟩ := exists_of_writes hobject hresult
  obtain ⟨m, hwrites, members, hm, u, hu, hmembers⟩ := exists_member_of_object hanonymous hts hp
  have hbody : Comment.body p.value.atomics p.description p.docTags = .ok m.comment := by
    cases hwrites <;> assumption
  obtain ⟨lines, kept, hlines, hkept, hcomment⟩ := Comment.of_body_eq hbody
  have hfilter := Comment.eq_of_remaining hkept
  refine ⟨members, m, lines, kept, (hhas u hu).trans hmembers, hm, hwrites, hlines, hcomment,
    hfilter, fun v _ tag htag hname => ?_, fun _ _ => ValidationTag.kind_of_value⟩
  rw [hfilter, List.mem_filter, hname]
  simp [htag, Value.sameKey_text]

/-- A property that is a text with a validation tag, and has two documentation tags. -/
def describedProperty : PropertyShape :=
  { key := literalSegment "x"
    value := { atomics := [{ kind := .text "string", tags := [[
      { name := "MinLength<1>", kind := .text "minLength", value := .int 1 }]] }] }
    docTags := [{ name := .text "minLength", text := .text "1" }, { name := .text "deprecated" }] }

def objectWith (p : PropertyShape) : TypeShape :=
  { objects := [{ properties := [p] }] }

/-- The statement for one documentation tag that is left out and one that stays. -/
theorem doc_tags_written_of_describedProperty :
    ∃ t members m, ((Ledger.forFile .root "api/a.ts").fulfil
        (ofShape { output := "api" } false (objectWith describedProperty))).1 = .ok t ∧
      t.Has (.object members) ∧ m ∈ members ∧ m.comment = "@deprecated" := by
  have hwritten : ((Ledger.forFile .root "api/a.ts").fulfil
      (ofShape { output := "api" } false (objectWith describedProperty))).1 =
        .ok (.object [.property "@deprecated" "x" false
          (.intersection [.keyword "string", .tag "MinLength" "1"])]) := rfl
  have hobject : (objectWith describedProperty).Writes false
      (.object { properties := [describedProperty] }) := .part (List.mem_singleton_self _)
  obtain ⟨members, m, lines, kept, hhas, hm, -, hlines, hcomment, hkept, -⟩ :=
    doc_tags_written (Prod.ext hwritten rfl) hobject rfl (List.mem_singleton_self _)
  refine ⟨_, members, m, hwritten, hhas, hm, ?_⟩
  cases hlines
  rw [hcomment, hkept]
  rfl

/-- An array with a validation tag that the documentation has too. -/
def repeatedItems : PropertyShape :=
  { key := literalSegment "xs"
    value := { arrays := [{
      value := { atomics := [{ kind := .text "string" }] }
      tags := [[{ name := "MinItems<1>", kind := .text "minItems", value := .int 1 }]] }] }
    docTags := [{ name := .text "minItems", text := .text "1" }] }

/-- What a document says of a validation tag, without a kind. -/
def kindlessValue : Value :=
  .map [("name", .text "MinLength<1>"), ("value", .int 1)]

def kindlessTag : ValidationTag :=
  { name := "MinLength<1>", kind := .text "minlength", value := .int 1 }

/-- A text with this validation tag, which the documentation has too. -/
def repeatedLength : PropertyShape :=
  { key := literalSegment "x"
    value := { atomics := [{ kind := .text "string", tags := [[kindlessTag]] }] }
    docTags := [{ name := .text "minLength", text := .text "1" }] }

/-- Documentation tags that the type says already are written: that of an array, and that of a
text whose validation tag came without a kind. -/
theorem doc_tags_repeated :
    ((∃ v ∈ repeatedItems.value.ownTags, v.docName = "minItems") ∧
      ∃ t : TypeExpr, ((Ledger.forFile .root "api/a.ts").fulfil
          (ofShape { output := "api" } false (objectWith repeatedItems))).1 = .ok t ∧
        t.text = "\x7b\n  /**\n   * @minItems 1\n   */\n  xs: string[] & MinItems<1>;\n\x7d") ∧
      ValidationTag.ofValue kindlessValue = .ok kindlessTag ∧
      (∃ v ∈ repeatedLength.value.ownTags, v.docName = "minLength") ∧
      ∃ t : TypeExpr, ((Ledger.forFile .root "api/a.ts").fulfil
          (ofShape { output := "api" } false (objectWith repeatedLength))).1 = .ok t ∧
        t.text = "\x7b\n  /**\n   * @minLength 1\n   */\n  x: string & MinLength<1>;\n\x7d" := by
  refine ⟨⟨⟨_, List.mem_singleton_self _, by decide⟩, _, rfl, by decide⟩, rfl,
    ⟨_, List.mem_singleton_self _, by decide⟩, _, rfl, by decide⟩

end TypeExpr

end ClientSdk
