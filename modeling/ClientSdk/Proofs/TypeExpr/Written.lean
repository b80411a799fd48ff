import ClientSdk.Proofs.TypeExpr.Meaning
import ClientSdk.Proofs.TypeExpr.Template

/-!
# What of a shape is written

Not all of a shape is written: of two forms of a type the sent one is, of the segments of a
template those that are no literal values, of the properties of an object the values, and the
keys that are no literal values (`ShapePart.Encloses`).  So there are parts that are written, at
any depth (`TypeShape.Writes`), and what such a part is written as stands in the type of the
shape (`exists_of_writes`).

The members of a written object are written for its properties, one for each: those with a
literal key in their order, then the others in theirs (`forall₂_of_object`).
-/

namespace ClientSdk

/-- The shape that is written for an element of a tuple: what it repeats, if it does. -/
def TypeShape.element (s : TypeShape) : TypeShape :=
  s.rest.getD s

def TypeShape.mark (s : TypeShape) : ElementMark :=
  if s.rest.isSome then .rest else if s.optional then .optional else .plain

/-- The shapes inside a part that are written, and whether as the sent form of another one. -/
inductive ShapePart.Encloses : ShapePart → Bool → TypeShape → Prop
  | escaped {e : EscapedShape} : e.declared.isDate = false → Encloses (.escaped e) true e.sent
  | segment {segments : List TypeShape} {segment : TypeShape} : segment ∈ segments →
      segment.isSoleLiteral = false → Encloses (.template segments) false segment
  | element {t : TupleShape} {element : TypeShape} : element ∈ t.elements →
      Encloses (.tuple t) false element.element
  | array {a : ArrayShape} : Encloses (.array a) false a.value
  | key {o : ObjectShape} {p : PropertyShape} : o.anonymous = .ok true → p ∈ o.properties →
      p.key.isSoleLiteral = false → Encloses (.object o) false p.key
  | value {o : ObjectShape} {p : PropertyShape} : o.anonymous = .ok true → p ∈ o.properties →
      Encloses (.object o) false p.value

/-- A part of a shape that is written, at any depth. -/
inductive TypeShape.Writes : TypeShape → Bool → ShapePart → Prop
  | part {s : TypeShape} {inEscape : Bool} {part : ShapePart} : part ∈ s.parts inEscape →
      Writes s inEscape part
  | inside {s inner : TypeShape} {inEscape deeperEscape : Bool} {part deeper : ShapePart} :
      part ∈ s.parts inEscape → part.Encloses deeperEscape inner →
      Writes inner deeperEscape deeper → Writes s inEscape deeper

/-- A member that is written for a property, with the name, the mark, the types and the comment
of the property. -/
inductive TypeMember.Writes (c : Config) (p : PropertyShape) : TypeMember → Prop
  | property {name : Value} {t : TypeExpr} {comment : String} :
      p.key.soleLiteral? = some name → (TypeExpr.ofShape c false p.value).result = .ok t →
      Comment.body p.value.atomics p.description p.docTags = .ok comment →
      Writes c p (.property comment (memberName name.patternForm) (!p.value.required) t)
  | index {key t : TypeExpr} {comment : String} :
      p.key.isSoleLiteral = false → (TypeExpr.ofShape c false p.key).result = .ok key →
      (TypeExpr.ofShape c false p.value).result = .ok t →
      Comment.body p.value.atomics p.description p.docTags = .ok comment →
      Writes c p (.index comment key t)

/-- The properties of an object whose keys are literal values. -/
def ObjectShape.regular (o : ObjectShape) : List PropertyShape :=
  o.properties.filter fun p => p.key.isSoleLiteral

def ObjectShape.dynamic (o : ObjectShape) : List PropertyShape :=
  o.properties.filter fun p => !p.key.isSoleLiteral

namespace TypeExpr

theorem Has.trans {t u v : TypeExpr} (h : t.Has u) (h' : u.Has v) : t.Has v := by
  induction h with
  | self => exact h'
  | inside hchild _ ih => exact .inside hchild (ih h')

theorem has_unionOf {ts : List TypeExpr} {t : TypeExpr} (h : t ∈ ts) : (unionOf ts).Has t := by
  match ts with
  | [u] =>
      rw [List.mem_singleton.mp h]
      exact .self u
  | _ :: _ :: _ => exact .inside h (.self t)

theorem has_intersectionOf {ts : List TypeExpr} {t : TypeExpr} (h : t ∈ ts) :
    (intersectionOf ts).Has t := by
  match ts with
  | [u] =>
      rw [List.mem_singleton.mp h]
      exact .self u
  | _ :: _ :: _ => exact .inside h (.self t)

theorem has_tagged (base : TypeExpr) (rows : TagMatrix) : (tagged base rows).Has base := by
  match rows with
  | [] => exact .self base
  | [row] =>
      rw [tagged]
      exact has_intersectionOf List.mem_cons_self
  | first :: second :: rest =>
      rw [tagged]
      exact has_intersectionOf List.mem_cons_self

theorem has_withComment (comment : String) (t : TypeExpr) : (withComment comment t).Has t := by
  unfold withComment
  split
  · exact .self t
  · exact .inside List.mem_cons_self (.self t)

theorem exists_members_of_objectOf {regular dynamic : List TypeMember} {m : TypeMember}
    (h : m ∈ regular ++ dynamic) :
    ∃ members, (objectOf regular dynamic).Has (.object members) ∧ m ∈ members := by
  rcases List.mem_append.mp h with h | h
  · have hne : regular.isEmpty = false := by
      cases regular with
      | nil => cases h
      | cons => rfl
    refine ⟨regular, has_intersectionOf ?_, h⟩
    simp [hne]
  · refine ⟨[m], has_intersectionOf ?_, List.mem_singleton_self m⟩
    exact List.mem_append_right _ (List.mem_map_of_mem h)

/-! ## Slots -/

variable (c : Config)

theorem ofElements_eq (elements : List TypeShape) :
    ofElements c elements =
      elements.mapM fun element => do return (element.mark, ← ofShape c false element.element) := by
  induction elements with
  | nil => rfl
  | cons element elements ih =>
      obtain ⟨any, required, optional, nullable, escaped, constants, templates, atomics, tuples,
        arrays, objects, aliases, natives, repeated⟩ := element
      rw [List.mapM_cons, ← ih]
      cases repeated with
      | some repeated =>
          rw [ofElements]
          simp [TypeShape.mark, TypeShape.element]
      | none =>
          rw [ofElements]
          · simp [TypeShape.mark, TypeShape.element]
          · simp

variable {c} {properties : List PropertyShape} {members : List TypeMember}

theorem forall₂_ofRegular (h : (ofRegular c properties).result = .ok members) :
    List.Forall₂ (TypeMember.Writes c) (properties.filter fun p => p.key.isSoleLiteral)
      members := by
  induction properties generalizing members with
  | nil =>
      rw [ofRegular] at h
      cases h
      exact .nil
  | cons p rest ih =>
      obtain ⟨key, value, description, docTags⟩ := p
      rw [ofRegular] at h
      cases hsole : key.soleLiteral? with
      | none =>
          rw [List.filter_cons_of_neg (by simp [TypeShape.isSoleLiteral, hsole])]
          rw [hsole] at h
          exact ih h
      | some name =>
          rw [List.filter_cons_of_pos (by simp [TypeShape.isSoleLiteral, hsole])]
          rw [hsole] at h
          dsimp only at h
          rw [Draft.result_bind] at h
          obtain ⟨text, htext, h⟩ := Except.bind_eq_ok_iff.mp h
          obtain ⟨-, rfl⟩ := Value.patternText_eq_ok_iff.mp htext
          rw [Draft.result_bind] at h
          obtain ⟨t, ht, h⟩ := Except.bind_eq_ok_iff.mp h
          rw [Draft.result_bind] at h
          obtain ⟨comment, hcomment, h⟩ := Except.bind_eq_ok_iff.mp h
          rw [Draft.result_bind] at h
          obtain ⟨more, hmore, h⟩ := Except.bind_eq_ok_iff.mp h
          cases h
          exact .cons (.property hsole ht hcomment) (ih hmore)

theorem forall₂_ofDynamic (h : (ofDynamic c properties).result = .ok members) :
    List.Forall₂ (TypeMember.Writes c) (properties.filter fun p => !p.key.isSoleLiteral)
      members := by
  induction properties generalizing members with
  | nil =>
      rw [ofDynamic] at h
      cases h
      exact .nil
  | cons p rest ih =>
      obtain ⟨key, value, description, docTags⟩ := p
      rw [ofDynamic] at h
      cases hsole : key.isSoleLiteral with
      | true =>
          rw [List.filter_cons_of_neg (by simp [hsole])]
          rw [hsole, if_pos rfl] at h
          exact ih h
      | false =>
          rw [List.filter_cons_of_pos (by simp [hsole])]
          rw [hsole, if_neg Bool.false_ne_true, Draft.result_bind] at h
          obtain ⟨keyType, hkey, h⟩ := Except.bind_eq_ok_iff.mp h
          rw [Draft.result_bind] at h
          obtain ⟨t, ht, h⟩ := Except.bind_eq_ok_iff.mp h
          rw [Draft.result_bind] at h
          obtain ⟨comment, hcomment, h⟩ := Except.bind_eq_ok_iff.mp h
          rw [Draft.result_bind] at h
          obtain ⟨more, hmore, h⟩ := Except.bind_eq_ok_iff.mp h
          cases h
          exact .cons (.index hsole hkey ht hcomment) (ih hmore)

/-- An object without a name of its own is written with one member for each of its properties,
those with a literal key first. -/
theorem forall₂_of_object {o : ObjectShape} {ts : List TypeExpr}
    (hanonymous : o.anonymous = .ok true) (h : (ofPart c (.object o)).result = .ok ts) :
    ∃ regular dynamic comment, List.Forall₂ (TypeMember.Writes c) o.regular regular ∧
      List.Forall₂ (TypeMember.Writes c) o.dynamic dynamic ∧
      Comment.body [] o.description o.docTags = .ok comment ∧
      ts = [withComment comment (objectOf regular dynamic)] := by
  obtain ⟨properties, name, description, docTags⟩ := o
  have hanonymous' : ObjectShape.anonymous { name } = .ok true := hanonymous
  rw [ofPart, ofObjects, Draft.result_bind] at h
  obtain ⟨anonymous, hname, h⟩ := Except.bind_eq_ok_iff.mp h
  cases Except.ok.inj (hname.symm.trans hanonymous')
  simp only [ofObjects_last, if_true] at h
  rw [Draft.result_bind] at h
  obtain ⟨regular, hregular, h⟩ := Except.bind_eq_ok_iff.mp h
  rw [Draft.result_bind] at h
  obtain ⟨dynamic, hdynamic, h⟩ := Except.bind_eq_ok_iff.mp h
  rw [Draft.result_bind] at h
  obtain ⟨comment, hcomment, h⟩ := Except.bind_eq_ok_iff.mp h
  cases h
  exact ⟨regular, dynamic, comment, forall₂_ofRegular hregular, forall₂_ofDynamic hdynamic,
    hcomment, rfl⟩

/-- For each property there is a member in an object type. -/
theorem exists_member_of_object {o : ObjectShape} {ts : List TypeExpr} {p : PropertyShape}
    (hanonymous : o.anonymous = .ok true) (h : (ofPart c (.object o)).result = .ok ts)
    (hp : p ∈ o.properties) :
    ∃ m, m.Writes c p ∧ ∃ members, m ∈ members ∧ ∃ u ∈ ts, u.Has (.object members) := by
  obtain ⟨regular, dynamic, comment, hregular, hdynamic, -, rfl⟩ := forall₂_of_object hanonymous h
  have hmember : ∃ m ∈ regular ++ dynamic, m.Writes c p := by
    cases hsole : p.key.isSoleLiteral with
    | true =>
        obtain ⟨m, hm, hwrites⟩ := hregular.exists_of_mem (List.mem_filter.mpr ⟨hp, hsole⟩)
        exact ⟨m, List.mem_append_left _ hm, hwrites⟩
    | false =>
        obtain ⟨m, hm, hwrites⟩ :=
          hdynamic.exists_of_mem (List.mem_filter.mpr ⟨hp, by simp [hsole]⟩)
        exact ⟨m, List.mem_append_right _ hm, hwrites⟩
  obtain ⟨m, hm, hwrites⟩ := hmember
  obtain ⟨members, hhas, hmem⟩ := exists_members_of_objectOf hm
  exact ⟨m, hwrites, members, hmem, _, List.mem_singleton_self _,
    (has_withComment comment _).trans hhas⟩

/-! ## Parts -/

variable {s : TypeShape} {inEscape : Bool} {part : ShapePart} {t : TypeExpr}

theorem exists_of_mem_parts (hpart : part ∈ s.parts inEscape)
    (ht : (ofShape c inEscape s).result = .ok t) :
    ∃ ts, (ofPart c part).result = .ok ts ∧ ∀ u ∈ ts, t.Has u := by
  rw [ofShape_eq, ofParts, Functor.map_map, map_eq_pure_bind, Draft.result_bind,
    Draft.result_mapM] at ht
  obtain ⟨tss, htss, ht⟩ := Except.bind_eq_ok_iff.mp ht
  cases ht
  obtain ⟨ts, hts, hresult⟩ := Except.mem_of_mapM htss hpart
  exact ⟨ts, hresult, fun u hu => has_unionOf (List.mem_flatten_of_mem hts hu)⟩

theorem exists_of_segment {segments : List TypeShape} {segment : TypeShape} {ts : List TypeExpr}
    (hsegment : segment ∈ segments) (hsole : segment.isSoleLiteral = false)
    (hts : (ofPart c (.template segments)).result = .ok ts) :
    ∃ v, (ofShape c false segment).result = .ok v ∧ ∃ u ∈ ts, u.Has v := by
  rw [ofPart, ofTemplates, ofTemplates, Draft.result_bind] at hts
  obtain ⟨⟨head, spans⟩, hspans, hts⟩ := Except.bind_eq_ok_iff.mp hts
  cases hts
  rw [ofSegments_eq, map_eq_pure_bind, Draft.result_bind, Draft.result_mapM] at hspans
  obtain ⟨parts, hparts, hspans⟩ := Except.bind_eq_ok_iff.mp hspans
  obtain ⟨htypes, -⟩ := forall₂_gather (Except.forall₂_of_mapM hparts)
  have hgathered : gather parts = (head, spans) := Except.ok.inj hspans
  rw [hgathered] at htypes
  obtain ⟨span, hspan, hresult⟩ :=
    htypes.exists_of_mem (List.mem_filter.mpr ⟨hsegment, by simp [hsole]⟩)
  exact ⟨span.1, hresult, _, List.mem_singleton_self _,
    .inside (List.mem_map_of_mem hspan) (.self _)⟩

theorem exists_of_element {tuple : TupleShape} {element : TypeShape} {ts : List TypeExpr}
    (helement : element ∈ tuple.elements) (hts : (ofPart c (.tuple tuple)).result = .ok ts) :
    ∃ v, (ofShape c false element.element).result = .ok v ∧ ∃ u ∈ ts, u.Has v := by
  obtain ⟨elements, name⟩ := tuple
  rw [ofPart, ofTuples, ofTuples, Draft.result_bind, ofElements_eq, Draft.result_mapM] at hts
  obtain ⟨types, htypes, hts⟩ := Except.bind_eq_ok_iff.mp hts
  cases hts
  obtain ⟨⟨mark, v⟩, hmem, hresult⟩ := Except.mem_of_mapM htypes helement
  rw [Draft.result_bind] at hresult
  obtain ⟨v', hv, hresult⟩ := Except.bind_eq_ok_iff.mp hresult
  cases hresult
  exact ⟨v, hv, _, List.mem_singleton_self _, .inside (List.mem_map.mpr ⟨_, hmem, rfl⟩) (.self v)⟩

theorem exists_of_property {o : ObjectShape} {p : PropertyShape} {inner : TypeShape}
    {ts : List TypeExpr} (hanonymous : o.anonymous = .ok true) (hp : p ∈ o.properties)
    (hinner : ∀ m, TypeMember.Writes c p m → ∃ v ∈ m.types, (ofShape c false inner).result = .ok v)
    (hts : (ofPart c (.object o)).result = .ok ts) :
    ∃ v, (ofShape c false inner).result = .ok v ∧ ∃ u ∈ ts, u.Has v := by
  obtain ⟨m, hwrites, members, hm, u, hu, hhas⟩ := exists_member_of_object hanonymous hts hp
  obtain ⟨v, hmem, hv⟩ := hinner m hwrites
  exact ⟨v, hv, u, hu, hhas.trans (.inside (List.mem_flatMap_of_mem hm hmem) (.self v))⟩

theorem exists_of_encloses {deeper : Bool} {inner : TypeShape} {ts : List TypeExpr}
    (hinner : part.Encloses deeper inner) (hts : (ofPart c part).result = .ok ts) :
    ∃ v, (ofShape c deeper inner).result = .ok v ∧ ∃ u ∈ ts, u.Has v := by
  cases hinner with
  | @escaped e hdate =>
      obtain ⟨declared, sent⟩ := e
      rw [ofPart, ofEscaped, if_neg (by simpa using hdate), Draft.result_bind] at hts
      obtain ⟨v, hv, hts⟩ := Except.bind_eq_ok_iff.mp hts
      cases hts
      exact ⟨v, hv, v, List.mem_singleton_self v, .self v⟩
  | segment hsegment hsole => exact exists_of_segment hsegment hsole hts
  | element helement => exact exists_of_element helement hts
  | array =>
      rw [result_array] at hts
      obtain ⟨v, hv, hts⟩ := Except.bind_eq_ok_iff.mp hts
      obtain ⟨array, harray, hts⟩ := Except.bind_eq_ok_iff.mp hts
      obtain rfl := eq_tagged_of_withTags c harray
      cases hts
      exact ⟨v, hv, _, List.mem_singleton_self _,
        (has_tagged _ _).trans (.inside List.mem_cons_self (.self v))⟩
  | key hanonymous hp hsole =>
      refine exists_of_property hanonymous hp (fun m hwrites => ?_) hts
      cases hwrites with
      | property hname => simp [TypeShape.isSoleLiteral, hname] at hsole
      | index _ hkey => exact ⟨_, List.mem_cons_self, hkey⟩
  | value hanonymous hp =>
      refine exists_of_property hanonymous hp (fun m hwrites => ?_) hts
      cases hwrites with
      | property _ hvalue => exact ⟨_, List.mem_cons_self, hvalue⟩
      | index _ _ hvalue => exact ⟨_, List.mem_cons_of_mem _ List.mem_cons_self, hvalue⟩

/-- A part that is written in a shape is written as types that stand in the type of the
shape. -/
theorem exists_of_writes (h : s.Writes inEscape part)
    (ht : (ofShape c inEscape s).result = .ok t) :
    ∃ ts, (ofPart c part).result = .ok ts ∧ ∀ u ∈ ts, t.Has u := by
  induction h generalizing t with
  | part hpart => exact exists_of_mem_parts hpart ht
  | inside hpart hinner _ ih =>
      obtain ⟨ts, hts, hhas⟩ := exists_of_mem_parts hpart ht
      obtain ⟨v, hv, u, hu, huv⟩ := exists_of_encloses hinner hts
      obtain ⟨us, hus, hvs⟩ := ih hv
      exact ⟨us, hus, fun w hw => (hhas u hu).trans (huv.trans (hvs w hw))⟩

end TypeExpr

end ClientSdk
