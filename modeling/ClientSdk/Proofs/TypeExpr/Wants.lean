import ClientSdk.Proofs.TypeExpr.Mentions

/-!
# Where wants come from

A part of a shape wants its validation tags itself, the format of a date, and the types that
its name refers to (`ShapePart.Wants`).  All that is wanted for a shape is wanted by one of its
parts, at any depth and whether or not the shape can be written in the end; and if it cannot,
the data of the shape is at fault (`keeps_of_contained`).
-/

namespace ClientSdk

def Fault.OfData : Fault → Prop
  | .value _ => True
  | .unresolvedType _ => True
  | _ => False

open Draft (Keeps)

/-- A computation that fails, if at all, because of the data of a route. -/
abbrev Faulty {α : Type} (x : Except Fault α) : Prop :=
  x.FailsBy Fault.OfData

/-! ## Data -/

section Data

open Except (FailsBy)

theorem faulty_asText (v : Value) : Faulty v.asText := by
  cases v <;> first | exact .ok _ | exact .error trivial

theorem faulty_asKey (v : Value) : Faulty (Comment.asKey v) := by
  unfold Comment.asKey
  split
  · exact .ok v
  · exact .error trivial

theorem faulty_toInteger (v : Value) : Faulty v.toInteger := by
  unfold Value.toInteger
  repeat' split
  all_goals first | exact .ok _ | exact .error trivial

theorem faulty_unlessTooLong {α : Type} (v : Value) (written : α) :
    Faulty (v.unlessTooLong written) := by
  unfold Value.unlessTooLong
  split
  · exact .error trivial
  · exact .ok _

theorem faulty_literalForm (v kind : Value) : Faulty (v.literalForm kind) := by
  unfold Value.literalForm
  split
  · exact .ok _
  · exact (faulty_toInteger _).bind fun _ => .ok _
  · exact .ok _
  · exact .ok _
  · exact .ok _

theorem faulty_literalType (v kind : Value) : Faulty (v.literalType kind) :=
  (faulty_literalForm v kind).bind fun _ => faulty_unlessTooLong v _

theorem faulty_atomicKeyword (kind : Value) : Faulty (atomicKeyword kind) := by
  unfold atomicKeyword
  repeat' split
  all_goals first | exact .ok _ | exact .error trivial

theorem faulty_typeRoot (name : String) : Faulty (typeRoot name) := by
  unfold typeRoot
  split
  · exact .ok _
  · exact .error trivial

theorem faulty_anonymous (o : ObjectShape) : Faulty o.anonymous := by
  unfold ObjectShape.anonymous
  split
  · exact .ok _
  · exact .ok _
  · exact .error trivial

theorem faulty_withoutKinds (kinds : List Value) (tags : List DocTag) :
    Faulty (Comment.withoutKinds kinds tags) :=
  (FailsBy.mapM fun v _ => faulty_asKey v).bind fun _ =>
    FailsBy.filterM fun tag _ => (faulty_asKey tag.name).bind fun _ => .ok _

theorem faulty_commentBody (atomics : List Atomic) (description : Value)
    (tags : List DocTag) : Faulty (Comment.body atomics description tags) := by
  refine FailsBy.bind ?_ fun first => FailsBy.bind ?_ fun tags => .ok _
  · unfold Comment.descriptionLines
    split
    · exact (faulty_asText description).map _
    · exact .ok []
  · unfold Comment.remaining
    split
    · exact .ok tags
    · exact faulty_withoutKinds _ tags

end Data

/-! ## Parts -/

/-- What a part wants itself. -/
inductive ShapePart.Wants (c : Config) : ShapePart → Registration → Prop
  | tag {part : ShapePart} {row : List ValidationTag} {tag : ValidationTag} :
      row ∈ part.tags → tag ∈ row →
      Wants c part (.fromLibrary (c.tagLibrary tag.instanceName) tag.instanceName)
  | format {e : EscapedShape} :
      Wants c (.escaped e) (.fromLibrary (c.tagLibrary "Format") "Format")
  | root {part : ShapePart} {name root : String} : part.Names name → typeRoot name = .ok root →
      Wants c part (c.rootImport root)
  | argument {part : ShapePart} {name root argument : String} : part.Names name →
      typeRoot name = .ok root →
      argument ∈ TypeName.references ((Text.trimChars name.toList).drop root.length) →
      Wants c part (c.rootImport argument)

namespace TypeExpr

section Keeps

variable (c : Config) {wanted : Registration → Prop}

theorem keeps_ofTag {tag : ValidationTag}
    (h : wanted (.fromLibrary (c.tagLibrary tag.instanceName) tag.instanceName)) :
    Keeps wanted Fault.OfData (ofTag c tag) :=
  (Keeps.want h).bind fun _ => (Keeps.lift (faulty_literalType _ _)).bind fun _ => .pure _

theorem keeps_withTags (base : TypeExpr) {tags : TagMatrix}
    (h : ∀ row ∈ tags, ∀ tag ∈ row,
      wanted (.fromLibrary (c.tagLibrary tag.instanceName) tag.instanceName)) :
    Keeps wanted Fault.OfData (withTags c base tags) := by
  have hrow : ∀ row ∈ tags.filter (fun row => !row.isEmpty), ∀ tag ∈ row,
      Keeps wanted Fault.OfData (ofTag c tag) := by
    intro row hrow tag htag
    exact keeps_ofTag c (h row (List.mem_of_mem_filter hrow) tag htag)
  unfold withTags
  split
  · exact .pure base
  · next row hrows =>
      rw [hrows] at hrow
      exact (Keeps.mapM (hrow row List.mem_cons_self)).bind fun _ => .pure _
  · exact (Keeps.mapM fun row hmem => (Keeps.mapM (hrow row hmem)).map _).bind fun _ => .pure _

theorem keeps_dateTime (h : wanted (.fromLibrary (c.tagLibrary "Format") "Format")) :
    Keeps wanted Fault.OfData (dateTime c) := by
  have hname : ({ name := "Format", kind := .text "format", value := .text "date-time" } :
      ValidationTag).instanceName = "Format" := by decide
  refine (keeps_ofTag c ?_).bind fun _ => .pure _
  rw [hname]
  exact h

theorem keeps_ofName {name : String} (h : ∀ root, typeRoot name = .ok root →
      wanted (c.rootImport root) ∧
        ∀ argument ∈ TypeName.references ((Text.trimChars name.toList).drop root.length),
          wanted (c.rootImport argument)) :
    Keeps wanted Fault.OfData (ofName c name) := by
  unfold ofName
  refine .lift_bind (faulty_typeRoot name) fun root hroot => ?_
  refine (Keeps.mapM fun argument hargument => Keeps.want ?_).bind fun _ => .pure _
  rcases List.mem_cons.mp hargument with rfl | hargument
  · exact (h argument hroot).1
  · exact (h root hroot).2 argument hargument

/-! ### Inside a part -/

theorem keeps_ofSegments {segments : List TypeShape}
    (h : ∀ segment ∈ segments, Keeps wanted Fault.OfData (ofShape c false segment)) :
    Keeps wanted Fault.OfData (ofSegments c segments) := by
  induction segments with
  | nil => exact .pure ("", [])
  | cons segment rest ih =>
      obtain ⟨hsegment, hrest⟩ := List.forall_mem_cons.mp h
      rw [ofSegments]
      split
      · refine (Keeps.lift (faulty_unlessTooLong _ _)).bind fun _ => ?_
        exact (ih hrest).bind fun _ => .pure _
      · exact hsegment.bind fun _ => (ih hrest).bind fun _ => .pure _

theorem keeps_ofElements {elements : List TypeShape}
    (h : ∀ inner ∈ elements ++ elements.filterMap TypeShape.rest,
      Keeps wanted Fault.OfData (ofShape c false inner)) :
    Keeps wanted Fault.OfData (ofElements c elements) := by
  induction elements with
  | nil => exact .pure []
  | cons element rest ih =>
      have hrest := ih fun inner hinner => h inner (by
        rcases List.mem_append.mp hinner with hinner | hinner
        · simp [hinner]
        · obtain ⟨deeper, hdeeper, hrest⟩ := List.mem_filterMap.mp hinner
          exact List.mem_append_right _
            (List.mem_filterMap.mpr ⟨deeper, List.mem_cons_of_mem _ hdeeper, hrest⟩))
      obtain ⟨any, required, optional, nullable, escaped, constants, templates, atomics, tuples,
        arrays, objects, aliases, natives, repeated⟩ := element
      cases repeated with
      | some repeated =>
          rw [ofElements]
          exact (h repeated (by simp)).bind fun _ => hrest.bind fun _ => .pure _
      | none =>
          rw [ofElements]
          · exact (h _ (by simp)).bind fun _ => hrest.bind fun _ => .pure _
          · simp

theorem keeps_ofRegular {properties : List PropertyShape}
    (h : ∀ p ∈ properties, Keeps wanted Fault.OfData (ofShape c false p.value)) :
    Keeps wanted Fault.OfData (ofRegular c properties) := by
  induction properties with
  | nil => exact .pure []
  | cons p rest ih =>
      obtain ⟨hp, hrest⟩ := List.forall_mem_cons.mp h
      obtain ⟨key, value, description, docTags⟩ := p
      rw [ofRegular]
      split
      · exact ih hrest
      · refine (Keeps.lift (faulty_unlessTooLong _ _)).bind fun _ => ?_
        refine hp.bind fun _ => ?_
        refine (Keeps.lift (faulty_commentBody _ _ _)).bind fun _ => ?_
        exact (ih hrest).bind fun _ => .pure _

theorem keeps_ofDynamic {properties : List PropertyShape}
    (h : ∀ p ∈ properties, Keeps wanted Fault.OfData (ofShape c false p.key) ∧
      Keeps wanted Fault.OfData (ofShape c false p.value)) :
    Keeps wanted Fault.OfData (ofDynamic c properties) := by
  induction properties with
  | nil => exact .pure []
  | cons p rest ih =>
      obtain ⟨⟨hkey, hvalue⟩, hrest⟩ := List.forall_mem_cons.mp h
      obtain ⟨key, value, description, docTags⟩ := p
      rw [ofDynamic]
      split
      · exact ih hrest
      · refine hkey.bind fun _ => hvalue.bind fun _ => ?_
        refine (Keeps.lift (faulty_commentBody _ _ _)).bind fun _ => ?_
        exact (ih hrest).bind fun _ => .pure _

theorem keeps_object {o : ObjectShape}
    (hname : ∀ name, ShapePart.Names (.object o) name → Keeps wanted Fault.OfData (ofName c name))
    (hproperty : ∀ p ∈ o.properties, ∀ inner ∈ [p.key, p.value],
      Keeps wanted Fault.OfData (ofShape c false inner)) :
    Keeps wanted Fault.OfData (ofPart c (.object o)) := by
  obtain ⟨properties, name, description, docTags⟩ := o
  rw [ofPart, ofObjects]
  refine .lift_bind (faulty_anonymous _) fun anonymous hanonymous => ?_
  have hlast : ∀ object, (do return object :: (← ofObjects c []) : Draft _).Keeps wanted
      Fault.OfData := fun object => by
    rw [ofObjects_last]
    exact .pure _
  cases anonymous with
  | true =>
      refine (keeps_ofRegular c fun p hp => hproperty p hp _ (by simp)).bind fun _ => ?_
      refine (keeps_ofDynamic c fun p hp => ⟨hproperty p hp _ (by simp),
        hproperty p hp _ (by simp)⟩).bind fun _ => ?_
      refine (Keeps.lift (faulty_commentBody _ _ _)).bind fun _ => ?_
      exact (Keeps.pure _).bind hlast
  | false =>
      refine .lift_bind (faulty_asText name) fun text htext => ?_
      exact (hname text (.object hanonymous (Value.eq_text_of_asText htext))).bind hlast

theorem keeps_ofPart {part : ShapePart} (hown : ∀ r, part.Wants c r → wanted r)
    (hinside : ∀ inner ∈ part.shapes, ∀ inEscape,
      Keeps wanted Fault.OfData (ofShape c inEscape inner)) :
    Keeps wanted Fault.OfData (ofPart c part) := by
  have htags : ∀ row ∈ part.tags, ∀ tag ∈ row,
      wanted (.fromLibrary (c.tagLibrary tag.instanceName) tag.instanceName) :=
    fun row hrow tag htag => hown _ (.tag hrow htag)
  have hname : ∀ name, part.Names name → Keeps wanted Fault.OfData (ofName c name) :=
    fun name hnames => keeps_ofName c fun root hroot =>
      ⟨hown _ (.root hnames hroot), fun argument hargument =>
        hown _ (.argument hnames hroot hargument)⟩
  cases part with
  | any => exact .pure _
  | null => exact .pure _
  | undefined => exact .pure _
  | native => exact .pure _
  | literal kind value =>
      exact ((Keeps.lift (faulty_literalType _ _)).bind fun _ => .pure _).bind fun _ => .pure _
  | atomic a =>
      refine Keeps.bind ?_ fun _ => .pure _
      exact (Keeps.lift (faulty_atomicKeyword a.kind)).bind fun _ => keeps_withTags c _ htags
  | escaped e =>
      obtain ⟨declared, sent⟩ := e
      rw [ofPart, ofEscaped]
      split
      · exact (keeps_dateTime c (hown _ .format)).bind fun _ => .pure _
      · exact (hinside sent (by simp [ShapePart.shapes]) true).bind fun _ => .pure _
  | template segments =>
      rw [ofPart, ofTemplates, ofTemplates]
      exact (keeps_ofSegments c fun segment hsegment => hinside segment hsegment false).bind
        fun _ => (Keeps.pure _).bind fun _ => .pure _
  | tuple t =>
      obtain ⟨elements, name⟩ := t
      rw [ofPart, ofTuples, ofTuples]
      exact (keeps_ofElements c fun inner hinner => hinside inner hinner false).bind
        fun _ => (Keeps.pure _).bind fun _ => .pure _
  | array a =>
      obtain ⟨value, tags, name⟩ := a
      rw [ofPart, ofArrays, ofArrays]
      exact (hinside value (by simp [ShapePart.shapes]) false).bind fun _ =>
        (keeps_withTags c _ htags).bind fun _ => (Keeps.pure _).bind fun _ => .pure _
  | declared a =>
      refine Keeps.bind ?_ fun _ => .pure _
      exact .lift_bind (faulty_asText a.name) fun name ha =>
        hname name (.declared (Value.eq_text_of_asText ha))
  | object o =>
      exact keeps_object c hname fun p hp inner hinner =>
        hinside inner (List.mem_flatMap_of_mem hp hinner) false

end Keeps

/-- What is wanted for a shape is wanted by its parts, if they want nothing else. -/
theorem keeps_of_contained (c : Config) {wanted : Registration → Prop} {s : TypeShape}
    (h : ∀ part, s.Contains part → ∀ r, part.Wants c r → wanted r) (inEscape : Bool) :
    Keeps wanted Fault.OfData (ofShape c inEscape s) := by
  induction s using TypeShape.induction generalizing inEscape with
  | step s ih =>
    rw [ofShape_eq]
    refine Keeps.map (Keeps.map (Keeps.mapM fun part hpart => ?_) _) _
    have hmem := TypeShape.mem_parts_of_mem hpart
    exact keeps_ofPart c (h part (.part hmem)) fun inner hinner inEscape =>
      ih part hmem inner hinner (fun deeper hdeeper => h deeper (.inside hmem hinner hdeeper))
        inEscape

end TypeExpr

end ClientSdk
