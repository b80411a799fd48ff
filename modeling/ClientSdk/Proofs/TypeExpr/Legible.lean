import ClientSdk.Proofs.TypeExpr.Children
import ClientSdk.Proofs.TypeExpr.Mentions
import ClientSdk.Proofs.TypeExpr.Word

/-!
# Legible types

A type is legible if its names and literals are words or string literals, no comment
stands in it, and no union or intersection in it has fewer than two members.  A shape
without descriptions and documentation tags is written as a legible type
(`legible_ofShape`).
-/

namespace ClientSdk

open TypeText (IsToken bareName)

/-- A member without a comment, the name of which can be read. -/
def TypeMember.IsPlain : TypeMember → Prop
  | .property comment name _ _ => comment = "" ∧ IsToken (bareName name)
  | .index comment _ _ => comment = ""

/-- The text of the type can be read back. -/
inductive TypeExpr.Legible : TypeExpr → Prop
  | keyword {word : String} : IsToken word → Legible (.keyword word)
  | literal {text : String} : IsToken text → Legible (.literal text)
  | reference {name : String} : Text.IsDotted name → Legible (.reference name)
  | tag {name argument : String} : Text.IsDotted name → IsToken argument →
      Legible (.tag name argument)
  | template {head : String} {spans : List (TypeExpr × String)} :
      (∀ span ∈ spans, Legible span.1) → Legible (.template head spans)
  | array {element : TypeExpr} : Legible element → Legible (.array element)
  | tuple {elements : List (ElementMark × TypeExpr)} :
      (∀ element ∈ elements, Legible element.2) → Legible (.tuple elements)
  | object {members : List TypeMember} : (∀ m ∈ members, m.IsPlain) →
      (∀ m ∈ members, ∀ t ∈ m.types, Legible t) → Legible (.object members)
  | union {members : List TypeExpr} : 2 ≤ members.length →
      (∀ t ∈ members, Legible t) → Legible (.union members)
  | intersection {members : List TypeExpr} : 2 ≤ members.length →
      (∀ t ∈ members, Legible t) → Legible (.intersection members)

/-! ## Types inside a type -/

theorem TypeExpr.Legible.child {t u : TypeExpr} (h : t.Legible) (hu : u ∈ t.children) :
    u.Legible := by
  cases h with
  | keyword | literal | reference | tag => exact absurd hu List.not_mem_nil
  | template h =>
      obtain ⟨span, hspan, rfl⟩ := List.mem_map.mp hu
      exact h span hspan
  | array h => exact List.mem_singleton.mp hu ▸ h
  | tuple h =>
      obtain ⟨element, helement, rfl⟩ := List.mem_map.mp hu
      exact h element helement
  | object _ h =>
      obtain ⟨m, hm, hu⟩ := List.mem_flatMap.mp hu
      exact h m hm u hu
  | union _ h => exact h u hu
  | intersection _ h => exact h u hu

/-- What stands in a legible type is legible. -/
theorem TypeExpr.Legible.of_has {t u : TypeExpr} (h : t.Legible) (hu : t.Has u) : u.Legible := by
  induction hu with
  | self => exact h
  | inside hchild _ ih => exact ih (h.child hchild)

/-! ## Plain shapes -/

/-- A validation tag that is named and valued as the grammar of documents says. -/
structure ValidationTag.IsPlain (tag : ValidationTag) : Prop where
  dotted : Text.IsDotted tag.instanceName
  literal : tag.value.isLiteral = true

/-- The values that the part writes as literals are such as the grammar of documents
takes for literals. -/
def ShapePart.LiteralValues : ShapePart → Prop
  | .literal _ value => value.isLiteral = true
  | .atomic a => ∀ row ∈ a.tags, ∀ tag ∈ row, tag.value.isLiteral = true
  | .array a => ∀ row ∈ a.tags, ∀ tag ∈ row, tag.value.isLiteral = true
  | _ => True

/-- The part has neither descriptions nor documentation tags. -/
def ShapePart.Uncommented : ShapePart → Prop
  | .object o => o.description.truthy = false ∧ o.docTags = [] ∧
      ∀ p ∈ o.properties, p.description.truthy = false ∧ p.docTags = []
  | _ => True

/-- All values for literals in the shape are such as the grammar of documents takes for
literals. -/
def TypeShape.LiteralValues (s : TypeShape) : Prop :=
  ∀ part, s.Contains part → part.LiteralValues

/-- There are neither descriptions nor documentation tags in the shape. -/
def TypeShape.Uncommented (s : TypeShape) : Prop :=
  ∀ part, s.Contains part → part.Uncommented

/-- A part that is written legibly if the shapes inside it are. -/
structure ShapePart.IsPlain (part : ShapePart) : Prop where
  names : part.NamesDotted
  literals : part.LiteralValues
  comments : part.Uncommented

theorem Comment.body_of_blank {description : Value} (h : description.truthy = false)
    (atomics : List Atomic) : Comment.body atomics description [] = .ok "" := by
  have hremaining : Comment.remaining atomics [] = .ok [] := by simp [Comment.remaining]
  simp [Comment.body, Comment.descriptionLines, hremaining, h, Text.unlines]
  rfl

namespace TypeExpr

open Draft (Yields)

/-! ## What is written legibly -/

theorem legible_unionOf {ts : List TypeExpr} (h : ∀ t ∈ ts, t.Legible) :
    (unionOf ts).Legible := by
  match ts with
  | [] => exact .keyword (.word (by decide))
  | [t] => exact h t List.mem_cons_self
  | _ :: _ :: _ => exact .union (by simp) h

theorem legible_intersectionOf {ts : List TypeExpr} (hne : ts ≠ [])
    (h : ∀ t ∈ ts, t.Legible) : (intersectionOf ts).Legible := by
  match ts with
  | [] => exact absurd rfl hne
  | [t] => exact h t List.mem_cons_self
  | _ :: _ :: _ => exact .intersection (by simp) h

theorem legible_objectOf {regular dynamic : List TypeMember}
    (hplain : ∀ m ∈ regular ++ dynamic, m.IsPlain)
    (h : ∀ m ∈ regular ++ dynamic, ∀ t ∈ m.types, t.Legible) :
    (objectOf regular dynamic).Legible := by
  have hobject : ∀ members ⊆ regular ++ dynamic, (TypeExpr.object members).Legible :=
    fun members hsub => .object (fun m hm => hplain m (hsub hm)) fun m hm => h m (hsub hm)
  refine legible_intersectionOf ?_ fun t ht => ?_
  · cases regular with
    | nil => cases dynamic <;> simp
    | cons m ms => simp
  · rcases List.mem_append.mp ht with ht | ht
    · split at ht
      · exact absurd ht List.not_mem_nil
      · rw [List.mem_singleton.mp ht]
        exact hobject _ (List.subset_append_left _ _)
    · obtain ⟨m, hm, rfl⟩ := List.mem_map.mp ht
      exact hobject _ fun m' hm' => by
        rw [List.mem_singleton.mp hm']
        exact List.mem_append_right _ hm

theorem isToken_of_atomicKeyword {kind : Value} {word : String}
    (h : atomicKeyword kind = .ok word) : IsToken word := by
  have hall : ∀ entry ∈ atomicKeywords, TypeText.IsWord entry.2.toList := by decide
  obtain ⟨name, hmem⟩ := mem_of_atomicKeyword h
  exact .word (hall _ hmem)

variable (c : Config)

theorem legible_ofTag {tag : ValidationTag} (h : tag.IsPlain) :
    (ofTag c tag).Yields fun _ t => t.Legible := by
  have hname : (Draft.want (.fromLibrary (c.tagLibrary tag.instanceName) tag.instanceName)).Yields
      fun _ name => Text.IsDotted name := by
    rintro _ ⟨⟩
    exact h.dotted
  have hvalue : (liftM (tag.value.literalType .null) : Draft String).Yields
      fun _ text => IsToken text :=
    .lift fun _ htext => TypeText.isToken_of_literalType h.literal htext
  exact hname.bind fun _ _ hname => hvalue.bind fun _ _ htext => .pure (.tag hname htext)

theorem legible_ofRow {row : List ValidationTag} (hne : row ≠ [])
    (h : ∀ tag ∈ row, tag.IsPlain) : (ofRow c row).Yields fun _ t => t.Legible := by
  refine (Yields.mapM fun tag htag => legible_ofTag c (h tag htag)).map
    fun _ ts ⟨hlength, hts⟩ => legible_intersectionOf ?_ hts
  exact List.ne_nil_of_length_eq_add_one (n := row.length - 1) (by
    have := List.length_pos_iff.mpr hne
    omega)

theorem legible_withTags {tags : TagMatrix} {base : TypeExpr} (hbase : base.Legible)
    (h : ∀ row ∈ tags, ∀ tag ∈ row, tag.IsPlain) :
    (withTags c base tags).Yields fun _ t => t.Legible := by
  have hrows : ∀ row ∈ tags.filter fun row => !row.isEmpty,
      row ≠ [] ∧ ∀ tag ∈ row, tag.IsPlain := by
    intro row hrow
    obtain ⟨hmem, hne⟩ := List.mem_filter.mp hrow
    exact ⟨by simpa using hne, h row hmem⟩
  unfold withTags
  split
  · exact .pure hbase
  · next row heq =>
    rw [heq, List.forall_mem_singleton] at hrows
    refine (Yields.mapM fun tag htag => legible_ofTag c (hrows.2 tag htag)).bind
      fun _ ts hts => .pure (legible_intersectionOf (by simp) ?_)
    exact List.forall_mem_cons.mpr ⟨hbase, hts.2⟩
  · refine (Yields.mapM fun row hrow =>
      legible_ofRow c (hrows row hrow).1 (hrows row hrow).2).bind
        fun _ ts hts => .pure (legible_intersectionOf (by simp) ?_)
    exact List.forall_mem_cons.mpr ⟨hbase, List.forall_mem_singleton.mpr (legible_unionOf hts.2)⟩

theorem legible_ofAtomic {a : Atomic} (h : ∀ row ∈ a.tags, ∀ tag ∈ row, tag.IsPlain) :
    (ofAtomic c a).Yields fun _ t => t.Legible := by
  have hword : (liftM (atomicKeyword a.kind) : Draft String).Yields fun _ word => IsToken word :=
    .lift fun _ => isToken_of_atomicKeyword
  exact hword.bind fun _ _ hword => legible_withTags c (.keyword hword) h

theorem legible_dateTime : (dateTime c).Yields fun _ t => t.Legible := by
  have hplain : ValidationTag.IsPlain
      { name := "Format", kind := .text "format", value := .text "date-time" } :=
    ⟨by decide, rfl⟩
  refine (legible_ofTag c hplain).bind fun _ format hformat =>
    .pure (legible_intersectionOf (by simp) ?_)
  exact List.forall_mem_cons.mpr
    ⟨.keyword (.word (by decide)), List.forall_mem_singleton.mpr hformat⟩

theorem legible_ofName {name : String} (h : Text.IsDotted name) :
    (ofName c name).Yields fun _ t => t.Legible :=
  Yields.after fun _ => Yields.after fun _ => .pure (.reference h)

theorem legible_ofAlias {a : Alias} (h : ∀ name, a.name = .text name → Text.IsDotted name) :
    (ofAlias c a).Yields fun _ t => t.Legible :=
  (yields_asText a.name).bind fun _ name hname => legible_ofName c (h name hname)

/-! ### Parts -/

section Parts

variable {c}

theorem isPlain_of_membersFor {properties : List PropertyShape} {members : List TypeMember}
    (hcomments : ∀ p ∈ properties, p.description.truthy = false ∧ p.docTags = [])
    (h : MembersFor Legible properties members) : ∀ m ∈ members, m.IsPlain := by
  intro m hm
  obtain ⟨⟨p, hp, hwritten⟩, -⟩ := h m hm
  obtain ⟨hdescription, hdocTags⟩ := hcomments p hp
  have hblank := Comment.body_of_blank hdescription p.value.atomics
  rw [← hdocTags] at hblank
  cases hwritten with
  | property name optional value hcomment =>
      have hempty := Except.ok.inj (hcomment.symm.trans hblank)
      exact ⟨hempty, TypeText.isToken_of_memberName _⟩
  | index key value hcomment => exact Except.ok.inj (hcomment.symm.trans hblank)

theorem legible_ofObjects {o : ObjectShape} (hplain : (ShapePart.object o).IsPlain)
    (h : ∀ s ∈ (ShapePart.object o).shapes, (ofShape c false s).Yields fun _ t => t.Legible) :
    (ofObjects c [o]).Yields fun _ ts => ∀ t ∈ ts, t.Legible := by
  obtain ⟨hdescription, hdocTags, hcomments⟩ := hplain.comments
  have hblank := Comment.body_of_blank hdescription []
  rw [← hdocTags] at hblank
  intro ts hts
  obtain ⟨t, rfl, hobject⟩ := yields_ofObjects h ts hts
  refine List.forall_mem_singleton.mpr ?_
  cases hobject with
  | @written regular dynamic comment _ hmembers hcomment =>
      obtain rfl := Except.ok.inj (hcomment.symm.trans hblank)
      exact legible_objectOf (isPlain_of_membersFor hcomments hmembers)
        fun m hm => (hmembers m hm).2
  | referred hnamed hname => exact .reference (hplain.names _ hnamed hname)

theorem legible_ofPart {part : ShapePart} (hplain : part.IsPlain)
    (h : ∀ s ∈ part.shapes, ∀ inEscape, (ofShape c inEscape s).Yields fun _ t => t.Legible) :
    (ofPart c part).Yields fun _ ts => ∀ t ∈ ts, t.Legible := by
  have hone : ∀ {d : Draft TypeExpr}, (d.Yields fun _ t => t.Legible) →
      (do return [← d] : Draft (List TypeExpr)).Yields fun _ ts => ∀ t ∈ ts, t.Legible :=
    fun hd => hd.bind fun _ t ht => .pure (List.forall_mem_singleton.mpr ht)
  have hnone : ∀ t ∈ ([] : List TypeExpr), t.Legible := fun t ht => absurd ht List.not_mem_nil
  cases part with
  | any | null | undefined =>
      exact .pure (List.forall_mem_singleton.mpr (.keyword (.word (by decide))))
  | native => exact .pure hnone
  | escaped e =>
      obtain ⟨declared, sent⟩ := e
      rw [ofPart, ofEscaped]
      split
      · exact hone (legible_dateTime c)
      · exact hone (h sent (by simp [ShapePart.shapes]) true)
  | literal kind value =>
      have htext : (liftM (value.literalType kind) : Draft String).Yields
          fun _ text => IsToken text :=
        .lift fun _ htext => TypeText.isToken_of_literalType hplain.literals htext
      exact hone (htext.bind fun _ text htext => .pure (.literal htext))
  | template segments =>
      rw [ofPart, ofTemplates, ofTemplates]
      refine (yields_ofSegments fun s hs => h s hs false).bind fun _ written hspans => ?_
      obtain ⟨head, spans⟩ := written
      exact .pure (List.forall_mem_singleton.mpr (.template hspans))
  | atomic a =>
      exact hone (legible_ofAtomic c fun row hrow tag htag =>
        ⟨hplain.names row hrow tag htag, hplain.literals row hrow tag htag⟩)
  | tuple t =>
      obtain ⟨elements, name⟩ := t
      rw [ofPart, ofTuples, ofTuples]
      refine (yields_ofElements fun s hs => h s hs false).bind fun _ elements helements => ?_
      exact .pure (List.forall_mem_singleton.mpr (.tuple helements))
  | array a =>
      obtain ⟨value, tags, name⟩ := a
      rw [ofPart, ofArrays, ofArrays]
      refine (h value (by simp [ShapePart.shapes]) false).bind fun _ element helement => ?_
      refine Yields.bind (legible_withTags c (.array helement) fun row hrow tag htag =>
        ⟨hplain.names row hrow tag htag, hplain.literals row hrow tag htag⟩) fun _ t ht => ?_
      exact .pure (List.forall_mem_singleton.mpr ht)
  | object o => exact legible_ofObjects hplain fun s hs => h s hs false
  | declared a => exact hone (legible_ofAlias c hplain.names)

end Parts

/-- A shape without descriptions and documentation tags is written as a legible type. -/
theorem legible_ofShape {s : TypeShape} (hplain : ∀ part, s.Contains part → part.IsPlain)
    (inEscape : Bool) : (ofShape c inEscape s).Yields fun _ t => t.Legible := by
  -- A sent form is written with the other value of `inEscape` than what it stands in.
  induction s using TypeShape.induction generalizing inEscape with
  | step s ih =>
      have hparts : ((s.parts inEscape).mapM (ofPart c)).Yields
          fun _ tss => ∀ ts ∈ tss, ∀ t ∈ ts, t.Legible := by
        refine fun tss htss => (Yields.mapM (fun part hpart => ?_) tss htss).2
        have hpart := TypeShape.mem_parts_of_mem hpart
        refine legible_ofPart (hplain part (.part hpart)) fun inner hinner inEscape => ?_
        exact ih part hpart inner hinner
          (fun deeper hdeeper => hplain deeper (.inside hpart hinner hdeeper)) inEscape
      rw [ofShape_eq, ofParts, Functor.map_map]
      refine hparts.map fun _ tss htss => legible_unionOf fun t ht => ?_
      obtain ⟨ts, hts, ht⟩ := List.mem_flatten.mp ht
      exact htss ts hts t ht

end TypeExpr

end ClientSdk
