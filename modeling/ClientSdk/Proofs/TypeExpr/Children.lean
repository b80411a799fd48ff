import ClientSdk.Proofs.Text.Margin
import ClientSdk.Proofs.TypeExpr.Parts

/-!
# Types inside types

A type is made of others, its children, and its text of theirs.  They come from the shapes
inside the shape that it is the type of.  So what is known of the types of all inner shapes
is known of all types in a template, in a tuple and in the members of an object
(`yields_ofSegments`, `yields_ofElements`, `yields_members`).  Each member of an object is
written for one of the properties, with the comment of that property
(`TypeMember.WrittenFor`).
-/

namespace ClientSdk

open Text (StandsIn)

def TypeMember.types : TypeMember → List TypeExpr
  | .property _ _ _ value => [value]
  | .index _ key value => [key, value]

def TypeMember.comment : TypeMember → String
  | .property comment _ _ _ => comment
  | .index comment _ _ => comment

/-- What is written for a member under its comment. -/
def TypeMember.declaration : TypeMember → String
  | .property _ name optional value =>
      name ++ (if optional then "?" else "") ++ ": " ++ value.text ++ ";"
  | .index _ key value => "[key: " ++ key.text ++ "]: " ++ value.text ++ ";"

theorem TypeMember.sizeOf_lt_of_mem_types (m : TypeMember) {t : TypeExpr} (h : t ∈ m.types) :
    sizeOf t < sizeOf m := by
  cases m with
  | property comment name optional value =>
      rw [List.mem_singleton.mp h, property.sizeOf_spec]
      omega
  | index comment key value =>
      rw [index.sizeOf_spec]
      rcases List.mem_cons.mp h with rfl | h
      · omega
      · rw [List.mem_singleton.mp h]
        omega

def TypeExpr.children : TypeExpr → List TypeExpr
  | .template _ spans => spans.map Prod.fst
  | .array element => [element]
  | .tuple elements => elements.map Prod.snd
  | .object members => members.flatMap TypeMember.types
  | .union members => members
  | .intersection members => members
  | .documented _ body => [body]
  | _ => []

/-- A type stands in another one, at any depth, or is it. -/
inductive TypeExpr.Has : TypeExpr → TypeExpr → Prop
  | self (t : TypeExpr) : Has t t
  | inside {t child u : TypeExpr} : child ∈ t.children → Has child u → Has t u

/-- A member that is written for a property, under the comment of the property. -/
inductive TypeMember.WrittenFor (p : PropertyShape) : TypeMember → Prop
  | property {comment : String} (name : String) (optional : Bool) (value : TypeExpr) :
      Comment.body p.value.atomics p.description p.docTags = .ok comment →
      WrittenFor p (.property comment (memberName name) optional value)
  | index {comment : String} (key value : TypeExpr) :
      Comment.body p.value.atomics p.description p.docTags = .ok comment →
      WrittenFor p (.index comment key value)

theorem Comment.standsIn_above (comment declaration : String) :
    StandsIn declaration (above comment declaration) := by
  unfold above
  dsimp only
  split
  · exact .refl _
  · exact StandsIn.append_left (.refl _) _

namespace TypeExpr

/-! ## Texts of parts -/

def elementText : ElementMark × TypeExpr → String
  | (.plain, t) => t.text
  | (.optional, t) => group t t.text ++ "?"
  | (.rest, t) => "..." ++ group t t.text ++ "[]"

def memberText : TypeMember → String
  | .property comment name optional value =>
      Comment.above comment
        (name ++ (if optional then "?" else "") ++ ": " ++ value.text ++ ";")
  | .index comment key value =>
      Comment.above comment ("[key: " ++ key.text ++ "]: " ++ value.text ++ ";")

theorem groupedTexts_eq (ts : List TypeExpr) :
    groupedTexts ts = ts.map fun t => group t t.text := by
  induction ts with
  | nil => rfl
  | cons t ts ih => rw [groupedTexts, ih, List.map_cons]

theorem elementTexts_eq (elements : List (ElementMark × TypeExpr)) :
    elementTexts elements = elements.map elementText := by
  induction elements with
  | nil => rfl
  | cons element elements ih =>
      obtain ⟨mark, t⟩ := element
      cases mark <;> rw [elementTexts, ih] <;> rfl

theorem memberTexts_eq (members : List TypeMember) :
    memberTexts members = members.map memberText := by
  induction members with
  | nil => rfl
  | cons member members ih => cases member <;> rw [memberTexts, ih] <;> rfl

theorem sizeOf_lt_of_mem_children {t child : TypeExpr} (h : child ∈ t.children) :
    sizeOf child < sizeOf t := by
  cases t with
  | keyword | literal | reference | tag => exact absurd h List.not_mem_nil
  | template head spans =>
      obtain ⟨⟨t, tail⟩, hspan, rfl⟩ := List.mem_map.mp h
      have hlt := List.sizeOf_lt_of_mem hspan
      simp only [Prod.mk.sizeOf_spec, template.sizeOf_spec] at hlt ⊢
      omega
  | array element =>
      rw [List.mem_singleton.mp h, array.sizeOf_spec]
      omega
  | tuple elements =>
      obtain ⟨⟨mark, t⟩, helement, rfl⟩ := List.mem_map.mp h
      have hlt := List.sizeOf_lt_of_mem helement
      simp only [Prod.mk.sizeOf_spec, tuple.sizeOf_spec] at hlt ⊢
      omega
  | object members =>
      obtain ⟨m, hm, ht⟩ := List.mem_flatMap.mp h
      have hlt := List.sizeOf_lt_of_mem hm
      have hmember := m.sizeOf_lt_of_mem_types ht
      rw [object.sizeOf_spec]
      omega
  | union members =>
      have hlt : sizeOf child < sizeOf members := List.sizeOf_lt_of_mem h
      rw [union.sizeOf_spec]
      omega
  | intersection members =>
      have hlt : sizeOf child < sizeOf members := List.sizeOf_lt_of_mem h
      rw [intersection.sizeOf_spec]
      omega
  | documented comment body =>
      rw [List.mem_singleton.mp h, documented.sizeOf_spec]
      omega

/-! ## Texts inside texts -/

theorem standsIn_group (t : TypeExpr) (s : String) : StandsIn s (group t s) := by
  unfold group
  split
  · exact (StandsIn.append_left (.refl s) _).append_right _
  · exact .refl s

theorem exists_spanText {spans : List (TypeExpr × String)} {span : TypeExpr × String}
    (h : span ∈ spans) : ∃ s ∈ spanTexts spans, StandsIn span.1.text s := by
  induction spans with
  | nil => exact absurd h List.not_mem_nil
  | cons first rest ih =>
      obtain ⟨t, tail⟩ := first
      rcases List.mem_cons.mp h with rfl | h
      · refine ⟨_, List.mem_cons_self, ?_⟩
        exact ((StandsIn.append_left (.refl _) _).append_right _).append_right _
      · obtain ⟨s, hs, hstands⟩ := ih h
        exact ⟨s, List.mem_cons_of_mem _ hs, hstands⟩

theorem standsIn_element (element : ElementMark × TypeExpr) :
    StandsIn element.2.text (elementText element) := by
  obtain ⟨mark, t⟩ := element
  cases mark with
  | plain => exact .refl _
  | optional => exact (standsIn_group t _).append_right _
  | rest => exact ((standsIn_group t _).append_left _).append_right _

theorem memberText_eq (m : TypeMember) :
    memberText m = Comment.above m.comment m.declaration := by
  cases m <;> rfl

theorem standsIn_declaration {m : TypeMember} {t : TypeExpr} (h : t ∈ m.types) :
    StandsIn t.text m.declaration := by
  cases m with
  | property comment name optional value =>
      rw [List.mem_singleton.mp h]
      exact (StandsIn.append_left (.refl _) _).append_right _
  | index comment key value =>
      rcases List.mem_cons.mp h with rfl | h
      · have hkey := (StandsIn.append_left (.refl t.text) "[key: ").append_right "]: "
        exact (hkey.append_right _).append_right _
      · rw [List.mem_singleton.mp h]
        exact (StandsIn.append_left (.refl _) _).append_right _

/-- What stands in the text of a member stands in that of the object, moved in. -/
theorem standsIn_object {part : String} {m : TypeMember} {members : List TypeMember}
    (hm : m ∈ members) (h : StandsIn part (Comment.above m.comment m.declaration)) :
    StandsIn part (object members).text := by
  rw [← memberText_eq] at h
  have hmem : memberText m ∈ memberTexts members := by
    rw [memberTexts_eq]
    exact List.mem_map_of_mem hm
  have hne : (memberTexts members).isEmpty = false :=
    List.isEmpty_eq_false_iff_exists_mem.mpr ⟨_, hmem⟩
  have hmoved := (h.trans (Text.standsIn_indent _)).trans
    (.of_mem_lines (List.mem_map_of_mem hmem))
  rw [text, braced, hne]
  exact (hmoved.append_left _).append_right _

theorem standsIn_child {t u : TypeExpr} (h : u ∈ t.children) : StandsIn u.text t.text := by
  have hgrouped : ∀ {ts : List TypeExpr} {sep : String}, u ∈ ts →
      StandsIn u.text (sep.intercalate (groupedTexts ts)) := by
    intro ts sep hu
    rw [groupedTexts_eq]
    exact (standsIn_group u _).trans (.of_mem (List.mem_map_of_mem hu))
  cases t with
  | keyword | literal | reference | tag => exact absurd h List.not_mem_nil
  | template head spans =>
      obtain ⟨span, hspan, rfl⟩ := List.mem_map.mp h
      obtain ⟨s, hs, hstands⟩ := exists_spanText hspan
      have hjoined := hstands.trans (Text.occurs_join hs).standsIn
      exact (hjoined.append_left _).append_right _
  | array element =>
      rw [List.mem_singleton.mp h]
      exact (standsIn_group element _).append_right _
  | tuple elements =>
      obtain ⟨element, helement, rfl⟩ := List.mem_map.mp h
      have hlisted : StandsIn element.2.text (", ".intercalate (elementTexts elements)) := by
        rw [elementTexts_eq]
        exact (standsIn_element element).trans (.of_mem (List.mem_map_of_mem helement))
      exact (hlisted.append_left _).append_right _
  | object members =>
      obtain ⟨m, hm, hu⟩ := List.mem_flatMap.mp h
      exact standsIn_object hm
        ((standsIn_declaration hu).trans (Comment.standsIn_above _ _))
  | union members => exact hgrouped h
  | intersection members => exact hgrouped h
  | documented comment body =>
      rw [List.mem_singleton.mp h]
      exact Comment.standsIn_above comment _

theorem standsIn_of_has {t u : TypeExpr} (h : t.Has u) : StandsIn u.text t.text := by
  induction h with
  | self t => exact .refl _
  | inside hchild _ ih => exact ih.trans (standsIn_child hchild)

/-! ## Shapes of parts -/

open Draft (Yields)

variable {c : Config} {Q : TypeExpr → Prop}

theorem yields_ofSegments {segments : List TypeShape}
    (h : ∀ s ∈ segments, (ofShape c false s).Yields fun _ t => Q t) :
    (ofSegments c segments).Yields fun _ written => ∀ span ∈ written.2, Q span.1 := by
  induction segments with
  | nil =>
      rw [ofSegments]
      exact .pure (by simp)
  | cons segment rest ih =>
      have hrest := ih fun s hs => h s (List.mem_cons_of_mem _ hs)
      rw [ofSegments]
      split
      · exact Yields.after fun _ => hrest.bind fun _ _ hspans => .pure hspans
      · refine (h segment List.mem_cons_self).bind fun _ t ht => ?_
        exact hrest.bind fun _ _ hspans => .pure (List.forall_mem_cons.mpr ⟨ht, hspans⟩)

theorem yields_ofElements {elements : List TypeShape}
    (h : ∀ s ∈ elements ++ elements.filterMap TypeShape.rest,
      (ofShape c false s).Yields fun _ t => Q t) :
    (ofElements c elements).Yields fun _ elements => ∀ element ∈ elements, Q element.2 := by
  induction elements with
  | nil =>
      rw [ofElements]
      exact .pure (by simp)
  | cons element rest ih =>
      have hrest := ih fun s hs => h s (by
        rw [List.mem_append] at hs ⊢
        exact hs.imp (List.mem_cons_of_mem _)
          ((List.Sublist.filterMap _ (List.sublist_cons_self _ _)).subset ·))
      obtain ⟨any, required, optional, nullable, escaped, constants, templates, atomics,
        tuples, arrays, objects, aliases, natives, repeated⟩ := element
      cases repeated with
      | some repeated =>
          rw [ofElements]
          refine (h repeated (by simp)).bind fun _ t ht => ?_
          exact hrest.bind fun _ _ helements => .pure (List.forall_mem_cons.mpr ⟨ht, helements⟩)
      | none =>
          rw [ofElements]
          · refine (h _ (by simp)).bind fun _ t ht => ?_
            exact hrest.bind fun _ _ helements => .pure (List.forall_mem_cons.mpr ⟨ht, helements⟩)
          · simp

/-- Members that are written for properties, with types of a kind. -/
def MembersFor (Q : TypeExpr → Prop) (properties : List PropertyShape)
    (members : List TypeMember) : Prop :=
  ∀ m ∈ members, (∃ p ∈ properties, m.WrittenFor p) ∧ ∀ t ∈ m.types, Q t

theorem MembersFor.mono {p : PropertyShape} {properties : List PropertyShape}
    {members : List TypeMember} (h : MembersFor Q properties members) :
    MembersFor Q (p :: properties) members := by
  intro m hm
  obtain ⟨⟨p', hp', hwritten⟩, htypes⟩ := h m hm
  exact ⟨⟨p', List.mem_cons_of_mem _ hp', hwritten⟩, htypes⟩

theorem MembersFor.cons {p : PropertyShape} {properties : List PropertyShape} {m : TypeMember}
    {members : List TypeMember} (hm : m.WrittenFor p) (htypes : ∀ t ∈ m.types, Q t)
    (h : MembersFor Q properties members) : MembersFor Q (p :: properties) (m :: members) :=
  List.forall_mem_cons.mpr ⟨⟨⟨p, List.mem_cons_self, hm⟩, htypes⟩, h.mono⟩

theorem yields_body (atomics : List Atomic) (description : Value) (tags : List DocTag) :
    (liftM (Comment.body atomics description tags) : Draft String).Yields fun _ comment =>
      Comment.body atomics description tags = .ok comment :=
  .lift fun _ h => h

theorem yields_ofRegular {properties : List PropertyShape}
    (h : ∀ s ∈ properties.flatMap fun p => [p.key, p.value],
      (ofShape c false s).Yields fun _ t => Q t) :
    (ofRegular c properties).Yields fun _ members => MembersFor Q properties members := by
  induction properties with
  | nil =>
      rw [ofRegular]
      exact .pure fun m hm => absurd hm List.not_mem_nil
  | cons p rest ih =>
      have hrest := ih fun s hs => h s (List.mem_append_right _ hs)
      obtain ⟨key, value, description, docTags⟩ := p
      rw [ofRegular]
      split
      · exact fun members hmembers => (hrest members hmembers).mono
      · refine Yields.after fun _ => (h value (by simp)).bind fun _ t ht => ?_
        refine (yields_body _ _ _).bind fun _ comment hcomment => ?_
        refine hrest.bind fun _ members hmembers => .pure ?_
        exact .cons (.property _ _ t hcomment) (List.forall_mem_singleton.mpr ht) hmembers

theorem yields_ofDynamic {properties : List PropertyShape}
    (h : ∀ s ∈ properties.flatMap fun p => [p.key, p.value],
      (ofShape c false s).Yields fun _ t => Q t) :
    (ofDynamic c properties).Yields fun _ members => MembersFor Q properties members := by
  induction properties with
  | nil =>
      rw [ofDynamic]
      exact .pure fun m hm => absurd hm List.not_mem_nil
  | cons p rest ih =>
      have hrest := ih fun s hs => h s (List.mem_append_right _ hs)
      obtain ⟨key, value, description, docTags⟩ := p
      rw [ofDynamic]
      split
      · exact fun members hmembers => (hrest members hmembers).mono
      · refine (h key (by simp)).bind fun _ keyType hkey => ?_
        refine (h value (by simp)).bind fun _ t ht => ?_
        refine (yields_body _ _ _).bind fun _ comment hcomment => ?_
        refine hrest.bind fun _ members hmembers => .pure ?_
        exact .cons (.index keyType t hcomment)
          (List.forall_mem_cons.mpr ⟨hkey, List.forall_mem_singleton.mpr ht⟩) hmembers

/-- How an object is written: with its members under its comment, or by its name. -/
inductive ObjectFor (Q : TypeExpr → Prop) (o : ObjectShape) : TypeExpr → Prop
  | written {regular dynamic : List TypeMember} {comment : String} : o.anonymous = .ok true →
      MembersFor Q o.properties (regular ++ dynamic) →
      Comment.body [] o.description o.docTags = .ok comment →
      ObjectFor Q o (withComment comment (objectOf regular dynamic))
  | referred {name : String} : o.anonymous = .ok false → o.name = .text name →
      ObjectFor Q o (.reference name)

theorem yields_asText (v : Value) :
    (liftM v.asText : Draft String).Yields fun _ name => v = .text name :=
  .lift fun _ => Value.eq_text_of_asText

theorem yields_ofName (name : String) :
    (ofName c name).Yields fun _ t => t = .reference name :=
  Yields.after fun _ => Yields.after fun _ => .pure rfl

theorem yields_ofObjects {o : ObjectShape}
    (h : ∀ s ∈ (ShapePart.object o).shapes, (ofShape c false s).Yields fun _ t => Q t) :
    (ofObjects c [o]).Yields fun _ ts => ∃ t, ts = [t] ∧ ObjectFor Q o t := by
  obtain ⟨properties, name, description, docTags⟩ := o
  have hanonymous : (liftM (ObjectShape.anonymous { name }) : Draft Bool).Yields
      fun _ anonymous => ObjectShape.anonymous { name } = .ok anonymous :=
    .lift fun _ h => h
  rw [ofObjects]
  refine hanonymous.bind fun _ anonymous hanonymous => ?_
  dsimp only
  simp only [ofObjects_last]
  split
  · next htrue =>
    refine (yields_ofRegular h).bind fun _ regular hregular => ?_
    refine (yields_ofDynamic h).bind fun _ dynamic hdynamic => ?_
    refine (yields_body _ _ _).bind fun _ comment hcomment => ?_
    rw [pure_bind]
    refine .pure ⟨_, rfl, .written (htrue ▸ hanonymous) ?_ hcomment⟩
    exact List.forall_mem_append.mpr ⟨hregular, hdynamic⟩
  · next hnamed =>
    have hfalse : anonymous = false := by simpa using hnamed
    refine (yields_asText name).bind fun _ text htext => ?_
    refine (yields_ofName text).bind fun _ t ht => .pure ⟨t, rfl, ?_⟩
    exact ht ▸ .referred (hfalse ▸ hanonymous) htext

end TypeExpr

end ClientSdk
