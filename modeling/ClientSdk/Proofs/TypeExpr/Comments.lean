import ClientSdk.Proofs.Comment
import ClientSdk.Proofs.TypeExpr.Children

/-!
# The comments in a type

Objects and their members are written under comments.  The block of each comment in a type
stands in its text, moved in with the rest of it (`TypeExpr.standsIn_of_comments`), and each
comment is that of an object or of a property somewhere in the shape (`commented_ofShape`).
-/

namespace ClientSdk

open Comment (HasEnd)
open Text (StandsIn)

/-- The comments that a type is written with itself, empty ones included. -/
def TypeExpr.ownComments : TypeExpr → List String
  | .documented comment _ => [comment]
  | .object members => members.map TypeMember.comment
  | _ => []

/-- A comment is written somewhere in a type. -/
structure TypeExpr.Comments (t : TypeExpr) (comment : String) : Prop where
  said : comment ≠ ""
  written : ∃ u, t.Has u ∧ comment ∈ u.ownComments

/-! ## In the text -/

theorem Comment.block_standsIn_above {comment : String} (h : comment ≠ "")
    (declaration : String) : StandsIn (block comment) (above comment declaration) := by
  have hblock : ¬ (block comment).isEmpty = true := by
    rw [String.isEmpty_iff, ← String.toList_eq_nil_iff, block_eq h]
    simp
  unfold above
  dsimp only
  rw [if_neg hblock]
  exact (StandsIn.append_right (.refl _) _).append_right _

namespace TypeExpr

theorem standsIn_of_comments {t : TypeExpr} {comment : String} (h : t.Comments comment) :
    StandsIn (Comment.block comment) t.text := by
  obtain ⟨u, hu, hown⟩ := h.written
  refine StandsIn.trans ?_ (standsIn_of_has hu)
  cases u with
  | documented own body =>
      rw [List.mem_singleton.mp hown] at h ⊢
      exact Comment.block_standsIn_above h.said _
  | object members =>
      obtain ⟨m, hm, rfl⟩ := List.mem_map.mp hown
      exact standsIn_object hm (Comment.block_standsIn_above h.said _)
  | _ => exact absurd hown List.not_mem_nil

end TypeExpr

/-! ## In the shape -/

/-- A comment that is written for a part, with the texts that it is made of. -/
inductive ShapePart.Says : ShapePart → String → List String → Prop
  | object {o : ObjectShape} {comment : String} :
      Comment.body [] o.description o.docTags = .ok comment →
      Says (.object o) comment (Comment.texts o.description o.docTags)
  | property {o : ObjectShape} {p : PropertyShape} {comment : String} {kept : List DocTag} :
      p ∈ o.properties → Comment.remaining p.value.atomics p.docTags = .ok kept →
      Comment.body p.value.atomics p.description p.docTags = .ok comment →
      Says (.object o) comment (Comment.texts p.description kept)

theorem ShapePart.Says.hasEnd_iff {part : ShapePart} {comment : String} {texts : List String}
    (h : part.Says comment texts) : HasEnd comment ↔ ∃ text ∈ texts, HasEnd text := by
  cases h with
  | @object o _ hbody =>
      obtain ⟨kept, hkept, hiff⟩ := Comment.hasEnd_body_iff hbody
      obtain rfl : o.docTags = kept := by simpa [Comment.remaining] using hkept
      exact hiff
  | property hp hkept hbody =>
      obtain ⟨kept', hkept', hiff⟩ := Comment.hasEnd_body_iff hbody
      obtain rfl := Except.ok.inj (hkept.symm.trans hkept')
      exact hiff

def TypeShape.Says (s : TypeShape) (comment : String) (texts : List String) : Prop :=
  ∃ part, s.Contains part ∧ part.Says comment texts

namespace TypeExpr

open Draft (Yields)

/-- A type all comments of which are of a kind. -/
inductive Commented (P : String → Prop) : TypeExpr → Prop
  | intro {t : TypeExpr} : (∀ comment ∈ t.ownComments, P comment) →
      (∀ child ∈ t.children, Commented P child) → Commented P t

variable {P : String → Prop}

theorem Commented.of_has {t u : TypeExpr} (h : t.Commented P) (hu : t.Has u) :
    ∀ comment ∈ u.ownComments, P comment := by
  induction hu with
  | self =>
      cases h with
      | intro hown _ => exact hown
  | inside hchild _ ih =>
      cases h with
      | intro _ hchildren => exact ih (hchildren _ hchild)

theorem Commented.of_children {t : TypeExpr} (hown : t.ownComments = [])
    (h : ∀ child ∈ t.children, child.Commented P) : t.Commented P :=
  .intro (fun _ hcomment => absurd (hown ▸ hcomment) List.not_mem_nil) h

theorem Commented.leaf {t : TypeExpr} (hown : t.ownComments = []) (h : t.children = []) :
    t.Commented P :=
  .of_children hown fun _ hchild => absurd (h ▸ hchild) List.not_mem_nil

theorem commented_unionOf {ts : List TypeExpr} (h : ∀ t ∈ ts, t.Commented P) :
    (unionOf ts).Commented P := by
  match ts with
  | [] => exact .leaf rfl rfl
  | [t] => exact h t List.mem_cons_self
  | _ :: _ :: _ => exact .of_children rfl h

theorem commented_intersectionOf {ts : List TypeExpr} (h : ∀ t ∈ ts, t.Commented P) :
    (intersectionOf ts).Commented P := by
  match ts with
  | [] => exact .leaf rfl rfl
  | [t] => exact h t List.mem_cons_self
  | _ :: _ :: _ => exact .of_children rfl h

theorem commented_withComment {comment : String} {t : TypeExpr} (hcomment : P comment)
    (h : t.Commented P) : (withComment comment t).Commented P := by
  unfold withComment
  split
  · exact h
  · exact .intro (List.forall_mem_singleton.mpr hcomment) (List.forall_mem_singleton.mpr h)

theorem commented_objectOf {regular dynamic : List TypeMember}
    (h : ∀ m ∈ regular ++ dynamic, P m.comment ∧ ∀ t ∈ m.types, t.Commented P) :
    (objectOf regular dynamic).Commented P := by
  have hobject : ∀ members ⊆ regular ++ dynamic, (TypeExpr.object members).Commented P := by
    intro members hsub
    refine .intro (fun comment hcomment => ?_) fun t ht => ?_
    · obtain ⟨m, hm, rfl⟩ := List.mem_map.mp hcomment
      exact (h m (hsub hm)).1
    · obtain ⟨m, hm, ht⟩ := List.mem_flatMap.mp ht
      exact (h m (hsub hm)).2 t ht
  refine commented_intersectionOf fun t ht => ?_
  rcases List.mem_append.mp ht with ht | ht
  · split at ht
    · exact absurd ht List.not_mem_nil
    · rw [List.mem_singleton.mp ht]
      exact hobject _ (List.subset_append_left _ _)
  · obtain ⟨m, hm, rfl⟩ := List.mem_map.mp ht
    exact hobject _ fun m' hm' => by
      rw [List.mem_singleton.mp hm']
      exact List.mem_append_right _ hm

variable (c : Config)

/-! ### Drafts -/

theorem commented_ofTag (tag : ValidationTag) : (ofTag c tag).Yields fun _ t => t.Commented P :=
  Yields.after fun _ => Yields.after fun _ => .pure (.leaf rfl rfl)

theorem commented_withTags {base : TypeExpr} (hbase : base.Commented P) (tags : TagMatrix) :
    (withTags c base tags).Yields fun _ t => t.Commented P := by
  unfold withTags
  split
  · exact .pure hbase
  · refine (Yields.mapM fun tag _ => commented_ofTag (P := P) c tag).bind fun _ ts hts => .pure ?_
    exact commented_intersectionOf (List.forall_mem_cons.mpr ⟨hbase, hts.2⟩)
  · have hrow : ∀ row, (ofRow c row).Yields fun _ t => t.Commented P := fun row =>
      (Yields.mapM fun tag _ => commented_ofTag (P := P) c tag).map
        fun _ ts hts => commented_intersectionOf hts.2
    refine (Yields.mapM fun row _ => hrow row).bind fun _ ts hts => .pure ?_
    exact commented_intersectionOf (List.forall_mem_cons.mpr
      ⟨hbase, List.forall_mem_singleton.mpr (commented_unionOf hts.2)⟩)

theorem commented_dateTime : (dateTime c).Yields fun _ t => t.Commented P := by
  refine (commented_ofTag (P := P) c _).bind fun _ format hformat => .pure ?_
  exact commented_intersectionOf (List.forall_mem_cons.mpr
    ⟨.leaf rfl rfl, List.forall_mem_singleton.mpr hformat⟩)

theorem commented_ofObject {o : ObjectShape} {t : TypeExpr}
    (hsaid : ∀ comment texts, (ShapePart.object o).Says comment texts → P comment)
    (h : ObjectFor (Commented P) o t) : t.Commented P := by
  cases h with
  | written _ hmembers hcomment =>
      refine commented_withComment (hsaid _ _ (.object hcomment))
        (commented_objectOf fun m hm => ?_)
      obtain ⟨⟨p, hp, hwritten⟩, htypes⟩ := hmembers m hm
      refine ⟨?_, htypes⟩
      cases hwritten with
      | property _ _ _ hbody | index _ _ hbody =>
          obtain ⟨kept, hkept, -⟩ := Comment.hasEnd_body_iff hbody
          exact hsaid _ _ (.property hp hkept hbody)
  | referred => exact .leaf rfl rfl

theorem commented_ofPart {part : ShapePart}
    (hsaid : ∀ comment texts, part.Says comment texts → P comment)
    (h : ∀ s ∈ part.shapes, ∀ inEscape,
      (ofShape c inEscape s).Yields fun _ t => t.Commented P) :
    (ofPart c part).Yields fun _ ts => ∀ t ∈ ts, t.Commented P := by
  have hone : ∀ {d : Draft TypeExpr}, (d.Yields fun _ t => t.Commented P) →
      (do return [← d] : Draft (List TypeExpr)).Yields fun _ ts => ∀ t ∈ ts, t.Commented P :=
    fun hd => hd.bind fun _ t ht => .pure (List.forall_mem_singleton.mpr ht)
  cases part with
  | any | null | undefined => exact .pure (List.forall_mem_singleton.mpr (.leaf rfl rfl))
  | native => exact .pure fun t ht => absurd ht List.not_mem_nil
  | escaped e =>
      obtain ⟨declared, sent⟩ := e
      rw [ofPart, ofEscaped]
      split
      · exact hone (commented_dateTime c)
      · exact hone (h sent (by simp [ShapePart.shapes]) true)
  | literal kind value => exact hone (Yields.after fun _ => .pure (.leaf rfl rfl))
  | template segments =>
      rw [ofPart, ofTemplates, ofTemplates]
      refine (yields_ofSegments fun s hs => h s hs false).bind fun _ written hspans => ?_
      obtain ⟨head, spans⟩ := written
      refine .pure (List.forall_mem_singleton.mpr (.of_children rfl fun t ht => ?_))
      obtain ⟨span, hspan, rfl⟩ := List.mem_map.mp ht
      exact hspans span hspan
  | atomic a =>
      exact hone (Yields.after fun _ => commented_withTags c (.leaf rfl rfl) a.tags)
  | tuple t =>
      obtain ⟨elements, name⟩ := t
      rw [ofPart, ofTuples, ofTuples]
      refine (yields_ofElements fun s hs => h s hs false).bind fun _ elements helements => ?_
      refine .pure (List.forall_mem_singleton.mpr (.of_children rfl fun t ht => ?_))
      obtain ⟨element, helement, rfl⟩ := List.mem_map.mp ht
      exact helements element helement
  | array a =>
      obtain ⟨value, tags, name⟩ := a
      rw [ofPart, ofArrays, ofArrays]
      refine (h value (by simp [ShapePart.shapes]) false).bind fun _ element helement => ?_
      have harray : (TypeExpr.array element).Commented P :=
        .of_children rfl (List.forall_mem_singleton.mpr helement)
      refine Yields.bind (commented_withTags c harray tags) fun _ t ht => ?_
      exact .pure (List.forall_mem_singleton.mpr ht)
  | object o =>
      intro ts hts
      obtain ⟨t, rfl, hobject⟩ := yields_ofObjects (fun s hs => h s hs false) ts hts
      exact List.forall_mem_singleton.mpr (commented_ofObject hsaid hobject)
  | declared a =>
      refine hone (Yields.after fun name t ht => ?_)
      rw [yields_ofName name t ht]
      exact .leaf rfl rfl

theorem commented_ofShape {s : TypeShape}
    (hsaid : ∀ comment texts, s.Says comment texts → P comment) (inEscape : Bool) :
    (ofShape c inEscape s).Yields fun _ t => t.Commented P := by
  induction s using TypeShape.induction generalizing inEscape with
  | step s ih =>
      have hparts : ((s.parts inEscape).mapM (ofPart c)).Yields
          fun _ tss => ∀ ts ∈ tss, ∀ t ∈ ts, t.Commented P := by
        refine fun tss htss => (Yields.mapM (fun part hpart => ?_) tss htss).2
        have hpart := TypeShape.mem_parts_of_mem hpart
        refine commented_ofPart c
          (fun comment texts h => hsaid comment texts ⟨part, .part hpart, h⟩)
          fun inner hinner inEscape => ih part hpart inner hinner ?_ inEscape
        rintro comment texts ⟨deeper, hdeeper, h⟩
        exact hsaid comment texts ⟨deeper, .inside hpart hinner hdeeper, h⟩
      rw [ofShape_eq, ofParts, Functor.map_map]
      refine hparts.map fun _ tss htss => commented_unionOf fun t ht => ?_
      obtain ⟨ts, hts, ht⟩ := List.mem_flatten.mp ht
      exact htss ts hts t ht

/-- A comment in the type of a shape is that of an object or of a property in the shape. -/
theorem exists_comment_said {s : TypeShape} {inEscape : Bool} {t : TypeExpr} {comment : String}
    (h : (ofShape c inEscape s).result = .ok t) (hcomment : t.Comments comment) :
    ∃ texts, s.Says comment texts := by
  obtain ⟨u, hu, hown⟩ := hcomment.written
  have hall := commented_ofShape c (P := fun comment => ∃ texts, s.Says comment texts)
    (fun comment texts h => ⟨texts, h⟩) inEscape t h
  exact hall.of_has hu comment hown

end TypeExpr

end ClientSdk
