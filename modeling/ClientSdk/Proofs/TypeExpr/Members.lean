import ClientSdk.Proofs.Table
import ClientSdk.Proofs.TypeExpr.Parts

/-!
# The members of a union

Every part of a shape is written as one member of the union, in the order of the slots,
but for the native types, which are not written at all.  So the number of members is the
size of the shape, with null and undefined counted, less the number of its native types,
and the empty type is what comes out if nothing else is there (`members_of_shape`).
-/

namespace ClientSdk

def ShapePart.isNative : ShapePart → Bool
  | .native _ => true
  | _ => false

/-- The parts that are written, which are all but the native types. -/
def TypeShape.writtenParts (s : TypeShape) (inEscape : Bool) : List ShapePart :=
  (s.parts inEscape).filter fun part => !part.isNative

/-- Whether the part is a sent form of which nothing is written. -/
def ShapePart.IsBlank : ShapePart → Prop
  | .escaped e => e.declared.isDate = false ∧ e.sent.writtenParts true = []
  | _ => False

/-- Whether nothing of the shape is written: it describes native types only, or besides
them one sent form of which that holds. -/
def TypeShape.IsBlank (s : TypeShape) : Prop :=
  s.writtenParts false = [] ∨ ∃ part, s.writtenParts false = [part] ∧ part.IsBlank

/-- A shape has as many parts as types, with null and undefined counted, unless it
repeats something. -/
theorem TypeShape.length_parts (s : TypeShape) (hrest : s.rest = none) :
    (s.parts false).length = s.size + s.nullable.toNat + (!s.required).toNat := by
  have hswitches : (ShapePart.ofSwitches s.any s.nullable s.required).length =
      s.any.toNat + s.nullable.toNat + (!s.required).toNat := by
    cases s.any <;> cases s.nullable <;> cases s.required <;> rfl
  have hescaped : (s.escaped.toList.map ShapePart.escaped).length = s.escaped.isSome.toNat := by
    cases s.escaped <;> rfl
  have hconstants : (s.constants.flatMap fun k =>
      k.values.map (ShapePart.literal k.kind)).length =
        (s.constants.flatMap Constant.values).length := by
    simp [List.length_flatMap]
  simp only [parts, List.length_append, hswitches, hescaped, hconstants, size, hrest,
    List.length_map, Bool.false_eq_true, if_false, Option.isSome_none, Bool.toNat_false]
  omega

theorem TypeShape.countP_isNative_parts (s : TypeShape) (inEscape : Bool) :
    (s.parts inEscape).countP ShapePart.isNative = s.natives.length := by
  have hswitches : (ShapePart.ofSwitches s.any s.nullable s.required).countP
      ShapePart.isNative = 0 := by
    cases s.any <;> cases s.nullable <;> cases s.required <;> rfl
  have hescaped : (if inEscape then [] else s.escaped.toList.map ShapePart.escaped).countP
      ShapePart.isNative = 0 := by
    cases inEscape <;> cases s.escaped <;> rfl
  simp only [parts, List.countP_append, hswitches, hescaped, List.countP_flatMap,
    List.countP_map, Function.comp_def, ShapePart.isNative]
  simp

theorem TypeShape.length_writtenParts (s : TypeShape) (inEscape : Bool) :
    (s.writtenParts inEscape).length + s.natives.length = (s.parts inEscape).length := by
  rw [← s.countP_isNative_parts inEscape, writtenParts, ← List.countP_eq_length_filter,
    List.length_eq_countP_add_countP ShapePart.isNative]
  simp [Nat.add_comm]

namespace TypeExpr

variable (c : Config)

/-! ## What is not the empty type -/

open Draft (Yields)

/-- A list of types does not come out as the empty type unless it is empty or holds
just that. -/
theorem unionOf_eq_never_iff {members : List TypeExpr} :
    unionOf members = .keyword "never" ↔ members = [] ∨ members = [.keyword "never"] := by
  match members with
  | [] => simp [unionOf]
  | [t] => simp [unionOf]
  | t :: u :: ts => simp [unionOf]

theorem yields_withTags (base : TypeExpr) (tags : TagMatrix) :
    (withTags c base tags).Yields fun _ t => t = base ∨ ∃ ts, t = .intersection ts := by
  unfold withTags
  split
  · exact .pure (.inl rfl)
  · next row hrow =>
    have hne : row.length ≠ 0 := by
      have hmem : row ∈ tags.filter fun row => !row.isEmpty := by simp [hrow]
      simpa using (List.mem_filter.mp hmem).2
    refine (Yields.mapM (P := fun _ => True) fun _ _ _ _ => trivial).bind
      fun _ ts ⟨hlength, _⟩ => .pure (.inr ?_)
    cases ts with
    | nil => exact absurd hlength.symm hne
    | cons t ts => exact ⟨_, rfl⟩
  · exact Yields.after fun _ => .pure (.inr ⟨_, rfl⟩)

theorem array_ne_never (element : TypeExpr) : TypeExpr.array element ≠ .keyword "never" := by
  simp

theorem ne_never_of_withTags {b : TypeExpr} (hbase : b ≠ .keyword "never")
    (tags : TagMatrix) : (withTags c b tags).Yields fun _ t => t ≠ .keyword "never" := by
  intro t ht
  rcases yields_withTags c b tags t ht with rfl | ⟨ts, rfl⟩
  · exact hbase
  · simp

theorem ne_never_of_ofAtomic (a : Atomic) :
    (ofAtomic c a).Yields fun _ t => t ≠ .keyword "never" := by
  refine (Yields.lift (P := fun _ word => word ≠ "never") ?_).bind fun _ word hword =>
    ne_never_of_withTags c (by simpa using hword) a.tags
  rintro _ hword rfl
  obtain ⟨name, hmem⟩ := mem_of_atomicKeyword hword
  simp [atomicKeywords] at hmem

theorem ne_never_of_ofName (name : String) :
    (ofName c name).Yields fun _ t => t ≠ .keyword "never" :=
  Yields.after fun _ => Yields.after fun _ => .pure (by simp)

theorem objectOf_ne_never (regular dynamic : List TypeMember) :
    objectOf regular dynamic ≠ .keyword "never" := by
  match regular, dynamic with
  | [], [] | [], [_] | [], _ :: _ :: _ | _ :: _, [] | _ :: _, _ :: _ =>
      simp [objectOf, intersectionOf]

theorem ne_never_of_ofObjects (o : ObjectShape) :
    (ofObjects c [o]).Yields fun _ ts => ∃ t, ts = [t] ∧ t ≠ .keyword "never" := by
  obtain ⟨properties, name, description, docTags⟩ := o
  rw [ofObjects]
  refine Yields.after fun anonymous => ?_
  have hlast : ∀ object : TypeExpr, object ≠ .keyword "never" →
      Yields (fun _ ts => ∃ t, ts = [t] ∧ t ≠ .keyword "never")
        (do return object :: (← ofObjects c [])) := by
    intro object hobject
    rw [ofObjects]
    exact .pure ⟨object, rfl, hobject⟩
  dsimp only
  split
  · refine Yields.after fun regular => Yields.after fun dynamic => Yields.after fun comment => ?_
    refine (Yields.pure (P := fun _ t => t ≠ .keyword "never") ?_).bind fun _ t ht => hlast t ht
    unfold withComment
    split
    · exact objectOf_ne_never regular dynamic
    · simp
  · refine Yields.after fun name => ?_
    exact (ne_never_of_ofName c name).bind fun _ t ht => hlast t ht

/-- What a part may be written as: one member, which is the empty type only for a sent
form of which nothing is written, and no member for a native type. -/
def FitsPart (part : ShapePart) (ts : List TypeExpr) : Prop :=
  if part.isNative then ts = [] else ∃ t, ts = [t] ∧ (t = .keyword "never" ↔ part.IsBlank)

theorem fitsPart_of_ne_never {part : ShapePart} {t : TypeExpr} (ht : t ≠ .keyword "never")
    (hnative : part.isNative = false) (hblank : ¬ part.IsBlank) : FitsPart part [t] := by
  rw [FitsPart, hnative]
  exact ⟨t, rfl, iff_of_false ht hblank⟩

theorem yields_ofParts (parts : List ShapePart)
    (h : ∀ part ∈ parts, (ofPart c part).Yields fun _ ts => FitsPart part ts) :
    (ofParts c parts).Yields fun _ members =>
      List.Forall₂ (fun part t => (ofPart c part).result = .ok [t] ∧
        (t = .keyword "never" ↔ part.IsBlank)) (parts.filter fun part => !part.isNative)
        members := by
  induction parts with
  | nil => exact .pure .nil
  | cons part parts ih =>
      rw [ofParts_cons]
      have hpart : (ofPart c part).Yields fun _ ts =>
          (ofPart c part).result = .ok ts ∧ FitsPart part ts :=
        fun ts hts => ⟨hts, h part List.mem_cons_self ts hts⟩
      refine hpart.bind fun _ ts ⟨hts, hfits⟩ => ?_
      refine (ih fun part' h' => h part' (List.mem_cons_of_mem _ h')).bind
        fun _ members hmembers => .pure ?_
      cases hnative : part.isNative with
      | true =>
          rw [FitsPart, hnative] at hfits
          rw [hfits, List.filter_cons_of_neg (by simp [hnative])]
          exact hmembers
      | false =>
          rw [FitsPart, hnative] at hfits
          obtain ⟨t, rfl, hblank⟩ := hfits
          rw [List.filter_cons_of_pos (by simp [hnative])]
          exact .cons ⟨hts, hblank⟩ hmembers

theorem unionOf_eq_never_iff_of_forall₂ {parts : List ShapePart} {members : List TypeExpr}
    (h : List.Forall₂ (fun part t => (ofPart c part).result = .ok [t] ∧
      (t = .keyword "never" ↔ part.IsBlank)) parts members) :
    unionOf members = .keyword "never" ↔
      parts = [] ∨ ∃ part, parts = [part] ∧ part.IsBlank := by
  rw [unionOf_eq_never_iff]
  match h with
  | .nil => simp
  | .cons ⟨_, hblank⟩ .nil => simp [hblank]
  | .cons _ (.cons _ _) => simp

theorem not_escaped_of_mem_parts {s : TypeShape} {e : EscapedShape} :
    .escaped e ∉ s.parts true := by
  simp only [TypeShape.parts, ShapePart.ofSwitches, List.mem_append, List.mem_map,
    List.mem_flatMap, if_true, List.not_mem_nil]
  split <;> split <;> split <;> simp

theorem yields_ofPart_of_not_escaped {part : ShapePart} (h : ∀ e, part ≠ .escaped e) :
    (ofPart c part).Yields fun _ ts => FitsPart part ts := by
  have hfits : ∀ {t : TypeExpr}, t ≠ .keyword "never" → part.isNative = false →
      FitsPart part [t] := by
    intro t ht hnative
    refine fitsPart_of_ne_never ht hnative fun hblank => ?_
    cases part <;> first | exact hblank | exact h _ rfl
  cases part with
  | any | null | undefined => exact .pure (hfits (by simp) rfl)
  | escaped e => exact absurd rfl (h e)
  | literal kind value =>
      exact Yields.bind (P := fun _ t => t ≠ .keyword "never") (.after fun _ => .pure (by simp))
        fun _ _ ht => .pure (hfits ht rfl)
  | template segments =>
      rw [ofPart, ofTemplates, ofTemplates]
      exact .after fun _ => .pure (hfits (by simp) rfl)
  | atomic a => exact (ne_never_of_ofAtomic c a).bind fun _ _ ht => .pure (hfits ht rfl)
  | tuple t =>
      obtain ⟨elements, name⟩ := t
      rw [ofPart, ofTuples, ofTuples]
      exact .after fun _ => .pure (hfits (by simp) rfl)
  | array a =>
      obtain ⟨value, tags, name⟩ := a
      rw [ofPart, ofArrays, ofArrays]
      refine .after fun element => ?_
      exact (ne_never_of_withTags c (array_ne_never element) tags).bind fun _ _ ht =>
        .pure (hfits ht rfl)
  | object o =>
      rintro ts hts
      obtain ⟨t, rfl, ht⟩ := ne_never_of_ofObjects c o ts hts
      exact hfits ht rfl
  | declared a =>
      exact Yields.bind (P := fun _ t => t ≠ .keyword "never")
        (.after fun _ => ne_never_of_ofName c _) fun _ _ ht => .pure (hfits ht rfl)
  | native name => exact .pure rfl

theorem yields_ofPart (part : ShapePart) :
    (ofPart c part).Yields fun _ ts => FitsPart part ts := by
  by_cases h : ∃ e, part = .escaped e
  · obtain ⟨⟨declared, sent⟩, rfl⟩ := h
    rw [ofPart, ofEscaped]
    split
    · next hdate =>
      refine Yields.bind (P := fun _ t => t ≠ .keyword "never")
        (.after fun _ => .pure (by simp [intersectionOf])) fun _ _ ht =>
          .pure (fitsPart_of_ne_never ht rfl fun hblank => ?_)
      exact Bool.noConfusion (hdate.symm.trans hblank.1)
    · next hdate =>
      rw [ofShape_eq]
      have hsent := yields_ofParts c (sent.parts true) fun part hpart =>
        yields_ofPart_of_not_escaped c fun e he => not_escaped_of_mem_parts (he ▸ hpart)
      refine (hsent.map (Q := fun _ t => t = .keyword "never" ↔
        sent.writtenParts true = []) fun _ members hmembers => ?_).bind fun _ t ht =>
          .pure ⟨t, rfl, ?_⟩
      · rw [unionOf_eq_never_iff_of_forall₂ c hmembers]
        refine or_iff_left ?_
        rintro ⟨part, hpart, hblank⟩
        have hmem : part ∈ sent.parts true := by
          refine List.mem_of_mem_filter (p := fun part => !part.isNative) ?_
          rw [hpart]
          exact List.mem_singleton_self part
        cases part with
        | escaped e => exact not_escaped_of_mem_parts hmem
        | _ => exact hblank
      · rw [ht]
        exact (and_iff_right (by simpa using hdate)).symm
  · exact yields_ofPart_of_not_escaped c fun e he => h ⟨e, he⟩

variable {c}

/-- The type of a shape that repeats nothing is the union of what its parts are written
as: one member for each, in the order of the slots, but for the native types.  So there
are as many members as types, with null and undefined counted and without the native
ones, and the empty type is written if and only if nothing of the shape is. -/
theorem members_of_shape {s : TypeShape} {t : TypeExpr} (hrest : s.rest = none)
    (ht : (ofShape c false s).result = .ok t) :
    ∃ members, t = unionOf members ∧
      List.Forall₂ (fun part t => (ofPart c part).result = .ok [t]) (s.writtenParts false)
        members ∧
      members.length + s.natives.length =
        s.size + s.nullable.toNat + (!s.required).toNat ∧
      (t = .keyword "never" ↔ s.IsBlank) := by
  rw [ofShape_eq] at ht
  have hunion := (yields_ofParts c _ fun part _ => yields_ofPart c part).map (f := unionOf)
    (Q := fun _ t => ∃ members, t = unionOf members ∧ List.Forall₂ (fun part t =>
      (ofPart c part).result = .ok [t] ∧ (t = .keyword "never" ↔ part.IsBlank))
        (s.writtenParts false) members) fun _ members hmembers => ⟨members, rfl, hmembers⟩
  obtain ⟨members, rfl, hmembers⟩ := hunion t ht
  refine ⟨members, rfl, hmembers.imp fun _ _ h => h.1, ?_,
    unionOf_eq_never_iff_of_forall₂ c hmembers⟩
  rw [← hmembers.length_eq]
  exact (s.length_writtenParts false).trans (s.length_parts hrest)

/-- The members of a nullable text that may be a file. -/
theorem members_of_nullable_text :
    ∃ members, TypeExpr.union [.keyword "null", .keyword "string"] = unionOf members ∧
      List.Forall₂ (fun part t => (ofPart { output := "." } part).result = .ok [t])
        [.null, .atomic { kind := .text "string" }] members ∧ members.length + 1 = 3 := by
  obtain ⟨members, hunion, hmembers, hlength, -⟩ := members_of_shape (c := { output := "." })
    (s := { nullable := true, atomics := [{ kind := .text "string" }], natives := ["File"] })
    (t := .union [.keyword "null", .keyword "string"]) rfl rfl
  exact ⟨members, hunion, hmembers, hlength⟩

/-- A native type is not a member of the union, though the size of the shape counts it. -/
theorem native_type_unwritten :
    let text : Atomic := { kind := .text "string" }
    (ofShape { output := "." } false { atomics := [text], natives := ["File"] }).result =
        .ok (.keyword "string") ∧
      TypeShape.size { atomics := [text], natives := ["File"] } = 2 ∧
      (ofShape { output := "." } false { natives := ["File"] }).result =
        .ok (.keyword "never") ∧
      TypeShape.size { natives := ["File"] } = 1 :=
  ⟨rfl, rfl, rfl, rfl⟩

end TypeExpr

end ClientSdk
