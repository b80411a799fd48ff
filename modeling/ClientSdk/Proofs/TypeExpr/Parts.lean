import ClientSdk.Proofs.Draft
import ClientSdk.Proofs.Table
import ClientSdk.TypeExpr.OfShape

/-!
# The parts of a shape

A shape stands for the union of what its slots describe.  Here each slot is a list of
parts, and the type of a shape is put together from what its parts are written as
(`ofShape_eq`).  Parts are made of smaller shapes, so what a part passes on from the
shapes inside it holds of every shape (`TypeShape.induction`).
-/

namespace ClientSdk

/-- One of the types that a shape describes together. -/
inductive ShapePart where
  | any
  | null
  | undefined
  | escaped (e : EscapedShape)
  | literal (kind value : Value)
  | template (segments : List TypeShape)
  | atomic (a : Atomic)
  | tuple (t : TupleShape)
  | array (a : ArrayShape)
  | object (o : ObjectShape)
  | declared (a : Alias)
  | native (name : String)

def ShapePart.ofSwitches (any nullable required : Bool) : List ShapePart :=
  (if any then [.any] else []) ++ (if nullable then [.null] else []) ++
    (if required then [] else [.undefined])

/-- The parts of a shape, slot by slot.  `inEscape` leaves out the sent form. -/
def TypeShape.parts (s : TypeShape) (inEscape : Bool) : List ShapePart :=
  ShapePart.ofSwitches s.any s.nullable s.required ++
    (if inEscape then [] else s.escaped.toList.map .escaped) ++
    (s.constants.flatMap fun k => k.values.map (.literal k.kind)) ++
    s.templates.map .template ++ s.atomics.map .atomic ++ s.tuples.map .tuple ++
    s.arrays.map .array ++ s.objects.map .object ++ s.aliases.map .declared ++
    s.natives.map .native

/-! ## Inside a part -/

def ShapePart.shapes : ShapePart → List TypeShape
  | .escaped e => [e.declared, e.sent]
  | .template segments => segments
  | .tuple t => t.elements ++ t.elements.filterMap TypeShape.rest
  | .array a => [a.value]
  | .object o => o.properties.flatMap fun p => [p.key, p.value]
  | _ => []

section Size

variable {inner : TypeShape}

theorem TupleShape.sizeOf_lt {t : TupleShape}
    (h : inner ∈ (ShapePart.tuple t).shapes) : sizeOf inner < sizeOf t := by
  obtain ⟨elements, name⟩ := t
  simp only [ShapePart.shapes, List.mem_append, List.mem_filterMap] at h
  rw [TupleShape.mk.sizeOf_spec]
  rcases h with h | ⟨element, helement, hrest⟩
  · have := List.sizeOf_lt_of_mem h
    omega
  · have helements := List.sizeOf_lt_of_mem helement
    cases element
    simp only at hrest
    subst hrest
    simp only [TypeShape.mk.sizeOf_spec, Option.some.sizeOf_spec] at helements
    omega

theorem ArrayShape.sizeOf_lt {a : ArrayShape}
    (h : inner ∈ (ShapePart.array a).shapes) : sizeOf inner < sizeOf a := by
  obtain ⟨value, tags, name⟩ := a
  rw [List.mem_singleton.mp h, ArrayShape.mk.sizeOf_spec]
  dsimp only
  omega

theorem ObjectShape.sizeOf_lt {o : ObjectShape}
    (h : inner ∈ (ShapePart.object o).shapes) : sizeOf inner < sizeOf o := by
  obtain ⟨properties, name, description, docTags⟩ := o
  simp only [ShapePart.shapes, List.mem_flatMap] at h
  obtain ⟨⟨key, value, description, docTags⟩, hp, h⟩ := h
  have hproperties := List.sizeOf_lt_of_mem hp
  rw [ObjectShape.mk.sizeOf_spec]
  rw [PropertyShape.mk.sizeOf_spec] at hproperties
  simp only [List.mem_cons, List.not_mem_nil, or_false] at h
  rcases h with rfl | rfl <;> omega

theorem ShapePart.shapes_of_mem_ofSwitches {any nullable required : Bool} {part : ShapePart}
    (h : part ∈ ofSwitches any nullable required) : part.shapes = [] := by
  simp only [ofSwitches, List.mem_append] at h
  rcases h with (h | h) | h <;> split at h <;> simp_all [shapes]

theorem TypeShape.sizeOf_lt {s : TypeShape} {part : ShapePart}
    (hpart : part ∈ s.parts false) (h : inner ∈ part.shapes) :
    sizeOf inner < sizeOf s := by
  obtain ⟨any, required, optional, nullable, escaped, constants, templates, atomics, tuples,
    arrays, objects, aliases, natives, rest⟩ := s
  simp only [parts, List.mem_append, List.mem_map, List.mem_flatMap, Bool.false_eq_true,
    if_false] at hpart
  rw [TypeShape.mk.sizeOf_spec]
  rcases hpart with (((((((((hpart | ⟨⟨declared, sent⟩, hpart, rfl⟩) | ⟨k, -, v, -, rfl⟩) |
    ⟨segments, hpart, rfl⟩) | ⟨a, -, rfl⟩) | ⟨t, hpart, rfl⟩) | ⟨a, hpart, rfl⟩) |
    ⟨o, hpart, rfl⟩) | ⟨a, -, rfl⟩) | ⟨n, -, rfl⟩)
  · rw [ShapePart.shapes_of_mem_ofSwitches hpart] at h
    cases h
  · rw [Option.mem_toList.mp hpart, Option.some.sizeOf_spec, EscapedShape.mk.sizeOf_spec]
    simp only [ShapePart.shapes, List.mem_cons, List.not_mem_nil, or_false] at h
    rcases h with rfl | rfl <;> omega
  · cases h
  · have houter := List.sizeOf_lt_of_mem hpart
    have hinner : sizeOf inner < sizeOf segments := List.sizeOf_lt_of_mem h
    omega
  · cases h
  · have houter := List.sizeOf_lt_of_mem hpart
    have hinner := TupleShape.sizeOf_lt h
    omega
  · have houter := List.sizeOf_lt_of_mem hpart
    have hinner := ArrayShape.sizeOf_lt h
    omega
  · have houter := List.sizeOf_lt_of_mem hpart
    have hinner := ObjectShape.sizeOf_lt h
    omega
  · cases h
  · cases h

end Size

/-- What holds of a shape if it holds of the shapes inside its parts holds of every
shape. -/
theorem TypeShape.induction {motive : TypeShape → Prop}
    (step : ∀ s : TypeShape,
      (∀ part ∈ s.parts false, ∀ inner ∈ part.shapes, motive inner) → motive s)
    (s : TypeShape) : motive s :=
  step s fun _ hpart inner hinner =>
    have := TypeShape.sizeOf_lt hpart hinner
    TypeShape.induction step inner
termination_by sizeOf s

/-- A part of a shape, at any depth. -/
inductive TypeShape.Contains : TypeShape → ShapePart → Prop
  | part {s : TypeShape} {part : ShapePart} : part ∈ s.parts false → Contains s part
  | inside {s inner : TypeShape} {part deeper : ShapePart} : part ∈ s.parts false →
      inner ∈ part.shapes → Contains inner deeper → Contains s deeper

theorem TypeShape.mem_parts_of_mem {s : TypeShape} {part : ShapePart} {inEscape : Bool}
    (h : part ∈ s.parts inEscape) : part ∈ s.parts false := by
  cases inEscape with
  | false => exact h
  | true =>
      simp only [parts, if_true, List.append_nil, List.mem_append] at h ⊢
      tauto

def ShapePart.tags : ShapePart → TagMatrix
  | .atomic a => a.tags
  | .array a => a.tags
  | _ => []

/-- A part refers to a declared type by a name. -/
inductive ShapePart.Names : ShapePart → String → Prop
  | declared {a : Alias} {name : String} : a.name = .text name → Names (.declared a) name
  | object {o : ObjectShape} {name : String} : o.anonymous = .ok false →
      o.name = .text name → Names (.object o) name

/-! ## Values in parts -/

theorem Value.eq_text_of_asText {v : Value} {s : String} (h : v.asText = .ok s) :
    v = .text s := by
  cases v <;> cases h
  rfl

theorem mem_of_atomicKeyword {kind : Value} {word : String} (h : atomicKeyword kind = .ok word) :
    ∃ name, (name, word) ∈ atomicKeywords := by
  unfold atomicKeyword at h
  repeat' split at h
  all_goals cases h
  exact ⟨_, Table.mem_of_get? (by assumption)⟩

/-! ## Drafts of parts -/

namespace TypeExpr

variable (c : Config)

/-- What a part is written as: one member of the union, or none. -/
def ofPart : ShapePart → Draft (List TypeExpr)
  | .any => return [.keyword "any"]
  | .null => return [.keyword "null"]
  | .undefined => return [.keyword "undefined"]
  | .escaped e => ofEscaped c (some e)
  | .literal kind value => return [← ofLiteral kind value]
  | .template segments => ofTemplates c [segments]
  | .atomic a => return [← ofAtomic c a]
  | .tuple t => ofTuples c [t]
  | .array a => ofArrays c [a]
  | .object o => ofObjects c [o]
  | .declared a => return [← ofAlias c a]
  | .native _ => return []

theorem ofPart_of_names {part : ShapePart} {name : String} (h : part.Names name) :
    ofPart c part = do return [← ofName c name] := by
  cases h with
  | declared ha =>
      rw [ofPart, ofAlias, ha]
      rfl
  | @object o name hnamed hname =>
      obtain ⟨properties, _, description, docTags⟩ := o
      obtain rfl : _ = Value.text name := hname
      have hanonymous : ObjectShape.anonymous { name := .text name } = .ok false := hnamed
      rw [ofPart, ofObjects, hanonymous]
      change (do let object ← ofName c name; return object :: (← ofObjects c [])) = _
      simp [ofObjects]

def ofParts (parts : List ShapePart) : Draft (List TypeExpr) :=
  List.flatten <$> parts.mapM (ofPart c)

theorem ofParts_nil : ofParts c [] = pure [] := rfl

theorem ofParts_cons (p : ShapePart) (parts : List ShapePart) :
    ofParts c (p :: parts) = do return (← ofPart c p) ++ (← ofParts c parts) := by
  simp [ofParts, List.mapM_cons]

theorem ofParts_append (ps qs : List ShapePart) :
    ofParts c (ps ++ qs) = do return (← ofParts c ps) ++ (← ofParts c qs) := by
  induction ps with
  | nil => simp [ofParts_nil]
  | cons p ps ih =>
      simp only [List.cons_append, ofParts_cons, ih, bind_assoc, pure_bind, List.append_assoc]

/-- A single object: the rest of the slot is empty. -/
theorem ofObjects_last {c : Config} (object : TypeExpr) :
    (do return object :: (← ofObjects c []) : Draft (List TypeExpr)) = pure [object] := by
  rw [ofObjects, pure_bind]

/-! ## Slots -/

section Slots

variable {c} {α : Type} {p : α → ShapePart}

theorem eq_ofParts {f : List α → Draft (List TypeExpr)} (hnil : f [] = pure [])
    (hcons : ∀ a as, f (a :: as) = do return (← f [a]) ++ (← f as))
    (hpart : ∀ a, ofPart c (p a) = f [a]) (as : List α) :
    f as = ofParts c (as.map p) := by
  induction as with
  | nil => exact hnil
  | cons a as ih => rw [hcons, List.map_cons, ofParts_cons, hpart, ih]

theorem mapM_eq_ofParts {f : α → Draft TypeExpr}
    (hpart : ∀ a, ofPart c (p a) = do return [← f a]) (as : List α) :
    as.mapM f = ofParts c (as.map p) := by
  refine eq_ofParts (f := fun as => as.mapM f) List.mapM_nil ?_ ?_ as
  · intro a as
    simp [List.mapM_cons]
  · intro a
    simp [hpart, List.mapM_cons]

theorem ofParts_of_unwritten (hpart : ∀ a, ofPart c (p a) = pure []) (as : List α) :
    ofParts c (as.map p) = pure [] := by
  induction as with
  | nil => rfl
  | cons a as ih => rw [List.map_cons, ofParts_cons, hpart, ih, pure_bind, pure_bind]; rfl

end Slots

theorem ofParts_switches (any nullable required : Bool) :
    ofParts c (ShapePart.ofSwitches any nullable required) =
      pure (ofSwitches any nullable required) := by
  cases any <;> cases nullable <;> cases required <;> rfl

theorem ofConstants_eq (constants : List Constant) :
    ofConstants constants =
      ofParts c (constants.flatMap fun k => k.values.map (.literal k.kind)) := by
  unfold ofConstants
  rw [mapM_eq_ofParts (c := c) (p := fun kv : Value × Value => .literal kv.1 kv.2) fun _ => rfl]
  simp [List.map_flatMap, Function.comp_def]

theorem ofEscaped_eq (escaped : Option EscapedShape) :
    ofEscaped c escaped = ofParts c (escaped.toList.map .escaped) := by
  cases escaped with
  | none => rw [ofEscaped]; rfl
  | some e => simp [ofParts_cons, ofParts_nil, ofPart]

theorem ofTemplates_eq (templates : List (List TypeShape)) :
    ofTemplates c templates = ofParts c (templates.map .template) := by
  refine eq_ofParts (by rw [ofTemplates]) (fun a as => ?_) (fun _ => rfl) templates
  simp [ofTemplates]

theorem ofTuples_eq (tuples : List TupleShape) :
    ofTuples c tuples = ofParts c (tuples.map .tuple) := by
  refine eq_ofParts (by rw [ofTuples]) (fun a as => ?_) (fun _ => rfl) tuples
  obtain ⟨elements, name⟩ := a
  simp [ofTuples]

theorem ofArrays_eq (arrays : List ArrayShape) :
    ofArrays c arrays = ofParts c (arrays.map .array) := by
  refine eq_ofParts (by rw [ofArrays]) (fun a as => ?_) (fun _ => rfl) arrays
  obtain ⟨value, tags, name⟩ := a
  simp [ofArrays]

theorem ofObjects_eq (objects : List ObjectShape) :
    ofObjects c objects = ofParts c (objects.map .object) := by
  refine eq_ofParts (by rw [ofObjects]) (fun a as => ?_) (fun _ => rfl) objects
  obtain ⟨properties, name, description, docTags⟩ := a
  simp only [ofObjects, bind_assoc, pure_bind]
  refine bind_congr fun anonymous => ?_
  split <;> simp

/-- A shape is written as the union of what its parts are written as. -/
theorem ofShape_eq (inEscape : Bool) (s : TypeShape) :
    ofShape c inEscape s = unionOf <$> ofParts c (s.parts inEscape) := by
  obtain ⟨any, required, optional, nullable, escaped, constants, templates, atomics, tuples,
    arrays, objects, aliases, natives, rest⟩ := s
  have hnatives : ofParts c (natives.map .native) = pure [] :=
    ofParts_of_unwritten (fun _ => rfl) natives
  rw [ofShape, ofConstants_eq c, ofTemplates_eq, ofTuples_eq, ofArrays_eq,
    ofObjects_eq, mapM_eq_ofParts (c := c) (p := .atomic) fun _ => rfl,
    mapM_eq_ofParts (c := c) (p := .declared) fun _ => rfl, ofEscaped_eq]
  simp only [TypeShape.parts, ofParts_append, ofParts_switches, hnatives]
  cases inEscape with
  | false => simp
  | true => simp [ofParts_nil]

end TypeExpr

end ClientSdk
