import ClientSdk.Proofs.TypeExpr.Word

/-!
# Phrases

Items that read as a type, as an operand, as an element of a tuple or as a member of an
object type, whatever stands next to them.  A phrase is put together from smaller ones as
the grammar of types has it: operands by their operators, operands by brackets around
types.
-/

namespace ClientSdk.TypeText

open TypeExpr (unionOf intersectionOf)

/-! ## Lists between separators -/

section Lists

variable {α β γ : Type}

theorem exists_forall₂ {P : α → β → Prop} {Q : β → γ → Prop} {g : α → γ} {as : List α}
    (h : ∀ a ∈ as, ∃ b, P a b ∧ Q b (g a)) :
    ∃ bs, List.Forall₂ P as bs ∧ List.Forall₂ Q bs (as.map g) := by
  induction as with
  | nil => exact ⟨[], .nil, .nil⟩
  | cons a as ih =>
      obtain ⟨⟨b, hP, hQ⟩, hrest⟩ := List.forall_mem_cons.mp h
      obtain ⟨bs, hPs, hQs⟩ := ih hrest
      exact ⟨b :: bs, .cons hP hPs, .cons hQ hQs⟩

theorem mapM_of_forall₂ {f : α → Option β} {as : List α} {bs : List β}
    (h : List.Forall₂ (fun a b => f a = some b) as bs) : as.mapM f = some bs := by
  induction h with
  | nil => rfl
  | cons hab _ ih => simp [hab, ih]

theorem forall_mem_intercalate {P : α → Prop} {sep : α} (hsep : P sep) {parts : List (List α)}
    (h : ∀ part ∈ parts, ∀ a ∈ part, P a) : ∀ a ∈ [sep].intercalate parts, P a := by
  induction parts with
  | nil => exact fun a ha => absurd ha List.not_mem_nil
  | cons part rest ih =>
      obtain ⟨hpart, hrest⟩ := List.forall_mem_cons.mp h
      cases rest with
      | nil => rwa [List.intercalate_singleton]
      | cons next rest =>
          rw [List.intercalate_cons_cons, List.forall_mem_append, List.forall_mem_append,
            List.forall_mem_singleton]
          exact ⟨⟨hpart, hsep⟩, ih hrest⟩

theorem splitOnP_intercalate {p : α → Bool} {sep : α} (hsep : p sep = true)
    {parts : List (List α)} (hne : parts ≠ []) (h : ∀ part ∈ parts, ∀ a ∈ part, p a = false) :
    ([sep].intercalate parts).splitOnP p = parts := by
  induction parts with
  | nil => exact absurd rfl hne
  | cons part rest ih =>
      obtain ⟨hpart, hrest⟩ := List.forall_mem_cons.mp h
      cases rest with
      | nil => rw [List.intercalate_singleton, List.splitOnP_eq_singleton hpart]
      | cons next rest =>
          rw [List.intercalate_cons_cons, List.append_assoc, List.singleton_append,
            List.splitOnP_append_cons_of_forall_mem hpart sep hsep, ih (by simp) hrest]

theorem splitOnP_pair {p : α → Bool} {sep : α} (hsep : p sep = true) {first second : List α}
    (hfirst : ∀ a ∈ first, p a = false) (hsecond : ∀ a ∈ second, p a = false) :
    (first ++ sep :: second).splitOnP p = [first, second] := by
  rw [List.splitOnP_append_cons_of_forall_mem hfirst sep hsep, List.splitOnP_eq_singleton hsecond]

theorem splitOnP_flatMap {p : α → Bool} {sep : α} (hsep : p sep = true)
    {parts : List (List α)} (h : ∀ part ∈ parts, ∀ a ∈ part, p a = false) :
    (parts.flatMap (· ++ [sep])).splitOnP p = parts ++ [[]] := by
  induction parts with
  | nil => rfl
  | cons part rest ih =>
      obtain ⟨hpart, hrest⟩ := List.forall_mem_cons.mp h
      rw [List.flatMap_cons, List.append_assoc, List.singleton_append,
        List.splitOnP_append_cons_of_forall_mem hpart sep hsep, ih hrest, List.cons_append]

end Lists

/-! ## Items -/

namespace Item

variable {i : Item}

theorem is_eq_false_of_char? (h : i.char? = none) (c : Char) : i.is c = false := by
  cases i with
  | char => cases h
  | _ => rfl

theorem operator?_of_char? (h : i.char? = none) : i.operator? = none := by
  cases i with
  | char => cases h
  | _ => rfl

theorem is_eq_false_of_operator? (h : i.operator? = none) {c : Char}
    (hc : c = '|' ∨ c = '&') : i.is c = false := by
  cases i with
  | char d =>
      have hd : ¬ (d = '|' ∨ d = '&') := fun hd => by simp [operator?, hd] at h
      simp only [is, beq_eq_false_iff_ne]
      rintro rfl
      exact hd hc
  | _ => rfl

theorem any_getLast?_is {items : List Item} {c : Char} (h : ∀ i ∈ items, i.is c = false) :
    items.getLast?.any (is c) = false := by
  rw [Option.any_eq_false_iff_get]
  exact fun hsome => h _ (List.mem_of_getLast? (Option.some_get hsome).symm)

theorem mapM_char? (cs : List Char) : (cs.map Item.char).mapM char? = some cs := by
  rw [List.mapM_map]
  exact mapM_of_forall₂ (List.forall₂_same.mpr fun c _ => rfl)

end Item

/-! ## Types and operands -/

/-- Items that can stand inside brackets of any kind: nothing in them separates, and they
are not taken for the points of a rest element. -/
structure IsInner (items : List Item) : Prop where
  start : ∃ i rest, items = i :: rest ∧ i.is '.' = false
  apart : ∀ i ∈ items, ∀ c ∈ [',', ';', ':', '?'], i.is c = false

structure IsType (items : List Item) (t : TypeExpr) : Prop extends IsInner items where
  reads : type? items = some t

/-- Items that are read as the type next to operators. -/
structure IsOperand (items : List Item) (t : TypeExpr) : Prop extends IsInner items where
  bare : ∀ i ∈ items, i.operator? = none
  reads : operand? items = some t

section Operands

variable {items : List Item} {itemss : List (List Item)} {t : TypeExpr} {ts : List TypeExpr}

theorem IsInner.ne_nil (h : IsInner items) : items ≠ [] := by
  obtain ⟨i, rest, rfl, -⟩ := h.start
  exact List.cons_ne_nil i rest

theorem IsInner.concat (h : IsInner items) {i : Item}
    (hi : ∀ c ∈ [',', ';', ':', '?'], i.is c = false) : IsInner (items ++ [i]) where
  start := by
    obtain ⟨first, rest, rfl, hfirst⟩ := h.start
    exact ⟨first, rest ++ [i], rfl, hfirst⟩
  apart := List.forall_mem_append.mpr ⟨h.apart, List.forall_mem_singleton.mpr hi⟩

theorem IsInner.single {i : Item} (hi : ∀ c, i.is c = false) : IsInner [i] where
  start := ⟨i, [], rfl, hi '.'⟩
  apart := List.forall_mem_singleton.mpr fun c _ => hi c

theorem IsInner.intercalate {sep : Item} (hsep : ∀ c ∈ [',', ';', ':', '?'], sep.is c = false)
    (hne : itemss ≠ []) (h : ∀ items ∈ itemss, IsInner items) :
    IsInner ([sep].intercalate itemss) where
  start := by
    obtain ⟨items, rest, rfl⟩ := List.exists_cons_of_ne_nil hne
    obtain ⟨i, others, rfl, hi⟩ := (h items List.mem_cons_self).start
    cases rest with
    | nil => exact ⟨i, others, List.intercalate_singleton, hi⟩
    | cons next rest => exact ⟨i, _, List.intercalate_cons_cons, hi⟩
  apart := forall_mem_intercalate hsep fun items hitems => (h items hitems).apart

theorem IsOperand.meet (h : IsOperand items t) : meet? items = some t := by
  have hsplit : items.splitOnP (Item.is '&') = [items] :=
    List.splitOnP_eq_singleton fun i hi => Item.is_eq_false_of_operator? (h.bare i hi) (.inr rfl)
  simp [meet?, hsplit, h.reads, intersectionOf]

theorem type?_of_meet? (h : ∀ i ∈ items, i.is '|' = false) (hmeet : meet? items = some t) :
    type? items = some t := by
  simp [type?, List.splitOnP_eq_singleton h, hmeet, unionOf]

theorem IsOperand.isType (h : IsOperand items t) : IsType items t where
  toIsInner := h.toIsInner
  reads := type?_of_meet?
    (fun i hi => Item.is_eq_false_of_operator? (h.bare i hi) (.inl rfl)) h.meet

/-! ### Operators -/

section Operators

variable (h : List.Forall₂ IsOperand itemss ts)
include h

theorem operators_intercalate {c : Char} (hc : c = '|' ∨ c = '&') :
    ([.char c].intercalate itemss).filterMap Item.operator? =
      List.replicate (ts.length - 1) c := by
  have hoperator : [Item.char c].filterMap Item.operator? = [c] := by
    simp [Item.operator?, hc]
  induction h with
  | nil => rfl
  | @cons items t itemss ts hfirst hrest ih =>
      have hnone : items.filterMap Item.operator? = [] :=
        List.filterMap_eq_nil_iff.mpr hfirst.bare
      cases hrest with
      | nil => rw [List.intercalate_singleton, hnone]; rfl
      | cons =>
          rw [List.intercalate_cons_cons, List.filterMap_append, List.filterMap_append, hnone,
            hoperator, ih]
          rfl

variable (htwo : 2 ≤ ts.length)
include htwo

theorem operands_ne_nil : itemss ≠ [] := by
  rintro rfl
  cases h
  simp at htwo

theorem isInner_intercalate {c : Char} (hc : c = '|' ∨ c = '&') :
    IsInner ([.char c].intercalate itemss) := by
  refine .intercalate ?_ (operands_ne_nil h htwo) fun items hitems => ?_
  · rcases hc with rfl | rfl <;> simp [Item.is]
  · obtain ⟨t, -, ht⟩ := h.exists_of_mem hitems
    exact ht.toIsInner

theorem splitOnP_operands {c : Char} (hc : c = '|' ∨ c = '&') :
    ([.char c].intercalate itemss).splitOnP (Item.is c) = itemss :=
  splitOnP_intercalate (by simp [Item.is]) (operands_ne_nil h htwo) fun items hitems i hi => by
    obtain ⟨t, -, ht⟩ := h.exists_of_mem hitems
    exact Item.is_eq_false_of_operator? (ht.bare i hi) hc

theorem isType_union : IsType ([.char '|'].intercalate itemss) (.union ts) where
  toIsInner := isInner_intercalate h htwo (.inl rfl)
  reads := by
    have hmeets : itemss.mapM meet? = some ts := mapM_of_forall₂ (h.imp fun _ _ ht => ht.meet)
    rw [type?, splitOnP_operands h htwo (.inl rfl), hmeets]
    match ts, htwo with
    | _ :: _ :: _, _ => rfl

theorem isType_intersection : IsType ([.char '&'].intercalate itemss) (.intersection ts) where
  toIsInner := isInner_intercalate h htwo (.inr rfl)
  reads := by
    have hoperands : itemss.mapM operand? = some ts :=
      mapM_of_forall₂ (h.imp fun _ _ ht => ht.reads)
    refine type?_of_meet? ?_ ?_
    · refine forall_mem_intercalate (P := fun i => Item.is '|' i = false) rfl
        fun items hitems i hi => ?_
      obtain ⟨t, -, ht⟩ := h.exists_of_mem hitems
      exact Item.is_eq_false_of_operator? (ht.bare i hi) (.inl rfl)
    · rw [meet?, splitOnP_operands h htwo (.inr rfl), hoperands]
      match ts, htwo with
      | _ :: _ :: _, _ => rfl

end Operators

/-! ### Atoms -/

theorem operand?_eq_atom? (h : ∀ elements key, items.getLast? ≠ some (.square elements key)) :
    operand? items = atom? items := by
  rw [operand?, operandRev?]
  · rw [List.reverse_reverse]
  · intro key i rest heq
    apply h (some []) key
    rw [← List.head?_reverse, heq, List.head?_cons]

theorem operand?_single (i : Item) : operand? [i] = atom? [i] := by
  rw [operand?, List.reverse_singleton, operandRev?]
  · rfl
  · simp

theorem isOperand_array (h : IsOperand items t) (key : Option TypeExpr) :
    IsOperand (items ++ [.square (some []) key]) (.array t) where
  toIsInner := h.toIsInner.concat fun _ _ => rfl
  bare := List.forall_mem_append.mpr ⟨h.bare, List.forall_mem_singleton.mpr rfl⟩
  reads := by
    have hreads := h.reads
    obtain ⟨i, rest, hrev⟩ := List.exists_cons_of_ne_nil
      (List.reverse_ne_nil_iff.mpr h.toIsInner.ne_nil)
    rw [operand?, hrev] at hreads
    rw [operand?, List.reverse_append, List.reverse_singleton, List.singleton_append, hrev,
      operandRev?, hreads]
    rfl

theorem isOperand_single {i : Item} (hi : i.char? = none) (h : atom? [i] = some t) :
    IsOperand [i] t where
  toIsInner := .single (Item.is_eq_false_of_char? hi)
  bare := List.forall_mem_singleton.mpr (Item.operator?_of_char? hi)
  reads := by rw [operand?_single, h]

theorem isOperand_quoted (raw : List Char) :
    IsOperand [.quoted raw] (.literal (String.ofList raw)) :=
  isOperand_single rfl rfl

theorem isOperand_paren (h : IsType items t) : IsOperand [.paren (type? items)] t :=
  isOperand_single rfl h.reads

theorem isOperand_template (h : List.Forall₂ IsType itemss ts) :
    IsOperand [.template (itemss.mapM type?)] (.template "" (ts.map (·, ""))) :=
  isOperand_single rfl (by rw [mapM_of_forall₂ (h.imp fun _ _ ht => ht.reads)]; rfl)

/-! ### Words -/

section Words

variable {cs : List Char} (h : IsWord cs)
include h

theorem isInner_word : IsInner (cs.map .char) where
  start := by
    obtain ⟨c, rest, rfl, hc⟩ := h.head
    exact ⟨.char c, rest.map .char, rfl, by simpa [Item.is] using hc⟩
  apart := by
    intro i hi d hd
    obtain ⟨c, hc, rfl⟩ := List.mem_map.mp hi
    rw [Item.is, beq_eq_false_iff_ne]
    rintro rfl
    have hnone : [',', ';', ':', '?'].all (fun d => !isWordChar d) = true := rfl
    have hword := List.all_eq_true.mp hnone c hd
    rw [h.isWordChar hc] at hword
    cases hword

theorem bare_word : ∀ i ∈ cs.map Item.char, i.operator? = none := by
  intro i hi
  obtain ⟨c, hc, rfl⟩ := List.mem_map.mp hi
  rw [Item.operator?, if_neg]
  rintro (rfl | rfl) <;> exact absurd (h.isWordChar hc) (by decide)

theorem word?_word : word? (cs.map .char) = some (String.ofList cs) := by
  obtain ⟨c, rest, rfl, -⟩ := h.head
  rw [word?, Item.mapM_char?]
  rfl

theorem isOperand_word : IsOperand (cs.map .char) (.literal (String.ofList cs)) where
  toIsInner := isInner_word h
  bare := bare_word h
  reads := by
    have hlast : ∀ i, (cs.map Item.char).getLast? = some i → ∃ c, i = .char c := by
      intro i hi
      rw [List.getLast?_map] at hi
      obtain ⟨c, -, rfl⟩ := Option.map_eq_some_iff.mp hi
      exact ⟨c, rfl⟩
    rw [operand?_eq_atom? fun elements key hsquare => by
      obtain ⟨c, hc⟩ := hlast _ hsquare
      cases hc]
    have hword := word?_word h
    obtain ⟨c, rest, rfl, -⟩ := h.head
    rw [List.map_cons] at hword hlast ⊢
    rw [atom?]
    split
    · next hangle =>
      obtain ⟨c, hc⟩ := hlast _ hangle
      cases hc
    · rw [hword]
      rfl
    all_goals simp

theorem isOperand_tag (argument : String) :
    IsOperand (cs.map .char ++ [.angle (some (.literal argument))])
      (.tag (String.ofList cs) argument) where
  toIsInner := (isInner_word h).concat fun _ _ => rfl
  bare := List.forall_mem_append.mpr ⟨bare_word h, List.forall_mem_singleton.mpr rfl⟩
  reads := by
    rw [operand?_eq_atom? (by simp)]
    have hword := word?_word h
    obtain ⟨c, rest, rfl, -⟩ := h.head
    rw [List.map_cons] at hword ⊢
    rw [List.cons_append, atom?, ← List.cons_append, List.getLast?_concat, List.dropLast_concat,
      hword]
    · rfl
    all_goals simp

end Words

end Operands

/-! ## Elements of tuples -/

/-- Items that are read as the element of a tuple. -/
structure IsElement (items : List Item) (element : ElementMark × TypeExpr) : Prop where
  ne_nil : items ≠ []
  apart : ∀ i ∈ items, i.is ',' = false
  reads : element? items = some element

section Elements

variable {items : List Item} {t : TypeExpr}

theorem element?_eq (h : IsInner items) (more : List Item) :
    element? (items ++ more) =
      if (items ++ more).getLast?.any (Item.is '?') then
        (operand? (items ++ more).dropLast).map (.optional, ·)
      else (type? (items ++ more)).map (.plain, ·) := by
  obtain ⟨i, rest, rfl, hi⟩ := h.start
  rw [List.cons_append, element?]
  intro others heq
  rw [(List.cons.inj heq).1] at hi
  exact absurd hi (by decide)

theorem isElement_plain (h : IsType items t) : IsElement items (.plain, t) where
  ne_nil := h.toIsInner.ne_nil
  apart i hi := h.apart i hi ',' (by decide)
  reads := by
    have hlast : items.getLast?.any (Item.is '?') = false :=
      Item.any_getLast?_is fun i hi => h.apart i hi '?' (by decide)
    have heq := element?_eq h.toIsInner []
    rw [List.append_nil, hlast, if_neg Bool.false_ne_true, h.reads] at heq
    exact heq

theorem isElement_optional (h : IsOperand items t) :
    IsElement (items ++ [.char '?']) (.optional, t) where
  ne_nil := by simp
  apart := List.forall_mem_append.mpr
    ⟨fun i hi => h.apart i hi ',' (by decide), List.forall_mem_singleton.mpr rfl⟩
  reads := by
    rw [element?_eq h.toIsInner, List.getLast?_concat, List.dropLast_concat, h.reads]
    rfl

theorem isElement_rest (h : IsOperand items t) (key : Option TypeExpr) :
    IsElement (['.', '.', '.'].map .char ++ (items ++ [.square (some []) key])) (.rest, t) where
  ne_nil := by simp
  apart := List.forall_mem_append.mpr
    ⟨by decide, fun i hi => (isOperand_array h key).apart i hi ',' (by decide)⟩
  reads := by
    simp [element?, (isOperand_array h key).reads]

theorem isOperand_tuple {itemss : List (List Item)} {elements : List (ElementMark × TypeExpr)}
    (h : List.Forall₂ IsElement itemss elements) (key : Option TypeExpr) :
    IsOperand [.square (elements? ([.char ','].intercalate itemss)) key] (.tuple elements) := by
  have hall : ∀ items ∈ itemss, items ≠ [] ∧ ∀ i ∈ items, i.is ',' = false := by
    intro items hitems
    obtain ⟨element, -, helement⟩ := h.exists_of_mem hitems
    exact ⟨helement.ne_nil, helement.apart⟩
  have helements : elements? ([.char ','].intercalate itemss) = some elements := by
    have hreads : itemss.mapM element? = some elements :=
      mapM_of_forall₂ (h.imp fun _ _ he => he.reads)
    cases itemss with
    | nil =>
        cases h
        rfl
    | cons items rest =>
        have hne : ([.char ','].intercalate (items :: rest)).isEmpty = false := by
          obtain ⟨i, others, rfl⟩ := List.exists_cons_of_ne_nil (hall items List.mem_cons_self).1
          cases rest with
          | nil => rw [List.intercalate_singleton]; rfl
          | cons next rest => rw [List.intercalate_cons_cons]; rfl
        rw [elements?, hne, if_neg Bool.false_ne_true,
          splitOnP_intercalate rfl (List.cons_ne_nil _ _) fun items hitems => (hall items hitems).2,
          hreads]
  rw [helements]
  exact isOperand_single rfl rfl

end Elements

/-! ## Members of object types -/

/-- Items that are read as the member of an object type. -/
structure IsMember (items : List Item) (member : TypeMember) : Prop where
  apart : ∀ i ∈ items, i.is ';' = false
  reads : member? items = some member

structure IsName (items : List Item) (name : String) (optional : Bool) : Prop where
  apart : ∀ i ∈ items, ∀ c ∈ [';', ':'], i.is c = false
  unbracketed : ∀ elements key, items ≠ [.square elements key]
  reads : memberName? items = some (name, optional)

section Members

variable {items : List Item} {t : TypeExpr}

/-- The question mark of a member that may be left out. -/
def optionalItems (optional : Bool) : List Item :=
  if optional then [.char '?'] else []

theorem optionalItems_eq {name : List Item} (h : ∀ i ∈ name, i.is '?' = false)
    (optional : Bool) :
    (name ++ optionalItems optional).getLast?.any (Item.is '?') = optional ∧
      (if optional then (name ++ optionalItems optional).dropLast
        else name ++ optionalItems optional) = name := by
  cases optional with
  | false => simpa [optionalItems] using Item.any_getLast?_is h
  | true => simp [optionalItems, Item.is]

theorem apart_optionalItems {name : List Item} (h : ∀ i ∈ name, ∀ c ∈ [';', ':'], i.is c = false)
    (optional : Bool) :
    ∀ i ∈ name ++ optionalItems optional, ∀ c ∈ [';', ':'], i.is c = false :=
  List.forall_mem_append.mpr ⟨h, by cases optional <;> simp [optionalItems, Item.is]⟩

theorem isName_word {cs : List Char} (h : IsWord cs) (optional : Bool) :
    IsName (cs.map .char ++ optionalItems optional) (String.ofList cs) optional where
  apart := apart_optionalItems (fun i hi c hc => (isInner_word h).apart i hi c (by
    simp only [List.mem_cons, List.not_mem_nil, or_false] at hc ⊢
    tauto)) optional
  unbracketed := by
    obtain ⟨c, rest, rfl, -⟩ := h.head
    simp
  reads := by
    obtain ⟨hoptional, hname⟩ := optionalItems_eq
      (fun i hi => (isInner_word h).apart i hi '?' (by decide)) optional
    have hword := word?_word h
    obtain ⟨c, rest, rfl, -⟩ := h.head
    simp only [memberName?, hoptional, hname]
    rw [List.map_cons] at hword ⊢
    simp [hword]

theorem isName_quoted (raw : List Char) (optional : Bool) :
    IsName ([.quoted raw] ++ optionalItems optional) (String.ofList raw) optional where
  apart := apart_optionalItems (List.forall_mem_singleton.mpr fun _ _ => rfl) optional
  unbracketed := by simp
  reads := by
    obtain ⟨hoptional, hname⟩ := optionalItems_eq
      (List.forall_mem_singleton.mpr (rfl : Item.is '?' (.quoted raw) = false)) optional
    simp only [memberName?, hoptional, hname]

theorem isMember_property {name : List Item} {text : String} {optional : Bool}
    (hname : IsName name text optional) (h : IsType items t) :
    IsMember (name ++ .char ':' :: items) (.property "" text optional t) where
  apart := List.forall_mem_append.mpr ⟨fun i hi => hname.apart i hi ';' (by decide),
    List.forall_mem_cons.mpr ⟨rfl, fun i hi => h.apart i hi ';' (by decide)⟩⟩
  reads := by
    rw [member?, splitOnP_pair rfl (fun i hi => hname.apart i hi ':' (by decide))
      fun i hi => h.apart i hi ':' (by decide)]
    split
    · next heq => exact absurd (List.cons.inj heq).1 (hname.unbracketed _ _)
    · next heq =>
      cases heq
      simp [hname.reads, h.reads]
    · next hother => exact absurd rfl (hother name items)

theorem key?_eq {cs : List Char} (hword : IsWord cs) (h : IsType items t) :
    key? (cs.map .char ++ .char ':' :: items) = some t := by
  rw [key?, splitOnP_pair rfl (fun i hi => (isInner_word hword).apart i hi ':' (by decide))
    fun i hi => h.apart i hi ':' (by decide)]
  simp [word?_word hword, h.reads]

theorem isMember_index {key : TypeExpr} (elements : Option (List (ElementMark × TypeExpr)))
    (h : IsType items t) :
    IsMember (.square elements (some key) :: .char ':' :: items) (.index "" key t) where
  apart := List.forall_mem_cons.mpr ⟨rfl,
    List.forall_mem_cons.mpr ⟨rfl, fun i hi => h.apart i hi ';' (by decide)⟩⟩
  reads := by
    have hsplit : (.square elements (some key) :: .char ':' :: items).splitOnP (Item.is ':') =
        [[.square elements (some key)], items] :=
      splitOnP_pair rfl (List.forall_mem_singleton.mpr rfl) fun i hi =>
        h.apart i hi ':' (by decide)
    rw [member?, hsplit]
    simp [h.reads]

theorem isOperand_object {itemss : List (List Item)} {members : List TypeMember}
    (h : List.Forall₂ IsMember itemss members) :
    IsOperand [.brace (members? (itemss.flatMap (· ++ [.char ';'])))] (.object members) := by
  have hall : ∀ items ∈ itemss, ∀ i ∈ items, i.is ';' = false := by
    intro items hitems
    obtain ⟨member, -, hmember⟩ := h.exists_of_mem hitems
    exact hmember.apart
  have hmembers : members? (itemss.flatMap (· ++ [.char ';'])) = some members := by
    rw [members?, splitOnP_flatMap rfl hall]
    simp [mapM_of_forall₂ (h.imp fun _ _ hm => hm.reads)]
  rw [hmembers]
  exact isOperand_single rfl rfl

end Members

end ClientSdk.TypeText
