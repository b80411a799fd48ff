import ClientSdk.Proofs.TypeExpr.Template

/-!
# Places in a type

A type stands in another one at a place: the frames around it, from the outside in
(`has_iff`).  In the text of the other type its own text stands between two texts that do
not depend on it, moved in once for each object around it (`Place.exists_surrounds`).

What is moved in gets blanks behind its line breaks, and this includes the line breaks in the
texts of a template.  So at a place inside of an object a template keeps its texts only if
they have no line breaks (`literal_in_place`).
-/

namespace ClientSdk

open Template (Consists)

/-! ## Texts around a text -/

namespace Text

abbrev blanks (n : Nat) : List Char := List.replicate n ' '

/-- The text begins and ends inside a line. -/
structure Solid (s : String) : Prop where
  head : ∃ c cs, s.toList = c :: cs ∧ c ≠ '\n'
  last : s.toList.getLast? ≠ some '\n'

/-- The function puts the same texts around each text, moved in by `n` blanks. -/
def Surrounds (n : Nat) (f : String → String) : Prop :=
  ∃ before behind, ∀ s, Solid s →
    (f s).toList = before ++ (moved (blanks n) s.toList ++ behind)

variable {n : Nat} {f : String → String}

theorem surrounds_id : Surrounds 0 id :=
  ⟨[], [], fun s _ => by simp [moved_nil]⟩

theorem Surrounds.append (h : Surrounds n f) (a b : String) :
    Surrounds n fun s => a ++ f s ++ b := by
  obtain ⟨before, behind, hf⟩ := h
  exact ⟨a.toList ++ before, behind ++ b.toList, fun s hs => by simp [hf s hs]⟩

theorem getLast?_moved {margin cs : List Char} (h : cs.getLast? ≠ some '\n') :
    (moved margin cs).getLast? = cs.getLast? := by
  induction cs with
  | nil => rfl
  | cons c cs ih =>
      cases cs with
      | nil =>
          have hc : c ≠ '\n' := fun hc => h (by simp [hc])
          simp [moved, hc]
      | cons d cs =>
          have hrest := ih (by simpa using h)
          have hne : moved margin (d :: cs) ≠ [] := mt moved_eq_nil_iff.mp (List.cons_ne_nil d cs)
          rw [List.getLast?_cons_cons, ← hrest, moved]
          split
          · rw [← List.cons_append, List.getLast?_append_of_ne_nil _ hne]
          · rw [← List.singleton_append, List.getLast?_append_of_ne_nil _ hne]

theorem exists_front_append (margin before : List Char) :
    ∃ first, ∀ c cs, c ≠ '\n' → front margin (before ++ c :: cs) = first := by
  cases before with
  | nil => exact ⟨margin, fun c cs hc => by simp [front, hc]⟩
  | cons d before => exact ⟨front margin (d :: before), fun c cs _ => rfl⟩

theorem Surrounds.indent (h : Surrounds n f) : Surrounds (2 + n) fun s => indent (f s) := by
  obtain ⟨before, behind, hf⟩ := h
  obtain ⟨first, hfirst⟩ := exists_front_append "  ".toList before
  refine ⟨first ++ movedIn "  ".toList before, moved "  ".toList behind, fun s hs => ?_⟩
  obtain ⟨c, cs, hcs, hc⟩ := hs.head
  obtain ⟨ds, hds⟩ : ∃ ds, moved (blanks n) s.toList = c :: ds := by
    rw [hcs, moved_cons_of_ne hc]
    exact ⟨_, rfl⟩
  have hlast : (c :: ds).getLast? ≠ some '\n' := by
    rw [← hds, getLast?_moved hs.last]
    exact hs.last
  have hmargin : "  ".toList ++ blanks n = blanks (2 + n) := by
    rw [blanks, blanks, ← List.replicate_append_replicate]
    rfl
  have htwice : moved "  ".toList (c :: ds) = moved (blanks (2 + n)) s.toList := by
    rw [← hds, moved_moved (not_mem_blanks n), hmargin]
  change (indentBy "  " (f s)).toList = _
  rw [toList_indentBy, hf s hs, hds, List.cons_append, hfirst _ _ hc,
    moved_append hc, ← List.cons_append, moved_append_of_getLast? hlast, htwice]
  simp

theorem exists_intercalate (sep : String) (xs ys : List String) :
    ∃ a b, ∀ s, sep.intercalate (xs ++ s :: ys) = a ++ s ++ b := by
  induction xs with
  | nil =>
      cases ys with
      | nil => exact ⟨"", "", fun s => by simp⟩
      | cons y ys =>
          refine ⟨"", sep ++ sep.intercalate (y :: ys), fun s => ?_⟩
          rw [List.nil_append, String.intercalate_cons_of_ne_nil (List.cons_ne_nil y ys)]
          simp [String.append_assoc]
  | cons x xs ih =>
      obtain ⟨a, b, h⟩ := ih
      refine ⟨x ++ sep ++ a, b, fun s => ?_⟩
      rw [List.cons_append, String.intercalate_cons_of_ne_nil (by simp), h]
      simp [String.append_assoc]

end Text

namespace TypeExpr

open Text (Surrounds)

/-! ## Places -/

/-- The place of a type in a member of an object type. -/
inductive Slot where
  | property (comment name : String) (optional : Bool)
  | indexKey (comment : String) (value : TypeExpr)
  | indexValue (comment : String) (key : TypeExpr)

def Slot.fill : Slot → TypeExpr → TypeMember
  | .property comment name optional, t => .property comment name optional t
  | .indexKey comment value, t => .index comment t value
  | .indexValue comment key, t => .index comment key t

/-- The place of a type directly in another one. -/
inductive Frame where
  | span (head : String) (before : List (TypeExpr × String)) (tail : String)
      (behind : List (TypeExpr × String))
  | element
  | component (before : List (ElementMark × TypeExpr)) (mark : ElementMark)
      (behind : List (ElementMark × TypeExpr))
  | member (before : List TypeMember) (slot : Slot) (behind : List TypeMember)
  | choice (before behind : List TypeExpr)
  | factor (before behind : List TypeExpr)
  | body (comment : String)

namespace Frame

def fill : Frame → TypeExpr → TypeExpr
  | .span head before tail behind, t => .template head (before ++ (t, tail) :: behind)
  | .element, t => .array t
  | .component before mark behind, t => .tuple (before ++ (mark, t) :: behind)
  | .member before slot behind, t => .object (before ++ slot.fill t :: behind)
  | .choice before behind, t => .union (before ++ t :: behind)
  | .factor before behind, t => .intersection (before ++ t :: behind)
  | .body comment, t => .documented comment t

def isMember : Frame → Bool
  | .member _ _ _ => true
  | _ => false

/-- What is done to the texts in the other type: the members of an object are indented. -/
def inset (f : Frame) (s : String) : String :=
  if f.isMember then Text.indent s else s

end Frame

/-- The place of a type in another one, from the outside in. -/
abbrev Place := List Frame

namespace Place

def fill : Place → TypeExpr → TypeExpr
  | [], t => t
  | f :: place, t => f.fill (fill place t)

/-- How many objects are around the place. -/
def depth (place : Place) : Nat :=
  place.countP Frame.isMember

end Place

theorem Slot.mem_types_fill (slot : Slot) (t : TypeExpr) : t ∈ (slot.fill t).types := by
  cases slot <;> simp [fill, TypeMember.types]

theorem Slot.exists_fill {m : TypeMember} {t : TypeExpr} (h : t ∈ m.types) :
    ∃ slot : Slot, slot.fill t = m := by
  cases m with
  | property comment name optional value =>
      rw [List.mem_singleton.mp h]
      exact ⟨.property comment name optional, rfl⟩
  | index comment key value =>
      rcases List.mem_cons.mp h with rfl | h
      · exact ⟨.indexKey comment value, rfl⟩
      · rw [List.mem_singleton.mp h]
        exact ⟨.indexValue comment key, rfl⟩

theorem Frame.mem_children_fill (f : Frame) (t : TypeExpr) : t ∈ (f.fill t).children := by
  cases f with
  | member before slot behind =>
      refine List.mem_flatMap.mpr ⟨slot.fill t, ?_, slot.mem_types_fill t⟩
      exact List.mem_append_right before List.mem_cons_self
  | _ => simp [fill, children]

theorem Frame.exists_fill {t child : TypeExpr} (h : child ∈ t.children) :
    ∃ f : Frame, f.fill child = t := by
  cases t with
  | keyword | literal | reference | tag => exact absurd h List.not_mem_nil
  | template head spans =>
      obtain ⟨⟨t, tail⟩, hspan, rfl⟩ := List.mem_map.mp h
      obtain ⟨before, behind, rfl⟩ := List.append_of_mem hspan
      exact ⟨.span head before tail behind, rfl⟩
  | array element =>
      rw [List.mem_singleton.mp h]
      exact ⟨.element, rfl⟩
  | tuple elements =>
      obtain ⟨⟨mark, t⟩, helement, rfl⟩ := List.mem_map.mp h
      obtain ⟨before, behind, rfl⟩ := List.append_of_mem helement
      exact ⟨.component before mark behind, rfl⟩
  | object members =>
      obtain ⟨m, hm, ht⟩ := List.mem_flatMap.mp h
      obtain ⟨before, behind, rfl⟩ := List.append_of_mem hm
      obtain ⟨slot, rfl⟩ := Slot.exists_fill ht
      exact ⟨.member before slot behind, rfl⟩
  | union members =>
      obtain ⟨before, behind, rfl⟩ := List.append_of_mem h
      exact ⟨.choice before behind, rfl⟩
  | intersection members =>
      obtain ⟨before, behind, rfl⟩ := List.append_of_mem h
      exact ⟨.factor before behind, rfl⟩
  | documented comment body =>
      rw [List.mem_singleton.mp h]
      exact ⟨.body comment, rfl⟩

theorem has_iff {t u : TypeExpr} : t.Has u ↔ ∃ place : Place, place.fill u = t := by
  constructor
  · intro h
    induction h with
    | self t => exact ⟨[], rfl⟩
    | inside hchild _ ih =>
        obtain ⟨place, rfl⟩ := ih
        obtain ⟨f, rfl⟩ := Frame.exists_fill hchild
        exact ⟨f :: place, rfl⟩
  · rintro ⟨place, rfl⟩
    induction place with
    | nil => exact .self _
    | cons f place ih => exact .inside (f.mem_children_fill _) ih

/-! ## Texts at places -/

theorem exists_group (compound : Bool) :
    ∃ a b, ∀ t : TypeExpr, t.isCompound = compound → group t t.text = a ++ t.text ++ b := by
  cases compound with
  | false => exact ⟨"", "", fun t ht => by simp [group, ht]⟩
  | true => exact ⟨"(", ")", fun t ht => by rw [group, if_pos ht]⟩

theorem exists_above (comment : String) :
    ∃ a, ∀ declaration, Comment.above comment declaration = a ++ declaration := by
  by_cases hblock : (Comment.block comment).isEmpty = true
  · exact ⟨"", fun declaration => by simp [Comment.above, hblock]⟩
  · exact ⟨Comment.block comment ++ "\n", fun declaration => by simp [Comment.above, hblock]⟩

theorem Slot.exists_text (slot : Slot) :
    ∃ a b, ∀ t, memberText (slot.fill t) = a ++ t.text ++ b := by
  cases slot with
  | property comment name optional =>
      obtain ⟨a, ha⟩ := exists_above comment
      refine ⟨a ++ (name ++ (if optional then "?" else "") ++ ": "), ";", fun t => ?_⟩
      simp only [fill, memberText, ha, String.append_assoc]
  | indexKey comment value =>
      obtain ⟨a, ha⟩ := exists_above comment
      refine ⟨a ++ "[key: ", "]: " ++ value.text ++ ";", fun t => ?_⟩
      simp only [fill, memberText, ha, String.append_assoc]
  | indexValue comment key =>
      obtain ⟨a, ha⟩ := exists_above comment
      refine ⟨a ++ ("[key: " ++ key.text ++ "]: "), ";", fun t => ?_⟩
      simp only [fill, memberText, ha, String.append_assoc]

theorem spanTexts_append (spans more : List (TypeExpr × String)) :
    spanTexts (spans ++ more) = spanTexts spans ++ spanTexts more := by
  induction spans with
  | nil => rfl
  | cons span spans ih =>
      obtain ⟨t, tail⟩ := span
      rw [List.cons_append, spanTexts, spanTexts, ih, List.cons_append]

theorem exists_operandTexts (sep : String) (before behind : List TypeExpr) (compound : Bool) :
    ∃ a b, ∀ t, t.isCompound = compound →
      sep.intercalate (groupedTexts (before ++ t :: behind)) = a ++ t.text ++ b := by
  obtain ⟨a, b, hlist⟩ := Text.exists_intercalate sep (groupedTexts before) (groupedTexts behind)
  obtain ⟨opening, closing, hgroup⟩ := exists_group compound
  refine ⟨a ++ opening, closing ++ b, fun t ht => ?_⟩
  simp only [groupedTexts_eq, List.map_append, List.map_cons] at hlist ⊢
  simp only [hlist, hgroup t ht, String.append_assoc]

theorem exists_elementTexts (mark : ElementMark) (compound : Bool) :
    ∃ a b, ∀ t, t.isCompound = compound → elementText (mark, t) = a ++ t.text ++ b := by
  obtain ⟨opening, closing, hgroup⟩ := exists_group compound
  cases mark with
  | plain => exact ⟨"", "", fun t _ => by simp [elementText]⟩
  | optional =>
      exact ⟨opening, closing ++ "?", fun t ht => by
        simp only [elementText, hgroup t ht, String.append_assoc]⟩
  | rest =>
      exact ⟨"..." ++ opening, closing ++ "[]", fun t ht => by
        simp only [elementText, hgroup t ht, String.append_assoc]⟩

namespace Frame

/-- The text of a type in another one stands between texts that do not depend on it.  All
that matters otherwise is whether it is put between parentheses. -/
theorem exists_text (f : Frame) (compound : Bool) :
    ∃ a b a' b', ∀ t, t.isCompound = compound →
      (f.fill t).text = a ++ f.inset (a' ++ t.text ++ b') ++ b := by
  cases f with
  | span head before tail behind =>
      refine ⟨"`" ++ templateText head ++ String.join (spanTexts before) ++ "$\x7b",
        "\x7d" ++ templateText tail ++ String.join (spanTexts behind) ++ "`", "", "",
        fun t _ => ?_⟩
      simp [fill, text, inset, isMember, spanTexts_append, spanTexts, String.join_append,
        String.join_cons, String.append_assoc]
  | element =>
      obtain ⟨opening, closing, hgroup⟩ := exists_group compound
      refine ⟨opening, closing ++ "[]", "", "", fun t ht => ?_⟩
      simp [fill, text, inset, isMember, hgroup t ht, String.append_assoc]
  | component before mark behind =>
      obtain ⟨a, b, hlist⟩ :=
        Text.exists_intercalate ", " (before.map elementText) (behind.map elementText)
      obtain ⟨opening, closing, helement⟩ := exists_elementTexts mark compound
      refine ⟨"[" ++ a ++ opening, closing ++ b ++ "]", "", "", fun t ht => ?_⟩
      simp [fill, text, inset, isMember, elementTexts_eq, hlist, helement t ht,
        String.append_assoc]
  | member before slot behind =>
      obtain ⟨a, b, hlist⟩ := Text.exists_intercalate "\n"
        (before.map fun m => Text.indent (memberText m))
        (behind.map fun m => Text.indent (memberText m))
      obtain ⟨a', b', hslot⟩ := slot.exists_text
      refine ⟨"\x7b\n" ++ a, b ++ "\n\x7d", a', b', fun t _ => ?_⟩
      have hmembers : ∀ m, Text.unlines (((before ++ m :: behind).map memberText).map Text.indent) =
          a ++ Text.indent (memberText m) ++ b := by
        intro m
        rw [List.map_map, List.map_append, List.map_cons]
        exact hlist _
      have hsome : ((before ++ slot.fill t :: behind).map memberText).isEmpty = false := by simp
      rw [fill, text, memberTexts_eq, braced, hsome, hmembers, hslot]
      simp [inset, isMember, String.append_assoc]
  | choice before behind =>
      obtain ⟨a, b, htexts⟩ := exists_operandTexts " | " before behind compound
      refine ⟨a, b, "", "", fun t ht => ?_⟩
      simp [fill, text, inset, isMember, htexts t ht]
  | factor before behind =>
      obtain ⟨a, b, htexts⟩ := exists_operandTexts " & " before behind compound
      refine ⟨a, b, "", "", fun t ht => ?_⟩
      simp [fill, text, inset, isMember, htexts t ht]
  | body comment =>
      obtain ⟨a, ha⟩ := exists_above comment
      refine ⟨a, "", "", "", fun t _ => ?_⟩
      simp [fill, text, inset, isMember, ha]

theorem exists_isCompound (f : Frame) (compound : Bool) :
    ∃ compound', ∀ t, t.isCompound = compound → (f.fill t).isCompound = compound' := by
  cases f with
  | body comment => exact ⟨compound, fun t ht => by rw [fill, isCompound, ht]⟩
  | choice | factor => exact ⟨true, fun t _ => by rw [fill, isCompound]⟩
  | span | element | component | member =>
      exact ⟨false, fun t _ => by rw [fill, isCompound] <;> simp⟩

end Frame

/-- The text of a type at a place stands between texts that do not depend on it, moved in
once for each object around the place. -/
theorem Place.exists_surrounds (place : Place) (compound : Bool) :
    ∃ f compound', Surrounds (2 * place.depth) f ∧ ∀ t, t.isCompound = compound →
      (place.fill t).text = f t.text ∧ (place.fill t).isCompound = compound' := by
  induction place with
  | nil => exact ⟨id, compound, Text.surrounds_id, fun t ht => ⟨rfl, ht⟩⟩
  | cons frame place ih =>
      obtain ⟨f, inner, hf, hplace⟩ := ih
      obtain ⟨a, b, a', b', htext⟩ := frame.exists_text inner
      obtain ⟨outer, houter⟩ := frame.exists_isCompound inner
      refine ⟨fun s => a ++ frame.inset (a' ++ f s ++ b') ++ b, outer, ?_, fun t ht => ?_⟩
      · refine Surrounds.append ?_ a b
        by_cases hmember : frame.isMember = true
        · have hdepth : 2 * depth (frame :: place) = 2 + 2 * depth place := by
            rw [depth, depth, List.countP_cons_of_pos hmember]
            omega
          simp only [Frame.inset, hmember, if_true, hdepth]
          exact (hf.append a' b').indent
        · have hdepth : depth (frame :: place) = depth place := List.countP_cons_of_neg hmember
          simp only [Frame.inset, hmember, hdepth]
          exact hf.append a' b'
      · obtain ⟨hinner, hcompound⟩ := hplace t ht
        rw [fill, htext _ hcompound, hinner]
        exact ⟨rfl, houter _ hcompound⟩

/-! ## Templates at places -/

section Moved

open Text (moved movedIn blanks)

theorem head?_escapeTemplate_eq_break {cs : List Char} :
    (escapeTemplate cs).head? = some '\n' ↔ cs.head? = some '\n' := by
  cases cs with
  | nil => rfl
  | cons c cs =>
      rw [escapeTemplate]
      split
      · next hc =>
        refine iff_of_false (by simp) ?_
        rintro hbreak
        obtain rfl : c = '\n' := Option.some.inj hbreak
        exact absurd hc (by simp)
      · rfl

theorem escapeTemplate_blanks (n : Nat) (cs : List Char) :
    escapeTemplate (blanks n ++ cs) = blanks n ++ escapeTemplate cs := by
  induction n with
  | zero => rfl
  | succ n ih =>
      have hblanks : blanks (n + 1) = ' ' :: blanks n := List.replicate_succ
      rw [hblanks, List.cons_append, escapeTemplate, if_neg (by simp), ih, List.cons_append]

theorem movedIn_escapeTemplate (n : Nat) (cs : List Char) :
    movedIn (blanks n) (escapeTemplate cs) = escapeTemplate (movedIn (blanks n) cs) := by
  induction cs with
  | nil => rfl
  | cons c cs ih =>
      rw [escapeTemplate]
      split
      · next hc =>
        have hbreak : c ≠ '\n' := by
          rintro rfl
          exact absurd hc (by simp)
        have hslash : '\\' ≠ '\n' := by decide
        simp only [movedIn, hslash, hbreak, false_and, if_false]
        rw [escapeTemplate, Text.head?_movedIn, if_pos hc, ih]
      · next hc =>
        by_cases hbreak : c = '\n' ∧ cs.head? ≠ some '\n'
        · have hbreak' : c = '\n' ∧ (escapeTemplate cs).head? ≠ some '\n' :=
            ⟨hbreak.1, mt head?_escapeTemplate_eq_break.mp hbreak.2⟩
          have hplain : ¬ (c = '\\' ∨ c = '`' ∨
              (c = '$' ∧ (blanks n ++ movedIn (blanks n) cs).head? = some '\x7b')) := by
            rw [hbreak.1]
            simp
          rw [movedIn, movedIn, if_pos hbreak, if_pos hbreak', escapeTemplate, if_neg hplain,
            escapeTemplate_blanks, ih]
        · have hbreak' : ¬ (c = '\n' ∧ (escapeTemplate cs).head? ≠ some '\n') := fun h =>
            hbreak ⟨h.1, mt head?_escapeTemplate_eq_break.mpr h.2⟩
          rw [movedIn, movedIn, if_neg hbreak, if_neg hbreak', escapeTemplate, Text.head?_movedIn,
            if_neg hc, ih]

/-- The inside of a template that is moved in is that of a template whose texts are moved
in. -/
theorem moved_spans (n : Nat) (head : List Char) (spans : List (List Char × List Char)) :
    moved (blanks n) (escapeTemplate head ++ (spans.flatMap TypeText.spanChars ++ ['`'])) =
      escapeTemplate (movedIn (blanks n) head) ++
        ((spans.map fun span => (movedIn (blanks n) span.1, movedIn (blanks n) span.2)).flatMap
          TypeText.spanChars ++ ['`']) := by
  induction spans generalizing head with
  | nil =>
      rw [List.flatMap_nil, List.nil_append, Text.moved_append (by decide),
        movedIn_escapeTemplate, Text.moved_of_not_mem (by decide)]
      rfl
  | cons span spans ih =>
      obtain ⟨code, tail⟩ := span
      rw [List.map_cons, spans_cons, spans_cons, Text.moved_append (by decide),
        movedIn_escapeTemplate, Text.moved_cons_of_ne (by decide),
        Text.moved_cons_of_ne (by decide), Text.moved_append (by decide),
        Text.moved_cons_of_ne (by decide), ih]

theorem solid_template (head : String) (spans : List (TypeExpr × String)) :
    Text.Solid (TypeExpr.template head spans).text where
  head := ⟨'`', _, toList_template head spans, by decide⟩
  last := by
    rw [toList_template, ← List.append_assoc, ← List.cons_append, List.getLast?_concat]
    decide

/-- A template in a type stands there at a place.  At each place in a type the text of a
template stands between texts that do not depend on it, and it is a literal there too: that of
the template with a margin of two blanks for each object around the place, which comes behind
the line breaks in all of its texts.  So it has the texts that it has on its own if and only if
there is no object around the place or no line break in the texts. -/
theorem literal_in_place (t : TypeExpr) :
    (∀ (head : String) (spans : List (TypeExpr × String)),
      t.Has (.template head spans) ↔ ∃ place : Place, place.fill (.template head spans) = t) ∧
    ∀ place : Place, let margin := blanks (2 * place.depth)
    ∃ before behind, ∀ (head : String) (spans : List (TypeExpr × String)),
      Consists (TypeExpr.template head spans).text head.toList
        (spans.map fun span => (span.1.text.toList, span.2.toList)) ∧
      (∃ literal, (place.fill (.template head spans)).text = before ++ literal ++ behind ∧
        Consists literal (movedIn margin head.toList)
          (spans.map fun span =>
            (movedIn margin span.1.text.toList, movedIn margin span.2.toList))) ∧
      ((∀ text ∈ head :: spans.map Prod.snd, movedIn margin text.toList = text.toList) ↔
        place.depth = 0 ∨ ∀ text ∈ head :: spans.map Prod.snd, '\n' ∉ text.toList) := by
  refine ⟨fun head spans => has_iff, ?_⟩
  intro place margin
  obtain ⟨f, _, ⟨before, behind, hf⟩, hplace⟩ := place.exists_surrounds false
  refine ⟨String.ofList before, String.ofList behind, fun head spans =>
    ⟨consists_template head spans, ?_, ?_⟩⟩
  · refine ⟨String.ofList (moved margin (TypeExpr.template head spans).text.toList), ?_, ?_⟩
    · rw [← String.toList_inj, (hplace (.template head spans) rfl).1,
        hf _ (solid_template head spans)]
      simp [margin, String.append_assoc]
    · have hcontents := contents_of_escaped (movedIn margin head.toList)
        (spans.map fun span => (movedIn margin span.1.text.toList, movedIn margin span.2.toList))
      have hmoved := moved_spans (2 * place.depth) head.toList
        (spans.map fun span => (span.1.text.toList, span.2.toList))
      rw [List.map_map] at hmoved
      refine ⟨_, ?_, hcontents⟩
      rw [String.toList_ofList, toList_template, Text.moved_cons_of_ne (by decide)]
      exact congrArg _ hmoved
  · have hmargin : margin = [] ↔ place.depth = 0 := by
      rw [List.replicate_eq_nil_iff]
      omega
    simp only [Text.movedIn_eq_self_iff, hmargin]
    constructor
    · intro h
      by_cases hdepth : place.depth = 0
      · exact .inl hdepth
      · exact .inr fun text htext => (h text htext).resolve_left hdepth
    · rintro (hdepth | hbreak) text htext
      · exact .inl hdepth
      · exact .inr (hbreak text htext)

/-- An object with a member whose type is a template with a line break in its text. -/
def brokenLineShape : TypeShape :=
  { objects := [{ properties := [
    { key := literalSegment "x", value := { templates := [[literalSegment "a\nb"]] } }] }] }

/-- The template of this shape has another text in the object than on its own. -/
theorem literal_changes_in_object :
    let template := TypeExpr.template "a\nb" []
    let object := TypeExpr.object [.property "" "x" false template]
    ((Ledger.forFile .root "api/a.ts").fulfil
        (ofShape { output := "api" } false brokenLineShape)).1 = .ok object ∧
      object.Has template ∧
      template.text = "`a\nb`" ∧ Consists template.text "a\nb".toList [] ∧
      object.text = "\x7b\n  x: " ++ "`a\n  b`" ++ ";\n\x7d" ∧
      Consists "`a\n  b`" "a\n  b".toList [] ∧ "a\n  b" ≠ "a\nb" := by
  intro template object
  refine ⟨rfl, .inside List.mem_cons_self (.self _), by decide, consists_template "a\nb" [],
    by decide, consists_template "a\n  b" [], by decide⟩

end Moved

end TypeExpr

end ClientSdk
