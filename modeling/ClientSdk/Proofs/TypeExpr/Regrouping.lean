import ClientSdk.Proofs.TypeExpr.Legible
import ClientSdk.Proofs.TypeExpr.Phrase

/-!
# Regrouping

The text of a legible type is read back as the type (`reads_of_legible`): outside of
brackets it has no operators but those of the union or intersection that it is, and none
where it stands next to operators of others.  So the text of a shape regroups as it was
written (`text_regroups`).
-/

namespace ClientSdk

open TypeText

namespace TypeExpr

/-! ## What is read -/

mutual

/-- The type as it is read back.  Keywords, literals and declared types are not told
apart, and the texts of templates and comments are passed over. -/
def outline : TypeExpr → TypeExpr
  | .keyword word => .literal word
  | .literal text => .literal text
  | .reference name => .literal name
  | .tag name argument => .tag name argument
  | .template _ spans => .template "" (outlineOfSpans spans)
  | .array element => .array element.outline
  | .tuple elements => .tuple (outlineOfElements elements)
  | .object members => .object (outlineOfMembers members)
  | .union members => .union (outlineOfTypes members)
  | .intersection members => .intersection (outlineOfTypes members)
  | .documented _ body => body.outline

def outlineOfTypes : List TypeExpr → List TypeExpr
  | [] => []
  | t :: ts => t.outline :: outlineOfTypes ts

/-- The spans of a template as they are read back. -/
def outlineOfSpans : List (TypeExpr × String) → List (TypeExpr × String)
  | [] => []
  | (t, _) :: spans => (t.outline, "") :: outlineOfSpans spans

/-- The elements of a tuple as they are read back. -/
def outlineOfElements : List (ElementMark × TypeExpr) → List (ElementMark × TypeExpr)
  | [] => []
  | (mark, t) :: elements => (mark, t.outline) :: outlineOfElements elements

/-- The members of an object type as they are read back. -/
def outlineOfMembers : List TypeMember → List TypeMember
  | [] => []
  | .property _ name optional value :: members =>
      .property "" (bareName name) optional value.outline :: outlineOfMembers members
  | .index _ key value :: members =>
      .index "" key.outline value.outline :: outlineOfMembers members

end

end TypeExpr

/-- A member of an object type as it is read back. -/
def TypeMember.outline : TypeMember → TypeMember
  | .property _ name optional value => .property "" (bareName name) optional value.outline
  | .index _ key value => .index "" key.outline value.outline

namespace TypeExpr

theorem outlineOfTypes_eq (ts : List TypeExpr) : outlineOfTypes ts = ts.map outline := by
  induction ts with
  | nil => rfl
  | cons t ts ih => rw [outlineOfTypes, ih, List.map_cons]

theorem outlineOfSpans_eq (spans : List (TypeExpr × String)) :
    outlineOfSpans spans = (spans.map fun span => span.1.outline).map (·, "") := by
  induction spans with
  | nil => rfl
  | cons span spans ih => rw [outlineOfSpans, ih]; rfl

theorem outlineOfElements_eq (elements : List (ElementMark × TypeExpr)) :
    outlineOfElements elements = elements.map fun element => (element.1, element.2.outline) := by
  induction elements with
  | nil => rfl
  | cons element elements ih => rw [outlineOfElements, ih]; rfl

theorem outlineOfMembers_eq (members : List TypeMember) :
    outlineOfMembers members = members.map TypeMember.outline := by
  induction members with
  | nil => rfl
  | cons member members ih => cases member <;> rw [outlineOfMembers, ih] <;> rfl

def operators : TypeExpr → List Char
  | .union members => List.replicate (members.length - 1) '|'
  | .intersection members => List.replicate (members.length - 1) '&'
  | .documented _ body => body.operators
  | _ => []

/-! ## Texts of parts -/

theorem above_empty (declaration : String) : Comment.above "" declaration = declaration := rfl

theorem toList_join_spanTexts (spans : List (TypeExpr × String)) :
    (String.join (spanTexts spans)).toList =
      (spans.map fun span => (span.1.text.toList, span.2.toList)).flatMap spanChars := by
  induction spans with
  | nil => rfl
  | cons span spans ih =>
      obtain ⟨t, tail⟩ := span
      rw [spanTexts, String.join_cons, String.toList_append, ih]
      simp [spanChars, templateText]

/-! ## Reading -/

/-- The text of the type is read back as the type, and next to operators of others it is
one operand. -/
structure Reads (t : TypeExpr) : Prop where
  alone : ∃ items, Cuts t.text.toList items ∧ IsType items t.outline ∧
    items.filterMap Item.operator? = t.operators
  grouped : ∃ items, Cuts (group t t.text).toList items ∧ IsOperand items t.outline

section Reads

variable {t : TypeExpr} {items : List Item}

theorem reads_of_isOperand (hcompound : t.isCompound = false) (hnone : t.operators = [])
    (hcuts : Cuts t.text.toList items) (h : IsOperand items t.outline) : t.Reads where
  alone := ⟨items, hcuts, h.isType, by rw [hnone, List.filterMap_eq_nil_iff.mpr h.bare]⟩
  grouped := ⟨items, by rwa [group, hcompound], h⟩

theorem reads_of_isType (hcompound : t.isCompound = true) (hcuts : Cuts t.text.toList items)
    (h : IsType items t.outline) (hoperators : items.filterMap Item.operator? = t.operators) :
    t.Reads where
  alone := ⟨items, hcuts, h, hoperators⟩
  grouped := by
    refine ⟨_, ?_, isOperand_paren h⟩
    rw [group, hcompound, if_pos rfl, String.toList_append, String.toList_append]
    exact hcuts.paren

/-! ### Atoms -/

theorem exists_of_isToken {s : String} (h : IsToken s) :
    ∃ items, Cuts s.toList items ∧ IsOperand items (.literal s) ∧
      ∀ optional, IsName (items ++ optionalItems optional) s optional := by
  rcases h with h | ⟨inner, rfl⟩
  · have hoperand := isOperand_word h
    have hname := isName_word h
    rw [String.ofList_toList] at hoperand hname
    exact ⟨_, h.cuts, hoperand, hname⟩
  · have hoperand := isOperand_quoted (Text.literal .unicode inner).toList
    have hname := isName_quoted (Text.literal .unicode inner).toList
    rw [String.ofList_toList] at hoperand hname
    exact ⟨_, .literal inner, hoperand, hname⟩

theorem reads_tag {name argument : String} (hname : Text.IsDotted name)
    (hargument : IsToken argument) : (TypeExpr.tag name argument).Reads := by
  have hword := isWord_of_isDotted hname
  obtain ⟨items, hcuts, hoperand, -⟩ := exists_of_isToken hargument
  have htag := isOperand_tag hword argument
  rw [String.ofList_toList, ← hoperand.isType.reads] at htag
  refine reads_of_isOperand rfl rfl ?_ htag
  simpa [text] using hword.cuts.append hcuts.angle

/-! ### Brackets -/

theorem reads_array {element : TypeExpr} (h : element.Reads) : (TypeExpr.array element).Reads := by
  obtain ⟨items, hcuts, hoperand⟩ := h.grouped
  refine reads_of_isOperand rfl rfl ?_ (isOperand_array hoperand (key? []))
  rw [text, String.toList_append]
  exact hcuts.append Cuts.nil.square

theorem reads_template (head : String) {spans : List (TypeExpr × String)}
    (h : ∀ span ∈ spans, span.1.Reads) : (TypeExpr.template head spans).Reads := by
  have hspans : ∀ span ∈ spans, ∃ items, Cuts span.1.text.toList items ∧
      IsType items span.1.outline := by
    intro span hspan
    obtain ⟨items, hcuts, htype, -⟩ := (h span hspan).alone
    exact ⟨items, hcuts, htype⟩
  obtain ⟨itemss, hcuts, htypes⟩ :=
    exists_forall₂ (g := fun span : TypeExpr × String => span.1.outline) hspans
  have htexts : List.Forall₂ (fun span items => Cuts span.1 items)
      (spans.map fun span => (span.1.text.toList, span.2.toList)) itemss :=
    List.forall₂_map_left_iff.mpr hcuts
  have hreads := isOperand_template htypes
  rw [← outlineOfSpans_eq] at hreads
  refine reads_of_isOperand rfl rfl ?_ hreads
  have htemplate := Cuts.template head.toList htexts
  rw [← toList_join_spanTexts] at htemplate
  simpa [text, templateText] using htemplate

theorem exists_isElement (mark : ElementMark) {t : TypeExpr} (h : t.Reads) :
    ∃ items, Cuts (elementText (mark, t)).toList items ∧
      IsElement items (mark, t.outline) := by
  cases mark with
  | plain =>
      obtain ⟨items, hcuts, htype, -⟩ := h.alone
      exact ⟨items, hcuts, isElement_plain htype⟩
  | optional =>
      obtain ⟨items, hcuts, hoperand⟩ := h.grouped
      refine ⟨_, ?_, isElement_optional hoperand⟩
      rw [elementText, String.toList_append]
      exact hcuts.append (.char (by decide))
  | rest =>
      obtain ⟨items, hcuts, hoperand⟩ := h.grouped
      refine ⟨_, ?_, isElement_rest hoperand (key? [])⟩
      have hpoints : Cuts ['.', '.', '.'] (['.', '.', '.'].map .char) :=
        .chars (by simp [syntaxChars, openings, closings])
      rw [elementText, String.toList_append, String.toList_append, List.append_assoc]
      exact hpoints.append (hcuts.append Cuts.nil.square)

theorem reads_tuple {elements : List (ElementMark × TypeExpr)}
    (h : ∀ element ∈ elements, element.2.Reads) : (TypeExpr.tuple elements).Reads := by
  obtain ⟨itemss, hcuts, helements⟩ := exists_forall₂ fun element helement =>
    exists_isElement element.1 (h element helement)
  have hcomma : Cuts [',', ' '] [.char ','] :=
    (Cuts.char (by decide)).append (.blank (.inl rfl))
  have hsquare := (hcomma.intercalate (List.forall₂_map_left_iff.mpr hcuts)).square
  have hreads := isOperand_tuple helements (key? ([.char ','].intercalate itemss))
  rw [← outlineOfElements_eq] at hreads
  refine reads_of_isOperand rfl rfl ?_ hreads
  rw [text, elementTexts_eq]
  simpa [String.toList_intercalate, Function.comp_def] using hsquare

theorem exists_isMember {m : TypeMember} (hplain : m.IsPlain) (h : ∀ t ∈ m.types, t.Reads) :
    ∃ items, Cuts (memberText m).toList (items ++ [.char ';']) ∧ IsMember items m.outline := by
  have hcolon : Cuts ": ".toList [.char ':'] :=
    (Cuts.char (by decide)).append (.blank (.inl rfl))
  have hsemicolon : Cuts ";".toList [.char ';'] := .char (by decide)
  cases m with
  | property comment name optional value =>
      obtain ⟨rfl, hname⟩ := hplain
      obtain ⟨nameItems, hnameCuts, -, hisName⟩ := exists_of_isToken hname
      obtain ⟨valueItems, hvalue, htype, -⟩ := (h value List.mem_cons_self).alone
      have hmark : Cuts (if optional then "?" else "").toList (optionalItems optional) := by
        cases optional with
        | false => exact .nil
        | true => exact .char (by decide)
      refine ⟨_, ?_, isMember_property (hisName optional) htype⟩
      have hcuts := ((((cuts_of_bareName hnameCuts).append hmark).append hcolon).append
        hvalue).append hsemicolon
      rw [memberText, above_empty]
      simp only [String.toList_append]
      simpa only [List.append_assoc, List.cons_append, List.nil_append] using hcuts
  | index comment key value =>
      cases hplain
      obtain ⟨keyItems, hkey, hkeyType, -⟩ := (h key List.mem_cons_self).alone
      obtain ⟨valueItems, hvalue, htype, -⟩ :=
        (h value (List.mem_cons_of_mem _ List.mem_cons_self)).alone
      have hword : IsWord "key".toList := by decide
      obtain ⟨elements, hinside⟩ : ∃ elements,
          Cuts ('[' :: ("key".toList ++ (": ".toList ++ key.text.toList)) ++ [']'])
            [.square elements (some key.outline)] := by
        have hsquare := (hword.cuts.append (hcolon.append hkey)).square
        rw [List.singleton_append, key?_eq hword hkeyType] at hsquare
        exact ⟨_, hsquare⟩
      refine ⟨_, ?_, isMember_index elements htype⟩
      have hcuts := ((hinside.append hcolon).append hvalue).append hsemicolon
      rw [memberText, above_empty]
      have hopen : "[key: ".toList = '[' :: ("key".toList ++ ": ".toList) := rfl
      have hclose : "]: ".toList = ']' :: ": ".toList := rfl
      simp only [String.toList_append, hopen, hclose]
      simpa only [List.append_assoc, List.cons_append, List.nil_append] using hcuts

theorem reads_object {members : List TypeMember} (hplain : ∀ m ∈ members, m.IsPlain)
    (h : ∀ m ∈ members, ∀ t ∈ m.types, t.Reads) : (TypeExpr.object members).Reads := by
  obtain ⟨itemss, hcuts, hmembers⟩ := exists_forall₂ fun m hm =>
    exists_isMember (hplain m hm) (h m hm)
  have hlines : Cuts (Text.unlines ((members.map memberText).map Text.indent)).toList
      (itemss.flatMap (· ++ [.char ';'])) := by
    refine Cuts.unlines ?_
    rw [List.map_map, List.forall₂_map_left_iff, List.forall₂_map_right_iff]
    exact hcuts.imp fun _ _ h => h.indent
  have hreads := isOperand_object hmembers
  rw [← outlineOfMembers_eq] at hreads
  refine reads_of_isOperand rfl rfl ?_ hreads
  rw [text, memberTexts_eq, braced]
  have hbreak : Cuts ['\n'] [] := .blank (.inr rfl)
  split
  · next hempty =>
    have hnil : members = [] := by simpa using hempty
    subst hnil
    cases hcuts
    exact Cuts.nil.brace
  · have hbrace := ((hbreak.append hlines).append hbreak).brace
    simpa using hbrace

/-! ### Operators -/

theorem exists_operands {members : List TypeExpr} (h : ∀ t ∈ members, t.Reads) {glue : String}
    {c : Char} (hglue : Cuts glue.toList [.char c]) :
    ∃ itemss, Cuts (glue.intercalate (groupedTexts members)).toList
        ([.char c].intercalate itemss) ∧
      List.Forall₂ IsOperand itemss (outlineOfTypes members) := by
  obtain ⟨itemss, hcuts, hoperands⟩ := exists_forall₂ fun t ht => (h t ht).grouped
  refine ⟨itemss, ?_, by rwa [outlineOfTypes_eq]⟩
  rw [groupedTexts_eq, String.toList_intercalate, List.map_map]
  exact hglue.intercalate (List.forall₂_map_left_iff.mpr hcuts)

section Operators

variable {members : List TypeExpr} (htwo : 2 ≤ members.length) (h : ∀ t ∈ members, t.Reads)
include htwo h

theorem reads_union : (TypeExpr.union members).Reads := by
  have hglue : Cuts " | ".toList [.char '|'] :=
    (Cuts.blank (.inl rfl)).append ((Cuts.char (by decide)).append (.blank (.inl rfl)))
  obtain ⟨itemss, hcuts, hoperands⟩ := exists_operands h hglue
  have hlength : (outlineOfTypes members).length = members.length := by simp [outlineOfTypes_eq]
  refine reads_of_isType rfl hcuts (isType_union hoperands (hlength ▸ htwo)) ?_
  rw [operators_intercalate hoperands (.inl rfl), hlength, operators]

theorem reads_intersection : (TypeExpr.intersection members).Reads := by
  have hglue : Cuts " & ".toList [.char '&'] :=
    (Cuts.blank (.inl rfl)).append ((Cuts.char (by decide)).append (.blank (.inl rfl)))
  obtain ⟨itemss, hcuts, hoperands⟩ := exists_operands h hglue
  have hlength : (outlineOfTypes members).length = members.length := by simp [outlineOfTypes_eq]
  refine reads_of_isType rfl hcuts (isType_intersection hoperands (hlength ▸ htwo)) ?_
  rw [operators_intercalate hoperands (.inr rfl), hlength, operators]

end Operators

theorem reads_of_legible (h : t.Legible) : t.Reads := by
  -- Keywords, literals and declared types are all read as one token.
  have htoken : ∀ {u : TypeExpr}, u.isCompound = false → u.operators = [] →
      u.outline = .literal u.text → IsToken u.text → u.Reads := by
    intro u hcompound hnone houtline htoken
    obtain ⟨items, hcuts, hoperand, -⟩ := exists_of_isToken htoken
    exact reads_of_isOperand hcompound hnone hcuts (houtline ▸ hoperand)
  induction h with
  | keyword hword => exact htoken rfl rfl rfl hword
  | literal htext => exact htoken rfl rfl rfl htext
  | reference hname => exact htoken rfl rfl rfl (.word (isWord_of_isDotted hname))
  | tag hname hargument => exact reads_tag hname hargument
  | template _ ih => exact reads_template _ ih
  | array _ ih => exact reads_array ih
  | tuple _ ih => exact reads_tuple ih
  | object hplain _ ih => exact reads_object hplain ih
  | union htwo _ ih => exact reads_union htwo ih
  | intersection htwo _ ih => exact reads_intersection htwo ih

end Reads

/-- The text of a legible type is read back as the type. -/
theorem read?_of_legible {t : TypeExpr} (h : t.Legible) : read? t.text = some t.outline := by
  obtain ⟨items, hcuts, htype, -⟩ := (reads_of_legible h).alone
  rw [read?, items?_of_cuts hcuts, Option.bind_some, htype.reads]

/-- The text of a shape regroups as it was written.  Whatever type stands in it, outside
of brackets the text of that type has the operators of the union or intersection that it
is, and none as an operand; and read by the precedence of the operators, the text of the
shape is the type that was written. -/
theorem text_regroups (c : Config) {l l' : Ledger} {s : TypeShape} {inEscape : Bool} {t : TypeExpr}
    (hnames : s.NamesDotted) (hliterals : s.LiteralValues) (hcomments : s.Uncommented)
    (hwrite : l.fulfil (ofShape c inEscape s) = (.ok t, l')) :
    (∀ u, t.Has u → operators? u.text = some u.operators ∧
        operators? (group u u.text) = some []) ∧
      read? t.text = some t.outline := by
  have hplain : ∀ part, s.Contains part → part.IsPlain := fun part hpart =>
    ⟨hnames part hpart, hliterals part hpart, hcomments part hpart⟩
  have hlegible : t.Legible :=
    legible_ofShape c hplain inEscape t (Ledger.registerAll_of_fulfil hwrite).2
  refine ⟨fun u hu => ?_, read?_of_legible hlegible⟩
  have hreads := reads_of_legible (hlegible.of_has hu)
  obtain ⟨items, hcuts, -, hoperators⟩ := hreads.alone
  obtain ⟨grouped, hgrouped, hoperand⟩ := hreads.grouped
  refine ⟨?_, ?_⟩
  · rw [operators?, items?_of_cuts hcuts, Option.map_some, hoperators]
  · rw [operators?, items?_of_cuts hgrouped, Option.map_some,
      List.filterMap_eq_nil_iff.mpr hoperand.bare]

def choiceShape : TypeShape :=
  { atomics := [{ kind := .text "boolean" }, { kind := .text "string" }] }

/-- A text with two rows of validation tags. -/
def taggedAtomic : Atomic :=
  { kind := .text "string", tags := [
    [{ name := "Format<\"uuid\">", kind := .text "format", value := .text "uuid" }],
    [{ name := "MinLength<1>", kind := .text "minLength", value := .int 1 },
      { name := "MaxLength<3>", kind := .text "maxLength", value := .int 3 }]] }

/-- Null, a text with validation tags, or an array. -/
def mixedShape : TypeShape :=
  { nullable := true, atomics := [taggedAtomic], arrays := [{ value := choiceShape }] }

def mixedType : TypeExpr :=
  .union [.keyword "null",
    .intersection [.keyword "string", .union [.tag "Format" "\"uuid\"",
      .intersection [.tag "MinLength" "1", .tag "MaxLength" "3"]]],
    .array (.union [.keyword "boolean", .keyword "string"])]

/-- The statement for a type in which unions and intersections stand inside one another. -/
theorem text_regroups_of_mixedShape :
    ((Ledger.forFile .root "api/a.ts").fulfil (ofShape { output := "api" } false mixedShape)).1 =
        .ok mixedType ∧
      mixedType.text = "null | (string & (Format<\"uuid\"> | (MinLength<1> & MaxLength<3>)))" ++
        " | (boolean | string)[]" ∧
      operators? mixedType.text = some ['|', '|'] ∧
      read? mixedType.text = some mixedType.outline := by
  have hchoice : choiceShape.parts false =
      [.atomic { kind := .text "boolean" }, .atomic { kind := .text "string" }] := rfl
  have hmixed : mixedShape.parts false =
      [.null, .atomic taggedAtomic, .array { value := choiceShape }] := rfl
  have huntagged : ∀ kind, (ShapePart.atomic { kind }).IsPlain := fun kind =>
    ⟨by simp [ShapePart.NamesDotted], by simp [ShapePart.LiteralValues], trivial⟩
  have htagged : (ShapePart.atomic taggedAtomic).IsPlain := by
    refine ⟨?_, ?_, trivial⟩
    · simp only [ShapePart.NamesDotted, taggedAtomic, List.forall_mem_cons]
      decide
    · simp [ShapePart.LiteralValues, taggedAtomic, Value.isLiteral]
  have hplain : ∀ part, mixedShape.Contains part → part.IsPlain := by
    intro part hpart
    cases hpart with
    | part hpart =>
        simp only [hmixed, List.mem_cons, List.not_mem_nil, or_false] at hpart
        rcases hpart with rfl | rfl | rfl
        · exact ⟨trivial, trivial, trivial⟩
        · exact htagged
        · exact ⟨by simp [ShapePart.NamesDotted], by simp [ShapePart.LiteralValues], trivial⟩
    | inside hpart hinner hdeeper =>
        simp only [hmixed, List.mem_cons, List.not_mem_nil, or_false] at hpart
        rcases hpart with rfl | rfl | rfl
        · cases hinner
        · cases hinner
        cases List.mem_singleton.mp hinner
        cases hdeeper with
        | part hpart =>
            simp only [hchoice, List.mem_cons, List.not_mem_nil, or_false] at hpart
            rcases hpart with rfl | rfl <;> exact huntagged _
        | inside hpart hinner _ =>
            simp only [hchoice, List.mem_cons, List.not_mem_nil, or_false] at hpart
            rcases hpart with rfl | rfl <;> cases hinner
  have hwritten : ((Ledger.forFile .root "api/a.ts").fulfil
      (ofShape { output := "api" } false mixedShape)).1 = .ok mixedType := rfl
  obtain ⟨hoperators, hread⟩ := text_regroups { output := "api" }
    (fun part hpart => (hplain part hpart).names)
    (fun part hpart => (hplain part hpart).literals)
    (fun part hpart => (hplain part hpart).comments) (Prod.ext hwritten rfl)
  exact ⟨hwritten, rfl, (hoperators mixedType (.self _)).1, hread⟩

end TypeExpr

end ClientSdk
