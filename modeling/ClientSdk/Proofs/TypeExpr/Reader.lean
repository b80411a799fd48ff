import ClientSdk.Proofs.Text.Literal
import ClientSdk.Proofs.Text.Pieces
import ClientSdk.TypeExpr
import Mathlib.Data.List.Forall2
import Mathlib.Tactic.Tauto

/-!
# Reading the text of a type

A type is read back from its text.  The text is passed over once, character by character,
and cut into items: characters, string literals, templates, and all that stands between
two brackets.  On each level the items are read by the precedence of the operators:
`[]` before `&` before `|`.

What a text is cut into does not depend on what stands around it (`Cuts`), so the cuts of
a text are put together from those of its parts, and moving a text in changes nothing
(`Cuts.indent`).
-/

namespace ClientSdk.TypeText

open TypeExpr (unionOf intersectionOf)

/-! ## Items -/

/-- What a text consists of on the level of one bracket.  What stands between brackets of
its own has been read by then, if it could be. -/
inductive Item where
  | char (c : Char)
  /-- A string literal, quotes included. -/
  | quoted (raw : List Char)
  /-- A template with the types of its spans; its texts are passed over. -/
  | template (spans : Option (List TypeExpr))
  | paren (inside : Option TypeExpr)
  /-- Square brackets, read as those of a tuple and as those of an index. -/
  | square (elements : Option (List (ElementMark × TypeExpr))) (key : Option TypeExpr)
  | brace (members : Option (List TypeMember))
  | angle (argument : Option TypeExpr)

namespace Item

def is (c : Char) : Item → Bool
  | .char d => d == c
  | _ => false

def char? : Item → Option Char
  | .char c => some c
  | _ => none

def operator? : Item → Option Char
  | .char c => if c = '|' ∨ c = '&' then some c else none
  | _ => none

end Item

/-! ## Reading items -/

def word? (items : List Item) : Option String :=
  if items.isEmpty then none else String.ofList <$> items.mapM Item.char?

/-- A type without operators around it.  Keywords, literals and names are not told
apart. -/
def atom? : List Item → Option TypeExpr
  | [.quoted raw] => some (.literal (String.ofList raw))
  | [.template spans] => spans.map fun types => .template "" (types.map (·, ""))
  | [.paren inside] => inside
  | [.square elements _] => elements.map .tuple
  | [.brace members] => members.map .object
  | items =>
      match items.getLast? with
      | some (.angle (some (.literal argument))) =>
          (word? items.dropLast).map (.tag · argument)
      | _ => (word? items).map .literal

/-- An operand from its last item on: empty square brackets behind a type make an array
of it. -/
def operandRev? : List Item → Option TypeExpr
  | .square (some []) _ :: i :: rest => (operandRev? (i :: rest)).map .array
  | items => atom? items.reverse

def operand? (items : List Item) : Option TypeExpr :=
  operandRev? items.reverse

/-- An operand of a union: an intersection, or one operand alone. -/
def meet? (items : List Item) : Option TypeExpr :=
  intersectionOf <$> (items.splitOnP (Item.is '&')).mapM operand?

/-- A type: a union, or one operand alone. -/
def type? (items : List Item) : Option TypeExpr :=
  unionOf <$> (items.splitOnP (Item.is '|')).mapM meet?

/-- An element of a tuple.  Its mark binds more tightly than the operators. -/
def element? : List Item → Option (ElementMark × TypeExpr)
  | .char '.' :: .char '.' :: .char '.' :: items =>
      match operand? items with
      | some (.array t) => some (.rest, t)
      | _ => none
  | items =>
      if items.getLast?.any (Item.is '?') then (operand? items.dropLast).map (.optional, ·)
      else (type? items).map (.plain, ·)

def elements? (items : List Item) : Option (List (ElementMark × TypeExpr)) :=
  if items.isEmpty then some [] else (items.splitOnP (Item.is ',')).mapM element?

def key? (items : List Item) : Option TypeExpr :=
  match items.splitOnP (Item.is ':') with
  | [name, key] => if (word? name).isSome then type? key else none
  | _ => none

/-- The name of a member, and whether the member may be left out. -/
def memberName? (items : List Item) : Option (String × Bool) :=
  let optional := items.getLast?.any (Item.is '?')
  match if optional then items.dropLast else items with
  | [.quoted raw] => some (String.ofList raw, optional)
  | bare => (word? bare).map (·, optional)

def member? (items : List Item) : Option TypeMember :=
  match items.splitOnP (Item.is ':') with
  | [[.square _ key], value] => do return .index "" (← key) (← type? value)
  | [name, value] => do
      let (name, optional) ← memberName? name
      return .property "" name optional (← type? value)
  | _ => none

/-- The members of an object type, each with a semicolon behind it. -/
def members? (items : List Item) : Option (List TypeMember) :=
  let parts := items.splitOnP (Item.is ';')
  if parts.getLast?.any List.isEmpty then parts.dropLast.mapM member? else none

/-! ## Cutting a text into items -/

def openings : List Char := ['(', '[', '\x7b', '<']

def closings : List Char := [')', ']', '\x7d', '>']

def closingOf (opening : Char) : Char :=
  if opening = '(' then ')'
  else if opening = '[' then ']'
  else if opening = '\x7b' then '\x7d'
  else '>'

def Item.ofBracket (opening : Char) (inside : List Item) : Item :=
  if opening = '(' then .paren (type? inside)
  else if opening = '[' then .square (elements? inside) (key? inside)
  else if opening = '\x7b' then .brace (members? inside)
  else .angle (type? inside)

/-- What is open around the current place, with the items before it. -/
inductive Frame where
  | bracket (opening : Char) (before : List Item)
  /-- A span of a template, behind the spans that are closed. -/
  | span (spans : List (Option TypeExpr)) (before : List Item)

/-- What the last character in the text of a template means for the next one. -/
inductive Mark where
  | text
  | dollar
  | escape
deriving DecidableEq

/-- How far a text has been read. -/
inductive State where
  | code (items : List Item) (outer : List Frame)
  | string (quote : Char) (raw : List Char) (escaped : Bool) (items : List Item)
      (outer : List Frame)
  | template (mark : Mark) (spans : List (Option TypeExpr)) (items : List Item)
      (outer : List Frame)
  | stuck

def close (c : Char) (items : List Item) : List Frame → State
  | [] => .stuck
  | .bracket opening before :: outer =>
      if c = closingOf opening then .code (before ++ [.ofBracket opening items]) outer
      else .stuck
  | .span spans before :: outer =>
      if c = '\x7d' then .template .text (spans ++ [type? items]) before outer else .stuck

/-- Behind one more character of the text of a template. -/
def stepTemplate (mark : Mark) (spans : List (Option TypeExpr)) (items : List Item)
    (outer : List Frame) (c : Char) : State :=
  match mark with
  | .escape => .template .text spans items outer
  | mark =>
      if c = '\\' then .template .escape spans items outer
      else if c = '`' then .code (items ++ [.template (spans.mapM id)]) outer
      else if c = '$' then .template .dollar spans items outer
      else
        match mark with
        | .dollar =>
            if c = '\x7b' then .code [] (.span spans items :: outer)
            else .template .text spans items outer
        | _ => .template .text spans items outer

/-- Behind one more character. -/
def step : State → Char → State
  | .stuck, _ => .stuck
  | .code items outer, c =>
      if c = ' ' ∨ c = '\n' then .code items outer
      else if c = '"' ∨ c = '\'' then .string c [c] false items outer
      else if c = '`' then .template .text [] items outer
      else if c ∈ openings then .code [] (.bracket c items :: outer)
      else if c ∈ closings then close c items outer
      else .code (items ++ [.char c]) outer
  | .string quote raw escaped items outer, c =>
      if c = '\n' then .stuck
      else if escaped then .string quote (raw ++ [c]) false items outer
      else if c = '\\' then .string quote (raw ++ [c]) true items outer
      else if c = quote then .code (items ++ [.quoted (raw ++ [c])]) outer
      else .string quote (raw ++ [c]) false items outer
  | .template mark spans items outer, c => stepTemplate mark spans items outer c

def items? (text : String) : Option (List Item) :=
  match text.toList.foldl step (.code [] []) with
  | .code items [] => some items
  | _ => none

/-- The operators of a text that are not inside a string literal, a template or
brackets. -/
def operators? (text : String) : Option (List Char) :=
  (items? text).map (·.filterMap Item.operator?)

def read? (text : String) : Option TypeExpr :=
  (items? text).bind type?

example : read? "a | b & (c | d)[]" = some (.union [.literal "a",
    .intersection [.literal "b", .array (.union [.literal "c", .literal "d"])]]) := rfl

/-! ## Cuts -/

/-- The characters are cut into the items wherever they stand in the code. -/
def Cuts (cs : List Char) (items : List Item) : Prop :=
  ∀ before outer, cs.foldl step (.code before outer) = .code (before ++ items) outer

theorem items?_of_cuts {text : String} {items : List Item} (h : Cuts text.toList items) :
    items? text = some items := by
  rw [items?, h [] [], List.nil_append]

/-- The characters with a meaning of their own to the cut. -/
def syntaxChars : List Char :=
  [' ', '\n', '"', '\'', '`'] ++ openings ++ closings

section Cuts

variable {cs ds : List Char} {items more : List Item}

theorem Cuts.nil : Cuts [] [] := by
  intro before outer
  simp

theorem Cuts.append (h : Cuts cs items) (h' : Cuts ds more) : Cuts (cs ++ ds) (items ++ more) := by
  intro before outer
  rw [List.foldl_append, h, h', List.append_assoc]

theorem Cuts.blank {c : Char} (hc : c = ' ' ∨ c = '\n') : Cuts [c] [] := by
  intro before outer
  rw [List.foldl_cons, List.foldl_nil, step, if_pos hc, List.append_nil]

theorem Cuts.char {c : Char} (hc : c ∉ syntaxChars) : Cuts [c] [.char c] := by
  intro before outer
  simp only [syntaxChars, List.mem_append, List.mem_cons, List.not_mem_nil, or_false,
    not_or] at hc
  obtain ⟨⟨⟨hblank, hbreak, hquote, hsingle, htick⟩, hopening⟩, hclosing⟩ := hc
  rw [List.foldl_cons, List.foldl_nil, step, if_neg (by tauto), if_neg (by tauto),
    if_neg htick, if_neg hopening, if_neg hclosing]

theorem Cuts.chars (h : ∀ c ∈ cs, c ∉ syntaxChars) : Cuts cs (cs.map .char) := by
  induction cs with
  | nil => exact .nil
  | cons c cs ih =>
      exact (Cuts.char (h c List.mem_cons_self)).append
        (ih fun d hd => h d (List.mem_cons_of_mem _ hd))

theorem Cuts.bracket {opening : Char} (hopening : opening ∈ openings) (h : Cuts cs items) :
    Cuts (opening :: cs ++ [closingOf opening]) [.ofBracket opening items] := by
  intro before outer
  have hopen : step (.code before outer) opening = .code [] (.bracket opening before :: outer) := by
    simp only [openings, List.mem_cons, List.not_mem_nil, or_false] at hopening
    rcases hopening with rfl | rfl | rfl | rfl <;> rfl
  have hclose : step (.code items (.bracket opening before :: outer)) (closingOf opening) =
      .code (before ++ [.ofBracket opening items]) outer := by
    simp only [openings, List.mem_cons, List.not_mem_nil, or_false] at hopening
    rcases hopening with rfl | rfl | rfl | rfl <;> rfl
  rw [List.cons_append, List.foldl_cons, hopen, List.foldl_append, h, List.nil_append,
    List.foldl_cons, hclose, List.foldl_nil]

theorem Cuts.paren (h : Cuts cs items) : Cuts ('(' :: cs ++ [')']) [.paren (type? items)] :=
  h.bracket (by decide : '(' ∈ openings)

theorem Cuts.square (h : Cuts cs items) :
    Cuts ('[' :: cs ++ [']']) [.square (elements? items) (key? items)] :=
  h.bracket (by decide : '[' ∈ openings)

theorem Cuts.brace (h : Cuts cs items) :
    Cuts ('\x7b' :: cs ++ ['\x7d']) [.brace (members? items)] :=
  h.bracket (by decide : '\x7b' ∈ openings)

theorem Cuts.angle (h : Cuts cs items) : Cuts ('<' :: cs ++ ['>']) [.angle (type? items)] :=
  h.bracket (by decide : '<' ∈ openings)

theorem Cuts.intercalate {glue : List Char} {sep : List Item} (hglue : Cuts glue sep)
    {texts : List (List Char)} {itemss : List (List Item)}
    (h : List.Forall₂ Cuts texts itemss) :
    Cuts (glue.intercalate texts) (sep.intercalate itemss) := by
  induction h with
  | nil => exact .nil
  | cons hfirst hrest ih =>
      cases hrest with
      | nil => simpa only [List.intercalate_singleton] using hfirst
      | cons =>
          rw [List.intercalate_cons_cons, List.intercalate_cons_cons]
          exact (hfirst.append hglue).append ih

/-- Lines are cut into the items of one after the other. -/
theorem Cuts.unlines {texts : List String} {itemss : List (List Item)}
    (h : List.Forall₂ (fun text items => Cuts text.toList items) texts itemss) :
    Cuts (Text.unlines texts).toList itemss.flatten := by
  induction h with
  | nil => exact .nil
  | @cons text items texts itemss hfirst hrest ih =>
      cases hrest with
      | nil => simpa [Text.unlines] using hfirst
      | @cons next others _ _ _ _ =>
          rw [Text.unlines, String.intercalate_cons_of_ne_nil (List.cons_ne_nil next _),
            String.toList_append, String.toList_append, List.flatten_cons,
            ← List.append_nil items]
          exact (hfirst.append (.blank (.inr rfl))).append ih

/-! ### String literals -/

/-- The characters are passed over inside a string literal. -/
def Passes (cs : List Char) : Prop :=
  ∀ raw before outer, cs.foldl step (.string '"' raw false before outer) =
    .string '"' (raw ++ cs) false before outer

theorem passes_of_quotable (h : Text.Quotable '"' cs) : Passes cs := by
  induction h with
  | nil =>
      intro raw before outer
      rw [List.foldl_nil, List.append_nil]
  | @plain c cs hquote hslash hbreak _ ih =>
      intro raw before outer
      rw [List.foldl_cons, step, if_neg hbreak, if_neg Bool.false_ne_true, if_neg hslash,
        if_neg hquote, ih, List.append_assoc, List.singleton_append]
  | @escaped c cs hbreak _ ih =>
      intro raw before outer
      have hescape : step (.string '"' raw false before outer) '\\' =
          .string '"' (raw ++ ['\\']) true before outer := rfl
      rw [List.foldl_cons, List.foldl_cons, hescape, step, if_neg hbreak, if_pos rfl, ih]
      simp

/-- A string literal is one item. -/
theorem Cuts.literal (s : String) :
    Cuts (Text.literal .unicode s).toList [.quoted (Text.literal .unicode s).toList] := by
  intro before outer
  simp only [Text.literal, Text.literalChars, String.toList_ofList]
  rw [List.foldl_cons, List.foldl_append]
  have hopen : step (.code before outer) '"' = .string '"' ['"'] false before outer := rfl
  rw [hopen, passes_of_quotable (Text.quotable_flatMap _ _)]
  simp [step]

/-! ### Templates -/

/-- In the text of a template, but not behind a backslash, the characters add the spans. -/
def Adds (cs : List Char) (more : List (Option TypeExpr)) : Prop :=
  ∀ mark spans before outer, mark ≠ .escape → ∃ mark', mark' ≠ Mark.escape ∧
    cs.foldl step (.template mark spans before outer) =
      .template mark' (spans ++ more) before outer

theorem Adds.nil : Adds [] [] := by
  intro mark spans before outer hmark
  exact ⟨mark, hmark, by simp⟩

theorem Adds.append {spans more : List (Option TypeExpr)} (h : Adds cs spans)
    (h' : Adds ds more) : Adds (cs ++ ds) (spans ++ more) := by
  intro mark earlier before outer hmark
  obtain ⟨mid, hmid, hfirst⟩ := h mark earlier before outer hmark
  obtain ⟨mark', hmark', hsecond⟩ := h' mid (earlier ++ spans) before outer hmid
  exact ⟨mark', hmark', by rw [List.foldl_append, hfirst, hsecond, List.append_assoc]⟩

section Template

variable {mark : Mark} (spans : List (Option TypeExpr)) (before : List Item)
  (outer : List Frame)

theorem step_template_escaped (hmark : mark ≠ .escape) (c : Char) :
    step (step (.template mark spans before outer) '\\') c =
      .template .text spans before outer := by
  cases mark with
  | escape => exact absurd rfl hmark
  | text | dollar => rfl

theorem step_template_dollar (hmark : mark ≠ .escape) :
    step (.template mark spans before outer) '$' = .template .dollar spans before outer := by
  cases mark with
  | escape => exact absurd rfl hmark
  | text | dollar => rfl

theorem step_template_plain {c : Char} (hslash : c ≠ '\\') (htick : c ≠ '`')
    (hdollar : c ≠ '$') (hbrace : mark = .dollar → c ≠ '\x7b') :
    step (.template mark spans before outer) c = .template .text spans before outer := by
  cases mark with
  | escape => rfl
  | text => simp [step, stepTemplate, hslash, htick, hdollar]
  | dollar => simp [step, stepTemplate, hslash, htick, hdollar, hbrace rfl]

theorem foldl_escapeTemplate (hmark : mark ≠ .escape)
    (hbrace : mark = .dollar → cs.head? ≠ some '\x7b') :
    ∃ mark', mark' ≠ Mark.escape ∧
      (TypeExpr.escapeTemplate cs).foldl step (.template mark spans before outer) =
        .template mark' spans before outer := by
  induction cs generalizing mark with
  | nil => exact ⟨mark, hmark, rfl⟩
  | cons c cs ih =>
      have hplain := @ih .text (by decide) (fun h => absurd h (by decide))
      rw [TypeExpr.escapeTemplate]
      split
      · rwa [List.foldl_cons, List.foldl_cons, step_template_escaped spans before outer hmark]
      · next hunescaped =>
        simp only [not_or, not_and] at hunescaped
        obtain ⟨hslash, htick, hspan⟩ := hunescaped
        rw [List.foldl_cons]
        -- A brace opens a span only behind a dollar, and there the dollar is escaped.
        by_cases hdollar : c = '$'
        · subst hdollar
          rw [step_template_dollar spans before outer hmark]
          exact ih (by decide) fun _ => hspan rfl
        · rwa [step_template_plain spans before outer hslash htick hdollar
            fun h hc => hbrace h (by rw [hc]; rfl)]

end Template

/-- A span of a template with the text behind it, as they are written. -/
def spanChars (span : List Char × List Char) : List Char :=
  '$' :: '\x7b' :: span.1 ++ '\x7d' :: TypeExpr.escapeTemplate span.2

theorem Adds.span (h : Cuts cs items) (tail : List Char) :
    Adds (spanChars (cs, tail)) [type? items] := by
  intro mark spans before outer hmark
  have hopen : step (.template .dollar spans before outer) '\x7b' =
      .code [] (.span spans before :: outer) := rfl
  have hclose : step (.code items (.span spans before :: outer)) '\x7d' =
      .template .text (spans ++ [type? items]) before outer := rfl
  obtain ⟨mark', hmark', htail⟩ : ∃ mark', mark' ≠ Mark.escape ∧
      (TypeExpr.escapeTemplate tail).foldl step
          (.template .text (spans ++ [type? items]) before outer) =
        .template mark' (spans ++ [type? items]) before outer :=
    foldl_escapeTemplate _ before outer (by decide) (fun h => absurd h (by decide))
  refine ⟨mark', hmark', ?_⟩
  rw [spanChars, List.cons_append, List.cons_append, List.foldl_cons, List.foldl_cons,
    step_template_dollar spans before outer hmark, hopen, List.foldl_append, h, List.nil_append,
    List.foldl_cons, hclose, htail]

theorem Adds.spans {texts : List (List Char × List Char)} {itemss : List (List Item)}
    (h : List.Forall₂ (fun span items => Cuts span.1 items) texts itemss) :
    Adds (texts.flatMap spanChars) (itemss.map type?) := by
  induction h with
  | nil => exact .nil
  | @cons span items texts itemss hspan _ ih => exact (Adds.span hspan span.2).append ih

/-- A template is one item, which holds the types of its spans. -/
theorem Cuts.template {texts : List (List Char × List Char)} {itemss : List (List Item)}
    (head : List Char)
    (h : List.Forall₂ (fun span items => Cuts span.1 items) texts itemss) :
    Cuts ('`' :: (TypeExpr.escapeTemplate head ++ texts.flatMap spanChars ++ ['`']))
      [.template (itemss.mapM type?)] := by
  intro before outer
  have hopen : step (.code before outer) '`' = .template .text [] before outer := rfl
  obtain ⟨mid, hmid, hhead⟩ : ∃ mark', mark' ≠ Mark.escape ∧
      (TypeExpr.escapeTemplate head).foldl step (.template .text [] before outer) =
        .template mark' [] before outer :=
    foldl_escapeTemplate [] before outer (by decide) (fun h => absurd h (by decide))
  obtain ⟨last, hlast, hspans⟩ := Adds.spans h mid [] before outer hmid
  have hclose : step (.template last (itemss.map type?) before outer) '`' =
      .code (before ++ [.template ((itemss.map type?).mapM id)]) outer := by
    cases last with
    | escape => exact absurd rfl hlast
    | text | dollar => rfl
  rw [List.foldl_cons, hopen, List.foldl_append, List.foldl_append, hhead, hspans,
    List.nil_append, List.foldl_cons, hclose, List.foldl_nil, List.mapM_map]
  rfl

/-! ### Moving in -/

/-- A blank leaves the state as it is. -/
def Settled (state : State) : Prop :=
  step state ' ' = state

theorem settled_code (items : List Item) (outer : List Frame) : Settled (.code items outer) :=
  rfl

theorem settled_break (state : State) : Settled (step state '\n') := by
  cases state with
  | stuck => rfl
  | code items outer => rfl
  | string quote raw escaped items outer => rfl
  | template mark spans items outer => cases mark <;> rfl

theorem foldl_indentLine {state : State} (h : Settled state) (line : String) :
    (Text.indentLine "  " line).toList.foldl step state = line.toList.foldl step state := by
  unfold Text.indentLine
  split
  · rfl
  · have hmargin : "  ".toList.foldl step state = state := by
      change step (step state ' ') ' ' = state
      rw [h, h]
    rw [String.toList_append, List.foldl_append, hmargin]

/-- Moving lines in leaves what has been read as it is, as the state behind a line break is
settled. -/
theorem foldl_indentLines {state : State} (h : Settled state) (lines : List String) :
    (Text.unlines (lines.map (Text.indentLine "  "))).toList.foldl step state =
      (Text.unlines lines).toList.foldl step state := by
  induction lines generalizing state with
  | nil => rfl
  | cons line rest ih =>
      cases rest with
      | nil => exact foldl_indentLine h line
      | cons next rest =>
          have hcut : ∀ first (others : List String), others ≠ [] →
              (Text.unlines (first :: others)).toList =
                first.toList ++ '\n' :: (Text.unlines others).toList := by
            intro first others hne
            rw [Text.unlines, String.intercalate_cons_of_ne_nil hne]
            simp [Text.unlines]
          rw [List.map_cons, hcut _ _ (by simp), hcut _ _ (by simp), List.foldl_append,
            List.foldl_append, foldl_indentLine h, List.foldl_cons, List.foldl_cons]
          exact ih (settled_break _)

theorem foldl_indent {state : State} (h : Settled state) (s : String) :
    (Text.indent s).toList.foldl step state = s.toList.foldl step state := by
  rw [Text.indent, Text.indentBy, foldl_indentLines h, Text.unlines_lines]

/-- Moving a text in leaves its items as they are. -/
theorem Cuts.indent {s : String} (h : Cuts s.toList items) :
    Cuts (Text.indent s).toList items := by
  intro before outer
  rw [foldl_indent (settled_code before outer), h]

end Cuts

end ClientSdk.TypeText
