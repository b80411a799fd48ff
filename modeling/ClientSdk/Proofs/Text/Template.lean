import ClientSdk.TypeExpr

/-!
# Reading template literals

A template literal is texts with spans between them.  A text goes up to the first backtick
or dollar in front of a brace that has no backslash before it (`scan`).  What was escaped is
read as it was before, whatever ends it (`scan_escapeTemplate`).  A whole literal consists of
texts that are read in this way, and of spans between them (`Contents`).  If no span holds a
closing brace, this is so in one way only (`Reads.unique`).
-/

namespace ClientSdk.Template

open TypeExpr (escapeTemplate)

/-! ## Texts -/

/-- The characters begin with what ends a text: a backtick, or a dollar in front of a
brace. -/
def Stops : List Char → Prop
  | [] => False
  | c :: cs => c = '`' ∨ (c = '$' ∧ cs.head? = some '\x7b')

instance : DecidablePred Stops
  | [] => inferInstanceAs (Decidable False)
  | _ :: _ => inferInstanceAs (Decidable (_ ∨ _))

/-- Reads a text up to what ends it, with `escaped` behind a backslash, which stands for the
character behind it. -/
def scanFrom (escaped : Bool) : List Char → Option (List Char × List Char)
  | [] => none
  | c :: cs =>
      if escaped then (scanFrom false cs).map fun (text, rest) => (c :: text, rest)
      else if Stops (c :: cs) then some ([], c :: cs)
      else if c = '\\' then scanFrom true cs
      else (scanFrom false cs).map fun (text, rest) => (c :: text, rest)

/-- A text up to what ends it, with the rest from there on. -/
def scan (cs : List Char) : Option (List Char × List Char) :=
  scanFrom false cs

example : scan "a\\`\\$\x7b$\x7bb".toList = some ("a`$\x7b".toList, "$\x7bb".toList) := by decide

variable {cs rest text : List Char}

theorem scan_of_stops (h : Stops cs) : scan cs = some ([], cs) := by
  cases cs with
  | nil => exact absurd h id
  | cons c cs => rw [scan, scanFrom, if_neg Bool.false_ne_true, if_pos h]

theorem scan_escaped (c : Char) (h : scan cs = some (text, rest)) :
    scan ('\\' :: c :: cs) = some (c :: text, rest) := by
  have hslash : ¬ Stops ('\\' :: c :: cs) := by simp [Stops]
  rw [scan] at h
  rw [scan, scanFrom, if_neg Bool.false_ne_true, if_neg hslash, if_pos rfl, scanFrom, if_pos rfl,
    h, Option.map_some]

theorem scan_plain {c : Char} (hstops : ¬ Stops (c :: cs)) (hslash : c ≠ '\\')
    (h : scan cs = some (text, rest)) : scan (c :: cs) = some (c :: text, rest) := by
  rw [scan] at h
  rw [scan, scanFrom, if_neg Bool.false_ne_true, if_neg hstops, if_neg hslash, h, Option.map_some]

/-- An escaped text followed by what ends a text begins with a brace only if the text
does. -/
theorem head?_escapeTemplate_append (hrest : Stops rest) (htext : text.head? ≠ some '\x7b') :
    (escapeTemplate text ++ rest).head? ≠ some '\x7b' := by
  cases text with
  | nil =>
      cases rest with
      | nil => exact absurd hrest id
      | cons c rest =>
          rintro hbrace
          obtain rfl : c = '\x7b' := Option.some.inj hbrace
          exact absurd hrest (by simp [Stops])
  | cons c text =>
      rw [escapeTemplate]
      split
      · simp
      · exact htext

theorem scan_escapeTemplate (text : List Char) (hrest : Stops rest) :
    scan (escapeTemplate text ++ rest) = some (text, rest) := by
  induction text with
  | nil => exact scan_of_stops hrest
  | cons c text ih =>
      rw [escapeTemplate]
      split
      · exact scan_escaped c ih
      · next hplain =>
        simp only [not_or, not_and] at hplain
        obtain ⟨hslash, htick, hdollar⟩ := hplain
        refine scan_plain ?_ hslash ih
        rintro (hc | ⟨hc, hbrace⟩)
        · exact htick hc
        · exact head?_escapeTemplate_append hrest (hdollar hc) hbrace

/-! ## Whole literals -/

/-- The rest of a template literal, up to the backtick at its end: a text, and then spans.  A
span is the code between its braces with the text behind it. -/
inductive Contents : List Char → List Char → List (List Char × List Char) → Prop
  | close {cs text : List Char} : scan cs = some (text, ['`']) → Contents cs text []
  | span {cs text code behind tail : List Char} {spans : List (List Char × List Char)} :
      scan cs = some (text, '$' :: '\x7b' :: (code ++ '\x7d' :: behind)) →
      Contents behind tail spans → Contents cs text ((code, tail) :: spans)

def Consists (s : String) (head : List Char) (spans : List (List Char × List Char)) : Prop :=
  ∃ cs, s.toList = '`' :: cs ∧ Contents cs head spans

section Contents

variable {head head' : List Char} {spans spans' : List (List Char × List Char)}

/-- A character in front of a literal is one more of its first text, if it is read as one. -/
theorem Contents.cons (front : List Char) {c : Char} (h : Contents cs head spans)
    (hfront : ∀ {text rest : List Char}, scan cs = some (text, rest) →
      scan (front ++ cs) = some (c :: text, rest)) :
    Contents (front ++ cs) (c :: head) spans := by
  cases h with
  | close hscan => exact .close (hfront hscan)
  | span hscan hbehind => exact .span (hfront hscan) hbehind

theorem code_unique {code code' behind behind' : List Char} (hcode : '\x7d' ∉ code)
    (hcode' : '\x7d' ∉ code') (h : code ++ '\x7d' :: behind = code' ++ '\x7d' :: behind') :
    code = code' ∧ behind = behind' := by
  induction code generalizing code' with
  | nil =>
      cases code' with
      | nil => exact ⟨rfl, (List.cons.inj h).2⟩
      | cons c code' => exact absurd ((List.cons.inj h).1 ▸ List.mem_cons_self) hcode'
  | cons c code ih =>
      cases code' with
      | nil => exact absurd ((List.cons.inj h).1 ▸ List.mem_cons_self) hcode
      | cons c' code' =>
          obtain ⟨rfl, hrest⟩ := List.cons.inj h
          obtain ⟨rfl, rfl⟩ := ih (fun hmem => hcode (List.mem_cons_of_mem _ hmem))
            (fun hmem => hcode' (List.mem_cons_of_mem _ hmem)) hrest
          exact ⟨rfl, rfl⟩

theorem Contents.unique (h : Contents cs head spans) (h' : Contents cs head' spans')
    (hcodes : ∀ span ∈ spans, '\x7d' ∉ span.1) (hcodes' : ∀ span ∈ spans', '\x7d' ∉ span.1) :
    head = head' ∧ spans = spans' := by
  induction h generalizing head' spans' with
  | close hscan =>
      cases h' with
      | close hscan' => exact ⟨(Prod.mk.inj (Option.some.inj (hscan.symm.trans hscan'))).1, rfl⟩
      | span hscan' =>
          have hrest := (Prod.mk.inj (Option.some.inj (hscan.symm.trans hscan'))).2
          exact absurd (List.cons.inj hrest).1 (by decide)
  | span hscan _ ih =>
      cases h' with
      | close hscan' =>
          have hrest := (Prod.mk.inj (Option.some.inj (hscan.symm.trans hscan'))).2
          exact absurd (List.cons.inj hrest).1 (by decide)
      | span hscan' hbehind' =>
          obtain ⟨hcode, hothers⟩ := List.forall_mem_cons.mp hcodes
          obtain ⟨hcode', hothers'⟩ := List.forall_mem_cons.mp hcodes'
          obtain ⟨rfl, hrest⟩ := Prod.mk.inj (Option.some.inj (hscan.symm.trans hscan'))
          obtain ⟨rfl, rfl⟩ := code_unique hcode hcode' (List.cons.inj (List.cons.inj hrest).2).2
          obtain ⟨rfl, rfl⟩ := ih hbehind' hothers hothers'
          exact ⟨rfl, rfl⟩

end Contents

/-! ### Spans without braces -/

/-- What a template literal consists of, piece by piece. -/
inductive Piece where
  | char (c : Char)
  /-- The code between the braces of a span. -/
  | span (code : List Char)
deriving DecidableEq, Repr

def piecesOf (head : List Char) (spans : List (List Char × List Char)) : List Piece :=
  head.map .char ++ spans.flatMap fun span => .span span.1 :: span.2.map .char

/-- The rest of a template literal consists of the pieces.  A span ends at the first closing
brace. -/
def Inside (cs : List Char) (pieces : List Piece) : Prop :=
  ∃ head spans, Contents cs head spans ∧ (∀ span ∈ spans, '\x7d' ∉ span.1) ∧
    pieces = piecesOf head spans

/-- The text is a template literal that consists of the pieces. -/
def Reads (s : String) (pieces : List Piece) : Prop :=
  ∃ cs, s.toList = '`' :: cs ∧ Inside cs pieces

variable {pieces pieces' : List Piece}

/-- A literal is read in one way only. -/
theorem Reads.unique {s : String} (h : Reads s pieces) (h' : Reads s pieces') :
    pieces = pieces' := by
  obtain ⟨cs, hcs, head, spans, hcontents, hcodes, rfl⟩ := h
  obtain ⟨cs', hcs', head', spans', hcontents', hcodes', rfl⟩ := h'
  obtain rfl : cs = cs' := (List.cons.inj (hcs.symm.trans hcs')).2
  obtain ⟨rfl, rfl⟩ := hcontents.unique hcontents' hcodes hcodes'
  rfl

theorem Inside.nil : Inside ['`'] [] :=
  ⟨[], [], .close (scan_of_stops (.inl rfl)), by simp, rfl⟩

theorem Inside.escaped (c : Char) (h : Inside cs pieces) :
    Inside ('\\' :: c :: cs) (.char c :: pieces) := by
  obtain ⟨head, spans, hcontents, hcodes, rfl⟩ := h
  exact ⟨c :: head, spans, hcontents.cons ['\\', c] (scan_escaped c), hcodes, rfl⟩

theorem Inside.plain {c : Char} (hstops : ¬ Stops (c :: cs)) (hslash : c ≠ '\\')
    (h : Inside cs pieces) : Inside (c :: cs) (.char c :: pieces) := by
  obtain ⟨head, spans, hcontents, hcodes, rfl⟩ := h
  exact ⟨c :: head, spans, hcontents.cons [c] (scan_plain hstops hslash), hcodes, rfl⟩

theorem Inside.hole {code : List Char} (hcode : '\x7d' ∉ code) (h : Inside cs pieces) :
    Inside ('$' :: '\x7b' :: (code ++ '\x7d' :: cs)) (.span code :: pieces) := by
  obtain ⟨head, spans, hcontents, hcodes, rfl⟩ := h
  refine ⟨[], (code, head) :: spans, ?_, List.forall_mem_cons.mpr ⟨hcode, hcodes⟩, rfl⟩
  exact .span (scan_of_stops (.inr ⟨rfl, rfl⟩)) hcontents

end ClientSdk.Template
