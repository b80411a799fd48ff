import ClientSdk.Proofs.Text.Literal
import ClientSdk.Proofs.TypeExpr.Mentions

/-!
# What a type name refers to

A type name begins with a dotted name, and may go on with type arguments and with members of
the type that has them (`TypeRef`).  The arguments are again type names, or quoted texts,
numbers, arrays and choices.

The names in the arguments are looked for in the bare characters, without a parser.  What is
found in a piece of a type name does not depend on what stands behind the piece, as long as
that does not go on an identifier and is not a quote (`Refers`).  So for each form of the
grammar the names found are those found in its parts, and together they are the first
identifiers of the type names inside (`TypeRef.refers`).
-/

namespace ClientSdk

/-! ## Type names -/

structure Identifier where
  chars : List Char
  valid : Text.isIdentifierChars chars = true

namespace Identifier

def text (i : Identifier) : String :=
  String.ofList i.chars

theorem isDottedChar_of_mem {i : Identifier} {c : Char} (hc : c ∈ i.chars) :
    Text.isDottedChar c = true := by
  rw [Text.isDottedChar, (Text.continues_of_isIdentifierChars i.valid).2 c hc, Bool.true_or]

end Identifier

structure QuotedText where
  quote : Char
  contents : List Char
  isQuote : quote = '"' ∨ quote = '\''
  valid : Text.Quotable quote contents

def QuotedText.chars (q : QuotedText) : List Char :=
  q.quote :: (q.contents ++ [q.quote])

/-- A number as it is written. -/
structure Numeral where
  digits : List Char
  valid : digits ≠ [] ∧ ∀ d ∈ digits, d.isDigit = true

mutual

/-- A type name: identifiers with points between them, or such a name with type arguments and
points and identifiers behind them. -/
inductive TypeRef where
  | plain (head : Identifier) (members : List Identifier)
  | applied (head : Identifier) (members : List Identifier) (arguments : TypeArguments)
      (more : List Identifier)

inductive TypeArguments where
  | one (a : TypeArgument)
  | cons (a : TypeArgument) (rest : TypeArguments)

inductive TypeArgument where
  | name (r : TypeRef)
  | quoted (q : QuotedText)
  | number (n : Numeral)
  | array (element : TypeArgument)
  | choice (first second : TypeArgument)

end

def pointed (members : List Identifier) : List Char :=
  members.flatMap fun i => '.' :: i.chars

def TypeRef.head : TypeRef → Identifier
  | .plain head _ => head
  | .applied head _ _ _ => head

mutual

/-- The characters of a type name behind its first identifier. -/
def TypeRef.behind : TypeRef → List Char
  | .plain _ members => pointed members
  | .applied _ members arguments more =>
      pointed members ++ '<' :: (arguments.chars ++ '>' :: pointed more)

def TypeArguments.chars : TypeArguments → List Char
  | .one a => a.chars
  | .cons a rest => a.chars ++ ',' :: ' ' :: rest.chars

def TypeArgument.chars : TypeArgument → List Char
  | .name r => r.head.chars ++ r.behind
  | .quoted q => q.chars
  | .number n => n.digits
  | .array element => element.chars ++ ['[', ']']
  | .choice first second => first.chars ++ ' ' :: '|' :: ' ' :: second.chars

end

def TypeRef.text (r : TypeRef) : String :=
  String.ofList (r.head.chars ++ r.behind)

mutual

/-- The first identifiers of the type names inside a type name. -/
def TypeRef.inner : TypeRef → List Identifier
  | .plain _ _ => []
  | .applied _ _ arguments _ => arguments.heads

def TypeArguments.heads : TypeArguments → List Identifier
  | .one a => a.heads
  | .cons a rest => a.heads ++ rest.heads

def TypeArgument.heads : TypeArgument → List Identifier
  | .name r => r.head :: r.inner
  | .quoted _ => []
  | .number _ => []
  | .array element => element.heads
  | .choice first second => first.heads ++ second.heads

end

/-! ## Names in characters -/

namespace TypeName

open Text

/-- The names that begin in the characters, string literals cut out. -/
def found (inside : Bool) (cs : List Char) : List (List Char) :=
  leadingNames inside (dropLiterals 0 cs)

/-- Whether the character goes on neither an identifier nor a name, and is no quote. -/
def isMark (c : Char) : Bool :=
  !isDottedChar c && c != '"' && c != '\''

/-- The characters do not begin with what goes on an identifier, nor with a quote. -/
def Ends (cs : List Char) : Prop :=
  ∀ c ∈ cs.head?, continuesIdentifier c = false ∧ c ≠ '"' ∧ c ≠ '\''

section Scan

variable {cs ds rest : List Char} {c : Char}

theorem Ends.nil : Ends [] := by
  simp [Ends]

theorem Ends.point : Ends ('.' :: cs) := by
  rintro c ⟨⟩
  decide

theorem Ends.mark (h : isMark c = true) : Ends (c :: cs) := by
  rintro c ⟨⟩
  simp only [isMark, isDottedChar, Bool.and_eq_true, Bool.not_eq_true', Bool.or_eq_false_iff,
    bne_iff_ne] at h
  exact ⟨h.1.1.1, h.1.2, h.2⟩

theorem Ends.append (h : Ends cs) (hrest : Ends rest) : Ends (cs ++ rest) := by
  cases cs with
  | nil => exact hrest
  | cons c cs => exact h

theorem Ends.not_quote (h : Ends (c :: cs)) : ¬ (c = '"' ∨ c = '\'') :=
  not_or.mpr (h c rfl).2

theorem Ends.not_starts (h : Ends (c :: cs)) : startsIdentifier c = false :=
  Bool.eq_false_iff.mpr fun hstarts =>
    Bool.eq_false_iff.mp (h c rfl).1 (continuesIdentifier_of_starts hstarts)

theorem found_cons (hquote : ¬ (c = '"' ∨ c = '\'')) (hstarts : startsIdentifier c = false)
    (inside : Bool) : found inside (c :: cs) = found (isDottedChar c) cs := by
  rw [found, dropLiterals, if_neg hquote, leadingNames, hstarts, Bool.and_false]
  rfl

theorem found_mark (h : isMark c = true) : found false (c :: cs) = found false cs := by
  have hends : Ends (c :: cs) := .mark h
  have hdotted : isDottedChar c = false := by
    simp only [isMark, Bool.and_eq_true, Bool.not_eq_true'] at h
    exact h.1.1
  rw [found_cons hends.not_quote hends.not_starts, hdotted]

theorem found_inside (h : ∀ c ∈ cs, isDottedChar c = true) :
    found true (cs ++ rest) = found true rest := by
  rw [found, dropLiterals_append h, leadingNames_append h, found]

theorem found_of_ends (h : Ends rest) : found true rest = found false rest := by
  cases rest with
  | nil => rfl
  | cons c rest => rw [found_cons h.not_quote h.not_starts, found_cons h.not_quote h.not_starts]

theorem takeWhile_of_ends (h : Ends rest) :
    (dropLiterals 0 rest).takeWhile continuesIdentifier = [] := by
  cases rest with
  | nil => rfl
  | cons c rest =>
      rw [dropLiterals, if_neg h.not_quote, List.takeWhile_cons_of_neg (by simp [(h c rfl).1])]

theorem found_identifier (i : Identifier) (hrest : Ends rest) :
    found false (i.chars ++ rest) = i.chars :: found false rest := by
  have hdotted : ∀ d ∈ i.chars, isDottedChar d = true := fun d => i.isDottedChar_of_mem
  obtain ⟨cs, hvalid⟩ := i
  cases cs with
  | nil => cases hvalid
  | cons c cs =>
      obtain ⟨hstarts, hcontinues⟩ := Bool.and_eq_true_iff.mp hvalid
      rw [List.all_eq_true] at hcontinues
      obtain ⟨hfirst, htail⟩ := List.forall_mem_cons.mp hdotted
      have hinside : (continuesIdentifier c || c == '.') = true := hfirst
      have hgone : found true (cs ++ rest) = found false rest := by
        rw [found_inside htail, found_of_ends hrest]
      have hword : (dropLiterals 0 (cs ++ rest)).takeWhile continuesIdentifier = cs := by
        rw [dropLiterals_append htail, List.takeWhile_append_of_pos hcontinues,
          takeWhile_of_ends hrest, List.append_nil]
      rw [List.cons_append, found, dropLiterals, if_neg (not_quote_of_isDottedChar hfirst),
        leadingNames, hstarts, hinside, hword]
      exact congrArg (List.cons (c :: cs)) hgone

theorem dropLiterals_length (cs rest : List Char) :
    dropLiterals cs.length (cs ++ rest) = dropLiterals 0 rest := by
  induction cs with
  | nil => rfl
  | cons c cs ih => exact ih

theorem literalLength?_of_quotable {quote : Char} (hquote : quote ≠ '\\')
    (h : Quotable quote cs) :
    literalLength? quote (cs ++ quote :: rest) = some (cs ++ [quote]).length := by
  -- Each step looks at one character more than it takes.
  have hnext : ∀ ds : List Char, ∃ d es, ds ++ quote :: rest = d :: es := fun ds => by
    cases ds with
    | nil => exact ⟨_, _, rfl⟩
    | cons d ds => exact ⟨_, _, rfl⟩
  induction h with
  | nil => cases rest <;> simp [literalLength?]
  | @plain c cs hend hescape _ _ ih =>
      obtain ⟨d, es, hcs⟩ := hnext cs
      rw [List.cons_append, hcs, literalLength?, if_neg hend, if_neg hescape, ← hcs, ih]
      simp
  | @escaped c cs hbreak _ ih =>
      rw [List.cons_append, List.cons_append, literalLength?, if_neg hquote.symm, if_pos rfl,
        if_neg hbreak, ih]
      simp

theorem found_quoted (q : QuotedText) (inside : Bool) :
    found inside (q.chars ++ rest) = found inside rest := by
  obtain ⟨quote, contents, isQuote, valid⟩ := q
  have hescape : quote ≠ '\\' := by rcases isQuote with rfl | rfl <;> decide
  have hchars : (quote :: (contents ++ [quote])) ++ rest =
      quote :: (contents ++ quote :: rest) := by
    simp
  rw [found, QuotedText.chars, hchars, dropLiterals, if_pos isQuote,
    literalLength?_of_quotable hescape valid]
  dsimp only
  rw [List.append_cons contents quote rest, dropLiterals_length, found]

theorem found_numeral (n : Numeral) (hrest : Ends rest) :
    found false (n.digits ++ rest) = found false rest := by
  obtain ⟨digits, hne, hdigits⟩ := n
  have hcontinues : ∀ d ∈ digits, isDottedChar d = true := fun d hd => by
    simp [isDottedChar, continuesIdentifier, Char.isAlphanum, hdigits d hd]
  cases digits with
  | nil => exact absurd rfl hne
  | cons d ds =>
      have hdotted := hcontinues d List.mem_cons_self
      have hstarts : startsIdentifier d = false :=
        startsIdentifier_of_isDigit (hdigits d List.mem_cons_self)
      rw [List.cons_append, found_cons (not_quote_of_isDottedChar hdotted) hstarts, hdotted,
        found_inside fun d hd => hcontinues d (List.mem_cons_of_mem _ hd), found_of_ends hrest]

end Scan

theorem leadingIdentifier?_append (i : Identifier) {rest : List Char} (hrest : Ends rest) :
    leadingIdentifier? (i.chars ++ rest) = some i.chars := by
  obtain ⟨cs, hvalid⟩ := i
  cases cs with
  | nil => cases hvalid
  | cons c cs =>
      obtain ⟨hstarts, hcontinues⟩ := Bool.and_eq_true_iff.mp hvalid
      rw [List.cons_append, leadingIdentifier?, if_pos hstarts,
        List.takeWhile_append_of_pos (List.all_eq_true.mp hcontinues)]
      cases rest with
      | nil => simp
      | cons d rest => rw [List.takeWhile_cons_of_neg (by simp [(hrest d rfl).1]), List.append_nil]

/-! ### Names in a piece of a type name -/

/-- Just the given names are found in the characters, whatever stands behind them that ends
them. -/
def Refers (cs : List Char) (heads : List Identifier) : Prop :=
  ∀ rest, Ends rest →
    found false (cs ++ rest) = heads.map Identifier.chars ++ found false rest

namespace Refers

variable {cs ds : List Char} {heads others : List Identifier} {c : Char}

theorem nil : Refers [] [] :=
  fun _ _ => rfl

theorem append (h : Refers cs heads) (hends : Ends ds) (h' : Refers ds others) :
    Refers (cs ++ ds) (heads ++ others) := fun rest hrest => by
  rw [List.append_assoc, h _ (hends.append hrest), h' rest hrest, List.map_append,
    List.append_assoc]

theorem mark (hc : isMark c = true) (h : Refers cs heads) : Refers (c :: cs) heads :=
  fun rest hrest => by rw [List.cons_append, found_mark hc, h rest hrest]

theorem identifier (i : Identifier) : Refers i.chars [i] :=
  fun _ hrest => found_identifier i hrest

theorem quoted (q : QuotedText) : Refers q.chars [] :=
  fun _ _ => found_quoted q false

theorem numeral (n : Numeral) : Refers n.digits [] :=
  fun _ hrest => found_numeral n hrest

end Refers

theorem isDottedChar_of_mem_pointed {members : List Identifier} {c : Char}
    (hc : c ∈ pointed members) : isDottedChar c = true := by
  obtain ⟨i, -, hc⟩ := List.mem_flatMap.mp hc
  rcases List.mem_cons.mp hc with rfl | hc
  · rfl
  · exact i.isDottedChar_of_mem hc

theorem ends_pointed (members : List Identifier) : Ends (pointed members) := by
  cases members with
  | nil => exact .nil
  | cons => exact .point

theorem refers_pointed (members : List Identifier) : Refers (pointed members) [] := by
  induction members with
  | nil => exact .nil
  | cons i members ih =>
      intro rest hrest
      have hpoint : pointed (i :: members) ++ rest =
          '.' :: (i.chars ++ (pointed members ++ rest)) := by
        simp [pointed]
      rw [hpoint, found_cons (by decide) (by decide)]
      change found true _ = _
      rw [found_inside fun d => i.isDottedChar_of_mem,
        found_of_ends ((ends_pointed members).append hrest), ih rest hrest]

end TypeName

open ClientSdk.TypeName

theorem TypeRef.ends_behind (r : TypeRef) : Ends r.behind := by
  cases r with
  | plain _ members => exact ends_pointed members
  | applied _ members _ _ => exact (ends_pointed members).append (.mark (by decide))

mutual

/-- The names found behind the first identifier of a type name are the first identifiers of the
type names inside. -/
theorem TypeRef.refers_behind : (r : TypeRef) → Refers r.behind r.inner
  | .plain _ members => refers_pointed members
  | .applied _ members arguments more => by
      have hmore : Refers ('>' :: pointed more) [] := (refers_pointed more).mark (by decide)
      have harguments := arguments.refers.append (.mark (by decide)) hmore
      rw [List.append_nil] at harguments
      exact (refers_pointed members).append (.mark (by decide)) (harguments.mark (by decide))

theorem TypeArguments.refers : (as : TypeArguments) → Refers as.chars as.heads
  | .one a => a.refers
  | .cons a rest =>
      a.refers.append (.mark (by decide)) ((rest.refers.mark (by decide)).mark (by decide))

theorem TypeArgument.refers : (a : TypeArgument) → Refers a.chars a.heads
  | .name r => (Refers.identifier r.head).append r.ends_behind r.refers_behind
  | .quoted q => .quoted q
  | .number n => .numeral n
  | .array element => by
      have hbrackets : Refers ['[', ']'] [] := (Refers.nil.mark (by decide)).mark (by decide)
      have hrefers := element.refers.append (.mark (by decide)) hbrackets
      rwa [List.append_nil] at hrefers
  | .choice first second =>
      first.refers.append (.mark (by decide))
        (((second.refers.mark (by decide)).mark (by decide)).mark (by decide))

end

namespace TypeRef

open Text

variable (r : TypeRef)

/-- The names that are imported for a type name: the first identifier, and those of the type
names inside that are not known without an import. -/
def imported : List Identifier :=
  r.head :: r.inner.filter fun i => !isKnownWord i.text

theorem references_behind :
    references r.behind = (r.inner.filter fun i => !isKnownWord i.text).map Identifier.text := by
  have hfound := r.refers_behind [] .nil
  rw [List.append_nil, found, found] at hfound
  rw [references, hfound, leadingNames.eq_def]
  simp [dropLiterals, Identifier.text, List.filter_map, Function.comp_def]

theorem trimChars_text : trimChars r.text.toList = r.head.chars ++ r.behind := by
  rw [text, String.toList_ofList]
  refine trimOf_eq_self_of_ends (fun c hc => ?_) fun c hc => ?_
  · have hne : r.head.chars ≠ [] := (continues_of_isIdentifierChars r.head.valid).1
    rw [List.head?_append_of_ne_nil _ hne] at hc
    exact not_isBlank_of_isDottedChar (r.head.isDottedChar_of_mem (List.mem_of_head? hc))
  · cases r with
    | plain head members =>
        rcases List.mem_append.mp (List.mem_of_getLast? hc) with hc | hc
        · exact not_isBlank_of_isDottedChar (head.isDottedChar_of_mem hc)
        · exact not_isBlank_of_isDottedChar (isDottedChar_of_mem_pointed hc)
    | applied head members arguments more =>
        have hcut : (applied head members arguments more).behind =
            (pointed members ++ '<' :: arguments.chars) ++ '>' :: pointed more := by
          simp [behind]
        rw [hcut, ← List.append_assoc, List.getLast?_append_of_ne_nil _ (by simp)] at hc
        rcases List.mem_cons.mp (List.mem_of_getLast? hc) with rfl | hc
        · decide
        · exact not_isBlank_of_isDottedChar (isDottedChar_of_mem_pointed hc)

theorem typeRoot_text : typeRoot r.text = .ok r.head.text := by
  rw [typeRoot, trimChars_text, leadingIdentifier?_append r.head r.ends_behind]
  rfl

theorem drop_text : (trimChars r.text.toList).drop r.head.text.length = r.behind := by
  rw [trimChars_text, Identifier.text, String.length_ofList, List.drop_left]

end TypeRef

/-! ## Imports -/

namespace TypeExpr

variable {c : Config} {part : ShapePart}

/-- A part that refers to a type by a name of the grammar wants the names that are imported for
it. -/
theorem ofPart_of_names_text {r : TypeRef} (h : part.Names r.text) :
    ofPart c part =
      ⟨r.imported.map fun i => c.rootImport i.text, .ok [.reference r.text]⟩ := by
  rw [ofPart_of_names c h, ofName_eq c r.typeRoot_text, r.drop_text, r.references_behind]
  simp [Draft.bind_ok, Draft.pure_def, TypeRef.imported]

/-- A shape that is described by a type name of the grammar alone is written as that name.  Where
this succeeds, just the first identifier of the name is registered and those of the type names
inside that are not known without an import, each from its own file and unless that is the file
itself; nothing is registered for what follows a point or stands between quotes. -/
theorem reference_imports {r : TypeRef} {s : TypeShape} {inEscape : Bool} {t : TypeExpr}
    {l l' : Ledger} (hnames : part.Names r.text) (honly : s.parts inEscape = [part])
    (hwrite : l.fulfil (ofShape c inEscape s) = (.ok t, l')) :
    t = .reference r.text ∧
      l.Gains ((r.imported.filter fun i => !l.isOwn (c.fileOfRoot i.text)).map fun i =>
        c.rootImport i.text) l' := by
  have hshape : ofShape c inEscape s =
      ⟨r.imported.map fun i => c.rootImport i.text, .ok (.reference r.text)⟩ := by
    rw [ofShape_eq, honly, ofParts_cons, ofParts_nil, ofPart_of_names_text hnames,
      map_eq_pure_bind]
    simp [Draft.bind_ok, Draft.pure_def, unionOf]
  obtain ⟨hgranted, hresult⟩ := Ledger.registerAll_of_fulfil hwrite
  rw [hshape] at hgranted hresult
  refine ⟨(Except.ok.inj hresult).symm, ?_⟩
  have himports : ∀ r' ∈ r.imported.map fun i => c.rootImport i.text, r'.IsTypeImport := by
    intro r' hr'
    obtain ⟨i, -, rfl⟩ := List.mem_map.mp hr'
    exact ⟨rfl, rfl⟩
  have hwanted : l.wanted (r.imported.map fun i => c.rootImport i.text) =
      (r.imported.filter fun i => !l.isOwn (c.fileOfRoot i.text)).map fun i =>
        c.rootImport i.text := by
    rw [Ledger.wanted, List.filter_map]
    simp [Function.comp_def, Ledger.skips_rootImport]
  exact hwanted ▸ Ledger.gains_of_registerAll himports hgranted

/-- A type name with arguments in arguments, a quoted text with a quote and a name in it, and a
member behind the arguments. -/
def pageRef : TypeRef :=
  .applied ⟨"IPage".toList, by decide⟩ []
    (.cons
      (.name (.applied ⟨"Record".toList, by decide⟩ []
        (.cons (.name (.plain ⟨"string".toList, by decide⟩ []))
          (.one (.array (.name (.plain ⟨"IMember".toList, by decide⟩
            [⟨"ISummary".toList, by decide⟩])))))
        []))
      (.cons
        (.choice (.quoted ⟨'"', "it's IGhost".toList, .inl rfl, Text.quotable_of_plain (by decide)⟩)
          (.number ⟨"10".toList, by decide, List.all_eq_true.mp (by decide)⟩))
        (.one (.name (.plain ⟨"IOwn".toList, by decide⟩ [])))))
    [⟨"IData".toList, by decide⟩]

def pageShape : TypeShape :=
  { aliases := [{ name := .text pageRef.text }] }

/-- The statement in the file of one of the types that are referred to. -/
theorem reference_imports_of_pageRef :
    pageRef.text = "IPage<Record<string, IMember.ISummary[]>, \"it's IGhost\" | 10, IOwn>.IData" ∧
      (Ledger.forFile .root "api/structures/IOwn.ts").Gains
        [{ Registration.fromFile "api/structures/IPage.ts" "IPage" with unlessOwn := true },
          { Registration.fromFile "api/structures/IMember.ts" "IMember" with unlessOwn := true }]
        ((Ledger.forFile .root "api/structures/IOwn.ts").fulfil
          (ofShape { output := "api" } false pageShape)).2 := by
  have htext : pageRef.text =
      "IPage<Record<string, IMember.ISummary[]>, \"it's IGhost\" | 10, IOwn>.IData" := by
    decide +kernel
  have hgranted : ((Ledger.forFile .root "api/structures/IOwn.ts").fulfil
      (ofShape { output := "api" } false pageShape)).1.toOption.isSome = true := by
    decide +kernel
  have himported : ((pageRef.imported.filter fun i =>
      !(Ledger.forFile .root "api/structures/IOwn.ts").isOwn
        (Config.fileOfRoot { output := "api" } i.text)).map fun i =>
          Config.rootImport { output := "api" } i.text) =
      [{ Registration.fromFile "api/structures/IPage.ts" "IPage" with unlessOwn := true },
        { Registration.fromFile "api/structures/IMember.ts" "IMember" with
          unlessOwn := true }] := by
    decide +kernel
  have hnames : (ShapePart.declared { name := .text pageRef.text }).Names pageRef.text :=
    .declared rfl
  have honly : pageShape.parts false = [.declared { name := .text pageRef.text }] := rfl
  generalize hwrite : (Ledger.forFile .root "api/structures/IOwn.ts").fulfil
    (ofShape { output := "api" } false pageShape) = written at hgranted ⊢
  obtain ⟨result, after⟩ := written
  cases result with
  | error fault => cases hgranted
  | ok t =>
      have hgains := (reference_imports hnames honly hwrite).2
      rw [himported] at hgains
      exact ⟨htext, hgains⟩

end TypeExpr

end ClientSdk
