import ClientSdk.Proofs.Stub.Texts
import ClientSdk.Proofs.Text.Literal
import ClientSdk.Proofs.TypeExpr.Phrase

/-!
# Object literals read back

An object literal is read from its opening brace to the closing one that belongs to it: bare
keys, each with a value and a comma behind it, where a value is a string literal, null, a truth
value, an integer or an object literal again.  What stands behind it is left as it is.

The characters are passed over once.  Blanks between them do not count, so what is read does not
depend on how far the lines are moved in (`foldl_moved`), and the items of a text are put together
from those of its parts (`Gives`).  Whatever its strings hold, an object of the generated code is
read back as the record that it is written for (`read?_object`).
-/

namespace ClientSdk.RecordText

open Text (moved front)

/-! ## The reader -/

/-- What stands between two braces.  What has quotes or braces of its own has been read by then,
if it could be. -/
inductive Item where
  | char (c : Char)
  | text (s : Option String)
  | record (members : Option (List (String × Value)))

def Item.is (c : Char) : Item → Bool
  | .char d => d == c
  | _ => false

def Item.char? : Item → Option Char
  | .char c => some c
  | _ => none

def ofWord? (word : List Char) : Option Value :=
  if word = "null".toList then some .null
  else if word = "true".toList then some (.bool true)
  else if word = "false".toList then some (.bool false)
  else (Text.integer? word).map .int

def value? : List Item → Option Value
  | [.text s] => s.map .text
  | [.record members] => members.map .map
  | items => (items.mapM Item.char?).bind ofWord?

def member? (items : List Item) : Option (String × Value) :=
  match items.splitOnP (Item.is ':') with
  | [key, value] => do return (String.ofList (← key.mapM Item.char?), ← value? value)
  | _ => none

/-- The members of an object literal, each with a comma behind it. -/
def members? (items : List Item) : Option (List (String × Value)) :=
  let parts := items.splitOnP (Item.is ',')
  if parts.getLast?.any List.isEmpty then parts.dropLast.mapM member? else none

/-- How far an object literal has been read: between braces, with the items in front of each of
those that are open around it, in a string literal, or to its end. -/
inductive State where
  | code (items : List Item) (outer : List (List Item))
  | string (raw : List Char) (escaped : Bool) (items : List Item) (outer : List (List Item))
  | ended (members : Option (List (String × Value)))
  | stuck

def close (items : List Item) : List (List Item) → State
  | [] => .ended (members? items)
  | before :: outer => .code (before ++ [.record (members? items)]) outer

/-- Behind one more character. -/
def step : State → Char → State
  | .code items outer, c =>
      if c = ' ' ∨ c = '\n' then .code items outer
      else if c = '"' then .string ['"'] false items outer
      else if c = '\x7b' then .code [] (items :: outer)
      else if c = '\x7d' then close items outer
      else .code (items ++ [.char c]) outer
  | .string raw escaped items outer, c =>
      if c = '\n' then .stuck
      else if escaped then .string (raw ++ [c]) false items outer
      else if c = '\\' then .string (raw ++ [c]) true items outer
      else if c = '"' then .code (items ++ [.text (Text.unquote? (raw ++ [c]))]) outer
      else .string (raw ++ [c]) false items outer
  | _, _ => .stuck

/-- The record that the characters go on with, and what stands behind it. -/
def run : State → List Char → Option (Value × List Char)
  | .ended members, cs => members.map fun ms => (.map ms, cs)
  | _, [] => none
  | state, c :: cs => run (step state c) cs

/-- The record that the characters begin with, and what stands behind it. -/
def read? : List Char → Option (Value × List Char)
  | '\x7b' :: cs => run (.code [] []) cs
  | _ => none

/-! ## Runs -/

variable {cs ds : List Char} {items more : List Item}

theorem foldl_stuck (cs : List Char) : cs.foldl step .stuck = .stuck := by
  induction cs with
  | nil => rfl
  | cons c cs ih => exact ih

theorem run_append {state : State} (h : cs.foldl step state ≠ .stuck) (ds : List Char) :
    run state (cs ++ ds) = run (cs.foldl step state) ds := by
  induction cs generalizing state with
  | nil => rfl
  | cons c cs ih =>
      cases state with
      | ended => exact absurd (foldl_stuck cs) h
      | stuck => exact absurd (foldl_stuck cs) h
      | code items outer => exact ih h
      | string raw escaped items outer => exact ih h

theorem foldl_blanks_break (n : Nat) (state : State) :
    (List.replicate n ' ').foldl step (step state '\n') = step state '\n' := by
  induction n with
  | zero => rfl
  | succ n ih =>
      have hblank : step (step state '\n') ' ' = step state '\n' := by
        cases state <;> rfl
      rw [List.replicate_succ, List.foldl_cons, hblank, ih]

theorem foldl_moved (n : Nat) (cs : List Char) (state : State) :
    (moved (List.replicate n ' ') cs).foldl step state = cs.foldl step state := by
  have hfront : ∀ cs state, (front (List.replicate n ' ') cs).foldl step (step state '\n') =
      step state '\n' := by
    intro cs state
    cases cs with
    | nil => rfl
    | cons c cs =>
        rw [front]
        split
        · rfl
        · exact foldl_blanks_break n state
  induction cs generalizing state with
  | nil => rfl
  | cons c cs ih =>
      by_cases hc : c = '\n'
      · subst hc
        rw [Text.moved_break, List.foldl_cons, List.foldl_append, hfront, ih, List.foldl_cons]
      · rw [Text.moved_cons_of_ne hc, List.foldl_cons, ih, List.foldl_cons]

/-! ## Items of texts -/

/-- The characters are cut into the items wherever they stand between braces. -/
def Gives (cs : List Char) (items : List Item) : Prop :=
  ∀ before outer, cs.foldl step (.code before outer) = .code (before ++ items) outer

theorem Gives.nil : Gives [] [] := by
  intro before outer
  rw [List.foldl_nil, List.append_nil]

theorem Gives.append (h : Gives cs items) (h' : Gives ds more) :
    Gives (cs ++ ds) (items ++ more) := by
  intro before outer
  rw [List.foldl_append, h, h', List.append_assoc]

theorem Gives.blanks (h : ∀ c ∈ cs, c = ' ' ∨ c = '\n') : Gives cs [] := by
  induction cs with
  | nil => exact .nil
  | cons c cs ih =>
      obtain ⟨hc, hcs⟩ := List.forall_mem_cons.mp h
      intro before outer
      rw [List.foldl_cons, step, if_pos hc, ih hcs]

/-- The characters of keys, of words and of integers. -/
def isPlain (c : Char) : Bool :=
  c.isAlphanum || c == '-'

theorem ne_of_isPlain {c d : Char} (h : isPlain c = true)
    (hd : d ∈ [' ', '\n', '"', '\x7b', '\x7d', ',', ':']) : c ≠ d := by
  rintro rfl
  have hnone : [' ', '\n', '"', '\x7b', '\x7d', ',', ':'].all (fun d => !isPlain d) = true := rfl
  have hc := List.all_eq_true.mp hnone c hd
  rw [h] at hc
  cases hc

theorem Gives.char {c : Char} (h : c ∉ [' ', '\n', '"', '\x7b', '\x7d']) : Gives [c] [.char c] := by
  simp only [List.mem_cons, List.not_mem_nil, or_false, not_or] at h
  obtain ⟨hblank, hbreak, hquote, hopen, hclose⟩ := h
  intro before outer
  rw [List.foldl_cons, List.foldl_nil, step, if_neg (not_or.mpr ⟨hblank, hbreak⟩), if_neg hquote,
    if_neg hopen, if_neg hclose]

theorem Gives.plain (h : ∀ c ∈ cs, isPlain c = true) : Gives cs (cs.map .char) := by
  induction cs with
  | nil => exact .nil
  | cons c cs ih =>
      obtain ⟨hc, hcs⟩ := List.forall_mem_cons.mp h
      refine (Gives.char fun hspecial => ?_).append (ih hcs)
      exact ne_of_isPlain hc (List.mem_append_left [',', ':'] hspecial) rfl

theorem foldl_quotable (h : Text.Quotable '"' cs) (raw : List Char) (items : List Item)
    (outer : List (List Item)) : cs.foldl step (.string raw false items outer) =
      .string (raw ++ cs) false items outer := by
  induction h generalizing raw with
  | nil => rw [List.foldl_nil, List.append_nil]
  | @plain c cs hquote hslash hbreak _ ih =>
      rw [List.foldl_cons, step, if_neg hbreak, if_neg Bool.false_ne_true, if_neg hslash,
        if_neg hquote, ih, List.append_assoc, List.singleton_append]
  | @escaped c cs hbreak _ ih =>
      have hescape : step (.string raw false items outer) '\\' =
          .string (raw ++ ['\\']) true items outer := rfl
      rw [List.foldl_cons, List.foldl_cons, hescape, step, if_neg hbreak, if_pos rfl, ih]
      simp

/-- A string literal is one item, and is read as its text. -/
theorem Gives.literal (charset : Text.Charset) (s : String) :
    Gives (Text.literal charset s).toList [.text (some s)] := by
  have hraw := Text.unquote?_literal charset s
  intro before outer
  simp only [Text.literal, Text.literalChars, String.toList_ofList] at hraw ⊢
  have hopen : step (.code before outer) '"' = .string ['"'] false before outer := rfl
  have hclose : ∀ raw, step (.string raw false before outer) '"' =
      .code (before ++ [.text (Text.unquote? (raw ++ ['"']))]) outer := fun _ => rfl
  rw [List.foldl_cons, hopen, List.foldl_append, foldl_quotable (Text.quotable_flatMap _ _),
    List.foldl_cons, hclose, List.foldl_nil, List.append_assoc, List.singleton_append, hraw]

theorem Gives.record (h : Gives cs items) :
    Gives ('\x7b' :: (cs ++ ['\x7d'])) [.record (members? items)] := by
  intro before outer
  have hopen : step (.code before outer) '\x7b' = .code [] (before :: outer) := rfl
  have hclose : step (.code items (before :: outer)) '\x7d' =
      .code (before ++ [.record (members? items)]) outer := rfl
  rw [List.foldl_cons, hopen, List.foldl_append, h, List.nil_append, List.foldl_cons, hclose,
    List.foldl_nil]

theorem Gives.indent {s : String} (h : Gives s.toList items) :
    Gives (Text.indent s).toList items := by
  have hmargin : "  ".toList = List.replicate 2 ' ' := rfl
  have hfront : Gives (front (List.replicate 2 ' ') s.toList) [] := by
    refine .blanks fun c hc => ?_
    cases hs : s.toList with
    | nil => rw [hs] at hc; cases hc
    | cons d ds =>
        rw [hs, front] at hc
        split at hc
        · cases hc
        · exact .inl (List.eq_of_mem_replicate hc)
  have hmoved : Gives (moved (List.replicate 2 ' ') s.toList) items := by
    intro before outer
    rw [foldl_moved, h]
  rw [Text.indent, Text.toList_indentBy, hmargin]
  exact hfront.append hmoved

/-- Lines give what they give one after the other. -/
theorem Gives.unlines {texts : List String} {itemss : List (List Item)}
    (h : List.Forall₂ (fun text items => Gives text.toList items) texts itemss) :
    Gives (Text.unlines texts).toList itemss.flatten := by
  induction h with
  | nil => exact .nil
  | @cons text items texts itemss hfirst hrest ih =>
      cases hrest with
      | nil => simpa [Text.unlines] using hfirst
      | @cons next others _ _ _ _ =>
          have hbreak : Gives "\n".toList [] := .blanks (by simp)
          rw [Text.unlines, String.intercalate_cons_of_ne_nil (List.cons_ne_nil next _),
            String.toList_append, String.toList_append, List.flatten_cons,
            ← List.append_nil items]
          exact (hfirst.append hbreak).append ih

/-! ## Values -/

/-- The text is read as the value, wherever it stands between braces. -/
structure ReadsAs (text : String) (v : Value) : Prop where
  items : ∃ items, Gives text.toList items ∧ (∀ i ∈ items, i.is ',' = false ∧ i.is ':' = false) ∧
    value? items = some v

theorem readsAs_literal (charset : Text.Charset) (s : String) :
    ReadsAs (Text.literal charset s) (.text s) :=
  ⟨_, .literal charset s, by simp [Item.is], rfl⟩

theorem apart_of_isPlain (h : ∀ c ∈ cs, isPlain c = true) :
    ∀ i ∈ cs.map Item.char, i.is ',' = false ∧ i.is ':' = false := by
  intro i hi
  obtain ⟨c, hc, rfl⟩ := List.mem_map.mp hi
  simp only [Item.is, beq_eq_false_iff_ne]
  exact ⟨ne_of_isPlain (h c hc) (by decide), ne_of_isPlain (h c hc) (by decide)⟩

theorem mapM_char? (cs : List Char) : (cs.map Item.char).mapM Item.char? = some cs := by
  rw [List.mapM_map]
  exact TypeText.mapM_of_forall₂ (List.forall₂_same.mpr fun c _ => rfl)

theorem readsAs_word {word : String} {v : Value} (h : word.toList.all isPlain = true)
    (hv : ofWord? word.toList = some v) : ReadsAs word v := by
  have hplain := List.all_eq_true.mp h
  refine ⟨_, .plain hplain, apart_of_isPlain hplain, ?_⟩
  have hvalue : value? (word.toList.map .char) = ofWord? word.toList := by
    have hchars := mapM_char? word.toList
    cases hcs : word.toList with
    | nil => rfl
    | cons c cs =>
        rw [hcs, List.map_cons] at hchars
        rw [List.map_cons, value?, hchars, Option.bind_some]
        · rintro s ⟨⟩
        · rintro members ⟨⟩
  rw [hvalue, hv]

theorem readsAs_null : ReadsAs "null" .null :=
  readsAs_word (by decide) rfl

theorem readsAs_bool (b : Bool) : ReadsAs (if b then "true" else "false") (.bool b) := by
  cases b <;> exact readsAs_word (by decide) rfl

theorem readsAs_int (n : Int) : ReadsAs (toString n) (.int n) := by
  refine readsAs_word (List.all_eq_true.mpr fun c hc => ?_) ?_
  · rcases Text.mem_toString hc with hdigit | rfl
    · simp [isPlain, Char.isAlphanum, hdigit]
    · rfl
  · have hnull : (toString n).toList ≠ "null".toList :=
      Text.ne_toString (c := 'n') (by decide) (by decide) (by decide)
    have htrue : (toString n).toList ≠ "true".toList :=
      Text.ne_toString (c := 't') (by decide) (by decide) (by decide)
    have hfalse : (toString n).toList ≠ "false".toList :=
      Text.ne_toString (c := 'f') (by decide) (by decide) (by decide)
    rw [ofWord?, if_neg hnull, if_neg htrue, if_neg hfalse, Text.integer?_toString]
    rfl

/-! ## Object literals -/

/-- A field of an object literal with the value that it is read as. -/
structure Field where
  key : String
  code : Code
  value : Value

/-- The key of a field can be read, and so can its value. -/
structure Field.Reads (f : Field) : Prop where
  key : f.key.toList.all isPlain = true
  value : ReadsAs f.code.text f.value

def objectOf (fields : List Field) : Code :=
  .object (fields.map fun f => .field f.key f.code)

def recordOf (fields : List Field) : List (String × Value) :=
  fields.map fun f => (f.key, f.value)

theorem exists_member {f : Field} (h : f.Reads) : ∃ items,
    Gives (f.key ++ ": " ++ f.code.text ++ ",").toList (items ++ [.char ',']) ∧
      (∀ i ∈ items, i.is ',' = false) ∧ member? items = some (f.key, f.value) := by
  obtain ⟨value, hvalue, hapart, hread⟩ := h.value.items
  have hplain := List.all_eq_true.mp h.key
  have hkey := apart_of_isPlain hplain
  have hblank : Gives [' '] [] := .blanks (by simp)
  have hcolon : Gives ": ".toList [.char ':'] := (Gives.char (by decide)).append hblank
  refine ⟨f.key.toList.map .char ++ .char ':' :: value, ?_, ?_, ?_⟩
  · have hgives := (((Gives.plain hplain).append hcolon).append hvalue).append
      (Gives.char (c := ',') (by decide))
    have hcomma : ",".toList = [','] := rfl
    simpa only [String.toList_append, hcomma, List.append_assoc, List.cons_append,
      List.nil_append] using hgives
  · intro i hi
    rcases List.mem_append.mp hi with hi | hi
    · exact (hkey i hi).1
    · rcases List.mem_cons.mp hi with rfl | hi
      · rfl
      · exact (hapart i hi).1
  · rw [member?, TypeText.splitOnP_pair (by simp [Item.is]) (fun i hi => (hkey i hi).2)
      fun i hi => (hapart i hi).2]
    simp only [mapM_char?, hread, Option.bind_eq_bind, Option.bind_some, String.ofList_toList]
    rfl

theorem exists_inside {fields : List Field} (h : ∀ f ∈ fields, f.Reads) :
    ∃ inside items, (objectOf fields).text.toList = '\x7b' :: (inside ++ ['\x7d']) ∧
      Gives inside items ∧ members? items = some (recordOf fields) := by
  obtain ⟨itemss, hgives, hmembers⟩ : ∃ itemss, List.Forall₂ (fun (f : Field) items =>
      Gives (f.key ++ ": " ++ f.code.text ++ ",").toList (items ++ [.char ','])) fields itemss ∧
      List.Forall₂ (fun items member => (∀ i ∈ items, i.is ',' = false) ∧
        member? items = some member) itemss (recordOf fields) :=
    TypeText.exists_forall₂ fun f hf => exists_member (h f hf)
  have hlines : Gives (Code.listed ((fields.map fun f => CodeEntry.field f.key f.code).map
      CodeEntry.text)).toList (itemss.flatMap (· ++ [.char ','])) := by
    rw [Code.listed, List.map_map, List.map_map]
    refine Gives.unlines ?_
    rw [List.forall₂_map_left_iff, List.forall₂_map_right_iff]
    exact hgives.imp fun _ _ hfield => hfield.indent
  have hread : members? (itemss.flatMap (· ++ [.char ','])) = some (recordOf fields) := by
    have hsplit : (itemss.flatMap (· ++ [Item.char ','])).splitOnP (Item.is ',') =
        itemss ++ [[]] := by
      refine TypeText.splitOnP_flatMap (by simp [Item.is]) fun items hitems => ?_
      obtain ⟨member, -, hapart, -⟩ := hmembers.exists_of_mem hitems
      exact hapart
    have hmapM : itemss.mapM member? = some (recordOf fields) :=
      TypeText.mapM_of_forall₂ (hmembers.imp fun _ _ hmember => hmember.2)
    simp [members?, hsplit, hmapM]
  have hbreak : Gives ['\n'] [] := .blanks (by simp)
  rw [objectOf, Code.text, Code.entryTexts_eq]
  split
  · next hempty =>
    have hnil : fields = [] := by simpa using hempty
    subst hnil
    cases hgives
    exact ⟨[], [], rfl, .nil, rfl⟩
  · refine ⟨_, _, ?_, (hbreak.append hlines).append hbreak, by simpa using hread⟩
    simp

/-- An object literal of fields that can be read is read as the record of their values, inside
another one as well. -/
theorem readsAs_object {fields : List Field} (h : ∀ f ∈ fields, f.Reads) :
    ReadsAs (objectOf fields).text (.map (recordOf fields)) := by
  obtain ⟨inside, items, htext, hgives, hmembers⟩ := exists_inside h
  refine ⟨[.record (members? items)], ?_, by simp [Item.is], ?_⟩
  · rw [htext]
    exact hgives.record
  · rw [hmembers]
    rfl

/-- An object literal is read back, however far its lines are moved in and whatever stands behind
it. -/
theorem read?_object {fields : List Field} (h : ∀ f ∈ fields, f.Reads) (n : Nat)
    (behind : List Char) :
    read? (moved (List.replicate n ' ') (objectOf fields).text.toList ++ behind) =
      some (.map (recordOf fields), behind) := by
  obtain ⟨inside, items, htext, hgives, hmembers⟩ := exists_inside h
  have hend : (moved (List.replicate n ' ') (inside ++ ['\x7d'])).foldl step (.code [] []) =
      .ended (some (recordOf fields)) := by
    have hclose : step (.code items []) '\x7d' = .ended (members? items) := rfl
    rw [foldl_moved, List.foldl_append, hgives, List.nil_append, List.foldl_cons, hclose,
      List.foldl_nil, hmembers]
  rw [htext, Text.moved_cons_of_ne (by decide), List.cons_append, read?,
    run_append (by rw [hend]; simp), hend, run]
  rfl

example : (read? "\x7b a: \"x\\n\", b: \x7b c: -1, \x7d, \x7d as const".toList).map (·.2) =
    some " as const".toList := by decide +kernel

end ClientSdk.RecordText
