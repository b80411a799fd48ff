import ClientSdk.Fault
import ClientSdk.Text.Identifier

/-!
# Document grammars

Rules that say which data values a place of a document may hold, and the
violations of a value.  A grammar names the places; its rules refer to places
further in by name, so a grammar may be recursive while every check ends with
the value.
-/

namespace ClientSdk

inductive Kind where
  | null
  | boolean
  | integer
  | number
  | string
  | array
  | object
deriving DecidableEq, Repr

namespace Kind

def name : Kind → String
  | .null => "null"
  | .boolean => "boolean"
  | .integer => "integer"
  | .number => "number"
  | .string => "string"
  | .array => "array"
  | .object => "object"

/-- Whether a value is of the kind.  A floating-point number without a fraction
is an integer; truth values are no numbers. -/
def holds : Kind → Value → Bool
  | .null, .null => true
  | .boolean, .bool _ => true
  | .integer, .int _ => true
  | .integer, .float x => x.integer?.isSome
  | .number, .int _ => true
  | .number, .float _ => true
  | .string, .text _ => true
  | .array, .list _ => true
  | .object, .map _ => true
  | _, _ => false

end Kind

/-- One step on the way to a part of a document. -/
inductive Step where
  | key (k : String)
  | index (i : Nat)
deriving DecidableEq, Repr

def Step.label : Step → String
  | .key k => k
  | .index i => toString i

/-- What is wrong with a value. -/
inductive Breach where
  | wrongKind (allowed : List Kind)
  | missing (key : String)
  | notAmong (choices : List String)
  | noIdentifier
  | tooShort (least : Nat)
  | tooLong
  | noAlternative
deriving DecidableEq, Repr

/-- A breach of the rules at a place of a document. -/
structure Violation where
  path : List Step
  value : Value
  breach : Breach
deriving Repr

/-- The violation seen from one step further out. -/
def Violation.behind (step : Step) (v : Violation) : Violation :=
  { v with path := step :: v.path }

/-- The place of a violation, from the root of the document. -/
def Violation.place (v : Violation) : String :=
  "$" ++ String.join (v.path.map fun
    | .key k => "." ++ k
    | .index i => "[" ++ toString i ++ "]")

/-- How the breach of a rule by a value is put into words, if it can be. -/
abbrev Wording := Breach → Value → Except Fault String

/-- The violation in words, behind its place. -/
def Violation.text (wording : Wording) (v : Violation) : Except Fault String :=
  return v.place ++ ": " ++ (← wording v.breach v.value)

/-! ## Rules -/

/-- What one place may hold, where `π` names the places of the grammar. -/
structure Rule (π : Type) where
  /-- The kinds of value; any if there are none. -/
  kinds : List Kind := []
  /-- The keys that a mapping has to have. -/
  required : List String := []
  /-- The only texts; any if there are none. -/
  choices : List String := []
  /-- Whether a text has to be an identifier, a line break at its end
  disregarded. -/
  identifier : Bool := false
  /-- The least number of characters of a text. -/
  minLength : Nat := 0
  /-- The places behind the keys of a mapping; other keys are free. -/
  fields : List (String × π) := []
  /-- The places of the first items of a list. -/
  firstItems : List π := []
  /-- The place of every item of a list. -/
  items : Option π := none
  minItems : Nat := 0
  maxItems : Option Nat := none

/-- A grammar: for each place one rule or several, one of which has to hold. -/
abbrev Grammar (π : Type) := π → List (Rule π)

/-- The violations of the parts of a value, for any place that they may stand
in. -/
structure Parts (π : Type) where
  items : List (π → List Violation) := []
  members : List (String × (π → List Violation)) := []

namespace Rule

variable {π : Type}

def here (v : Value) (breach : Breach) : Violation :=
  { path := [], value := v, breach }

def missingKeys (r : Rule π) (v : Value) : List Violation :=
  match v with
  | .map members =>
      (r.required.filter fun k => (Table.get? members k).isNone).map fun k =>
        here v (.missing k)
  | _ => []

def badChoice (r : Rule π) (v : Value) : List Violation :=
  if r.choices.isEmpty then []
  else match v with
    | .text s => if r.choices.contains s then [] else [here v (.notAmong r.choices)]
    | _ => [here v (.notAmong r.choices)]

def badText (r : Rule π) (v : Value) : List Violation :=
  match v with
  | .text s =>
      (if r.identifier && !Text.isIdentifierLine s then [here v .noIdentifier]
        else []) ++
      (if s.length < r.minLength then [here v (.tooShort r.minLength)] else [])
  | _ => []

/-- What is wrong with the number of items. -/
def badCount (r : Rule π) (v : Value) : List Violation :=
  match v with
  | .list items =>
      (if items.length < r.minItems then [here v (.tooShort r.minItems)] else []) ++
      (match r.maxItems with
        | some n => if n < items.length then [here v .tooLong] else []
        | none => [])
  | _ => []

/-- The violations inside the members that have a place. -/
def inMembers (r : Rule π) (parts : Parts π) : List Violation :=
  r.fields.flatMap fun (k, place) =>
    match Table.get? parts.members k with
    | some check => (check place).map (Violation.behind (.key k))
    | none => []

/-- The violations inside items, each at its place, counted from `i`. -/
def inItemsFrom (i : Nat) : List (π → List Violation) → List π → List Violation
  | check :: checks, place :: places =>
      (check place).map (Violation.behind (.index i)) ++
        inItemsFrom (i + 1) checks places
  | _, _ => []

/-- The violations inside the items that have a place. -/
def inItems (r : Rule π) (parts : Parts π) : List Violation :=
  inItemsFrom 0 parts.items r.firstItems ++
    match r.items with
    | some place =>
        inItemsFrom 0 parts.items (parts.items.map fun _ => place)
    | none => []

/-- The violations of a rule, where those inside the value are given.  A value of
a wrong kind is not looked into. -/
def violations (r : Rule π) (v : Value) (parts : Parts π) : List Violation :=
  if !r.kinds.isEmpty && !r.kinds.any (·.holds v) then
    [here v (.wrongKind r.kinds)]
  else
    r.missingKeys v ++ r.badChoice v ++ r.badText v ++ r.badCount v ++
      r.inMembers parts ++ r.inItems parts

end Rule

namespace Grammar

variable {π : Type} (g : Grammar π)

/-- The violations of a value at a place, where those inside it are given. -/
def judge (place : π) (v : Value) (parts : Parts π) : List Violation :=
  match g place with
  | [r] => r.violations v parts
  | rules =>
      if rules.any fun r => (r.violations v parts).isEmpty then []
      else [Rule.here v .noAlternative]

mutual

/-- The violations of a value at a place. -/
def violations : Value → π → List Violation
  | .list items, place => g.judge place (.list items) { items := inside items }
  | .map members, place =>
      g.judge place (.map members) { members := insideMembers members }
  | .null, place => g.judge place .null {}
  | .bool b, place => g.judge place (.bool b) {}
  | .int n, place => g.judge place (.int n) {}
  | .float x, place => g.judge place (.float x) {}
  | .text s, place => g.judge place (.text s) {}

def inside : List Value → List (π → List Violation)
  | [] => []
  | v :: vs => (fun place => violations v place) :: inside vs

def insideMembers :
    List (String × Value) → List (String × (π → List Violation))
  | [] => []
  | (k, v) :: ms => (k, fun place => violations v place) :: insideMembers ms

end

/-- The rules that are tried, one after the other until one of them holds. -/
def tried (holds : Rule π → Bool) : List (Rule π) → List (Rule π)
  | [] => []
  | r :: rs => if holds r then [r] else r :: tried holds rs

/-- What is put into words where a value is checked at a place: what breaks the
rule or, if there are several, those that are tried.  What is wrong inside the
value and what is put into words there are given. -/
def remark (place : π) (v : Value) (parts said : Parts π) : List Violation :=
  match g place with
  | [r] => r.violations v said
  | rules =>
      let holds := fun r : Rule π => (r.violations v parts).isEmpty
      (tried holds rules).flatMap (·.violations v said) ++
        if rules.any holds then [] else [Rule.here v .noAlternative]

mutual

/-- All that is put into words while a value is checked at a place, whether it
counts in the end or not. -/
def remarks : Value → π → List Violation
  | .list items, place =>
      g.remark place (.list items) { items := g.inside items }
        { items := remarksInside items }
  | .map members, place =>
      g.remark place (.map members) { members := g.insideMembers members }
        { members := remarksInMembers members }
  | .null, place => g.remark place .null {} {}
  | .bool b, place => g.remark place (.bool b) {} {}
  | .int n, place => g.remark place (.int n) {} {}
  | .float x, place => g.remark place (.float x) {} {}
  | .text s, place => g.remark place (.text s) {} {}

/-- What is put into words about items at any place. -/
def remarksInside : List Value → List (π → List Violation)
  | [] => []
  | v :: vs => (fun place => remarks v place) :: remarksInside vs

/-- What is put into words about members at any place. -/
def remarksInMembers :
    List (String × Value) → List (String × (π → List Violation))
  | [] => []
  | (k, v) :: ms => (k, fun place => remarks v place) :: remarksInMembers ms

end

/-- Whether a path comes before another or is the same, step by step by its
texts. -/
def pathLe : List String → List String → Bool
  | [], _ => true
  | _ :: _, [] => false
  | a :: as, b :: bs => if a = b then pathLe as bs else decide (a < b)

/-- The violations in the order of their places. -/
def sorted (vs : List Violation) : List Violation :=
  vs.mergeSort fun v w =>
    pathLe (v.path.map Step.label) (w.path.map Step.label)

end Grammar

end ClientSdk
