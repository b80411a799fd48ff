import ClientSdk.Text.Identifier
import ClientSdk.Value.Access
import ClientSdk.Value.Json

/-!
# Literals and member names

How a literal value is written as a type, how it reads inside a string pattern,
and how the name of a member is written.  An integer with too many digits is not
written.
-/

namespace ClientSdk

namespace Value

/-- How the value is said inside a string pattern. -/
def patternForm : Value → String
  | .bool b => if b then "true" else "false"
  | .float x =>
      match x.integer? with
      | some n => toString n
      | none => x.text
  | v => v.display

/-- The value as it reads inside a string pattern. -/
def patternText (v : Value) : Except Fault String :=
  v.unlessTooLong v.patternForm

/-- A floating-point number as a type; a whole one has no point. -/
def floatLiteral : Binary64 → String
  | .nan => "NaN"
  | .infinite negative => if negative then "-Infinity" else "Infinity"
  | x =>
      match x.integer? with
      | some n => toString n
      | none => x.text

/-- How a value is said as a type, where `kind` is the kind of constant that it
belongs to. -/
def literalForm (v kind : Value) : Except Fault String :=
  match v, kind with
  | .bool b, _ => .ok (if b then "true" else "false")
  | v, .text "bigint" => do return toString (← v.toInteger) ++ "n"
  | .int n, _ => .ok (toString n)
  | .float x, _ => .ok (floatLiteral x)
  | v, _ => .ok (v.json .unicode)

def literalType (v kind : Value) : Except Fault String := do
  v.unlessTooLong (← v.literalForm kind)

theorem patternText_eq_ok_iff {v : Value} {text : String} :
    v.patternText = .ok text ↔ v.isTooLong = false ∧ v.patternForm = text :=
  unlessTooLong_eq_ok_iff

theorem literalType_eq_ok_iff {v kind : Value} {text : String} :
    v.literalType kind = .ok text ↔ v.isTooLong = false ∧ v.literalForm kind = .ok text := by
  cases hform : v.literalForm kind with
  | error fault => simp [literalType, hform, Bind.bind, Except.bind]
  | ok form => simp [literalType, hform, Bind.bind, Except.bind, unlessTooLong_eq_ok_iff]

theorem literalType_of_tooLong {v kind : Value} {form : String} (h : v.isTooLong = true)
    (hform : v.literalForm kind = .ok form) :
    v.literalType kind = .error (.value .tooLongToWrite) := by
  rw [literalType, hform]
  exact if_pos h

end Value

/-- The name of a member: bare if it is an identifier and no reserved word, a
string literal otherwise. -/
def memberName (name : String) : String :=
  if Text.isIdentifierLine name && !Text.reservedWords.contains name then name
  else Text.literal .unicode name

example : memberName "class" = "\"class\"" := by decide
example : memberName "$x1" = "$x1" := by decide

end ClientSdk
