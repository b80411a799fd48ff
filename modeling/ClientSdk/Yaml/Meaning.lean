import ClientSdk.Fault

/-!
# What scalars mean

A scalar without quotes is null, a truth value or a number if it has the form of
one, and a text otherwise.  Numbers may hold underscores, which count for
nothing.  A form does not make a number: digits can be missing, or be too many.
-/

namespace ClientSdk.Yaml

/-- Whether a number may hold the character behind its first digit. -/
def isDigitOrGap (c : Char) : Bool :=
  c.isDigit || c == '_'

/-- The base of an integer and the characters of its digits, if the characters
behind the sign have the form of an integer. -/
def integerForm? (cs : List Char) : Option (Nat × List Char) :=
  let within := fun (base : Nat) (ds : List Char) =>
    if !ds.isEmpty && ds.all fun c => c == '_' || (baseValue? base [c]).isSome
    then some (base, ds.filter (· != '_')) else none
  match cs with
  | '0' :: 'b' :: ds => within 2 ds
  | '0' :: 'o' :: ds => within 8 ds
  | '0' :: 'x' :: ds => within 16 ds
  | ds => within 10 ds

/-- The integer with a sign, a base and digits.  Only digits of base ten are
limited in number. -/
def integerValue (negative : Bool) (base : Nat) (digits : List Char) :
    Except Fault Value :=
  match baseValue? base digits with
  | none => .error (.value (.notInteger base (String.ofList digits)))
  | some n =>
      if base = 10 ∧ integerDigitLimit < digits.length then
        .error (.value (.tooManyDigits digits.length))
      else .ok (.int (Binary64.signed negative n))

def isExponent (signRequired : Bool) : List Char → Bool
  | c :: cs =>
      (c == 'e' || c == 'E') &&
        match cs with
        | s :: ds =>
            if s == '+' || s == '-' then !ds.isEmpty && ds.all Char.isDigit
            else !signRequired && (s :: ds).all Char.isDigit
        | [] => false
  | [] => false

/-- Whether the characters behind the sign have the form of a decimal: with a
point, an exponent or both. -/
def isDecimal (cs : List Char) : Bool :=
  match cs with
  | '.' :: ds =>
      let fraction := ds.takeWhile isDigitOrGap
      let rest := ds.dropWhile isDigitOrGap
      !fraction.isEmpty && (rest.isEmpty || isExponent true rest)
  | c :: ds =>
      c.isDigit &&
        match ds.dropWhile isDigitOrGap with
        | '.' :: es =>
            let rest := es.dropWhile isDigitOrGap
            rest.isEmpty || isExponent false rest
        | rest => isExponent false rest
  | [] => false

def decimalOf (negative : Bool) (cs : List Char) : Except Fault Value :=
  let digits := String.ofList ((cs.filter (· != '_')).map Char.toLower)
  match Binary64.ofText? (if negative then "-" ++ digits else digits) with
  | some x => .ok (.float x)
  | none => .error (.value (.notDecimal digits))

def beginsNumber (c : Char) : Bool :=
  c.isDigit || c == '+' || c == '-' || c == '.'

/-- The number that a scalar without quotes has the form of. -/
def number? (cs : List Char) : Option (Except Fault Value) :=
  let (negative, unsigned) := takeSign cs
  if !(cs.head?.map beginsNumber).getD false then none
  else if [".inf", ".Inf", ".INF"].contains (String.ofList unsigned) then
    some (.ok (.float (.infinite negative)))
  else if [".nan", ".NaN", ".NAN"].contains (String.ofList cs) then
    some (.ok (.float .nan))
  else if isDecimal unsigned then some (decimalOf negative unsigned)
  else (integerForm? unsigned).map fun (base, digits) =>
    integerValue negative base digits

/-- The value of a scalar without quotes.  The signs for a default and for a
merge have no value. -/
def plainValue (s : String) : Except Fault Value :=
  if ["", "~", "null", "Null", "NULL"].contains s then .ok .null
  else if ["true", "True", "TRUE"].contains s then .ok (.bool true)
  else if ["false", "False", "FALSE"].contains s then .ok (.bool false)
  else if ["=", "<<"].contains s then .error .malformedText
  else (number? s.toList).getD (.ok (.text s))

example : (plainValue "0o10").toOption.map Value.scalar? =
    some (some (.int 8)) := by decide
example : integerForm? "1.2".toList = none := by decide
example : isDecimal "1_0.".toList = true := by decide

end ClientSdk.Yaml
