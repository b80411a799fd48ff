import ClientSdk.Number.Binary64
import ClientSdk.Text.Blank
import ClientSdk.Text.Digit

/-!
# Reading numbers

A number may stand between blanks, have a sign, use the digits of any script,
and have single underscores between its digits.  An integer may have leading
zeros, but no more than a limit of digits in all; a decimal has at most one
point and at most one exponent.
-/

namespace ClientSdk

/-- The most digits that an integer may be read from or written with. -/
def integerDigitLimit : Nat := 4300

/-- Why a text denotes no integer. -/
inductive IntegerFault where
  /-- It does not have the form of one. -/
  | malformed
  /-- Its digits, as many as given, are more than the limit. -/
  | tooLong (digits : Nat)
deriving DecidableEq, Repr

/-- The sign in front, as whether it is a minus, and what follows it. -/
def takeSign : List Char → Bool × List Char
  | '-' :: cs => (true, cs)
  | '+' :: cs => (false, cs)
  | cs => (false, cs)

/-- Whether a number may have the character around it. -/
def isNumberBlank (c : Char) : Bool :=
  c == ' ' || (decide (0x09 ≤ c.toNat) && decide (c.toNat ≤ 0x0D))

/-- The characters of a number with every digit as one of ASCII and every wide
blank as a space.  ASCII characters are left alone, so the separators from
U+001C are no blanks here. -/
def numberChars (s : String) : List Char :=
  s.toList.map fun c =>
    if c.toNat < 0x80 then c
    else if Text.isBlank c then ' '
    else match Text.digit? c with
      | some d => Char.ofNat (48 + d)
      | none => c

/-- Whether every underscore stands between two digits; `before` is whether a
digit comes in front. -/
def underscoresFit (before : Bool) : List Char → Bool
  | [] => true
  | c :: cs =>
      (c != '_' || (before && (cs.head?.map Char.isDigit).getD false)) &&
        underscoresFit c.isDigit cs

/-- The value of ASCII digits in the given base. -/
def baseValue? (base : Nat) (cs : List Char) : Option Nat :=
  if cs.isEmpty then none
  else cs.foldlM (fun n c =>
    let d := if c.isDigit then c.toNat - 48
      else if 'a' ≤ c ∧ c ≤ 'f' then c.toNat - 87
      else if 'A' ≤ c ∧ c ≤ 'F' then c.toNat - 55
      else base
    if d < base then some (base * n + d) else none) 0

/-- The value of decimal digits, of which there may be no more than the
limit. -/
def decimalValue (digits : List Char) : Except IntegerFault Nat :=
  match baseValue? 10 digits with
  | none => .error .malformed
  | some n =>
      if integerDigitLimit < digits.length then .error (.tooLong digits.length)
      else .ok n

/-- The integer that a text denotes.  The digits in front are judged before
what follows them. -/
def readInteger (s : String) : Except IntegerFault Int := do
  let (negative, cs) := takeSign ((numberChars s).dropWhile isNumberBlank)
  let digits := cs.takeWhile fun c => c.isDigit || c == '_'
  let rest := cs.drop digits.length
  if underscoresFit false digits then
    let n ← decimalValue (digits.filter (· != '_'))
    if rest.all isNumberBlank then return Binary64.signed negative n
    else throw .malformed
  else throw .malformed

/-- The exponent behind the mark of a decimal. -/
def readExponent? (cs : List Char) : Option Int :=
  let (negative, digits) := takeSign cs
  if digits.all Char.isDigit then
    (baseValue? 10 digits).map (Binary64.signed negative)
  else none

/-- The digits and the power of ten of an unsigned decimal. -/
def readDecimal? (cs : List Char) : Option (Nat × Int) :=
  let whole := cs.takeWhile Char.isDigit
  let rest := cs.dropWhile Char.isDigit
  let (fraction, rest) := match rest with
    | '.' :: r => (r.takeWhile Char.isDigit, r.dropWhile Char.isDigit)
    | r => ([], r)
  let power := match rest with
    | [] => some 0
    | 'e' :: r => readExponent? r
    | _ => none
  match baseValue? 10 (whole ++ fraction), power with
  | some n, some p => some (n, p - fraction.length)
  | _, _ => none

/-- The floating-point number that a text denotes. -/
def Binary64.ofText? (s : String) : Option Binary64 :=
  let body := (Text.trimOf isNumberBlank (numberChars s)).map Char.toLower
  let (negative, cs) := takeSign body
  if cs = "inf".toList ∨ cs = "infinity".toList then some (.infinite negative)
  else if cs = "nan".toList then some .nan
  else if underscoresFit false cs then
    (readDecimal? (cs.filter (· != '_'))).map fun (n, p) =>
      .ofDecimal negative n p
  else none

example : (readInteger " -1_000\n").toOption = some (-1000) := by decide
example : (readInteger "1__0").toOption = none := by decide
example : (readInteger "").toOption = none := by decide

end ClientSdk
