import ClientSdk.Number.Binary64

/-!
# Shortest decimals

The fewest decimal digits that read back as a given binary number, and of those
the nearest to it.  The search tries one digit, two digits and so on, and tests
the two neighbours of the number on each decimal grid in exact arithmetic.
-/

namespace ClientSdk.Binary64

/-- A positive number between the two ends of what rounds to it, all over one
denominator. -/
structure Interval where
  low : Nat
  value : Nat
  high : Nat
  denominator : Nat
  /-- Whether the ends themselves round to the number. -/
  closed : Bool

/-- The interval of the reals that round to `mantissa · 2 ^ exponent`. -/
def interval (mantissa : Nat) (exponent : Int) : Interval :=
  let below :=
    if mantissa = Nat.pow 2 52 ∧ minExponent < exponent then 1 else 2
  let unit := Nat.pow 2 (exponent - 2).toNat
  { low := (4 * mantissa - below) * unit
    value := 4 * mantissa * unit
    high := (4 * mantissa + 2) * unit
    denominator := Nat.pow 2 (2 - exponent).toNat
    closed := mantissa % 2 == 0 }

/-- The least `n`, at most `fuel`, with `num < 10 ^ n · den`. -/
def digitsBefore (num den : Nat) : Nat → Nat
  | 0 => 0
  | fuel + 1 =>
      if num < den then 0 else 1 + digitsBefore num (den * 10) fuel

/-- The count, at most `fuel`, of zeros right after the point. -/
def zerosAfter (num den : Nat) : Nat → Nat
  | 0 => 0
  | fuel + 1 =>
      if num * 10 < den then 1 + zerosAfter (num * 10) den fuel else 0

/-- The position of the point: the number is `0.d₁d₂… · 10 ^ point`. -/
def pointOf (i : Interval) : Int :=
  if i.denominator ≤ i.value then digitsBefore i.value i.denominator 400
  else -(zerosAfter i.value i.denominator 400 : Int)

/-- The interval in units of the decimal grid `10 ^ power`. -/
def Interval.onGrid (i : Interval) (power : Int) : Interval :=
  let up := Nat.pow 10 (-power).toNat
  { i with
    low := i.low * up
    value := i.value * up
    high := i.high * up
    denominator := i.denominator * Nat.pow 10 power.toNat }

/-- Whether the grid point `n` rounds to the number. -/
def Interval.holds (i : Interval) (n : Nat) : Bool :=
  let p := n * i.denominator
  if i.closed then decide (i.low ≤ p ∧ p ≤ i.high)
  else decide (i.low < p ∧ p < i.high)

/-- The grid point nearest to the number among its neighbours that round to
it. -/
def Interval.nearest? (i : Interval) : Option Nat :=
  let n := i.value / i.denominator
  let rest := i.value % i.denominator
  match i.holds n, i.holds (n + 1) with
  | true, true =>
      if 2 * rest < i.denominator then some n
      else if i.denominator < 2 * rest then some (n + 1)
      else if n % 2 = 0 then some n else some (n + 1)
  | true, false => some n
  | false, true => some (n + 1)
  | false, false => none

/-- The digits and their power of ten, trying `count` digits and then more.  A
neighbour that has one digit more than its grid ends in a zero, which goes into
the power. -/
def search (i : Interval) (point : Int) (count : Nat) : Nat → Nat × Int
  | 0 => (0, point)
  | fuel + 1 =>
      match (i.onGrid (point - count)).nearest? with
      | some n =>
          if n % 10 = 0 then (n / 10, point - count + 1)
          else (n, point - count)
      | none => search i point (count + 1) fuel

/-- The fewest digits, as a natural, and the power of ten that reads back as
`mantissa · 2 ^ exponent`. -/
def shortest (mantissa : Nat) (exponent : Int) : Nat × Int :=
  let i := interval mantissa exponent
  search i (pointOf i) 1 17

/-! ## Notation -/

def zeroDigits (n : Nat) : String :=
  String.ofList (List.replicate n '0')

/-- The digits with a point after the first `point` of them. -/
def positional (digits : List Char) (point : Int) : String :=
  if point ≤ 0 then "0." ++ zeroDigits (-point).toNat ++ String.ofList digits
  else if (digits.length : Int) ≤ point then
    String.ofList digits ++ zeroDigits (point - digits.length).toNat ++ ".0"
  else
    String.ofList (digits.take point.toNat) ++ "." ++
      String.ofList (digits.drop point.toNat)

/-- The digits with a point after the first one and a signed exponent of two
digits or more. -/
def scientific (digits : List Char) (exponent : Int) : String :=
  let shown := toString exponent.natAbs
  String.ofList (digits.take 1) ++
    (if digits.length ≤ 1 then ""
      else "." ++ String.ofList (digits.drop 1)) ++
    (if exponent < 0 then "e-" else "e+") ++
    (if shown.length < 2 then "0" ++ shown else shown)

/-- The text of a positive number: positional for decimal exponents from -4 to
15, scientific beyond. -/
def magnitudeText (mantissa : Nat) (exponent : Int) : String :=
  let (n, power) := shortest mantissa exponent
  let digits := (toString n).toList
  let point := power + digits.length
  if -4 < point ∧ point ≤ 16 then positional digits point
  else scientific digits (point - 1)

def text : Binary64 → String
  | .nan => "nan"
  | .infinite negative => if negative then "-inf" else "inf"
  | .finite negative m e =>
      (if negative then "-" else "") ++
        (if m = 0 then "0.0" else magnitudeText m e)

end ClientSdk.Binary64
