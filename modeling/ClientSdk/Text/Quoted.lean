import ClientSdk.Text.Literal
import ClientSdk.Text.Printable

/-!
# Quoted names in messages

A text as messages quote it: between single quotes, or between double quotes if
it holds a single quote and no double one.  Characters that cannot be seen are
escaped by the shortest of three forms.
-/

namespace ClientSdk.Text

def quoteFor (cs : List Char) : Char :=
  if cs.contains '\'' && !cs.contains '"' then '"' else '\''

/-- The lower-case hexadecimal digits of `n`, exactly `width` of them. -/
def hexDigits : Nat → Nat → List Char
  | 0, _ => []
  | width + 1, n => hexDigits width (n / 16) ++ [hexDigit (n % 16)]

/-- The escape of a character that cannot be seen. -/
def escapeHidden (c : Char) : List Char :=
  if c.toNat < 0x100 then '\\' :: 'x' :: hexDigits 2 c.toNat
  else if c.toNat < 0x10000 then '\\' :: 'u' :: hexDigits 4 c.toNat
  else '\\' :: 'U' :: hexDigits 8 c.toNat

def quoteChar (quote c : Char) : List Char :=
  if c = quote ∨ c = '\\' then ['\\', c]
  else if c = '\n' then ['\\', 'n']
  else if c = '\r' then ['\\', 'r']
  else if c = '\t' then ['\\', 't']
  else if isPrintable c then [c]
  else escapeHidden c

def quoted (s : String) : String :=
  let quote := quoteFor s.toList
  String.ofList (quote :: (s.toList.flatMap (quoteChar quote) ++ [quote]))

example : quoted "it's" = "\"it's\"" := by decide
example : quoted "it's \"x\"" = "'it\\'s \"x\"'" := by decide
example : quoted "a\n\x7f" = "'a\\n\\x7f'" := by decide

end ClientSdk.Text
