/-!
# String literals

A text between double quotes, as data files and the generated code write it.
Quotes, backslashes and controls are escaped; the stricter form also escapes
all that is not visible ASCII, by UTF-16 units.
-/

namespace ClientSdk.Text

/-- What a string literal may hold unescaped. -/
inductive Charset where
  /-- Every character but controls. -/
  | unicode
  /-- The characters from U+0020 to U+007E. -/
  | ascii
deriving DecidableEq

/-- The lower-case hexadecimal digit of a number below sixteen. -/
def hexDigit (n : Nat) : Char :=
  if n < 10 then Char.ofNat (n + 48) else Char.ofNat (n + 87)

def escapeUnit (n : Nat) : List Char :=
  ['\\', 'u', hexDigit (n / 4096 % 16), hexDigit (n / 256 % 16),
    hexDigit (n / 16 % 16), hexDigit (n % 16)]

/-- The escapes of a code point, two beyond U+FFFF. -/
def escapeCode (n : Nat) : List Char :=
  if n < 0x10000 then escapeUnit n
  else escapeUnit (0xD800 + (n - 0x10000) / 0x400) ++
    escapeUnit (0xDC00 + (n - 0x10000) % 0x400)

/-- Whether the character stands for itself in a literal. -/
def Charset.holds : Charset → Char → Bool
  | .unicode, c => decide (0x20 ≤ c.toNat)
  | .ascii, c => decide (0x20 ≤ c.toNat ∧ c.toNat ≤ 0x7E)

def escapeChar (charset : Charset) (c : Char) : List Char :=
  if c = '"' then ['\\', '"']
  else if c = '\\' then ['\\', '\\']
  else if c = '\n' then ['\\', 'n']
  else if c = '\r' then ['\\', 'r']
  else if c = '\t' then ['\\', 't']
  else if c = '\x08' then ['\\', 'b']
  else if c = '\x0C' then ['\\', 'f']
  else if charset.holds c then [c]
  else escapeCode c.toNat

/-- The characters of a literal, quotes included. -/
def literalChars (charset : Charset) (cs : List Char) : List Char :=
  '"' :: (cs.flatMap (escapeChar charset) ++ ['"'])

def literal (charset : Charset) (s : String) : String :=
  String.ofList (literalChars charset s.toList)

example : literal .unicode "a\"b\n" = "\"a\\\"b\\n\"" := by decide
example : literal .ascii "é\x7f" = "\"\\u00e9\\u007f\"" := by decide
example : literal .ascii "😀" = "\"\\ud83d\\ude00\"" := by decide

end ClientSdk.Text
