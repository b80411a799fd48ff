/-!
# Identifiers

The names that the generated code can declare: ASCII letters, digits, `_` and
`$`, no digit first.  The words of the language and its built-in types are
listed here too.
-/

namespace ClientSdk.Text

/-- Whether an identifier may begin with the character. -/
def startsIdentifier (c : Char) : Bool :=
  c.isAlpha || c == '_' || c == '$'

/-- Whether an identifier may go on with the character. -/
def continuesIdentifier (c : Char) : Bool :=
  c.isAlphanum || c == '_' || c == '$'

def isIdentifierChars : List Char → Bool
  | [] => false
  | c :: cs => startsIdentifier c && cs.all continuesIdentifier

/-- The text without one line break at its end. -/
def dropFinalBreak (cs : List Char) : List Char :=
  match cs.reverse with
  | '\n' :: rest => rest.reverse
  | _ => cs

/-- Whether the text is an identifier, a line break at its end disregarded. -/
def isIdentifierLine (s : String) : Bool :=
  isIdentifierChars (dropFinalBreak s.toList)

/-- The longest identifier that begins the characters. -/
def leadingIdentifier? : List Char → Option (List Char)
  | [] => none
  | c :: cs =>
      if startsIdentifier c then some (c :: cs.takeWhile continuesIdentifier)
      else none

/-- The words that the language keeps for itself. -/
def reservedWords : List String :=
  ["break", "case", "catch", "class", "const", "continue", "debugger",
   "default", "delete", "do", "else", "enum", "export", "extends", "false",
   "finally", "for", "function", "if", "import", "in", "instanceof", "new",
   "null", "return", "super", "switch", "this", "throw", "true", "try",
   "typeof", "var", "void", "while", "with", "implements", "interface", "let",
   "package", "private", "protected", "public", "static", "yield", "await"]

def builtInTypes : List String :=
  ["any", "unknown", "never", "undefined", "object", "string", "number",
   "boolean", "bigint", "symbol", "Array", "ReadonlyArray", "Record",
   "Partial", "Required", "Readonly", "Pick", "Omit", "Exclude", "Extract",
   "NonNullable", "Date", "Map", "Set", "Promise"]

/-- Whether a name means something without a declaration. -/
def isKnownWord (s : String) : Bool :=
  builtInTypes.contains s || reservedWords.contains s

end ClientSdk.Text
