import ClientSdk.Yaml.Datum

/-!
# Documents

Reading a data document.  A text holds one document, between optional marks; an
empty one is null.
-/

namespace ClientSdk.Yaml

/-- The characters without a byte-order mark in front. -/
def dropMark : List Char → List Char
  | '\ufeff' :: cs => cs
  | cs => cs

def read (s : String) : Except Fault Value := do
  let cs := unifyBreaks s.toList
  if cs.all isAllowed then
    (← Document.ofTokens (Token.ofChars (dropMark cs))).value
  else throw .malformedText

end ClientSdk.Yaml
