/-!
# Characters of a document

The classes of characters that decide where words, lines and names end.
-/

namespace ClientSdk.Yaml

/-- Whether a document may hold the character. -/
def isAllowed (c : Char) : Bool :=
  c == '\t' || c == '\n' || c == '\r' || c == '\u0085' ||
    (decide (0x20 ≤ c.toNat) && decide (c.toNat ≤ 0x7E)) ||
    (decide (0xA0 ≤ c.toNat) && decide (c.toNat ≠ 0xFFFE) &&
      decide (c.toNat ≠ 0xFFFF))

/-- The characters with a carriage return, also one before a line feed, as a
line feed. -/
def unifyBreaks : List Char → List Char
  | [] => []
  | [c] => [if c = '\r' then '\n' else c]
  | c :: d :: cs =>
      if c = '\r' then
        if d = '\n' then unifyBreaks (d :: cs) else '\n' :: unifyBreaks (d :: cs)
      else c :: unifyBreaks (d :: cs)

/-- Whether the character is a blank inside a line. -/
def isSpace (c : Char) : Bool :=
  c == ' ' || c == '\t'

def isBreak (c : Char) : Bool :=
  c == '\n' || c == '\u0085' || c == '\u2028' || c == '\u2029'

/-- The character that a line break counts as: the separators stand for
themselves, the other breaks for a line feed. -/
def breakMeaning (c : Char) : Char :=
  if c = '\u0085' then '\n' else c

def atLineEnd : List Char → Bool
  | [] => true
  | c :: _ => isBreak c

/-- Whether a word ends here: at a blank, a line break or the end of the
text. -/
def atGap : List Char → Bool
  | [] => true
  | c :: _ => isSpace c || isBreak c

/-- Whether the character has a meaning of its own between the brackets of a
collection. -/
def isFlowMark (c : Char) : Bool :=
  [',', '[', ']', '\x7b', '\x7d'].contains c

/-- Whether the name of a node may hold the character. -/
def isNameChar (c : Char) : Bool :=
  !isFlowMark c &&
    ((decide (0x21 ≤ c.toNat) && decide (c.toNat ≤ 0x7E)) ||
      (decide (0xA0 ≤ c.toNat) && decide (c.toNat ≤ 0xFFFD) && c != '\ufeff') ||
      decide (0x10000 ≤ c.toNat))

/-- Whether the name of a node may end here. -/
def atNameEnd : List Char → Bool
  | [] => true
  | c :: _ =>
      isSpace c || isBreak c || isFlowMark c ||
        ['?', ':', '%', '@', '\x60'].contains c

/-- Whether a mark of three equal characters stands alone here. -/
def atMark (mark : Char) (cs : List Char) : Bool :=
  cs.take 3 == [mark, mark, mark] && atGap (cs.drop 3)

/-- Whether a document begins or ends here. -/
def atDocumentMark (cs : List Char) : Bool :=
  atMark '-' cs || atMark '.' cs

end ClientSdk.Yaml
