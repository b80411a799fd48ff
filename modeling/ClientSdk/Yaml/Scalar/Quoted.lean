import ClientSdk.Yaml.Cursor

/-!
# Quoted scalars

Scalars between quotes, which may go over several lines.  Blanks around a line
break are dropped and the breaks are folded.  Between double quotes a backslash
begins an escape.
-/

namespace ClientSdk.Yaml

/-! ## Escapes -/

/-- The characters that stand for one escaped character. -/
def simpleEscape? (c : Char) : Option Char :=
  match c with
  | '0' => some '\x00'
  | 'a' => some '\x07'
  | 'b' => some '\x08'
  | 't' | '\t' => some '\t'
  | 'n' => some '\n'
  | 'v' => some '\x0B'
  | 'f' => some '\x0C'
  | 'r' => some '\r'
  | 'e' => some '\x1B'
  | ' ' => some ' '
  | '"' => some '"'
  | '/' => some '/'
  | '\\' => some '\\'
  | 'N' => some '\u0085'
  | '_' => some '\u00A0'
  | 'L' => some '\u2028'
  | 'P' => some '\u2029'
  | _ => none

/-- The number of hexadecimal digits behind an escape that has some. -/
def escapeWidth? (c : Char) : Option Nat :=
  match c with
  | 'x' => some 2
  | 'u' => some 4
  | 'U' => some 8
  | _ => none

/-- The code that the next hexadecimal digits denote. -/
def code (width : Nat) : Reader Nat := do
  let digits := (← get).rest.take width
  require (digits.length == width)
  match baseValue? 16 digits with
  | some n =>
      pass width
      return n
  | none => malformed

/-- The second half of a character whose first half has been written with its
code, if it follows with its own. -/
def lowHalf? : List Char → Option Nat
  | '\\' :: 'u' :: cs =>
      match baseValue? 16 (cs.take 4) with
      | some n =>
          if 0xDC00 ≤ n ∧ n ≤ 0xDFFF ∧ 4 ≤ cs.length then some n else none
      | none => none
  | _ => none

/-- The character of a code.  Codes of halves have to come in pairs. -/
def charOfCode (n : Nat) : Reader Char := do
  if n.isValidChar then return Char.ofNat n
  else if 0x7FFFFFFF < n then throw (.value .noWord)
  else if 0x10FFFF < n then throw (.value .noCharacter)
  else if 0xDC00 ≤ n then malformed
  else
    match lowHalf? (← get).rest with
    | some low =>
        pass 6
        return Char.ofNat (0x10000 + 0x400 * (n - 0xD800) + (low - 0xDC00))
    | none => malformed

/-! ## Lines -/

/-- The further line breaks between two words, with the blanks at the beginnings
of lines dropped.  A mark of a document may not stand there. -/
def quotedBreaks : Nat → Reader (List Char)
  | 0 => malformed
  | fuel + 1 => do
      require !atDocumentMark (← get).rest
      let _ ← passWhile isSpace
      match ← lineBreak? with
      | none => return []
      | some c => return c :: (← quotedBreaks fuel)

/-- What the blanks and line breaks that come next count as. -/
def quotedGap (fuel : Nat) : Reader (List Char) := do
  let blanks ← passWhile isSpace
  match ← lineBreak? with
  | none => return blanks
  | some first => return foldBreaks first (← quotedBreaks fuel)

/-- The characters that an escape stands for, behind its backslash.  An escaped
line break stands for nothing. -/
def escape (fuel : Nat) : Reader (List Char) := do
  match (← get).rest with
  | [] => malformed
  | c :: _ =>
      match simpleEscape? c, escapeWidth? c with
      | some d, _ =>
          pass 1
          return [d]
      | none, some width =>
          pass 1
          return [← charOfCode (← code width)]
      | none, none =>
          match ← lineBreak? with
          | some _ => quotedBreaks fuel
          | none => malformed

/-- The characters of a scalar behind its opening quote, up to the closing
one. -/
def quotedChars (quote : Char) : Nat → Reader (List Char)
  | 0 => malformed
  | fuel + 1 => do
      match (← get).rest with
      | [] => malformed
      | c :: cs =>
          if isSpace c || isBreak c then
            let gap ← quotedGap fuel
            return gap ++ (← quotedChars quote fuel)
          else if c == quote then
            pass 1
            if quote == '\'' && cs.head? == some '\'' then
              pass 1
              return '\'' :: (← quotedChars quote fuel)
            else return []
          else if quote == '"' && c == '\\' then
            pass 1
            let meant ← escape fuel
            return meant ++ (← quotedChars quote fuel)
          else
            pass 1
            return c :: (← quotedChars quote fuel)

/-- The text of a quoted scalar that begins with the given quote. -/
def quotedScalar (quote : Char) : Reader String := do
  pass 1
  return String.ofList (← quotedChars quote ((← get).rest.length + 1))

end ClientSdk.Yaml
