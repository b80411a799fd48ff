import ClientSdk.Yaml.Cursor

/-!
# Plain scalars

Scalars without quotes.  They end at an indicator or at a tab, and go on over
line breaks as long as the lines are indented; line breaks inside are folded.
-/

namespace ClientSdk.Yaml

/-- The marks that no plain scalar begins with, whatever follows. -/
def plainBarred : List Char :=
  [',', '[', ']', '\x7b', '\x7d', '#', '&', '*', '!', '|', '>', '\'', '"', '%',
   '@', '\x60']

/-- Whether a plain scalar can begin here, where no indicator stands. -/
def startsPlain : List Char → Bool
  | [] => false
  | c :: cs =>
      if c == '-' || c == '?' || c == ':' then !atGap cs
      else !(isSpace c || isBreak c || plainBarred.contains c)

/-- The number of characters up to the end of a word of a plain scalar. -/
def plainLength (flow : Bool) : List Char → Nat
  | [] => 0
  | c :: cs =>
      if isSpace c || isBreak c then 0
      else if c == ':' && atGap cs then 0
      else if flow && isFlowMark c then 0
      else plainLength flow cs + 1

/-- The line breaks and blanks behind the first break inside a plain scalar:
what the breaks count as, or nothing if a mark of a document stands at the
beginning of a line. -/
def plainBreaks : Nat → Reader (Option (List Char))
  | 0 => malformed
  | fuel + 1 => do
      if atDocumentMark (← get).rest then return none
      else
        let _ ← passWhile (· == ' ')
        match ← lineBreak? with
        | none => return some []
        | some c => return (← plainBreaks fuel).map (c :: ·)

/-- What stands between two words of a plain scalar, and whether it goes over a
line break.  It is empty if the scalar ends. -/
def plainGap (fuel : Nat) : Reader (List Char × Bool) := do
  let blanks ← passWhile (· == ' ')
  match ← lineBreak? with
  | none => return (blanks, false)
  | some first =>
      match ← plainBreaks fuel with
      | none => return ([], true)
      | some more => return (foldBreaks first more, true)

/-- The words of a plain scalar from here on, and whether a line break was
passed behind the last of them.  Outside of brackets a word has to stand at
least in the column `indent`. -/
def plainWords (flow : Bool) (indent : Nat) (crossed : Bool) :
    Nat → Reader (List Char × Bool)
  | 0 => malformed
  | fuel + 1 => do
      let p ← get
      let word := p.rest.take (plainLength flow p.rest)
      if word.isEmpty then return ([], crossed)
      else
        pass word.length
        let (gap, crossed) ← plainGap fuel
        let q ← get
        if gap.isEmpty || q.rest.head? == some '#' ||
            (!flow && decide (q.column < indent)) then
          return (word, crossed)
        else
          let (more, crossed) ← plainWords flow indent crossed fuel
          return (word ++ (if more.isEmpty then [] else gap ++ more), crossed)

/-- The text of a plain scalar, and whether a line break was passed behind
it. -/
def plainScalar (flow : Bool) (indent : Nat) : Reader (String × Bool) := do
  let (cs, crossed) ←
    plainWords flow indent false ((← get).rest.length + 1)
  return (String.ofList cs, crossed)

end ClientSdk.Yaml
