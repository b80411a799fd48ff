import ClientSdk.Yaml.Cursor

/-!
# Block scalars

Scalars whose lines stand below their header, indented alike.  Literal ones keep
their line breaks; in folded ones a break between two lines that begin with no
blank becomes a blank.
-/

namespace ClientSdk.Yaml

/-- What becomes of the line breaks at the end of a block scalar. -/
inductive Chomping where
  | strip
  | clip
  | keep
deriving DecidableEq

/-- What the marks of a header say. -/
structure BlockHeader where
  chomping : Chomping := .clip
  /-- The indentation beyond the surrounding block, if it is given. -/
  indent : Option Nat := none

/-- The mark of what becomes of the breaks at the end, if it comes next. -/
def chomping? : Reader (Option Chomping) := do
  match (← get).rest with
  | '-' :: _ => do pass 1; return some .strip
  | '+' :: _ => do pass 1; return some .keep
  | _ => return none

/-- The digit of the indentation, if it comes next.  It is not zero. -/
def indentDigit? : Reader (Option Nat) := do
  match (← get).rest with
  | c :: _ =>
      if c.isDigit then
        require (c != '0')
        pass 1
        return some (c.toNat - 48)
      else return none
  | [] => return none

/-- The header of a block scalar behind its indicator, with the line break at
its end.  The two marks may come in either order. -/
def blockHeader : Reader BlockHeader := do
  let first ← chomping?
  let indent ← indentDigit?
  let second ← match first, indent with
    | none, some _ => chomping?
    | _, _ => pure none
  let p ← get
  require (atLineEnd p.rest || p.rest.head? == some ' ')
  let _ ← passWhile (· == ' ')
  if (← get).rest.head? == some '#' then modify (·.toLineEnd)
  require (atLineEnd (← get).rest)
  let _ ← lineBreak?
  return { chomping := (first.or second).getD .clip, indent }

/-- The empty lines in front of the first line with text: their breaks, the
column of the first of them, and the widest column that blanks reach. -/
def leadingLines (first : Option Nat) (widest : Nat) :
    Nat → Reader (List Char × Option Nat × Nat)
  | 0 => malformed
  | fuel + 1 => do
      let blanks ← passWhile (· == ' ')
      let column := (← get).column
      let widest := if blanks.isEmpty then widest else max widest column
      match ← lineBreak? with
      | none => return ([], first, widest)
      | some c =>
          let (more, first, widest) ←
            leadingLines (first.or (some column)) widest fuel
          return (c :: more, first, widest)

/-- The breaks of empty lines in front of the next line; up to `indent` columns
of blanks are passed on each. -/
def blockBreaks (indent : Nat) : Nat → Reader (List Char)
  | 0 => malformed
  | fuel + 1 => do
      let p ← get
      let blanks := (p.rest.take (indent - p.column)).takeWhile (· == ' ')
      pass blanks.length
      match ← lineBreak? with
      | none => return []
      | some c => return c :: (← blockBreaks indent fuel)

structure BlockLines where
  /-- All lines with what joins them, without the end of the last one. -/
  text : List Char
  /-- The break of the last line, if it has one. -/
  lastBreak : Option Char
  /-- The breaks of the empty lines behind it. -/
  breaks : List Char

/-- The lines from here on, where `breaks` come in front of the next one.  If
`marks` is set, a mark of a document ends them. -/
def blockLines (folded marks : Bool) (indent : Nat) (breaks : List Char) :
    Nat → Reader BlockLines
  | 0 => malformed
  | fuel + 1 => do
      let p ← get
      let line := p.rest.takeWhile fun c => !isBreak c
      pass line.length
      let lastBreak ← lineBreak?
      let next ← blockBreaks indent (fuel + 1)
      let q ← get
      let ended := q.column != indent || q.rest.isEmpty ||
        (marks && q.column == 0 && atDocumentMark q.rest)
      if ended then
        return { text := breaks ++ line, lastBreak, breaks := next }
      else
        let blank := fun cs : List Char => (cs.head?.map isSpace).getD false
        let joint :=
          if folded && lastBreak == some '\n' && !blank p.rest &&
              !blank q.rest then
            if next.isEmpty then [' '] else []
          else lastBreak.toList
        let more ← blockLines folded marks indent next fuel
        return { more with text := breaks ++ line ++ joint ++ more.text }

/-- The text of a block scalar inside a block of the given indentation, -1 for
none. -/
def blockScalar (folded : Bool) (parent : Int) : Reader String := do
  pass 1
  let h ← blockHeader
  let fuel := (← get).rest.length + 1
  let least := (parent + 1).toNat
  let (indent, breaks) ← match h.indent with
    | some n => do
        let indent := max least 1 + n - 1
        pure (indent, ← blockBreaks indent fuel)
    | none => do
        let (breaks, first, widest) ← leadingLines none 0 fuel
        require ((first.map fun column => column == 0 || widest ≤ column).getD true)
        pure (max least widest, breaks)
  let p ← get
  let lines ←
    if p.column == indent && !p.rest.isEmpty then
      blockLines folded (least == 0 && h.indent.isNone) indent breaks fuel
    else pure { text := [], lastBreak := none, breaks }
  let ending := match h.chomping with
    | .strip => []
    | .clip => lines.lastBreak.toList
    | .keep => lines.lastBreak.toList ++ lines.breaks
  return String.ofList (lines.text ++ ending)

end ClientSdk.Yaml
