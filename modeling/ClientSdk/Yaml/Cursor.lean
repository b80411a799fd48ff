import ClientSdk.Fault
import ClientSdk.Yaml.Character

/-!
# Positions in a document

The rest of a text with the place of its first character, and the readers that
move forward in it.
-/

namespace ClientSdk.Yaml

/-- A position in a text.  Only line feeds begin a new line of the count; the
byte-order mark takes up no column. -/
structure Cursor where
  rest : List Char
  index : Nat := 0
  line : Nat := 0
  column : Nat := 0

abbrev Reader := StateT Cursor (Except Fault)

/-- The position after one character. -/
def Cursor.step (p : Cursor) : Cursor :=
  match p.rest with
  | [] => p
  | c :: cs =>
      if c = '\n' then
        { rest := cs, index := p.index + 1, line := p.line + 1, column := 0 }
      else
        { p with
          rest := cs
          index := p.index + 1
          column := if c = '\ufeff' then p.column else p.column + 1 }

/-- The position after `n` characters. -/
def Cursor.skip (p : Cursor) : Nat → Cursor
  | 0 => p
  | n + 1 => p.step.skip n

/-- The position after the characters of a class. -/
def Cursor.skipWhile (p : Cursor) (q : Char → Bool) : Cursor :=
  p.skip (p.rest.takeWhile q).length

def Cursor.toLineEnd (p : Cursor) : Cursor :=
  p.skipWhile fun c => !isBreak c

/-- Fails because the text is no document. -/
def malformed {α : Type} : Reader α :=
  throw .malformedText

/-- Fails unless the condition holds. -/
def require (b : Bool) : Reader Unit :=
  if b then return () else malformed

def pass (n : Nat) : Reader Unit :=
  modify (·.skip n)

/-- Passes the characters of a class and gives them. -/
def passWhile (q : Char → Bool) : Reader (List Char) := do
  let taken := (← get).rest.takeWhile q
  pass taken.length
  return taken

/-- Passes a line break, if one comes next, and gives what it counts as. -/
def lineBreak? : Reader (Option Char) := do
  match (← get).rest with
  | c :: _ =>
      if isBreak c then
        pass 1
        return some (breakMeaning c)
      else return none
  | [] => return none

/-- The characters that a run of line breaks is folded to: one line feed becomes
a blank, and in front of others it is dropped. -/
def foldBreaks (first : Char) (more : List Char) : List Char :=
  if first ≠ '\n' then first :: more
  else if more.isEmpty then [' '] else more

end ClientSdk.Yaml
