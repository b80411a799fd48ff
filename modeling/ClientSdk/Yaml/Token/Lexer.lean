import ClientSdk.Yaml.Scalar.Block
import ClientSdk.Yaml.Scalar.Plain
import ClientSdk.Yaml.Scalar.Quoted
import ClientSdk.Yaml.Token

/-!
# The tokens of a text

Tokens are found one after another, but only a colon shows that what came before
it on its line was a key.  So a node that may be a key is a candidate, and the
tokens from it on wait until that is settled; the mark of the key is then put in
front of them.  A token that has been handed out stands, even if the text proves
malformed behind it.
-/

namespace ClientSdk.Yaml

/-- A node that is a key if a colon follows on its line. -/
structure Candidate where
  /-- The number of its first token. -/
  number : Nat
  /-- Whether nothing but a key can stand there. -/
  required : Bool
  index : Nat
  line : Nat
  column : Nat

/-- The farthest that the colon behind a key may be from its beginning. -/
def keyReach : Nat := 1024

/-- Whether a colon that comes now is too far away. -/
def Candidate.isStale (k : Candidate) (p : Cursor) : Bool :=
  k.line != p.line || decide (k.index + keyReach < p.index)

structure OpenBracket where
  brace : Bool
  outside : Option Candidate

/-- What is known at a position between two tokens. -/
structure Lexer where
  cursor : Cursor
  /-- The tokens that wait, the first one found in front. -/
  waiting : List Token := []
  /-- How many tokens have been handed out. -/
  handed : Nat := 0
  /-- The columns of the open blocks, the innermost in front. -/
  blocks : List Nat := []
  /-- The open brackets, the innermost in front. -/
  brackets : List OpenBracket := []
  /-- The candidate inside of the innermost bracket. -/
  candidate : Option Candidate := none
  /-- Whether a key can stand here. -/
  keyAllowed : Bool := true
  finished : Bool := false

namespace Lexer

abbrev Step := StateT Lexer (Except Fault)

/-- The indentation of the innermost block, -1 outside of all. -/
def indent (s : Lexer) : Int :=
  match s.blocks with
  | [] => -1
  | column :: _ => column

def inFlow (s : Lexer) : Bool :=
  !s.brackets.isEmpty

def candidates (s : Lexer) : List Candidate :=
  s.candidate.toList ++ s.brackets.filterMap (·.outside)

def reading {α : Type} (r : Reader α) : Step α := do
  let s ← get
  let (a, cursor) ← r s.cursor
  set { s with cursor }
  return a

/-- Fails unless the condition holds. -/
def check (b : Bool) : Step Unit :=
  if b then return () else throw .malformedText

def push (t : Token) : Step Unit :=
  modify fun s => { s with waiting := s.waiting ++ [t] }

/-- Settles whether a key can stand at the next token. -/
def allowKey (b : Bool) : Step Unit :=
  modify fun s => { s with keyAllowed := b }

/-! ## Candidates -/

/-- A candidate unless the position has left it behind. -/
def fresh (p : Cursor) (k : Option Candidate) : Option Candidate :=
  k.filter fun k => !k.isStale p

/-- The candidates that the position has not left behind. -/
def withoutStale (s : Lexer) : Lexer :=
  { s with
    candidate := fresh s.cursor s.candidate
    brackets := s.brackets.map fun b =>
      { b with outside := fresh s.cursor b.outside } }

/-- Gives up the candidates that the position has left behind. -/
def dropStale : Step Unit := do
  let s ← get
  check (s.candidates.all fun k => !(k.required && k.isStale s.cursor))
  set s.withoutStale

/-- Gives up the candidate at hand. -/
def dropCandidate : Step Unit := do
  let s ← get
  check !((s.candidate.map (·.required)).getD false)
  set { s with candidate := none }

/-- Notes that the next token may begin a key. -/
def noteCandidate : Step Unit := do
  if (← get).keyAllowed then
    dropCandidate
    modify fun s => { s with
      candidate := some
        { number := s.handed + s.waiting.length
          required := !s.inFlow && s.indent == s.cursor.column
          index := s.cursor.index
          line := s.cursor.line
          column := s.cursor.column } }

/-! ## Blocks -/

def closeBlocks (column : Int) : Step Unit :=
  modify fun s =>
    if s.inFlow then s
    else
      let n := (s.blocks.takeWhile fun c : Nat => decide (column < (c : Int))).length
      { s with
        blocks := s.blocks.drop n
        waiting := s.waiting ++ List.replicate n .blockEnd }

/-- Begins a block if the column is further in than the innermost one; tells
whether it did. -/
def openBlock (column : Nat) : Step Bool := do
  let s ← get
  if s.indent < (column : Int) then
    set { s with blocks := column :: s.blocks }
    return true
  else return false

/-- The part of a block that begins with an indicator: a token, after the
beginning of the block if there is none yet. -/
def indicator (start t : Token) : Step Unit := do
  if !(← get).inFlow then
    check (← get).keyAllowed
    if ← openBlock (← get).cursor.column then push start
  allowKey (t == .item || !(← get).inFlow)
  dropCandidate
  reading (pass 1)
  push t

/-! ## Tokens -/

/-- The blanks, comments and line breaks in front of the next token; tells
whether there was a line break. -/
def gap (flow : Bool) : Nat → Reader Bool
  | 0 => malformed
  | fuel + 1 => do
      let _ ← passWhile fun c => c == ' ' || (flow && c == '\t')
      if (← get).rest.head? == some '#' then modify (·.toLineEnd)
      match ← lineBreak? with
      | none => return false
      | some _ =>
          let _ ← gap flow fuel
          return true

def toToken : Step Unit := do
  let s ← get
  let crossed ← reading (gap s.inFlow (s.cursor.rest.length + 1))
  if crossed && !s.inFlow then allowKey true

/-- Ends all blocks in front of a mark of a document. -/
def endBlocks : Step Unit := do
  closeBlocks (-1)
  dropCandidate
  allowKey false

def textEnd : Step Unit := do
  endBlocks
  push .textEnd
  modify fun s => { s with candidate := none, brackets := [], finished := true }

def documentMark (t : Token) : Step Unit := do
  endBlocks
  reading (pass 3)
  push t

/-- A line that says something about the document to come. -/
def directive : Step Unit := do
  endBlocks
  reading (modify (·.toLineEnd))
  push .directive

def openBracket (brace : Bool) : Step Unit := do
  noteCandidate
  modify fun s => { s with
    brackets := { brace, outside := s.candidate } :: s.brackets
    candidate := none
    keyAllowed := true }
  reading (pass 1)
  push (if brace then .flowMapStart else .flowListStart)

/-- A closing bracket, whether or not one is open. -/
def closeBracket (t : Token) : Step Unit := do
  dropCandidate
  modify fun s =>
    match s.brackets with
    | [] => s
    | b :: brackets => { s with candidate := b.outside, brackets }
  allowKey false
  reading (pass 1)
  push t

def comma : Step Unit := do
  allowKey true
  dropCandidate
  reading (pass 1)
  push .comma

/-- The colon behind a candidate: the mark of the key comes in front of the
candidate's tokens, after the beginning of a block if there is none yet. -/
def colonBehind (k : Candidate) : Step Unit := do
  modify fun s => { s with candidate := none }
  let opened ←
    if (← get).inFlow then pure false else openBlock k.column
  modify fun s =>
    let n := k.number - s.handed
    { s with
      waiting := s.waiting.take n ++
        (if opened then [.blockMapStart] else []) ++
        .key :: s.waiting.drop n }
  allowKey false
  reading (pass 1)
  push .value

def colon : Step Unit := do
  match (← get).candidate with
  | some k => colonBehind k
  | none => indicator .blockMapStart .value

def nodeName : Reader String := do
  pass 1
  let name ← passWhile isNameChar
  require (!name.isEmpty && atNameEnd (← get).rest)
  return String.ofList name

def named (token : String → Token) : Step Unit := do
  noteCandidate
  allowKey false
  push (token (← reading nodeName))

/-- A scalar in a block, below its header. -/
def blockText (folded : Bool) : Step Unit := do
  allowKey true
  dropCandidate
  let parent := (← get).indent
  push (.scalar (← reading (blockScalar folded parent)) false)

def quoted (quote : Char) : Step Unit := do
  noteCandidate
  allowKey false
  push (.scalar (← reading (quotedScalar quote)) false)

/-- A scalar without quotes.  A key can follow if the scalar ends at a line
break. -/
def plain : Step Unit := do
  noteCandidate
  let s ← get
  let (text, crossed) ←
    reading (plainScalar s.inFlow (s.indent + 1).toNat)
  allowKey crossed
  push (.scalar text true)

/-- Whether the colon that comes next, with `cs` behind it, ends a key. -/
def endsKey (s : Lexer) (cs : List Char) : Bool :=
  atGap cs ||
    match s.brackets with
    | [] => false
    | b :: _ => b.brace && s.waiting.getLast? != some .value

/-- Finds the next token, and those that come with it. -/
def next : Step Unit := do
  toToken
  dropStale
  closeBlocks (← get).cursor.column
  let s ← get
  let p := s.cursor
  match p.rest with
  | [] => textEnd
  | c :: cs =>
      if p.column == 0 && c == '%' then directive
      else if p.column == 0 && atMark '-' p.rest then documentMark .documentStart
      else if p.column == 0 && atMark '.' p.rest then documentMark .documentEnd
      else match c with
        | '[' => openBracket false
        | '\x7b' => openBracket true
        | ']' => closeBracket .flowListEnd
        | '\x7d' => closeBracket .flowMapEnd
        | ',' => comma
        | '*' => named .reference
        | '&' => named .name
        | '\'' => quoted '\''
        | '"' => quoted '"'
        | _ =>
            if c == '-' && atGap cs then indicator .blockListStart .item
            else if c == '?' && (s.inFlow || atGap cs) then
              indicator .blockMapStart .key
            else if c == ':' && s.endsKey cs then colon
            else if c == '|' && !s.inFlow then blockText false
            else if c == '>' && !s.inFlow then blockText true
            else if startsPlain p.rest then plain
            else throw .malformedText

def handOut : Step (List Token) := do
  if (← get).waiting.isEmpty then return []
  else
    dropStale
    let s ← get
    let n := s.candidates.foldl (fun n k => min n (k.number - s.handed))
      s.waiting.length
    set { s with waiting := s.waiting.drop n, handed := s.handed + n }
    return s.waiting.take n

def advance : Step (List Token) := do
  next
  if (← get).finished then return (← get).waiting else handOut

/-- The tokens from here on, at most `fuel` steps of the search; a fault is the
last. -/
def tokens : Nat → Lexer → List (Except Fault Token)
  | 0, _ => [.error .malformedText]
  | fuel + 1, s =>
      match advance.run s with
      | .error fault => [.error fault]
      | .ok (out, s) =>
          out.map .ok ++ if s.finished then [] else tokens fuel s

end Lexer

/-- The tokens of a text.  Each step of the search passes a character or ends
it. -/
def Token.ofChars (cs : List Char) : List (Except Fault Token) :=
  Lexer.tokens (cs.length + 2) { cursor := { rest := cs } }

end ClientSdk.Yaml
