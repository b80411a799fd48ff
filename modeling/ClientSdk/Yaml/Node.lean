import ClientSdk.Yaml.Token.Lexer

/-!
# Nodes

The nodes that the tokens of a document spell out.  A collection can be meant in
several places, even inside itself, so collections are kept by number and a node
is a scalar or the number of a collection.
-/

namespace ClientSdk.Yaml

inductive Node where
  | scalar (text : String) (plain : Bool)
  | collection (number : Nat)
deriving DecidableEq, Repr

/-- The parts of a collection. -/
inductive Collection where
  | list (items : List Node)
  | map (members : List (Node × Node))
deriving Repr

/-- A document: its root and its collections by number. -/
structure Document where
  root : Node
  collections : Array Collection

namespace Node

/-- The node of a place where nothing stands. -/
def absent : Node := .scalar "" true

/-- The deepest that collections may be nested. -/
def depthLimit : Nat := 490

/-- What is known between two tokens. -/
structure Outline where
  tokens : List (Except Fault Token)
  /-- The nodes that have been given names. -/
  names : Table Node := []
  collections : Array Collection := #[]
  /-- How many collections are open. -/
  depth : Nat := 0

abbrev Reader := StateT Outline (Except Fault)

/-- Fails because the tokens spell out no document. -/
def malformed {α : Type} : Reader α :=
  throw .malformedText

def peek : Reader Token := do
  match (← get).tokens with
  | .ok t :: _ => return t
  | .error fault :: _ => throw fault
  | [] => malformed

def pass : Reader Unit :=
  modify fun s => { s with tokens := s.tokens.drop 1 }

/-- Passes the given token, if it comes next; tells whether it did. -/
def passes (t : Token) : Reader Bool := do
  if (← peek) == t then
    pass
    return true
  else return false

/-- The name in front of a node, if it has one. -/
def name? : Reader (Option String) := do
  match ← peek with
  | .name name => do
      pass
      return some name
  | _ => return none

def setName (name : Option String) (node : Node) : Reader Unit :=
  match name with
  | none => return ()
  | some name =>
      modify fun s => { s with names := Table.insert s.names name node }

def named (name : String) : Reader Node := do
  match Table.get? (← get).names name with
  | some node => return node
  | none => malformed

/-- A new collection with the parts that `parts` reads.  Its name can be used
inside of it. -/
def collect (name : Option String) (parts : Reader Collection) :
    Reader Node := do
  let s ← get
  let number := s.collections.size
  if depthLimit ≤ s.depth then throw (.value .endless)
  set { s with
    collections := s.collections.push (.list [])
    depth := s.depth + 1 }
  setName name (.collection number)
  let c ← parts
  modify fun s => { s with
    collections := s.collections.setIfInBounds number c
    depth := s.depth - 1 }
  return .collection number

inductive Place where
  /-- Between brackets. -/
  | flow
  /-- In a block. -/
  | block
  /-- In a mapping of a block, where a list need not be further in. -/
  | member
deriving DecidableEq

/-- The node of a place, unless the next token shows that nothing stands
there. -/
def orAbsent (ends : List Token) (node : Reader Node) : Reader Node := do
  if ends.contains (← peek) then return absent else node

def valueOf (ends : List Token) (node : Reader Node) : Reader Node := do
  if ← passes .value then orAbsent ends node else return absent

def memberEnds : List Token := [.key, .value, .blockEnd]

mutual

/-- The node that comes next. -/
def read : Nat → Place → Reader Node
  | 0, _ => malformed
  | fuel + 1, place => do
      match ← peek with
      | .reference name => do
          pass
          named name
      | _ => do
          let name ← name?
          let t ← peek
          match t with
          | .scalar text plain => do
              pass
              setName name (.scalar text plain)
              return .scalar text plain
          | .flowListStart => do
              pass
              collect name (.list <$> flowItems fuel true)
          | .flowMapStart => do
              pass
              collect name (.map <$> flowMembers fuel true)
          | _ =>
              if t == .item && place == .member then
                collect name (.list <$> itemsAlone fuel)
              else if t == .blockListStart && place != .flow then do
                pass
                collect name (.list <$> blockItems fuel)
              else if t == .blockMapStart && place != .flow then do
                pass
                collect name (.map <$> blockMembers fuel)
              else if name.isSome then do
                setName name absent
                return absent
              else malformed

def blockItems : Nat → Reader (List Node)
  | 0 => malformed
  | fuel + 1 => do
      if ← passes .item then
        let item ← orAbsent [.item, .blockEnd] (read fuel .block)
        return item :: (← blockItems fuel)
      else if ← passes .blockEnd then return []
      else malformed

/-- The items of a list that is no further in than the mapping around it. -/
def itemsAlone : Nat → Reader (List Node)
  | 0 => malformed
  | fuel + 1 => do
      if ← passes .item then
        let item ← orAbsent (.item :: memberEnds) (read fuel .block)
        return item :: (← itemsAlone fuel)
      else return []

def blockMembers : Nat → Reader (List (Node × Node))
  | 0 => malformed
  | fuel + 1 => do
      if ← passes .blockEnd then return []
      else
        let key ←
          if ← passes .key then orAbsent memberEnds (read fuel .member)
          else if (← peek) == .value then pure absent
          else malformed
        let value ← valueOf memberEnds (read fuel .member)
        return (key, value) :: (← blockMembers fuel)

/-- The items of a list between brackets. -/
def flowItems : Nat → Bool → Reader (List Node)
  | 0, _ => malformed
  | fuel + 1, first => do
      if ← passes .flowListEnd then return []
      else
        if !(← if first then pure true else passes .comma) then malformed
        else if ← passes .flowListEnd then return []
        else
          let item ←
            if ← passes .key then
              collect none (.map <$> flowPair fuel)
            else read fuel .flow
          return item :: (← flowItems fuel false)

/-- The one member of a mapping that is an item of a list between brackets. -/
def flowPair : Nat → Reader (List (Node × Node))
  | 0 => malformed
  | fuel + 1 => do
      let key ←
        orAbsent [.value, .comma, .flowListEnd] (read fuel .flow)
      let value ← valueOf [.comma, .flowListEnd] (read fuel .flow)
      return [(key, value)]

/-- The members of a mapping between braces. -/
def flowMembers : Nat → Bool → Reader (List (Node × Node))
  | 0, _ => malformed
  | fuel + 1, first => do
      if ← passes .flowMapEnd then return []
      else
        if !(← if first then pure true else passes .comma) then malformed
        else if ← passes .flowMapEnd then return []
        else
          let member ←
            if ← passes .key then
              let key ←
                orAbsent [.value, .comma, .flowMapEnd] (read fuel .flow)
              let value ← valueOf [.comma, .flowMapEnd] (read fuel .flow)
              pure (key, value)
            else if (← peek) == .value then
              let value ← valueOf [.comma, .flowMapEnd] (read fuel .flow)
              pure (absent, value)
            else
              let key ← read fuel .flow
              pure (key, absent)
          return member :: (← flowMembers fuel false)

end

/-- Passes the lines that say something about the document to come; tells
whether there were any. -/
def directives : Nat → Reader Bool
  | 0 => malformed
  | fuel + 1 => do
      if ← passes .directive then
        let _ ← directives fuel
        return true
      else return false

/-- The root of the one document that the tokens spell out. -/
def root (fuel : Nat) : Reader Node := do
  let directed ← directives fuel
  let node ←
    if ← passes .documentStart then
      orAbsent [.directive, .documentStart, .documentEnd, .textEnd]
        (read fuel .block)
    else if directed then malformed
    else orAbsent [.textEnd] (read fuel .block)
  let _ ← passes .documentEnd
  if (← peek) == .textEnd then return node else malformed

end Node

def Document.ofTokens (tokens : List (Except Fault Token)) :
    Except Fault Document := do
  let (root, s) ← (Node.root (2 * tokens.length + 4)).run { tokens }
  return { root, collections := s.collections }

end ClientSdk.Yaml
