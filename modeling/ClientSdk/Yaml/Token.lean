/-!
# Tokens

What a document is made of: the scalars with their texts, the names of nodes,
and the marks around and between nodes.  The beginnings and ends of collections
in blocks are tokens too, though only indentation shows them.
-/

namespace ClientSdk.Yaml

/-- A token of a document. -/
inductive Token where
  | directive
  | documentStart
  | documentEnd
  | textEnd
  | blockListStart
  | blockMapStart
  | blockEnd
  | flowListStart
  | flowListEnd
  | flowMapStart
  | flowMapEnd
  /-- The dash in front of an item in a block. -/
  | item
  /-- The comma between the parts of a collection. -/
  | comma
  /-- What comes next is a key. -/
  | key
  /-- What comes next belongs to the key before. -/
  | value
  /-- The node of this name once more. -/
  | reference (name : String)
  /-- The name of the node that comes next. -/
  | name (name : String)
  | scalar (text : String) (plain : Bool)
deriving DecidableEq, Repr

end ClientSdk.Yaml
