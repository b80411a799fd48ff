import ClientSdk.Value.Access
import ClientSdk.Yaml.Meaning
import ClientSdk.Yaml.Node

/-!
# The value of a document

Scalars get their meaning and mappings their keys.  Collections are worked out
level by level, keys at once: a collection that is a key of a mapping before its
turn counts with the parts it has so far.  A list can be a key, a mapping
cannot, and no key comes twice.
-/

namespace ClientSdk.Yaml

/-- What a node stands for: a value without parts, or a collection by its
number. -/
inductive Datum where
  | value (v : Value)
  | collection (number : Nat)

def Datum.value? : Datum → Option Value
  | .value v => some v
  | .collection _ => none

/-- A key of a mapping. -/
inductive Key where
  | value (v : Value)
  | list (items : List Value)

namespace Key

/-- Whether two parts of keys are the same.  Here what is no number is the same
as itself. -/
def same (v w : Value) : Bool :=
  match v, w with
  | .float .nan, .float .nan => true
  | v, w => v.sameKey w

/-- Whether two keys are the same, so that one of them is too many. -/
def clash : Key → Key → Bool
  | .value v, .value w => same v w
  | .list vs, .list ws =>
      vs.length == ws.length && (vs.zip ws).all fun (v, w) => same v w
  | _, _ => false

def parts : Key → List Value
  | .value v => [v]
  | .list items => items

/-- The text of a key; an integer may have only so many digits in it. -/
def text (k : Key) : Except Fault String :=
  (Value.list k.parts).unlessTooLong <| match k with
    | .value v => v.display
    | .list [v] => "(" ++ v.shown ++ ",)"
    | .list items => "(" ++ ", ".intercalate (items.map Value.shown) ++ ")"

end Key

/-- The parts of a collection, as far as they have been worked out. -/
inductive Parts where
  | list (items : List Datum)
  | map (members : List (Key × Datum))

def Collection.noParts : Collection → Parts
  | .list _ => .list []
  | .map _ => .map []

/-- How far a collection has been worked out. -/
inductive Stage where
  | untouched
  /-- It is part of a key that is being worked out. -/
  | begun
  | known (parts : Parts)

namespace Document

/-- What has been worked out, and the collections whose turn will come. -/
structure Work where
  stages : Array Stage
  due : List Nat := []

abbrev Working := StateT Work (Except Fault)

variable (doc : Document)

def collection (number : Nat) : Collection :=
  doc.collections.getD number (.list [])

/-- How far a collection has been worked out. -/
def stage (number : Nat) : Working Stage :=
  return (← get).stages.getD number .untouched

/-- Notes how far a collection has been worked out. -/
def setStage (number : Nat) (s : Stage) : Working Unit :=
  modify fun w => { w with stages := w.stages.setIfInBounds number s }

/-- A datum as a key: a list stands for its parts so far, which may have no
parts of their own. -/
def keyOf (d : Datum) : Working (Option Key) := do
  match d with
  | .value v => return some (.value v)
  | .collection number =>
      match ← stage number with
      | .known (.list items) => return (items.mapM Datum.value?).map Key.list
      | _ => throw .malformedText

/-- The text of a key that has no value elsewhere: the sign for a default. -/
def textOfKey? (node : Node) : Option String :=
  if node = .scalar "=" true then some "=" else none

/-- The members of a mapping with one more, whose key has to be one that can be
compared and is not there yet. -/
def addMember (known : List (Key × Datum)) (key : Option Key) (value : Datum) :
    Working (List (Key × Datum)) :=
  match key with
  | none => throw wrongKind
  | some key =>
      if known.any fun (k, _) => k.clash key then throw .malformedText
      else return known ++ [(key, value)]

mutual

/-- What a node stands for.  A collection inside of a key is worked out at once
and counts as null inside of itself; others wait for their turn. -/
def datum (deep : Bool) : Nat → Node → Working Datum
  | 0, _ => throw (.value .endless)
  | _ + 1, .scalar text plain =>
      if plain then return .value (← plainValue text)
      else return .value (.text text)
  | fuel + 1, .collection number => do
      match ← stage number with
      | .known _ => return .collection number
      | .begun => return .value .null
      | .untouched =>
          if deep then
            setStage number .begun
            let parts ← partsOf true fuel (doc.collection number)
            setStage number (.known parts)
          else
            setStage number (.known (doc.collection number).noParts)
            modify fun w => { w with due := w.due ++ [number] }
          return .collection number

def partsOf (deep : Bool) : Nat → Collection → Working Parts
  | 0, _ => throw (.value .endless)
  | fuel + 1, .list items => .list <$> items.mapM (datum deep fuel)
  | fuel + 1, .map members =>
      .map <$> members.foldlM
        (fun known (keyNode, valueNode) => do
          let key ← keyOf (← match textOfKey? keyNode with
            | some s => pure (.value (.text s))
            | none => datum true fuel keyNode)
          let value ← datum deep fuel valueNode
          addMember known key value)
        []

end

/-- Works out the collections whose turn has come, at most `count` of them. -/
def settle : Nat → Working Unit
  | 0 => return ()
  | count + 1 => do
      match (← get).due with
      | [] => return ()
      | number :: due =>
          modify fun w => { w with due }
          let parts ← doc.partsOf false (2 * doc.collections.size + 2)
            (doc.collection number)
          setStage number (.known parts)
          settle count

/-- The value of a datum, nested at most `fuel` deep. -/
def valueOf (stages : Array Stage) : Nat → Datum → Except Fault Value
  | _, .value v => .ok v
  | 0, .collection _ => .error (.value .endless)
  | fuel + 1, .collection number =>
      match stages.getD number .untouched with
      | .known (.list items) => .list <$> items.mapM (valueOf stages fuel)
      | .known (.map members) => do
          let pairs ← members.mapM fun (k, d) => do
            return (← k.text, ← valueOf stages fuel d)
          return .map (Table.ofPairs pairs)
      | _ => .ok .null

def value : Except Fault Value := do
  let size := doc.collections.size
  let start : Work := { stages := Array.replicate size .untouched }
  let work : Working Datum := do
    let root ← doc.datum false (2 * size + 3) doc.root
    doc.settle size
    return root
  let (root, w) ← work.run start
  valueOf w.stages Node.depthLimit root

end Document

end ClientSdk.Yaml
