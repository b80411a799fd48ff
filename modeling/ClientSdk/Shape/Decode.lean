import ClientSdk.Shape
import ClientSdk.Text.LetterCase
import ClientSdk.Value.Access

/-!
# Reading type shapes

The shape that a data value describes.  Slots that are absent or empty are left
unfilled, and keys that no slot has are passed over.  The nesting of the value
bounds that of the shape.
-/

namespace ClientSdk

def DocTag.partText : Value → String
  | .map members => ((Table.get? members "text").getD (.text "")).display
  | v => v.display

/-- The documentation tag that a value describes.  A text in parts is put
together. -/
def DocTag.ofValue (v : Value) : Except Fault DocTag := do
  let text := match ← v.memberOrNull "text" with
    | .list parts => .text (String.join (parts.map partText))
    | text => text
  return { name := ← v.member "name", text }

/-- The validation tag that a value describes.  Its kind is the name in lower
case unless the value says otherwise. -/
def ValidationTag.ofValue (v : Value) : Except Fault ValidationTag := do
  let name ← (← v.member "name").asText
  let plain := String.ofList (name.toList.takeWhile (· != '<'))
  let kind := (← v.member? "kind").getD (.text (Text.lower plain))
  return { name, kind, value := ← v.member "value" }

def TagMatrix.ofValue (v : Value) : Except Fault TagMatrix := do
  if v.truthy then
    (← v.entries).mapM fun row => do (← row.entries).mapM ValidationTag.ofValue
  else return []

/-- The documentation tags that a value describes. -/
def DocTag.listOfValue (v : Value) : Except Fault (List DocTag) := do
  if v.truthy then (← v.entries).mapM DocTag.ofValue else return []

/-- The constant that a value describes; integers beyond the floating-point
numbers may be given as texts. -/
def Constant.ofValue (v : Value) : Except Fault Constant := do
  let kind ← v.member "type"
  let values ← (← v.member "values").entries
  match kind with
  | .text "bigint" =>
      return { kind, values := ← values.mapM fun w => return .int (← w.toInteger) }
  | _ => return { kind, values }

/-- The primitive type that a value describes. -/
def Atomic.ofValue (v : Value) : Except Fault Atomic := do
  let kind ← v.member "type"
  return { kind, tags := ← TagMatrix.ofValue (← v.memberOrNull "tags") }

def Alias.ofValue (v : Value) : Except Fault Alias :=
  return { name := ← v.member "name" }

section

variable (shape : Value → Except Fault TypeShape)

/-- The array type that a value describes, given how its element is read. -/
def ArrayShape.ofValue (v : Value) : Except Fault ArrayShape := do
  let value ← shape (← v.member "value")
  let tags ← TagMatrix.ofValue (← v.memberOrNull "tags")
  return { value, tags, name := ← v.memberOrNull "name" }

/-- The tuple type that a value describes, given how its elements are read. -/
def TupleShape.ofValue (v : Value) : Except Fault TupleShape := do
  let elements ← (← v.entriesAt "elements").mapM shape
  return { elements, name := ← v.memberOrNull "name" }

/-- The member that a value describes, given how key and value are read. -/
def PropertyShape.ofValue (v : Value) : Except Fault PropertyShape := do
  let key ← shape (← v.member "key")
  let value ← shape (← v.member "value")
  let description ← v.memberOrNull "description"
  let docTags ← DocTag.listOfValue (← v.memberOrNull "jsdoc_tags")
  return { key, value, description, docTags }

/-- The object type that a value describes, given how shapes in it are read. -/
def ObjectShape.ofValue (v : Value) : Except Fault ObjectShape := do
  let properties ← (← v.entriesAt "properties").mapM
    (PropertyShape.ofValue shape)
  let name ← v.memberOrNull "name"
  let description ← v.memberOrNull "description"
  let docTags ← DocTag.listOfValue (← v.memberOrNull "jsdoc_tags")
  return { properties, name, description, docTags }

/-- The two forms that a value describes, given how they are read. -/
def EscapedShape.ofValue (v : Value) : Except Fault EscapedShape := do
  let declared ← shape (← v.member "original")
  return { declared, sent := ← shape (← v.member "returns") }

/-- What is read from a mapping; nothing from other values. -/
def ifMapping {α : Type} (read : Value → Except Fault α) (v : Value) :
    Except Fault (Option α) :=
  match v with
  | .map _ => some <$> read v
  | _ => .ok none

/-- The shape that a value describes, given how the shapes in it are read. -/
def TypeShape.ofParts (v : Value) : Except Fault TypeShape := do
  let any ← v.flag "any" false
  let required ← v.flag "required" true
  let optional ← v.flag "optional" false
  let nullable ← v.flag "nullable" false
  let escaped ← ifMapping (EscapedShape.ofValue shape)
    (← v.memberOrNull "escaped")
  let constants ← (← v.entriesAt "constants").mapM Constant.ofValue
  let templates ← (← v.entriesAt "templates").mapM fun t => do
    (← t.entries).mapM shape
  let atomics ← (← v.entriesAt "atomics").mapM Atomic.ofValue
  let tuples ← (← v.entriesAt "tuples").mapM (TupleShape.ofValue shape)
  let arrays ← (← v.entriesAt "arrays").mapM (ArrayShape.ofValue shape)
  let objects ← (← v.entriesAt "objects").mapM (ObjectShape.ofValue shape)
  let aliases ← (← v.entriesAt "aliases").mapM Alias.ofValue
  let natives := (← v.entriesAt "natives").map Value.display
  let rest ← ifMapping shape (← v.memberOrNull "rest")
  return { any, required, optional, nullable, escaped, constants, templates,
           atomics, tuples, arrays, objects, aliases, natives, rest }

end

/-- The shape that a value of at most the given depth describes.  A value
without depth is no mapping, so it has no members. -/
def TypeShape.ofDepth : Nat → Value → Except Fault TypeShape
  | 0, _ => .error noOperation
  | n + 1, v => TypeShape.ofParts (TypeShape.ofDepth n) v

def TypeShape.ofValue (v : Value) : Except Fault TypeShape :=
  TypeShape.ofDepth v.depth v

end ClientSdk
