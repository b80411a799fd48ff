import ClientSdk.Fault

/-!
# Type shapes

The structure of a type that a route takes or returns.  A shape has many slots,
any number of which may be filled: it then stands for the union of what they
describe.  Slots for texts hold whatever value the document puts there.
-/

namespace ClientSdk

structure DocTag where
  name : Value
  text : Value := .null
deriving Repr

/-- A validation tag, such as a minimum or a format. -/
structure ValidationTag where
  name : String
  kind : Value
  value : Value
deriving Repr

/-- Alternatives of validation tags that hold together. -/
abbrev TagMatrix := List (List ValidationTag)

/-- Literal values of one kind. -/
structure Constant where
  kind : Value
  values : List Value
deriving Repr

/-- A primitive type with its validation. -/
structure Atomic where
  kind : Value
  tags : TagMatrix := []
deriving Repr

/-- A reference to a type that is declared elsewhere. -/
structure Alias where
  name : Value
deriving Repr

mutual

/-- One node of the structure of a type. -/
structure TypeShape where
  any : Bool := false
  /-- Whether the member that has this type is always there. -/
  required : Bool := true
  /-- Whether an element of a tuple may be left out. -/
  optional : Bool := false
  nullable : Bool := false
  escaped : Option EscapedShape := none
  constants : List Constant := []
  templates : List (List TypeShape) := []
  atomics : List Atomic := []
  tuples : List TupleShape := []
  arrays : List ArrayShape := []
  objects : List ObjectShape := []
  aliases : List Alias := []
  natives : List String := []
  /-- What an element of a tuple repeats. -/
  rest : Option TypeShape := none

/-- A type that is sent in another form than it is declared in. -/
structure EscapedShape where
  declared : TypeShape
  sent : TypeShape

structure TupleShape where
  elements : List TypeShape
  name : Value := .null

/-- An array type with its validation. -/
structure ArrayShape where
  value : TypeShape
  tags : TagMatrix := []
  name : Value := .null

/-- A member of an object type, or all members whose names have a shape. -/
structure PropertyShape where
  key : TypeShape
  value : TypeShape
  description : Value := .null
  docTags : List DocTag := []

structure ObjectShape where
  properties : List PropertyShape := []
  name : Value := .null
  description : Value := .null
  docTags : List DocTag := []

end

instance : Inhabited TypeShape := ⟨{}⟩

/-- The name of a validation tag without its arguments. -/
def ValidationTag.instanceName (tag : ValidationTag) : String :=
  String.ofList (tag.name.toList.takeWhile (· != '<'))

/-- The number of types that the slots describe; null and undefined are not
counted. -/
def TypeShape.size (s : TypeShape) : Nat :=
  s.any.toNat + s.escaped.isSome.toNat +
    (s.constants.flatMap Constant.values).length + s.templates.length +
    s.atomics.length + s.tuples.length + s.arrays.length + s.objects.length +
    s.aliases.length + s.natives.length + s.rest.isSome.toNat

def TypeShape.soleLiteral? (s : TypeShape) : Option Value :=
  if s.required && !s.nullable && s.size == 1 then
    match s.constants with
    | [⟨_, [value]⟩] => some value
    | _ => none
  else none

/-- Whether one literal value is all the shape describes. -/
def TypeShape.isSoleLiteral (s : TypeShape) : Bool :=
  s.soleLiteral?.isSome

/-- The names that are given to objects without a name of their own. -/
def anonymousNames : List String := ["__type", "__object"]

/-- Whether the object has no name of its own, so that it has to be written out
where it is used. -/
def ObjectShape.anonymous (o : ObjectShape) : Except Fault Bool :=
  match o.name with
  | .null => .ok true
  | .text s =>
      .ok (anonymousNames.any fun n =>
        s == n || (n ++ ".").toList.isPrefixOf s.toList)
  | _ => .error noOperation

def TypeShape.isDate (s : TypeShape) : Bool :=
  s.size == 1 && s.natives == ["Date"]

end ClientSdk
