import ClientSdk.Shape

/-!
# Routes

What one route of an API looks like to its clients: where it stands in the tree
of modules, what it takes and what it returns.  Slots for texts hold whatever
value the document puts there.
-/

namespace ClientSdk

/-- Where a parameter goes in a request. -/
inductive Category where
  | path
  | query
  | body
  | header
deriving DecidableEq, Repr

def Category.all : List Category := [.path, .query, .body, .header]

def Category.name : Category → String
  | .path => "path"
  | .query => "query"
  | .body => "body"
  | .header => "header"

/-- A type by its declared name, with its structure if that is known. -/
structure NamedType where
  name : Value
  shape : Option TypeShape := none

def NamedType.void (t : NamedType) : Bool :=
  t.name.text? == some "void"

structure Parameter where
  name : Value
  category : Category
  type : NamedType
  /-- The name in the request, if it is not that of the parameter. -/
  field : Value := .null
  encrypted : Bool := false

structure Route where
  name : Value
  method : String
  path : Value
  /-- The modules that lead to the route and, last, its own name. -/
  accessors : List Value
  output : NamedType
  parameters : List Parameter := []
  /-- The files that declare types of the route, with the names they declare. -/
  imports : List (String × List Value) := []
  encrypted : Bool := false
  status : Value := .null
  contentType : Value := .null
  symbol : Value := .null
  description : Value := .null
  tags : List DocTag := []

namespace Route

def parametersOf (r : Route) (category : Category) : List Parameter :=
  r.parameters.filter (·.category == category)

def body? (r : Route) : Option Parameter :=
  (r.parametersOf .body).head?

/-- The name of the route as it reads in text. -/
def label (r : Route) : String :=
  r.name.display

end Route

/-- The name of the parameter as it reads in text. -/
def Parameter.label (p : Parameter) : String :=
  p.name.display

end ClientSdk
