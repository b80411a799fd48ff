import ClientSdk.Route
import ClientSdk.Stub.Contract
import ClientSdk.Text.Lines
import ClientSdk.TypeExpr.OfShape

/-!
# The types of a stub

The type texts that the declarations of a route use.  A type is written by its
declared name unless its structure is known and has to be written out.
-/

namespace ClientSdk

variable (c : Config)

def connectionType : Draft String :=
  Draft.want (.fromLibrary c.fetcher "IConnection")

/-- The text of a type: written out if `inline` or the options ask for it and
the structure is known, by name otherwise. -/
def NamedType.text (inline : Bool) (t : NamedType) : Draft String :=
  match t.shape with
  | some shape =>
      if inline || c.clone then
        TypeExpr.text <$> TypeExpr.ofShape c false shape
      else return t.name.display
  | none => return t.name.display

def wrapped (wrapper type : String) : String :=
  wrapper ++ "<" ++ type ++ ">"

namespace Route

/-- The type of a parameter; the body has a name in the namespace of the
route, and path parameters are written out. -/
def parameterType (r : Route) (p : Parameter) : Draft String :=
  match p.category with
  | .body => return r.label ++ ".Input"
  | category => p.type.text c (category == .path)

def bindings (r : Route) (ps : List Parameter) : Draft (List Binding) :=
  ps.mapM fun p => return { name := p.label, type := ← r.parameterType c p }

def allBindings (r : Route) : Draft (List Binding) := do
  let connection ← connectionType c
  return { name := "connection", type := connection } ::
    (← r.bindings c r.parameters)

def locationParameters (r : Route) : List Parameter :=
  r.parameters.filter fun p => p.category == .path || p.category == .query

def locationNames (r : Route) : Except Fault (List String) :=
  r.locationParameters.mapM fun p => p.name.asName

def inputType (body : Parameter) : Draft String := do
  let declared ← body.type.text c false
  if c.primitive then
    let wrapper ← Draft.want (.fromLibrary c.fetcher "Resolved")
    return wrapped wrapper declared
  else return declared

/-- The type of the result, if there is one. -/
def outputType? (r : Route) : Draft (Option String) := do
  if c.propagate then
    let wrapper ← Draft.want (.fromLibrary c.fetcher "IPropagation")
    let declared ← r.output.text c false
    let entry := r.propagatedStatus.display ++ ": " ++ declared ++ ";"
    return some (wrapped wrapper ("\x7b\n" ++ Text.indent entry ++ "\n\x7d"))
  else if r.output.void then return none
  else
    let declared ← r.output.text c false
    if c.primitive then
      let wrapper ← Draft.want (.fromLibrary c.fetcher "Primitive")
      return some (wrapped wrapper declared)
    else return some declared

def returnType (r : Route) : String :=
  if r.output.void && !c.propagate then "void" else r.label ++ ".Output"

end Route

end ClientSdk
