import ClientSdk.Route
import ClientSdk.Shape.Decode

/-!
# Reading routes

The route that a data value describes.  A route without an output returns
nothing.
-/

namespace ClientSdk

def Category.ofValue (v : Value) : Except Fault Category :=
  match Category.all.find? fun c => v.text? == some c.name with
  | some c => .ok c
  | none => .error (.value (.unknownCategory v))

def NamedType.ofValue (v : Value) : Except Fault NamedType := do
  let shape ← v.memberOrNull "metadata"
  let name ← v.member "name"
  return { name, shape := ← ifMapping TypeShape.ofValue shape }

def Parameter.ofValue (v : Value) : Except Fault Parameter := do
  let name ← v.member "name"
  let category ← Category.ofValue (← v.member "category")
  let type ← NamedType.ofValue (← v.member "type")
  let field ← v.memberOrNull "field"
  return { name, category, type, field, encrypted := ← v.flag "encrypted" false }

/-- The file and the names that a value of two parts describes. -/
def importOfValue (v : Value) : Except Fault (String × List Value) := do
  match ← v.entries with
  | [file, names] => return (file.display, ← names.entries)
  | [] => .error (.value (.tooFewParts 0))
  | [_] => .error (.value (.tooFewParts 1))
  | _ => .error (.value .tooManyParts)

/-- The type that a route returns if its document does not say. -/
def voidType : Value :=
  .map [("name", .text "void")]

def Route.ofValue (v : Value) : Except Fault Route := do
  let name ← v.member "name"
  let method := Text.upper (← v.member "method").display
  let path ← v.member "path"
  let accessors ← (← v.member "accessors").entries
  let output ← v.memberOrNull "output"
  let output ← NamedType.ofValue (if output.truthy then output else voidType)
  let parameters ← (← v.entriesAt "parameters").mapM Parameter.ofValue
  let imports ← (← v.entriesAt "imports").mapM importOfValue
  let encrypted ← v.flag "encrypted" false
  let status ← v.memberOrNull "status"
  let contentType ← v.memberOrNull "content_type"
  let symbol ← v.memberOrNull "symbol"
  let description ← v.memberOrNull "description"
  let tags ← (← v.entriesAt "tags").mapM DocTag.ofValue
  return { name, method, path, accessors, output, parameters, imports, encrypted,
           status, contentType, symbol, description, tags }

end ClientSdk
