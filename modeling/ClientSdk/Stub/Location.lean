import ClientSdk.Stub.Types

/-!
# Locations

The function that builds the location of a request: the path with its
parameters filled in, and the query parameters behind it.
-/

namespace ClientSdk

/-- A piece of the template literal of a path. -/
inductive PathPiece where
  | char (c : Char)
  /-- The place of a parameter. -/
  | hole (name : String)
deriving DecidableEq, Repr

def PathPiece.chars : PathPiece → List Char
  | .char c => [c]
  | .hole name =>
      "$\x7bencodeURIComponent(".toList ++ name.toList ++
        " ?? \"null\")\x7d".toList

/-- The pieces of an escaped path after `skipped` more characters.  A colon and
the longest identifier behind it make the place of a parameter if one has that
field. -/
def pathPieces (fields : Table Value) : Nat → List Char → List PathPiece
  | _, [] => []
  | skipped + 1, _ :: cs => pathPieces fields skipped cs
  | 0, c :: cs =>
      match (if c = ':' then Text.leadingIdentifier? cs else none) with
      | some field =>
          match Table.get? fields (String.ofList field) with
          | none | some .null => .char c :: pathPieces fields 0 cs
          | some name => .hole name.display :: pathPieces fields field.length cs
      | none => .char c :: pathPieces fields 0 cs

namespace Parameter

def sentName (p : Parameter) : Value :=
  if p.field.truthy then p.field else p.name

end Parameter

namespace Route

/-- The names of the path parameters by their fields; of several with one field
the last counts. -/
def pathFields (r : Route) : Except Fault (Table Value) := do
  let keys ← (r.parametersOf .path).mapM fun p => do
    let key ← Comment.asKey p.sentName
    return (key.text?, p.name)
  return Table.ofPairs (keys.filterMap fun (key, name) => key.map (·, name))

def location (r : Route) : Except Fault (List PathPiece) := do
  let fields ← r.pathFields
  let path ← r.path.asText
  return pathPieces fields 0 (TypeExpr.escapeTemplate path.toList)

end Route

/-- The function that builds a location. -/
structure PathFunction where
  parameters : List Binding
  location : List PathPiece
  queries : List Parameter

namespace PathFunction

def literal (f : PathFunction) : String :=
  String.ofList ('`' :: (f.location.flatMap PathPiece.chars ++ ['`']))

/-- A query parameter as an entry: under its field, or all its members. -/
def queryEntry (q : Parameter) : CodeEntry :=
  if q.field.truthy then
    .field (q.field.json .ascii) (.plain q.label)
  else .spread q.label

def queryObject (queries : List Parameter) : String :=
  match queries with
  | [q] =>
      if q.field.truthy then (Code.object [queryEntry q]).text else q.label
  | qs => (Code.object (qs.map queryEntry)).text

def queryStatements (f : PathFunction) : List String :=
  ["const variables: URLSearchParams = new URLSearchParams();",
   "for (const [key, value] of Object.entries(" ++ queryObject f.queries ++
     " as any))",
   "  if (undefined === value) continue;",
   "  else if (Array.isArray(value))",
   "    value.forEach((elem: any) => variables.append(key, String(elem)));",
   "  else variables.append(key, String(value));",
   "const location: string = " ++ f.literal ++ ";",
   "return 0 === variables.size",
   "  ? location",
   "  : `$\x7blocation\x7d?$\x7bvariables.toString()\x7d`;"]

def text (f : PathFunction) : String :=
  let head := "export const path = " ++
    signature (f.parameters.map Binding.text) ++ " => "
  if f.queries.isEmpty then head ++ f.literal ++ ";"
  else head ++ "\x7b\n" ++ Text.indent (Text.unlines f.queryStatements) ++
    "\n\x7d;"

end PathFunction

def Route.pathFunction (c : Config) (r : Route) : Draft PathFunction := do
  let parameters ← r.bindings c r.locationParameters
  let location ← r.location
  return { parameters, location, queries := r.parametersOf .query }

end ClientSdk
