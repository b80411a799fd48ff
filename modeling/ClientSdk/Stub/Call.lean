import ClientSdk.Stub.Types

/-!
# Stub functions

The function that a client calls: it sends the request of a route, or simulates
it if the connection asks for that.
-/

namespace ClientSdk

/-- The mark of the generator in every comment it writes. -/
def mark : String := "@sdkgen Generated by route-sdkgen"

/-- The call that sends a request. -/
structure FetchCall where
  /-- The name of the route. -/
  route : String
  fetcher : String
  method : String
  connection : Code
  locationNames : List String
  body : Option String

/-- The options of the call: the contract of the route, the path as declared and
the location. -/
def FetchCall.options (f : FetchCall) : Code :=
  .object [
    .spread (f.route ++ ".METADATA"),
    .field "template" (.plain (f.route ++ ".METADATA.path")),
    .field "path" (.plain (f.route ++ ".path(" ++
      ", ".intercalate f.locationNames ++ ")"))]

def FetchCall.code (f : FetchCall) : Code :=
  .call (f.fetcher ++ "." ++ f.method)
    ([f.connection, f.options] ++ (f.body.map Code.plain).toList)

/-- A header parameter as an entry: under its field, or all its members. -/
def headerEntry (h : Parameter) : CodeEntry :=
  if h.field.truthy then .field (h.field.json .ascii) (.plain h.label)
  else .spread h.label

namespace Route

/-- The headers that a request adds to those of the connection. -/
def headerEntries (r : Route) : List CodeEntry :=
  (r.parametersOf .header).map headerEntry ++
    match r.requestType? with
    | some type => [.field "\"Content-Type\"" (.value type)]
    | none => []

/-- The connection of a request, with its headers if it has any. -/
def connectionCode (r : Route) : Code :=
  match r.headerEntries with
  | [] => .plain "connection"
  | entries =>
      .object [.spread "connection",
        .field "headers" (.object (.spread "connection.headers" :: entries))]

def fetcherName (r : Route) : String :=
  if r.encrypted then "EncryptedFetcher" else "PlainFetcher"

/-- The call that sends the request of a route. -/
def fetchCall (c : Config) (r : Route) : Draft FetchCall := do
  let fetcher ← Draft.want
    { name := .text r.fetcherName
      origin := .library (c.fetcher ++ "/lib/" ++ r.fetcherName)
      typeOnly := false }
  let locationNames ← r.locationNames
  return {
    route := r.label
    fetcher
    method := if c.propagate then "propagate" else "fetch"
    connection := r.connectionCode
    locationNames
    body := r.body?.map Parameter.label }

def comment (r : Route) : Except Fault String := do
  let described ← Comment.body [] r.description r.tags
  return Text.unlines (
    (if described.isEmpty then [] else [described, ""]) ++
    (if r.symbol.truthy then ["@controller " ++ r.symbol.display] else []) ++
    ["@path " ++ r.method ++ " " ++ r.path.display, mark])

end Route

/-- The function that a client calls. -/
structure StubFunction where
  name : String
  comment : String
  parameters : List Binding
  fetch : FetchCall
  /-- The call that simulates the route, if it can be simulated. -/
  simulate : Option Code
  returns : String

namespace StubFunction

def expression (f : StubFunction) : String :=
  let fetch := f.fetch.code.text
  match f.simulate with
  | none => fetch
  | some simulate =>
      "!!connection.simulate\n" ++
        Text.indent ("? " ++ Text.hang simulate.text ++ "\n: " ++
          Text.hang fetch)

def text (f : StubFunction) : String :=
  Text.unlines [
    Comment.block f.comment,
    "export async function " ++ f.name ++
      signature (f.parameters.map Binding.text) ++
      ": Promise<" ++ f.returns ++ "> \x7b",
    Text.indent ("return " ++ f.expression ++ ";"),
    "\x7d"]

end StubFunction

def Route.stubFunction (c : Config) (r : Route) : Draft StubFunction := do
  let parameters ← r.allBindings c
  let fetch ← r.fetchCall c
  let simulate := if c.simulate then
      some (Code.call (r.label ++ ".simulate")
        (.plain "connection" :: r.parameters.map fun p => .plain p.label))
    else none
  let comment ← r.comment
  return { name := r.label, comment, parameters, fetch, simulate,
           returns := r.returnType c }

end ClientSdk
