import ClientSdk.Code
import ClientSdk.Route
import ClientSdk.Value.Json

/-!
# The contract of a route

The record that tells a client at run time what a route is: method, path, the
content types of request and response, which of them are encrypted, and the
status.  A request has a content type only if it has a body.
-/

namespace ClientSdk

/-- The content type of a message and whether it is encrypted. -/
structure Message where
  type : Value
  encrypted : Bool
deriving Repr

/-- What a client knows about a route at run time. -/
structure Contract where
  method : String
  path : Value
  request : Option Message
  response : Message
  status : Value
deriving Repr

/-- The content type of a message that does not say otherwise. -/
def contentTypeFor (encrypted : Bool) : String :=
  if encrypted then "text/plain" else "application/json"

namespace Route

def requestType? (r : Route) : Option Value :=
  match r.body? with
  | none => none
  | some body =>
      if r.contentType.truthy then some r.contentType
      else some (.text (contentTypeFor (r.encrypted || body.encrypted)))

def responseType (r : Route) : String :=
  contentTypeFor r.encrypted

/-- The status under which a response is passed on: the declared one, or the
usual one of the method. -/
def propagatedStatus (r : Route) : Value :=
  match r.status with
  | .null => .int (if r.method == "POST" then 201 else 200)
  | status => status

def requestEncrypted (r : Route) : Bool :=
  r.encrypted || match r.body? with
    | some body => body.encrypted
    | none => false

def contract (r : Route) : Contract :=
  { method := r.method
    path := r.path
    request := r.requestType?.map fun type =>
      { type, encrypted := r.requestEncrypted }
    response := { type := .text r.responseType, encrypted := r.encrypted }
    status := r.status }

end Route

def Code.value (v : Value) : Code :=
  .plain (v.json .ascii)

def Message.code (m : Message) : Code :=
  .object [.field "type" (.value m.type),
    .field "encrypted" (.value (.bool m.encrypted))]

def Contract.code (k : Contract) : Code :=
  .object [
    .field "method" (.value (.text k.method)),
    .field "path" (.value k.path),
    .field "request" ((k.request.map Message.code).getD (.plain "null")),
    .field "response" k.response.code,
    .field "status" (.value k.status)]

def Contract.text (k : Contract) : String :=
  "export const METADATA = " ++ k.code.text ++ " as const;"

end ClientSdk
