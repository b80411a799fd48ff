import ClientSdk.Stub.Location

/-!
# Simulation

The functions that answer a request without sending it: `random` makes up a
result, and `simulate` checks the parameters before it returns one.
-/

namespace ClientSdk

/-- The function that makes up a result of the type `target`. -/
structure RandomFunction where
  target : String

def RandomFunction.text (f : RandomFunction) : String :=
  "export const random = " ++
    signature ["g?: Partial<typia.IRandomGenerator>"] ++ ": " ++ f.target ++
    " =>\n" ++ Text.indent ("typia.random<" ++ f.target ++ ">(g);")

/-- The function that makes up results of a route, if it has any. -/
def Route.randomFunction? (c : Config) (r : Route) :
    Draft (Option RandomFunction) := do
  if r.output.void then return none
  else if c.propagate then return some { target := ← r.output.text c false }
  else return some { target := "Output" }

/-- The settings of random data that a connection may bring along. -/
def randomSource : Code :=
  .plain ("\"object\" === typeof connection.simulate && " ++
    "null !== connection.simulate\n  ? connection.simulate\n  : undefined")

def Route.madeUp (r : Route) : Code :=
  if r.output.void then .plain "undefined" else .call "random" [randomSource]

def Parameter.assertion (p : Parameter) : String :=
  let check := "(() => typia.assert(" ++ p.label ++ "));"
  match p.category with
  | .path => "assert.param(" ++ p.sentName.json .ascii ++ ")" ++ check
  | .query => "assert.query" ++ check
  | .header => "assert.headers" ++ check
  | .body => "assert.body" ++ check

/-- The statements that check the parameters of a route. -/
def Route.assertions (r : Route) : Except Fault (List String) := do
  if r.parameters.isEmpty then return []
  else
    let names ← r.locationNames
    let type := r.requestType?.getD (.text (contentTypeFor false))
    let assert := Code.call "NestiaSimulator.assert" [.object [
      .field "method" (.plain "METADATA.method"),
      .field "host" (.plain "connection.host"),
      .field "path" (.plain ("path(" ++ ", ".intercalate names ++ ")")),
      .field "contentType" (.value type)]]
    return ("const assert = " ++ assert.text ++ ";") ::
      r.parameters.map Parameter.assertion

/-- What `simulate` returns, if anything. -/
def Route.simulated? (c : Config) (r : Route) : Option Code :=
  if c.propagate then
    some (.object [
      .field "success" (.plain "true"),
      .field "status" (.plain r.propagatedStatus.display),
      .field "headers" (.object [
        .field "\"Content-Type\"" (.value (.text r.responseType))]),
      .field "data" r.madeUp])
  else if r.output.void then none
  else some r.madeUp

/-- The function that simulates a route. -/
structure SimulateFunction where
  parameters : List Binding
  assertions : List String
  result : Option Code

namespace SimulateFunction

def statements (f : SimulateFunction) : List String :=
  f.assertions ++
    (f.result.map fun code => "return " ++ code.text ++ ";").toList

def text (f : SimulateFunction) : String :=
  let head := "export const simulate = " ++
    signature (f.parameters.map Binding.text) ++ ": " ++
    (if f.result.isSome then "Output" else "void") ++ " => "
  if f.statements.isEmpty then head ++ "\x7b\x7d;"
  else head ++ "\x7b\n" ++ Text.indent (Text.unlines f.statements) ++ "\n\x7d;"

end SimulateFunction

def Route.simulateFunction (c : Config) (r : Route) :
    Draft SimulateFunction := do
  let _ ← Draft.want
    { name := .text "typia", origin := .library "typia", typeOnly := false,
      isDefault := true }
  let parameters ← r.allBindings c
  let assertions ← r.assertions
  return { parameters, assertions, result := r.simulated? c }

end ClientSdk
