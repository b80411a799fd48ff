import ClientSdk.Stub.Call
import ClientSdk.Stub.Simulation

/-!
# Stubs

What is written for one route: a function, and a namespace of the same name
with the types, the contract and the helpers of the function.
-/

namespace ClientSdk

/-- The namespace that goes with a stub function. -/
structure StubNamespace where
  name : String
  input : Option String
  output : Option String
  contract : Contract
  path : PathFunction
  random : Option RandomFunction
  simulate : Option SimulateFunction

namespace StubNamespace

def typeText (name type : String) : String :=
  "export type " ++ name ++ " = " ++ type ++ ";"

/-- The declarations of the types, as one block. -/
def typeBlock (n : StubNamespace) : List String :=
  match (n.input.map (typeText "Input")).toList ++
      (n.output.map (typeText "Output")).toList with
  | [] => []
  | types => [Text.unlines types]

def blocks (n : StubNamespace) : List String :=
  n.typeBlock ++ [n.contract.text, n.path.text] ++
    (n.random.map RandomFunction.text).toList ++
    (n.simulate.map SimulateFunction.text).toList

def text (n : StubNamespace) : String :=
  "export namespace " ++ n.name ++ " \x7b\n" ++
    "\n\n".intercalate (n.blocks.map Text.indent) ++ "\n\x7d"

end StubNamespace

namespace Route

def stubNamespace (c : Config) (r : Route) : Draft StubNamespace := do
  let input ← match r.body? with
    | some body => some <$> inputType c body
    | none => pure none
  let output ← r.outputType? c
  let contract ← r.status.unlessTooLong r.contract
  let path ← r.pathFunction c
  let (random, simulate) ←
    if c.simulate then do
      let random ← r.randomFunction? c
      pure (random, some (← r.simulateFunction c))
    else pure (none, none)
  return { name := r.label, input, output, contract, path, random, simulate }

def stub (c : Config) (r : Route) : Draft String := do
  let function ← r.stubFunction c
  let scope ← r.stubNamespace c
  return Text.unlines [function.text, scope.text]

end Route

end ClientSdk
