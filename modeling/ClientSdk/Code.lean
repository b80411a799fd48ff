import ClientSdk.Text.Lines

/-!
# Expressions and signatures

The expressions of the generated code that spread over several lines: calls and
object literals, with one argument or entry a line, and the parameter list of a
function.
-/

namespace ClientSdk

structure Binding where
  name : String
  type : String
deriving DecidableEq, Repr

mutual

inductive Code where
  /-- An expression that is written as it stands. -/
  | plain (text : String)
  | call (callee : String) (arguments : List Code)
  | object (entries : List CodeEntry)

/-- An entry of an object literal. -/
inductive CodeEntry where
  | field (key : String) (value : Code)
  | spread (source : String)

end

namespace Code

/-- The parts, each with a comma behind it, one a line and moved in. -/
def listed (parts : List String) : String :=
  Text.unlines (parts.map fun part => Text.indent (part ++ ","))

mutual

def text : Code → String
  | .plain text => text
  | .call callee arguments =>
      if arguments.isEmpty then callee ++ "()"
      else callee ++ "(\n" ++ listed (argumentTexts arguments) ++ "\n)"
  | .object entries =>
      if entries.isEmpty then "\x7b\x7d"
      else "\x7b\n" ++ listed (entryTexts entries) ++ "\n\x7d"

def argumentTexts : List Code → List String
  | [] => []
  | c :: cs => c.text :: argumentTexts cs

def entryTexts : List CodeEntry → List String
  | [] => []
  | .field key value :: es => (key ++ ": " ++ value.text) :: entryTexts es
  | .spread source :: es => ("..." ++ source) :: entryTexts es

end

end Code

def Binding.text (b : Binding) : String :=
  b.name ++ ": " ++ b.type

/-- The parameter list of a function: on one line if it is a single parameter
that takes one line. -/
def signature (parameters : List String) : String :=
  match parameters with
  | [] => "()"
  | [p] =>
      if p.toList.contains '\n' then "(\n" ++ Code.listed [p] ++ "\n)"
      else "(" ++ p ++ ")"
  | ps => "(\n" ++ Code.listed ps ++ "\n)"

end ClientSdk
