import ClientSdk.Host
import ClientSdk.Yaml

/-!
# The usual host

A host with a reader of YAML and with words for what is wrong with a document,
and whose stack is deep enough.
-/

namespace ClientSdk

/-- The pattern of identifiers as messages show it. -/
def identifierPattern : String := "^[A-Za-z_$][A-Za-z0-9_$]*$"

/-- A message about a value, which begins with the value. -/
def Value.said (v : Value) (message : String) : Except Fault String :=
  v.unlessTooLong (v.shown ++ message)

def usualWording : Wording
  | .wrongKind allowed, v =>
      v.said (" is not of type " ++
        ", ".intercalate (allowed.map fun k => Text.quoted k.name))
  | .missing key, _ => .ok (Text.quoted key ++ " is a required property")
  | .notAmong choices, v =>
      v.said (" is not one of " ++ (Value.list (choices.map Value.text)).shown)
  | .noIdentifier, v =>
      v.said (" does not match " ++ Text.quoted identifierPattern)
  | .tooShort least, v =>
      v.said (if least = 1 then " should be non-empty" else " is too short")
  | .tooLong, v => v.said " is too long"
  | .noAlternative, v => v.said " is not valid under any of the given schemas"

/-- The working directory at a path that begins at the root. -/
def WorkingDirectory.ofPath (path : String) : WorkingDirectory :=
  let names := (Path.read path).steps
  if plain : ∀ s ∈ names, s ≠ "" ∧ s ≠ "." ∧ s ≠ ".." ∧ '/' ∉ s.toList then
    { names, plain }
  else .root

def Host.usual (here : WorkingDirectory) : Host :=
  { here, readYaml := Yaml.read, wording := usualWording, follows := fun _ => true }

end ClientSdk
