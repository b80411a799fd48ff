import ClientSdk.Path
import ClientSdk.Schema

/-!
# Hosts

What a program takes from where it runs and does not decide itself.
-/

namespace ClientSdk

/-- Where a program runs. -/
structure Host where
  /-- The directory that relative paths are seen from. -/
  here : WorkingDirectory
  /-- The value that a YAML text describes. -/
  readYaml : String → Except Fault Value
  /-- How a breach of the grammar of documents is put into words. -/
  wording : Wording
  /-- Whether the nesting of a document can be followed to its end. -/
  follows : Value → Bool

end ClientSdk
