import ClientSdk.Fault
import ClientSdk.Path
import ClientSdk.Text.Blank

/-!
# Generator options

What a run of the generator can be told: where the output goes, which variants of
the code are written, and where the types that the code refers to are declared.
-/

namespace ClientSdk

/-- The options of a run. -/
structure Config where
  /-- The root directory of the output. -/
  output : String
  /-- Whether routes can be simulated with random data. -/
  simulate : Bool := false
  /-- Whether types are written out instead of imported. -/
  clone : Bool := false
  /-- Whether routes return an envelope for every status. -/
  propagate : Bool := false
  /-- Whether types are wrapped to show how they change in transit. -/
  primitive : Bool := true
  /-- The directory, below the root, of the files that declare types. -/
  structures : String := "structures"
  /-- The files of the types that are not declared there. -/
  aliasFiles : Table String := []
  /-- The library that sends requests. -/
  fetcher : String := "@nestia/fetcher"
  /-- The library of the validation tags. -/
  tagsLibrary : String := "typia/lib/tags"
deriving DecidableEq, Repr

/-- The identifier that a type name begins with, blanks in front disregarded. -/
def typeRoot (name : String) : Except Fault String :=
  match Text.leadingIdentifier? (Text.trimChars name.toList) with
  | some root => .ok (String.ofList root)
  | none => .error (.unresolvedType name)

namespace Config

/-- The directory of the tree of modules. -/
def functionalDir (c : Config) : String :=
  Path.join c.output "functional"

def simulatorFile (c : Config) : String :=
  Path.join (Path.join c.output "utils") "NestiaSimulator.ts"

/-- The file that declares the type with the given leading identifier. -/
def fileOfRoot (c : Config) (root : String) : String :=
  match Table.get? c.aliasFiles root with
  | some file => file
  | none => Path.join (Path.join c.output c.structures) (root ++ ".ts")

def aliasFile (c : Config) (name : String) : Except Fault String :=
  c.fileOfRoot <$> typeRoot name

def tagLibrary (c : Config) (tag : String) : String :=
  c.tagsLibrary ++ "/" ++ tag

end Config

end ClientSdk
