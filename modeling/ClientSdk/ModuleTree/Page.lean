import ClientSdk.Ledger.Script
import ClientSdk.ModuleTree
import ClientSdk.Stub

/-!
# Pages

The file of one module: a header, the imports, the modules below it and the
stubs of its routes.  A page depends on its own module alone.
-/

namespace ClientSdk

def indexFile : String := "index.ts"

def ruleLine : String :=
  "//" ++ String.ofList (List.replicate 64 '=')

namespace ModuleTree

/-- Whether the module has routes whose parameters are checked in a
simulation. -/
def needsSimulator (t : ModuleTree) (c : Config) : Bool :=
  c.simulate && t.routes.any fun r => !r.parameters.isEmpty

/-- The lines that pass the modules below on. -/
def exportLines (t : ModuleTree) : List String :=
  t.children.map fun (key, _) =>
    "export * as " ++ key.display ++ " from \"./" ++ key.display ++ "\";"

def headerLines (name : String) : List String :=
  ["/**", " * @packageDocumentation", " * @module " ++ name, " * " ++ mark,
   " */", ruleLine]

def pageText (t : ModuleTree) (name imports : String) (stubs : List String) :
    String :=
  let exports := t.exportLines
  let body :=
    if stubs.isEmpty then exports
    else
      imports :: "" :: (exports ++ (if exports.isEmpty then [] else [""]) ++
        stubs.intersperse "")
  Text.unlines (headerLines name ++ body) ++ "\n"

end ModuleTree

namespace Route

/-- The imports that the document lists for a route. -/
def wantImports (r : Route) : Draft Unit := do
  for (file, names) in r.imports do
    for name in names do
      match name.scalar? with
      | some name =>
          let _ ← Draft.want { name, origin := .ofPath file }
      | none => Draft.fail wrongKind

/-- The stub of a route, with the types that it refers to by name. -/
def stubWithImports (c : Config) (r : Route) : Draft String := do
  if !c.clone then r.wantImports
  r.stub c

end Route

namespace ModuleTree

def stubs (t : ModuleTree) (c : Config) : Draft (List String) := do
  if t.needsSimulator c then
    let _ ← Draft.want
      { Registration.fromFile c.simulatorFile "NestiaSimulator" with
        typeOnly := false }
  t.routes.mapM (·.stubWithImports c)

/-- The page of a module that is to be written into a directory, and the ledger
it leaves behind. -/
def page (t : ModuleTree) (c : Config) (here : WorkingDirectory)
    (name directory : String) : Except Fault String × Ledger :=
  match (Ledger.forFile here (Path.join directory indexFile)).fulfil (t.stubs c) with
  | (.error fault, l) => (.error fault, l.close)
  | (.ok stubs, l) =>
      if stubs.isEmpty then (.ok (t.pageText name "" stubs), l.close)
      else
        match l.toScript with
        | (.ok imports, l) => (.ok (t.pageText name imports stubs), l)
        | (.error fault, l) => (.error fault, l)

end ModuleTree

end ClientSdk
