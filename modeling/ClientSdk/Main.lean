import ClientSdk.CommandLine
import ClientSdk.Host.Usual

/-!
# The program

Reads the files that a command names, runs the command on them and writes what
it leaves behind.
-/

namespace ClientSdk

open CommandLine

/-- The files that a command line may read. -/
def inputPaths (args : List String) : List String :=
  match Invocation.ofArguments args with
  | .run _ (.generate a) =>
      (given? a.config).getD defaultConfig :: a.routes.toList
  | .run _ (.report routes _) => routes.toList
  | _ => []

/-- The disk with what stands at a place: a file if it can be read, a directory
if something else is there. -/
def inspectPlace (disk : Disk) (place : String) : IO Disk := do
  match ← (IO.FS.readFile place).toBaseIO with
  | .ok text => return { disk with files := Table.insert disk.files place text }
  | .error (.noFileOrDirectory ..) => return disk
  | .error _ => return { disk with directories := disk.directories ++ [place] }

/-- The disk with what stands on the way to a path. -/
def inspect (disk : Disk) (path : String) : IO Disk :=
  let p := Path.written path
  (List.range p.steps.length).foldlM
    (fun disk n =>
      let part : Path.Normal := { p with steps := p.steps.take (n + 1) }
      inspectPlace disk (Path.normalize part.text))
    disk

/-- Writes the files of the second disk that the first one lacks. -/
def store (before after : Disk) : IO Unit := do
  for directory in after.directories do
    IO.FS.createDirAll directory
  for (path, text) in after.files do
    if Table.get? before.files path != some text then
      IO.FS.writeFile path text

/-- The status of a finished run; a fault that was passed on is named. -/
def finish (o : Outcome) : IO UInt32 := do
  match o.ending with
  | .exit code => return code.toUInt32
  | .failure fault =>
      IO.eprintln ("route-sdkgen: " ++ (fault.message?.getD "failed"))
      return 1

end ClientSdk

open ClientSdk

/-- Runs the command that the arguments name. -/
def main (args : List String) : IO UInt32 := do
  let here := WorkingDirectory.ofPath (← IO.currentDir).toString
  let before ← (inputPaths args).foldlM inspect {}
  let o := CommandLine.run (.usual here) args before
  store before o.disk
  IO.print o.stdout
  IO.eprint (o.stderr.getD "usage: route-sdkgen [--log-level LEVEL] COMMAND\n")
  finish o
