import ClientSdk.CommandLine.Arguments
import ClientSdk.Generation
import ClientSdk.Loading
import ClientSdk.Summary

/-!
# Commands

What a command does to a disk, what it prints, and how it ends.  A fault of the
generator's own is reported in one line; any other is passed on.
-/

namespace ClientSdk.CommandLine

inductive Ending where
  | exit (code : Nat)
  /-- A fault that is not reported but passed on. -/
  | failure (fault : Fault)

/-- The result of a run. -/
structure Outcome where
  disk : Disk
  ending : Ending := .exit 0
  stdout : String := ""
  /-- What is reported; the words for a misused command line are left open. -/
  stderr : Option String := some ""

/-- The file that options are read from unless another one is named. -/
def defaultConfig : String := "sdkgen.yaml"

def versionLine : String := "route-sdkgen 0.3.0\n"

def given? (value : OptionValue) : Option String :=
  value.filter fun s => !s.isEmpty

def switchValue (set : Bool) : Value :=
  if set then .bool true else .null

def overrides (a : GenerateArguments) : Table Value :=
  [("output", match a.output with
      | none => .null
      | some none => .list []
      | some (some output) => .text output),
   ("simulate", switchValue a.simulate), ("clone", switchValue a.clone),
   ("propagate", switchValue a.propagate)]

section

variable (host : Host)

/-- The options before the command line overrides them: those of a file, or
defaults below the given output root. -/
def baseConfig (a : GenerateArguments) (disk : Disk) : Except Fault Config := do
  let path := (given? a.config).getD defaultConfig
  if ← disk.contains path then Config.load host disk path
  else match given? a.config, given? a.output.join with
    | some _, _ => .error (.config (.fileMissing (Path.tidy path)))
    | none, some output => .ok { output }
    | none, none => .error (.config (.nothingGiven defaultConfig))

def configFor (a : GenerateArguments) (disk : Disk) : Except Fault Config := do
  (← baseConfig host a disk).override (overrides a)

end

def faultLine (fault : Fault) : String :=
  let message := match fault with
    | .configUnreadable path => "Unable to parse config file " ++ path
    | .documentUnreadable source => "Invalid route document: " ++ source
    | fault => fault.message?.getD ""
  "route-sdkgen: " ++ message ++ "\n"

def eventLines (level : Level) (events : List Event) : String :=
  String.join ((events.filter fun e => decide (level.rank ≤ e.level.rank)).map
    fun e => e.text ++ "\n")

def Outcome.withFault (o : Outcome) (fault : Fault) : Outcome :=
  if fault.reported then
    { o with
      ending := .exit 1
      stderr := o.stderr.map (· ++ faultLine fault) }
  else { o with ending := .failure fault }

def pathOf (value : OptionValue) : Except Fault String :=
  match value with
  | some path => .ok path
  | none => .error wrongKind

/-- The routes in a file and the event of their loading. -/
def loadRoutes (host : Host) (disk : Disk) (path : OptionValue) :
    Except Fault (List Route × Event) := do
  let path ← pathOf path
  let routes ← RouteDocument.load host disk path
  return (routes, .loaded routes.length (Path.tidy path))

/-- Writes the client for a document. -/
def runGenerate (host : Host) (level : Level) (a : GenerateArguments) (disk : Disk) :
    Outcome :=
  match (do return (← configFor host a disk, ← loadRoutes host disk a.routes) :
      Except Fault (Config × List Route × Event)) with
  | .error fault => { disk : Outcome }.withFault fault
  | .ok (config, routes, loaded) =>
      let first := "[sdkgen] " ++ toString routes.length ++ " route(s): " ++
        a.routes.getD "" ++ " -> " ++ config.functionalDir ++ "\n"
      let progress := generate config host.here routes disk
      let o : Outcome :=
        { disk := progress.disk
          stdout := first
          stderr := some (eventLines level (loaded :: progress.events)) }
      match progress.fault with
      | some fault => o.withFault fault
      | none =>
          { o with
            stdout := first ++ "[sdkgen] wrote " ++
              toString progress.written.length ++ " file(s)\n" }

/-- Summarises a document. -/
def runReport (host : Host) (level : Level) (routes : OptionValue)
    (format : ReportFormat) (disk : Disk) : Outcome :=
  match loadRoutes host disk routes with
  | .error fault => { disk : Outcome }.withFault fault
  | .ok (routes, loaded) =>
      let o : Outcome := { disk, stderr := some (eventLines level [loaded]) }
      match Summary.ofRoutes routes with
      | .error fault => o.withFault fault
      | .ok summary =>
          { o with
            stdout := match format with
              | .text => summary.text
              | .json => summary.json }

/-- Runs a command line on a disk. -/
def run (host : Host) (args : List String) (disk : Disk) : Outcome :=
  match Invocation.ofArguments args with
  | .stop .version => { disk, stdout := versionLine }
  | .stop .help => { disk }
  | .stop .invalid => { disk, ending := .exit 2, stderr := none }
  | .run none _ => { disk, ending := .failure wrongKind }
  | .run (some level) (.generate a) => runGenerate host level a disk
  | .run (some level) (.report routes format) =>
      runReport host level routes format disk

end ClientSdk.CommandLine
