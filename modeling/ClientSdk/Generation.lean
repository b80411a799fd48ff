import ClientSdk.Disk
import ClientSdk.Event
import ClientSdk.ModuleTree.Page
import ClientSdk.Simulator

/-!
# Generation

Writing the whole client.  A plan lists the directories to make, the files to
write and the events to report, in order, and ends where a page cannot be
rendered.  Pages come after those of the modules below; nothing that has been
written is taken back.
-/

namespace ClientSdk

/-- One action of a run. -/
inductive Action where
  | makeDirectory (path : String)
  | write (path text : String)
  | report (event : Event)
deriving Repr

/-- Actions in order and, if they end early, why. -/
structure Plan where
  actions : List Action
  fault : Option Fault := none

namespace Plan

/-- One plan and then, unless it ends early, another. -/
def andThen (p q : Plan) : Plan :=
  match p.fault with
  | none => { actions := p.actions ++ q.actions, fault := q.fault }
  | some _ => p

def ofActions (actions : List Action) : Plan :=
  { actions }

/-- The paths of the files that a plan writes, in order. -/
def written (p : Plan) : List String :=
  p.actions.filterMap fun
    | .write path _ => some path
    | _ => none

end Plan

/-- The actions that write a file into a directory that may be missing. -/
def writeActions (path text : String) : List Action :=
  [.makeDirectory (Path.directory path), .write path text,
   .report (.wrote (Path.tidy path))]

namespace ModuleTree

variable (c : Config) (here : WorkingDirectory)

def pagePlan (t : ModuleTree) (keys : List Scalar) (directory : String) :
    Plan :=
  let (result, ledger) := t.page c here (moduleName rootName keys) directory
  let reports := ledger.events.map Action.report
  match result with
  | .ok text =>
      { actions := reports ++ writeActions (Path.join directory indexFile) text }
  | .error fault => { actions := reports, fault := some fault }

mutual

/-- The plan for a module and those below it. -/
def plan (keys : List Scalar) (directory : String) : ModuleTree → Plan
  | ⟨children, routes⟩ =>
      ((Plan.ofActions [.makeDirectory directory]).andThen
        (planChildren keys directory children)).andThen
        (pagePlan c here ⟨children, routes⟩ keys directory)

/-- The plan for some subtrees.  It ends at a name that no directory can have. -/
def planChildren (keys : List Scalar) (directory : String) :
    List (Scalar × ModuleTree) → Plan
  | [] => Plan.ofActions []
  | (.text key, child) :: rest =>
      (plan (keys ++ [.text key]) (Path.join directory key) child).andThen
        (planChildren keys directory rest)
  | _ :: _ => { actions := [], fault := some wrongKind }

end

/-- Whether some module needs the simulation helper. -/
def simulated (t : ModuleTree) : Bool :=
  t.walk.any fun (_, node) => node.needsSimulator c

def simulatorPlan (t : ModuleTree) : Plan :=
  if t.simulated c then
    Plan.ofActions (writeActions c.simulatorFile (Simulator.source c))
  else Plan.ofActions []

def generation (t : ModuleTree) : Plan :=
  let files := (t.plan c here [] c.functionalDir).andThen (t.simulatorPlan c)
  files.andThen
    (Plan.ofActions [.report (.generated files.written.length c.output)])

end ModuleTree

/-- What has happened when a plan ends. -/
structure Progress where
  disk : Disk
  /-- The files written, in order. -/
  written : List String := []
  events : List Event := []
  fault : Option Fault := none

namespace Progress

/-- The progress after one action, if nothing has failed yet. -/
def act (p : Progress) (a : Action) : Progress :=
  if p.fault.isSome then p
  else
    match a with
    | .makeDirectory path =>
        match p.disk.makeDirectory path with
        | .ok disk => { p with disk }
        | .error fault => { p with fault := some fault }
    | .write path text =>
        match p.disk.write path text with
        | .ok disk => { p with disk, written := p.written ++ [Path.tidy path] }
        | .error fault => { p with fault := some fault }
    | .report event => { p with events := p.events ++ [event] }

end Progress

def Plan.run (p : Plan) (disk : Disk) : Progress :=
  let progress := p.actions.foldl Progress.act { disk }
  { progress with fault := progress.fault.or p.fault }

/-- Generates the client for routes on a disk. -/
def generate (c : Config) (here : WorkingDirectory) (routes : List Route) (disk : Disk) :
    Progress :=
  match ModuleTree.ofRoutes routes with
  | .ok tree => (tree.generation c here).run disk
  | .error fault => { disk, fault := some fault }

end ClientSdk
