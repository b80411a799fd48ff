import ClientSdk.Config.Decode
import ClientSdk.Disk
import ClientSdk.RouteDocument

/-!
# Loading

Options and route documents from the files of a disk.  Messages name a file by
its path without empty steps.
-/

namespace ClientSdk

variable (host : Host)

/-- The options in the text of the file at `path`. -/
def Config.ofText (text path : String) : Except Fault Config :=
  match host.readYaml text with
  | .error .malformedText => .error (.configUnreadable path)
  | .error fault => .error fault
  | .ok (.map members) => Config.ofMembers members
  | .ok _ => .error (.config (.fileNotMapping path))

def Config.load (disk : Disk) (path : String) : Except Fault Config := do
  let shown := Path.tidy path
  if ← disk.contains path then Config.ofText host (← disk.read path) shown
  else throw (.config (.fileMissing shown))

namespace RouteDocument

def ofText (text source : String) : Except Fault (List Route) :=
  match host.readYaml text with
  | .error .malformedText => .error (.documentUnreadable source)
  | .error fault => .error fault
  | .ok document => routes host document source

def load (disk : Disk) (path : String) : Except Fault (List Route) := do
  let shown := Path.tidy path
  if ← disk.contains path then ofText host (← disk.read path) shown
  else throw (.invalidDocument shown ["file not found"])

end RouteDocument

end ClientSdk
