import ClientSdk.Fault
import ClientSdk.Path

/-!
# Import ledgers

The imports that one generated file needs.  A ledger is open until its import
block is written or it is closed; while it is open, names are registered from
libraries and from files.  A name has one origin in a file, and a library one
default name: a registration that would break this is refused.
-/

namespace ClientSdk

/-- Where a name comes from. -/
inductive Origin where
  /-- A file of the project, by its location without the ending. -/
  | file (target : String)
  | library (name : String)
deriving DecidableEq, Repr

/-- The origin of the names of a script file. -/
def Origin.ofPath (path : String) : Origin :=
  .file (Path.target path)

/-- The location or library without its kind. -/
def Origin.label : Origin → String
  | .file target => target
  | .library name => name

def Origin.journalText : Origin → String
  | .file target => "internal:" ++ target
  | .library name => "external:" ++ name

/-- A name that a file wants to import.  A document can list a value that is no
text; it is registered like a name, but no statement can be written with it. -/
structure Registration where
  name : Scalar
  origin : Origin
  /-- Whether a type import is enough. -/
  typeOnly : Bool := true
  /-- Whether the name stands for the default export of its origin. -/
  isDefault : Bool := false
  /-- Whether nothing is wanted if the origin is the importing file. -/
  unlessOwn : Bool := false
deriving DecidableEq, Repr

namespace Registration

/-- A type import from a script file. -/
def fromFile (path name : String) : Registration :=
  { name := .text name, origin := .ofPath path }

def fromLibrary (library name : String) : Registration :=
  { name := .text name, origin := .library library }

def key (r : Registration) : Scalar.Key :=
  r.name.key

end Registration

/-- What is imported from one origin. -/
structure Supply where
  /-- The default name and whether a type import is enough for it. -/
  default : Option (Scalar × Bool) := none
  /-- The other names and whether a type import is enough for them. -/
  names : List (Scalar.Key × Bool) := []
deriving DecidableEq, Repr

namespace Supply

/-- The supply with one more name, where value imports outweigh type imports. -/
def add (s : Supply) (r : Registration) : Supply :=
  if r.isDefault then
    let typeOnly := match s.default with
      | some (_, t) => t && r.typeOnly
      | none => r.typeOnly
    { s with default := some (r.name, typeOnly) }
  else
    { s with names := Table.alter s.names r.key fun t => t.getD true && r.typeOnly }

def otherDefault? (s : Supply) (name : Scalar) : Option Scalar :=
  match s.default with
  | some (existing, _) =>
      if existing.key = name.key then none else some existing
  | none => none

end Supply

/-- The imports of one file. -/
structure Ledger where
  /-- The directory that relative paths are seen from. -/
  here : WorkingDirectory
  file : String
  libraries : Table Supply := []
  files : Table Supply := []
  /-- The origin that each name was first registered from. -/
  owners : List (Scalar.Key × Origin) := []
  closed : Bool := false
  /-- The names that passed the check of origins, the last first. -/
  journal : List (Scalar × Origin) := []
deriving DecidableEq, Repr

namespace Ledger

/-- The ledger of a file before any registration. -/
def forFile (here : WorkingDirectory) (path : String) : Ledger :=
  { here, file := Path.clean path }

def empty (l : Ledger) : Bool :=
  l.libraries.isEmpty && l.files.isEmpty

def isOwn (l : Ledger) (path : String) : Bool :=
  Path.target path == Path.target l.file

/-- The ledger after its file is done. -/
def close (l : Ledger) : Ledger :=
  { l with closed := true }

def supply (l : Ledger) : Origin → Supply
  | .file target => (Table.get? l.files target).getD {}
  | .library name => (Table.get? l.libraries name).getD {}

def setSupply (l : Ledger) (s : Supply) : Origin → Ledger
  | .file target => { l with files := Table.insert l.files target s }
  | .library name => { l with libraries := Table.insert l.libraries name s }

/-- The ledger after a name is found to come from one origin only. -/
def noteOwner (l : Ledger) (r : Registration) : Ledger :=
  { l with
    owners := Table.alter l.owners r.key fun o => o.getD r.origin
    journal := (r.name, r.origin) :: l.journal }

/-- The ledger after a registration whose origin is right.  A second default
name is refused, but by then the origin of that name has been noted. -/
def enter (l : Ledger) (r : Registration) : Except Fault Unit × Ledger :=
  let noted := l.noteOwner r
  let s := l.supply r.origin
  match if r.isDefault then s.otherDefault? r.name else none with
  | some existing =>
      (.error (.importCollision l.file (.text ("default of " ++ r.origin.label))
        existing r.name), noted)
  | none => (.ok (), noted.setSupply (s.add r) r.origin)

def register (l : Ledger) (r : Registration) : Except Fault Unit × Ledger :=
  if r.unlessOwn && r.origin == .ofPath l.file then (.ok (), l)
  else if l.closed then (.error (.ledgerClosed l.file), l)
  else
    match Table.get? l.owners r.key with
    | some owner =>
        if owner = r.origin then l.enter r
        else
          (.error (.importCollision l.file r.name (.text owner.label)
            (.text r.origin.label)), l)
    | none => l.enter r

/-- Registers names in order, up to the first that is refused. -/
def registerAll (l : Ledger) : List Registration → Except Fault Unit × Ledger
  | [] => (.ok (), l)
  | r :: rs =>
      match l.register r with
      | (.ok (), l') => l'.registerAll rs
      | (.error fault, l') => (.error fault, l')

end Ledger

end ClientSdk
