import ClientSdk.Fault
import ClientSdk.Path

/-!
# Disks

Files and directories below a working directory, as the generator leaves them.
A path is followed step by step: a step leads from a directory to a file or a
directory in it, and a step up leads back only from a directory that is there.
-/

namespace ClientSdk

/-- The files with their texts, and the directories, by normal paths. -/
structure Disk where
  files : Table String := []
  directories : List String := []
deriving DecidableEq, Repr

namespace Disk

/-- What a path leads to. -/
inductive Entry where
  | file (place : Path.Normal)
  | directory (place : Path.Normal)

/-- The longest that the name of a file may be, in bytes. -/
def nameLimit : Nat := 255

/-- The longest that a path may be, in bytes. -/
def pathLimit : Nat := 4095

def isFile (d : Disk) (place : Path.Normal) : Bool :=
  (Table.get? d.files place.text).isSome

/-- Whether a directory is at the place: one that was made, one with a file
somewhere below it, or one around the working directory. -/
def isDirectory (d : Disk) (place : Path.Normal) : Bool :=
  place.steps.all (· == "..") || d.directories.contains place.text ||
    d.files.any fun (file, _) =>
      let inside := Path.read file
      inside.slashes == place.slashes &&
        decide (place.steps.length < inside.steps.length) &&
        place.steps.isPrefixOf inside.steps

/-- What some steps lead to; `path` is the whole path. -/
def follow (d : Disk) (path : String) : Entry → List String →
    Except DiskFault Entry
  | here, [] => .ok here
  | .file _, _ :: _ => .error (.notDirectory path)
  | .directory place, step :: steps =>
      let next := place.enter step
      if step = ".." then d.follow path (.directory next) steps
      else if nameLimit < step.utf8ByteSize then .error (.nameTooLong path)
      else if d.isFile next then d.follow path (.file next) steps
      else if d.isDirectory next then d.follow path (.directory next) steps
      else .error (.notFound path)

def find (d : Disk) (path : Path.Normal) : Except DiskFault Entry :=
  if pathLimit < path.text.utf8ByteSize then .error (.nameTooLong path.text)
  else d.follow path.text (.directory { path with steps := [] }) path.steps

/-- Fails if the path holds the character that no name can hold. -/
def checkPath (path : String) : Except Fault Unit :=
  if path.toList.contains '\x00' then .error (.value .nullInPath) else .ok ()

def contains (d : Disk) (path : String) : Except Fault Bool :=
  if path.toList.contains '\x00' then .ok false
  else match d.find (Path.written path) with
    | .ok _ => .ok true
    | .error (.nameTooLong path) => .error (.disk (.nameTooLong path))
    | .error _ => .ok false

def read (d : Disk) (path : String) : Except Fault String := do
  checkPath path
  match d.find (Path.written path) with
  | .ok (.file place) => .ok ((Table.get? d.files place.text).getD "")
  | .ok (.directory _) => .error (.disk (.isDirectory path))
  | .error fault => .error (.disk fault)

/-- The place of a new file or directory and what is there already.  The path is
given by its last step and those in front of it. -/
def target (d : Disk) (before : Path.Normal) (last : String) :
    Except DiskFault (Path.Normal × Option Entry) :=
  let whole := { before with steps := before.steps ++ [last] }
  if pathLimit < whole.text.utf8ByteSize then .error (.nameTooLong whole.text)
  else do
    match ← d.follow whole.text (.directory { before with steps := [] })
        before.steps with
    | .file _ => .error (.notDirectory whole.text)
    | .directory place =>
        match d.follow whole.text (.directory place) [last] with
        | .ok entry => .ok (place.enter last, some entry)
        | .error (.notFound _) => .ok (place.enter last, none)
        | .error fault => .error fault

/-- The disk with a directory at the end of a path whose other directories are
there. -/
def makeLast (d : Disk) (before : Path.Normal) (last : String) :
    Except DiskFault Disk := do
  match ← d.target before last with
  | (place, none) =>
      .ok { d with directories := d.directories ++ [place.text] }
  | (_, some (.directory _)) => .ok d
  | (place, some (.file _)) => .error (.alreadyExists place.text)

/-- The disk with a directory and those that lead to it.  The steps are given in
reverse. -/
def makeSteps (d : Disk) (slashes : Nat) : List String → Except DiskFault Disk
  | [] => .ok d
  | last :: before => do
      let outer : Path.Normal := { slashes, steps := before.reverse }
      match d.makeLast outer last with
      | .error (.notFound _) =>
          (← d.makeSteps slashes before).makeLast outer last
      | result => result

/-- The disk with a directory and those that lead to it. -/
def makeDirectory (d : Disk) (path : String) : Except Fault Disk := do
  checkPath path
  let p := Path.written path
  (d.makeSteps p.slashes p.steps.reverse).mapError Fault.disk

/-- The disk with a file written over.  Texts hold no lone surrogates, so each of them can be
encoded. -/
def write (d : Disk) (path text : String) : Except Fault Disk := do
  checkPath path
  let p := Path.written path
  match p.steps.reverse with
  | [] => .error (.disk (.isDirectory path))
  | last :: before =>
      match d.target { p with steps := before.reverse } last with
      | .error fault => .error (.disk fault)
      | .ok (_, some (.directory _)) => .error (.disk (.isDirectory path))
      | .ok (place, _) =>
          .ok { d with files := Table.insert d.files place.text text }

end Disk

end ClientSdk
