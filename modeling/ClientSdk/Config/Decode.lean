import ClientSdk.Config
import ClientSdk.Ledger.Script
import ClientSdk.Value.Access

/-!
# Reading and overriding options

The options that a data value sets, and the data value that sets given options.
An override is read like a document: the options in force are written out, the
given ones replaced, and the whole is checked again.
-/

namespace ClientSdk.Config

def switches : List String := ["simulate", "clone", "propagate", "primitive"]

def textOptions : List String :=
  ["output", "structures", "fetcher", "tags_library"]

def optionNames : List String :=
  switches ++ textOptions ++ ["alias_files"]

def isRoot : Value → Bool
  | .text s => !(Text.trimChars s.toList).isEmpty
  | _ => false

def isSwitch : Value → Bool
  | .bool _ => true
  | _ => false

def isText : Value → Bool
  | .text _ => true
  | _ => false

def aliasTable? : List (String × Value) → Option (Table String)
  | [] => some []
  | (name, .text file) :: rest => (aliasTable? rest).map ((name, file) :: ·)
  | _ => none

/-- The files of aliases that a value lists. -/
def aliasFilesOf (v : Value) : Except Fault (Table String) :=
  if v.truthy then
    match v with
    | .map members =>
        match aliasTable? members with
        | some t => .ok t
        | none => .error (.config .badAliasFiles)
    | _ => .error (.config .badAliasFiles)
  else .ok []

def firstRefused (members : Table Value) (accepts : Value → Bool)
    (names : List String) : Option String :=
  names.find? fun name =>
    match Table.get? members name with
    | some v => !accepts v
    | none => false

def checkNames (names : List String) : Except Fault Unit :=
  match names.filter fun name => !optionNames.contains name with
  | [] => .ok ()
  | unknown => .error (.config (.unknownOptions (sortTexts unknown)))

/-- Refuses the options if one is unknown or has a value that it cannot have.
Of several faults the first in this order counts. -/
def check (members : Table Value) : Except Fault Unit := do
  checkNames (Table.keys members)
  if !isRoot ((Table.get? members "output").getD .null) then
    throw (.config .blankOutput)
  if let some name := firstRefused members isSwitch switches then
    throw (.config (.notBoolean name))
  if let some name := firstRefused members isText textOptions then
    throw (.config (.notText name))

def textOption (members : Table Value) (name default : String) : String :=
  match Table.get? members name with
  | some (.text s) => s
  | _ => default

/-- The position of a switch, or its default. -/
def switch (members : Table Value) (name : String) (default : Bool) : Bool :=
  match Table.get? members name with
  | some (.bool b) => b
  | _ => default

/-- The options that are set; the others have their defaults. -/
def ofMembers (members : Table Value) : Except Fault Config := do
  check members
  let aliasFiles ← aliasFilesOf ((Table.get? members "alias_files").getD .null)
  return {
    output := Path.clean (textOption members "output" "")
    simulate := switch members "simulate" false
    clone := switch members "clone" false
    propagate := switch members "propagate" false
    primitive := switch members "primitive" true
    structures := textOption members "structures" "structures"
    aliasFiles
    fetcher := textOption members "fetcher" "@nestia/fetcher"
    tagsLibrary := textOption members "tags_library" "typia/lib/tags" }

/-- Refuses a value that is no mapping.  Its entries are taken for the names of
options first. -/
def refuse (v : Value) : Except Fault Config := do
  let keys ← (← v.entries).mapM fun entry =>
    match entry.scalar? with
    | some key => .ok key.key
    | none => .error wrongKind
  match keys.mapM Scalar.Key.text? with
  | some names => checkNames names.eraseDups
  | none => throw wrongKind
  throw noOperation

/-- The options that a data value sets. -/
def ofValue (v : Value) : Except Fault Config :=
  match v with
  | .map members => ofMembers members
  | v => refuse v

def toMembers (c : Config) : Table Value :=
  [("output", .text c.output), ("simulate", .bool c.simulate),
   ("clone", .bool c.clone), ("propagate", .bool c.propagate),
   ("primitive", .bool c.primitive), ("structures", .text c.structures),
   ("alias_files", .map (c.aliasFiles.map fun (k, v) => (k, .text v))),
   ("fetcher", .text c.fetcher), ("tags_library", .text c.tagsLibrary)]

def given (values : Table Value) : Table Value :=
  values.filter fun (_, v) =>
    match v with
    | .null => false
    | _ => true

/-- The name that the options themselves have in an override, so that no value
can be given under it. -/
def ownName : String := "self"

/-- The options with those of the given values replaced. -/
def override (c : Config) (values : Table Value) : Except Fault Config :=
  if (Table.keys values).contains ownName then .error wrongKind
  else match given values with
    | [] => .ok c
    | changes =>
        ofMembers (changes.foldl (fun t (k, v) => Table.insert t k v) c.toMembers)

end ClientSdk.Config
