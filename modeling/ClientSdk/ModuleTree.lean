import ClientSdk.Route
import ClientSdk.Value.Access

/-!
# Module trees

The routes of an API sorted into modules.  A route belongs to the module that
its accessors but the last lead to; modules come into being in the order in
which routes first need them.
-/

namespace ClientSdk

/-- A module: the modules below it by name, and its own routes.  A name is
mostly a text; names that are the same key are one name, spelled as it came
first. -/
structure ModuleTree where
  children : List (Scalar × ModuleTree) := []
  routes : List Route := []

instance : Inhabited ModuleTree := ⟨{}⟩

namespace ModuleTree

/-- The module below with the given name, and the name as it is spelled. -/
def child? (t : ModuleTree) (key : Scalar) : Option (Scalar × ModuleTree) :=
  Table.find? key.sameKey t.children

/-- The tree with the module that the keys lead to, changed by `f`; modules on
the way are added where they are missing. -/
def alterAt (t : ModuleTree) (keys : List Scalar)
    (f : ModuleTree → ModuleTree) : ModuleTree :=
  match keys with
  | [] => f t
  | key :: rest =>
      { t with
        children := Table.alterWhere key.sameKey key
          (fun child => alterAt (child.getD {}) rest f) t.children }

def take (t : ModuleTree) (keys : List Scalar) : ModuleTree :=
  t.alterAt keys id

def find? (t : ModuleTree) : List Scalar → Option ModuleTree
  | [] => some t
  | key :: rest => (t.child? key).bind fun (_, child) => child.find? rest

/-- The keys as the modules that they lead to are spelled; keys of missing
modules stay. -/
def spelled (t : ModuleTree) : List Scalar → List Scalar
  | [] => []
  | key :: rest =>
      match t.child? key with
      | some (name, child) => name :: child.spelled rest
      | none => key :: rest

def emplace (t : ModuleTree) (keys : List Scalar) (r : Route) : ModuleTree :=
  t.alterAt keys fun node => { node with routes := node.routes ++ [r] }

/-- The values as keys, up to the first that cannot be one. -/
def keysOf : List Value → List Scalar × Except Fault Unit
  | [] => ([], .ok ())
  | v :: vs =>
      match v.scalar? with
      | some key => (key :: (keysOf vs).1, (keysOf vs).2)
      | none => ([], .error wrongKind)

/-- The tree after a path is followed, with the names of the modules on it.
Modules up to the first value that is no key are added all the same. -/
def follow (t : ModuleTree) (path : List Value) :
    Except Fault (List Scalar) × ModuleTree :=
  let (keys, result) := keysOf path
  (result.map fun _ => t.spelled keys, t.take keys)

/-- The tree with one more route, and the names of the modules that lead to it. -/
def add (t : ModuleTree) (r : Route) :
    Except Fault (List Scalar) × ModuleTree :=
  let path := r.accessors.dropLast
  match t.follow path with
  | (.ok names, _) => (.ok names, t.emplace (keysOf path).1 r)
  | (.error fault, t) => (.error fault, t)

def ofRoutes (routes : List Route) : Except Fault ModuleTree :=
  routes.foldlM
    (fun t r => let (result, t) := t.add r; result.map fun _ => t) {}

/-- The module at the end of a path, with the names of the modules on it. -/
def descend (t : ModuleTree) : List Value → Except Fault (List Scalar × ModuleTree)
  | [] => .ok ([], t)
  | v :: vs =>
      match v.scalar?.map t.child? with
      | none => .error wrongKind
      | some none => .error (.value (.missingKey v))
      | some (some (name, child)) =>
          (child.descend vs).map fun (names, node) => (name :: names, node)

mutual

/-- Every module with the keys that lead to it, behind `keys`.  A module comes
after the modules below it. -/
def walkFrom (keys : List Scalar) : ModuleTree → List (List Scalar × ModuleTree)
  | ⟨children, routes⟩ =>
      walkChildren keys children ++ [(keys, ⟨children, routes⟩)]

def walkChildren (keys : List Scalar) :
    List (Scalar × ModuleTree) → List (List Scalar × ModuleTree)
  | [] => []
  | (key, child) :: rest =>
      walkFrom (keys ++ [key]) child ++ walkChildren keys rest

end

/-- Every module with the keys that lead to it, each after those below it. -/
def walk (t : ModuleTree) : List (List Scalar × ModuleTree) :=
  walkFrom [] t

/-- The name of the module that the keys lead to in a tree of the given name. -/
def moduleName (root : String) (keys : List Scalar) : String :=
  ".".intercalate ("api" :: root :: keys.map Scalar.display)

def rootName : String := "functional"

def summary (t : ModuleTree) (name : String) : String :=
  "RouteDirectory(" ++ Text.quoted name ++ ", children=" ++
    (Value.list (t.children.map fun (key, _) => key.value)).shown ++
    ", routes=" ++ toString t.routes.length ++ ")"

end ModuleTree

end ClientSdk
