import ClientSdk.Ledger

/-!
# Import blocks

The statements that a ledger stands for: libraries before files, each sorted by
code point, and for each source the default name, then value imports, then type
imports.
-/

namespace ClientSdk

/-- What an import statement binds. -/
inductive ImportClause where
  | default (name : String)
  | named (names : List String)
deriving DecidableEq, Repr

structure ImportStatement where
  typeOnly : Bool
  clause : ImportClause
  source : String
deriving DecidableEq, Repr

/-- What stands between the keyword and the source. -/
def ImportClause.text : ImportClause → String
  | .default name => name
  | .named names => "\x7b " ++ ", ".intercalate names ++ " \x7d"

def ImportStatement.text (s : ImportStatement) : String :=
  (if s.typeOnly then "import type " else "import ") ++ s.clause.text ++
    " from \"" ++ s.source ++ "\";"

def sortTexts (texts : List String) : List String :=
  texts.mergeSort fun a b => decide (a ≤ b)

def Table.sorted {α : Type} (t : Table α) : Table α :=
  t.mergeSort fun p q => decide (p.1 ≤ q.1)

namespace Supply

/-- The names, sorted, for which a type import is or is not enough.  All of them
have to be texts. -/
def namesOf (s : Supply) (typeOnly : Bool) : Except Fault (List String) :=
  match ((s.names.filter fun p => p.2 == typeOnly).map Prod.fst).mapM
      Scalar.Key.text? with
  | some names => .ok (sortTexts names)
  | none => .error wrongKind

/-- The statement that imports the names of one kind, if there are any. -/
def namedStatement (s : Supply) (source : String) (typeOnly : Bool) :
    Except Fault (List ImportStatement) := do
  match ← s.namesOf typeOnly with
  | [] => return []
  | names => return [{ typeOnly, clause := .named names, source }]

/-- The statement that imports the default name, if there is one. -/
def defaultStatement (s : Supply) (source : String) : List ImportStatement :=
  match s.default with
  | some (name, typeOnly) =>
      [{ typeOnly, clause := .default name.display, source }]
  | none => []

def statements (s : Supply) (source : String) :
    Except Fault (List ImportStatement) := do
  let values ← s.namedStatement source false
  let types ← s.namedStatement source true
  return s.defaultStatement source ++ values ++ types

end Supply

namespace Ledger

/-- The specifier of an imported file, which begins with a point. -/
def specifier (l : Ledger) (target : String) : Except Fault String :=
  if target.isEmpty then .error (.value .emptyPath)
  else
    let directory := Path.directory l.file
    let way := Path.relative l.here target (if directory.isEmpty then "." else directory)
    .ok (if way.toList.head? = some '.' then way else "./" ++ way)

/-- The imported files by specifier; of two files under one specifier the later
counts. -/
def bySpecifier (l : Ledger) : Except Fault (Table Supply) :=
  l.files.foldlM (fun t (target, s) => return Table.insert t (← l.specifier target) s)
    []

def blockOf (sources : Table Supply) : Except Fault (List ImportStatement) :=
  List.flatten <$>
    (Table.sorted sources).mapM fun (source, s) => s.statements source

/-- The statements for libraries and those for files. -/
def statements (l : Ledger) :
    Except Fault (List ImportStatement × List ImportStatement) := do
  let libraries ← blockOf l.libraries
  let files ← blockOf (← l.bySpecifier)
  return (libraries, files)

/-- The two groups of statements with a blank line between them. -/
def blockText (libraries files : List ImportStatement) : String :=
  let lines := fun statements : List ImportStatement =>
    statements.map ImportStatement.text
  if libraries.isEmpty ∨ files.isEmpty then
    "\n".intercalate (lines libraries ++ lines files)
  else "\n".intercalate (lines libraries ++ "" :: lines files)

/-- Writes the import block and closes the ledger. -/
def toScript (l : Ledger) : Except Fault String × Ledger :=
  if l.closed then (.error (.ledgerClosed l.file), l)
  else
    (l.statements.map fun (libraries, files) => blockText libraries files, l.close)

end Ledger

end ClientSdk
