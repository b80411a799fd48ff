import ClientSdk.Ledger

/-!
# Events

What a run reports while it goes on, with the level of detail at which it is
shown.
-/

namespace ClientSdk

/-- The levels of detail, the most detailed first. -/
inductive Level where
  | debug
  | info
  | warning
  | error
deriving DecidableEq, Repr

def Level.name : Level → String
  | .debug => "DEBUG"
  | .info => "INFO"
  | .warning => "WARNING"
  | .error => "ERROR"

/-- The rank of a level; higher ones are shown more often. -/
def Level.rank : Level → Nat
  | .debug => 0
  | .info => 1
  | .warning => 2
  | .error => 3

/-- Something that a run reports. -/
inductive Event where
  | loaded (count : Nat) (source : String)
  | claimed (file name : String) (origin : Origin)
  | wrote (path : String)
  | generated (count : Nat) (root : String)
deriving DecidableEq, Repr

namespace Event

def level : Event → Level
  | .generated _ _ => .info
  | _ => .debug

/-- The part of the program that reports an event. -/
def reporter : Event → String
  | .loaded _ _ => "route_sdkgen.documents"
  | .claimed _ _ _ => "route_sdkgen.importer"
  | .wrote _ | .generated _ _ => "route_sdkgen.file_writer"

def message : Event → String
  | .loaded count source =>
      "Loaded " ++ toString count ++ " route(s) from " ++ source
  | .claimed file name origin =>
      file ++ ": " ++ name ++ " <- " ++ origin.journalText
  | .wrote path => "Wrote " ++ path
  | .generated count root =>
      "Generated " ++ toString count ++ " file(s) under " ++ root

def text (e : Event) : String :=
  e.level.name ++ " " ++ e.reporter ++ ": " ++ e.message

end Event

/-- The events of the registrations in a ledger, in order. -/
def Ledger.events (l : Ledger) : List Event :=
  l.journal.reverse.map fun (name, origin) =>
    .claimed l.file name.display origin

end ClientSdk
