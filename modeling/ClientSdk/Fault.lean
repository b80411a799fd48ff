import ClientSdk.Value.Display

/-!
# Faults

Everything that can go wrong between reading a route document and writing the
last module, as causes.  `Fault.message` gives the wording, where a cause has
one.
-/

namespace ClientSdk

/-- What is wrong with the options of a generator. -/
inductive ConfigFault where
  | unknownOptions (names : List String)
  /-- No output root, or one of blanks only. -/
  | blankOutput
  | notBoolean (option : String)
  | notText (option : String)
  | badAliasFiles
  | fileMissing (path : String)
  | fileNotMapping (path : String)
  | nothingGiven (defaultFile : String)
deriving DecidableEq, Repr

/-- Why an operation on a data value has no result. -/
inductive ValueFault where
  /-- A mapping lacks a key that has to be there. -/
  | missingKey (key : Value)
  /-- A value of another kind has to stand there. -/
  | wrongKind
  /-- Values of this kind do not have the operation. -/
  | noOperation
  /-- A text that should denote an integer in the given base does not. -/
  | notInteger (base : Nat) (s : String)
  /-- A text that should denote a decimal does not. -/
  | notDecimal (s : String)
  /-- An integer has more digits than may be read. -/
  | tooManyDigits (count : Nat)
  /-- An integer has more digits than may be written. -/
  | tooLongToWrite
  /-- A code is beyond those of all characters. -/
  | noCharacter
  /-- A code is beyond those of all words. -/
  | noWord
  | nanNotInteger
  | infinityNotInteger
  /-- A parameter is of no known category. -/
  | unknownCategory (value : Value)
  /-- A pair has fewer than two parts. -/
  | tooFewParts (count : Nat)
  /-- A pair has more than two parts. -/
  | tooManyParts
  /-- A location is asked for the empty path. -/
  | emptyPath
  /-- A path holds a character that no file name can hold. -/
  | nullInPath
  /-- A value is nested too deeply, or holds itself. -/
  | endless
deriving Repr

/-- Why a path leads nowhere, or nothing can be put there. -/
inductive DiskFault where
  | notFound (path : String)
  | notDirectory (path : String)
  | isDirectory (path : String)
  | alreadyExists (path : String)
  | nameTooLong (path : String)
deriving DecidableEq, Repr

/-- A cause of failure. -/
inductive Fault where
  | config (fault : ConfigFault)
  /-- The options file at `path` is no readable document. -/
  | configUnreadable (path : String)
  | invalidDocument (source : String) (problems : List String)
  /-- The route document `source` is no readable document. -/
  | documentUnreadable (source : String)
  /-- One name of a file comes from two sources. -/
  | importCollision (file : String) (name existing incoming : Scalar)
  /-- A type name does not begin with an identifier. -/
  | unresolvedType (name : String)
  | ledgerClosed (file : String)
  | value (fault : ValueFault)
  /-- A text is not a document. -/
  | malformedText
  | disk (fault : DiskFault)
deriving Repr

def ConfigFault.message : ConfigFault → String
  | .unknownOptions names =>
      "Unknown config option(s): " ++ ", ".intercalate names
  | .blankOutput => "Config option 'output' must be a non-empty string"
  | .notBoolean option => "Config option '" ++ option ++ "' must be a boolean"
  | .notText option => "Config option '" ++ option ++ "' must be a string"
  | .badAliasFiles =>
      "Config option 'alias_files' must map alias names to file paths"
  | .fileMissing path => "Config file not found: " ++ path
  | .fileNotMapping path => "Config file must contain a mapping: " ++ path
  | .nothingGiven defaultFile =>
      "No " ++ defaultFile ++ " found; pass --config or --output"

/-- At most the first 200 characters of a quoted text. -/
def quotedExcerpt (s : String) : String :=
  String.ofList ((Text.quoted s).toList.take 200)

/-- The wording of a fault of a value; the kinds of misuse have none. -/
def ValueFault.message? : ValueFault → Option String
  | .missingKey key => some key.shown
  | .notInteger base s =>
      some ("invalid literal for int() with base " ++ toString base ++ ": " ++
        quotedExcerpt s)
  | .notDecimal s =>
      some ("could not convert string to float: " ++ Text.quoted s)
  | .tooManyDigits count =>
      some ("Exceeds the limit (" ++ toString integerDigitLimit ++
        " digits) for integer string conversion: value has " ++
        toString count ++
        " digits; use sys.set_int_max_str_digits() to increase the limit")
  | .tooLongToWrite =>
      some ("Exceeds the limit (" ++ toString integerDigitLimit ++
        " digits) for integer string conversion; " ++
        "use sys.set_int_max_str_digits() to increase the limit")
  | .noCharacter => some "chr() arg not in range(0x110000)"
  | .nanNotInteger => some "cannot convert float NaN to integer"
  | .unknownCategory value =>
      some (value.shown ++ " is not a valid ParamCategory")
  | .tooFewParts count =>
      some ("not enough values to unpack (expected 2, got " ++
        toString count ++ ")")
  | .tooManyParts => some "too many values to unpack (expected 2)"
  | .emptyPath => some "no path specified"
  | .nullInPath => some "embedded null byte"
  | .wrongKind | .noOperation | .infinityNotInteger | .noWord | .endless =>
      none

/-- The wording of a fault, where it has one of its own. -/
def Fault.message? : Fault → Option String
  | .config fault => some fault.message
  | .invalidDocument source problems =>
      some ("\n".intercalate (("Invalid route document: " ++ source) ::
        problems.map ("  - " ++ ·)))
  | .importCollision file name existing incoming =>
      some ("Import collision in " ++ file ++ ": " ++ name.shown ++
        " is imported from both " ++ existing.shown ++ " and " ++
        incoming.shown)
  | .unresolvedType name =>
      some ("Cannot resolve a declared type from " ++ Text.quoted name)
  | .ledgerClosed file =>
      some ("Import ledger for " ++ file ++ " is already finalized")
  | .value fault => fault.message?
  | .configUnreadable _ | .documentUnreadable _ | .malformedText
  | .disk _ => none

/-- Whether the fault is one of the generator's own: the command line reports
these and does not pass them on. -/
def Fault.reported : Fault → Bool
  | .value _ | .malformedText | .disk _ => false
  | _ => true

/-- The failure that a value is not of the kind needed. -/
def wrongKind : Fault := .value .wrongKind

/-- The failure that values of a kind lack an operation. -/
def noOperation : Fault := .value .noOperation

end ClientSdk
