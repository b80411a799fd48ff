import ClientSdk.Event
import ClientSdk.Text.Digit
import ClientSdk.Text.Lines

/-!
# Arguments

What a command line asks for.  An option may be given by any beginning of its
name that no other option has, and its value in the same argument behind an
equals sign or in the next one.  Every argument is judged before any of them has
an effect; then the first one that ends the run decides.
-/

namespace ClientSdk.CommandLine

/-- An option: its name, whether it takes a value, and the values it may have if
not all. -/
structure OptionSpec where
  name : String
  takesValue : Bool := true
  choices : Option (List String) := none
deriving DecidableEq

/-- The value of an option.  The separator in the place of a value is dropped
and leaves nothing. -/
abbrev OptionValue := Option String

/-- The argument behind which no argument is an option. -/
def separator : String := "--"

/-- The value that the text behind an equals sign denotes. -/
def valueOf (s : String) : OptionValue :=
  if s = separator then none else some s

def OptionSpec.admits (spec : OptionSpec) (value : OptionValue) : Bool :=
  match spec.choices, value with
  | some choices, some s => choices.contains s
  | _, _ => true

/-- What an argument is to a parser. -/
inductive Reading where
  | positional
  | option (spec : OptionSpec) (value : Option String)
  /-- The form of an option, but none of the parser. -/
  | unknown
  /-- The beginning of several options. -/
  | ambiguous
  | separator
deriving DecidableEq

/-- The part of an argument in front of the first equals sign, and what is
behind it. -/
def splitValue (arg : String) : String × Option String :=
  let name := arg.toList.takeWhile (· != '=')
  match arg.toList.drop name.length with
  | [] => (arg, none)
  | _ :: value => (String.ofList name, some (String.ofList value))

/-- Whether the character is a decimal digit of any script. -/
def isDigit (c : Char) : Bool :=
  (Text.digit? c).isSome

/-- Whether an argument has the form of a negative number; a line break may
follow it. -/
def isNegativeNumber (arg : String) : Bool :=
  match Text.dropFinalBreak arg.toList with
  | '-' :: cs =>
      let whole := cs.takeWhile isDigit
      match cs.dropWhile isDigit with
      | [] => !whole.isEmpty
      | '.' :: fraction => !fraction.isEmpty && fraction.all isDigit
      | _ => false
  | _ => false

/-- The options that an argument may mean, with the value in it.  Two dashes
begin a name of which a part is enough; behind one dash and a letter, more
letters or a value may follow. -/
def candidates (specs : List OptionSpec) (arg : String) :
    List (OptionSpec × Option String) :=
  match arg.toList with
  | '-' :: '-' :: _ =>
      let (name, value) := splitValue arg
      (specs.filter fun s => name.toList.isPrefixOf s.name.toList).map (·, value)
  | '-' :: c :: more =>
      (specs.filter fun s => s.name.toList == ['-', c]).map
        (·, some (String.ofList more))
  | _ => []

/-- What an argument is to a parser with the given options. -/
def readArgument (specs : List OptionSpec) (arg : String) : Reading :=
  match arg.toList with
  | '-' :: _ :: _ =>
      match specs.find? fun s => s.name == arg with
      | some spec => .option spec none
      | none =>
        let (name, value) := splitValue arg
        match specs.find? fun s => s.name == name && value.isSome with
        | some spec => .option spec value
        | none =>
          match candidates specs arg with
          | [(spec, value)] => .option spec value
          | _ :: _ :: _ => .ambiguous
          | [] =>
            if isNegativeNumber arg || arg.toList.contains ' ' then .positional
            else .unknown
  | _ => .positional

/-- What the arguments are to a parser with the given options. -/
def readArguments (specs : List OptionSpec) :
    List String → List (String × Reading)
  | [] => []
  | arg :: args =>
      if arg = separator then
        (arg, .separator) :: args.map fun a => (a, .positional)
      else (arg, readArgument specs arg) :: readArguments specs args

/-- What ends a run before a command is carried out. -/
inductive Stop where
  | version
  | help
  | invalid
deriving DecidableEq, Repr

/-- The arguments of a parser: options with their values in order, whether some
arguments have no meaning, and what is left when a command is met. -/
structure Parsed where
  options : List (String × OptionValue) := []
  stray : Bool := false
  rest : List String := []

/-- The arguments with one more option in front. -/
def Parsed.withOption (p : Parsed) (spec : OptionSpec) (value : OptionValue) :
    Parsed :=
  { p with options := (spec.name, value) :: p.options }

/-- What an option without a value comes to: it may end the run. -/
def OptionSpec.stop? (spec : OptionSpec) : Option Stop :=
  if spec.name = "--version" then some .version
  else if spec.name = "--help" ∨ spec.name = "-h" then some .help
  else none

/-- Whether the text behind a one-letter option repeats it. -/
def OptionSpec.isRepeated (spec : OptionSpec) (value : String) : Bool :=
  match spec.name.toList with
  | ['-', c] => c != '-' && !value.isEmpty && value.toList.all (· == c)
  | _ => false

/-- Reads options in order, up to the command if there is one.  `due` is the
option whose value comes next. -/
def parseOptions (command : Bool) :
    Option OptionSpec → List (String × Reading) → Except Stop Parsed
  | none, [] => .ok {}
  | some _, [] => .error .invalid
  | some due, (arg, reading) :: args =>
      if reading = .positional ∧ due.admits (some arg) then
        (parseOptions command none args).map (·.withOption due (some arg))
      else .error .invalid
  | none, (arg, reading) :: args =>
      match reading with
      | .ambiguous => .error .invalid
      | .unknown =>
          (parseOptions command none args).map ({ · with stray := true })
      | .positional | .separator =>
          if command then .ok { rest := arg :: args.map Prod.fst }
          else (parseOptions command none args).map ({ · with stray := true })
      | .option spec value =>
          match spec.takesValue, value with
          | true, some v =>
              if spec.admits (valueOf v) then
                (parseOptions command none args).map
                  (·.withOption spec (valueOf v))
              else .error .invalid
          | true, none => parseOptions command (some spec) args
          | false, some v =>
              if spec.isRepeated v then .error (spec.stop?.getD .invalid)
              else .error .invalid
          | false, none =>
              match spec.stop? with
              | some stop => .error stop
              | none =>
                  (parseOptions command none args).map (·.withOption spec none)

/-- Reads the arguments of a parser with the given options. -/
def Parsed.ofArguments (specs : List OptionSpec) (command : Bool)
    (args : List String) : Except Stop Parsed :=
  let readings := readArguments specs args
  if readings.any fun (_, r) => r = .ambiguous then .error .invalid
  else parseOptions command none readings

namespace Parsed

/-- The value of an option; the last one counts. -/
def value? (p : Parsed) (name : String) : Option OptionValue :=
  (p.options.reverse.find? fun (n, _) => n == name).map Prod.snd

/-- Whether an option is given. -/
def has (p : Parsed) (name : String) : Bool :=
  (p.value? name).isSome

end Parsed

/-! ## The command line -/

structure GenerateArguments where
  routes : OptionValue
  config : OptionValue := none
  /-- The output root, if the option is given. -/
  output : Option OptionValue := none
  simulate : Bool := false
  clone : Bool := false
  propagate : Bool := false
deriving DecidableEq, Repr

/-- The forms of a report. -/
inductive ReportFormat where
  | text
  | json
deriving DecidableEq, Repr

/-- What a command line asks for. -/
inductive Command where
  | generate (arguments : GenerateArguments)
  | report (routes : OptionValue) (format : ReportFormat)
deriving DecidableEq, Repr

/-- What a command line means. -/
inductive Invocation where
  | stop (reason : Stop)
  /-- A command, with the level of what is reported if there is one. -/
  | run (level : Option Level) (command : Command)
deriving DecidableEq, Repr

def helpOptions : List OptionSpec :=
  [{ name := "-h", takesValue := false }, { name := "--help", takesValue := false }]

def levels : List Level := [.debug, .info, .warning, .error]

def globalOptions : List OptionSpec :=
  helpOptions ++
    [{ name := "--version", takesValue := false },
     { name := "--log-level", choices := some (levels.map Level.name) }]

def generateOptions : List OptionSpec :=
  helpOptions ++
    [{ name := "--routes" }, { name := "--config" }, { name := "--output" },
     { name := "--simulate", takesValue := false },
     { name := "--clone", takesValue := false },
     { name := "--propagate", takesValue := false }]

def reportOptions : List OptionSpec :=
  helpOptions ++
    [{ name := "--routes" },
     { name := "--format", choices := some ["text", "json"] }]

/-- The meaning of the arguments behind `generate`. -/
def generateCommand (args : List String) : Except Stop Command := do
  let p ← Parsed.ofArguments generateOptions false args
  match p.value? "--routes" with
  | some routes =>
      if p.stray then throw .invalid
      else return .generate {
        routes
        config := (p.value? "--config").join
        output := p.value? "--output"
        simulate := p.has "--simulate"
        clone := p.has "--clone"
        propagate := p.has "--propagate" }
  | none => throw .invalid

/-- The meaning of the arguments behind `report`. -/
def reportCommand (args : List String) : Except Stop Command := do
  let p ← Parsed.ofArguments reportOptions false args
  match p.value? "--routes" with
  | some routes =>
      if p.stray then throw .invalid
      else
        let json := p.value? "--format" == some (some "json")
        return .report routes (if json then .json else .text)
  | none => throw .invalid

/-- The level that the arguments choose, if they do not leave it empty. -/
def levelOf (p : Parsed) : Option Level :=
  match p.value? "--log-level" with
  | none => some .warning
  | some value => value.bind fun name => levels.find? fun l => l.name == name

def commandOf (args : List String) : Except Stop (Option Level × Command) := do
  let p ← Parsed.ofArguments globalOptions true args
  let command ← match p.rest with
    | "generate" :: rest => generateCommand rest
    | "report" :: rest => reportCommand rest
    | _ => throw .invalid
  if p.stray then throw .invalid else return (levelOf p, command)

def Invocation.ofArguments (args : List String) : Invocation :=
  match commandOf args with
  | .ok (level, command) => .run level command
  | .error reason => .stop reason

example : Invocation.ofArguments ["report", "--ro=a", "--f", "json"] =
    .run (some .warning) (.report (some "a") .json) := by decide
example : Invocation.ofArguments ["--version", "--=x"] = .stop .invalid := by
  decide

end ClientSdk.CommandLine
