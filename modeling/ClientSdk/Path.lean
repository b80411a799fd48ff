import ClientSdk.Text.Identifier
import ClientSdk.Text.Lines

/-!
# Paths

Slash-separated paths as texts: their normal form, joining, the directory of a
file, the way from a directory to a file, and the location under which a script
file is imported.  Nothing here looks at a disk.
-/

namespace ClientSdk

/-- The directory that a program runs in, by the names that lead to it from the
root. -/
structure WorkingDirectory where
  names : List String
  plain : ∀ s ∈ names, s ≠ "" ∧ s ≠ "." ∧ s ≠ ".." ∧ '/' ∉ s.toList
deriving DecidableEq, Repr

/-- The root as a working directory. -/
def WorkingDirectory.root : WorkingDirectory :=
  { names := [], plain := by simp }

namespace Path

/-- The normal form of a path: the slashes it begins with and its steps. -/
structure Normal where
  /-- None for a relative path; two only if there were exactly two. -/
  slashes : Nat
  steps : List String
deriving DecidableEq, Repr

/-- How many of the leading slashes are kept. -/
def keptSlashes : List Char → Nat
  | '/' :: '/' :: '/' :: _ => 1
  | '/' :: '/' :: _ => 2
  | '/' :: _ => 1
  | _ => 0

/-- One step after the steps taken so far, the last one first.  A step up takes
the last one back; a relative path may begin with steps up. -/
def takeStep (rooted : Bool) (taken : List String) (step : String) :
    List String :=
  if step = "" ∨ step = "." then taken
  else if step = ".." then
    match taken with
    | [] => if rooted then [] else [".."]
    | last :: rest => if last = ".." then ".." :: taken else rest
  else step :: taken

def read (path : String) : Normal :=
  let slashes := keptSlashes path.toList
  { slashes
    steps := ((Text.splitAt '/' path).foldl (takeStep (slashes != 0)) []).reverse }

/-- The text of a path in normal form; the empty path is `.`. -/
def Normal.text (p : Normal) : String :=
  let body := "/".intercalate p.steps
  let whole := String.ofList (List.replicate p.slashes '/') ++ body
  if whole.isEmpty then "." else whole

def turnSlashes (path : String) : String :=
  String.ofList (path.toList.map fun c => if c = '\\' then '/' else c)

/-- The path without empty steps, steps in place and steps taken back. -/
def normalize (path : String) : String :=
  (read path).text

/-- The path as files are named: backslashes turned, in normal form. -/
def clean (path : String) : String :=
  normalize (turnSlashes path)

/-- The path of `path` seen from the directory `base`. -/
def join (base path : String) : String :=
  if path.toList.head? = some '/' then path
  else if base.isEmpty ∨ base.toList.getLast? = some '/' then base ++ path
  else base ++ "/" ++ path

/-- The directory of a file: what stands in front of the last slash. -/
def directory (path : String) : String :=
  let head := (path.toList.reverse.dropWhile (· != '/'))
  if head.all (· == '/') then String.ofList head.reverse
  else String.ofList (head.dropWhile (· == '/')).reverse

/-- The steps behind the common beginning of two lists of steps. -/
def dropCommon : List String → List String → List String × List String
  | p :: ps, q :: qs =>
      if p = q then dropCommon ps qs else (p :: ps, q :: qs)
  | ps, qs => (ps, qs)

/-- The steps that lead from `start` to `target`, up first. -/
def stepsFrom (start target : List String) : List String :=
  let (up, down) := dropCommon start target
  up.map (fun _ => "..") ++ down

/-- The steps that lead from the root to a path; a relative one is seen from the
working directory. -/
def absolute (here : WorkingDirectory) (path : String) : List String :=
  let outer := if path.toList.head? = some '/' then [] else here.names
  ((Text.splitAt '/' path).foldl (takeStep true) outer.reverse).reverse

/-- The way from the directory `start` to `target`; `.` if they are one.  What
leads up from the working directory, or begins at the root, goes through names
that are not in the path. -/
def relative (here : WorkingDirectory) (target start : String) : String :=
  match stepsFrom (absolute here start) (absolute here target) with
  | [] => "."
  | steps => "/".intercalate steps

/-- The steps of a path as they are written, without empty steps and steps in
place. -/
def written (path : String) : Normal :=
  { slashes := keptSlashes path.toList
    steps := (Text.splitAt '/' path).filter fun step =>
      step != "" && step != "." }

/-- The path as files are listed: empty steps and steps in place are dropped,
steps up stay. -/
def tidy (path : String) : String :=
  (written path).text

def Normal.enter (p : Normal) (step : String) : Normal :=
  { p with steps := (takeStep (p.slashes != 0) p.steps.reverse step).reverse }

/-- The endings of script files; of two that fit, the first is meant. -/
def scriptExtensions : List String :=
  [".d.ts", ".ts", ".tsx", ".js", ".mjs"]

/-- The characters without the ending, if they have it. -/
def dropEnding? (cs : List Char) (ending : String) : Option (List Char) :=
  let e := ending.toList
  if e.isSuffixOf cs then some (cs.take (cs.length - e.length)) else none

/-- The characters without the ending of a script file.  A line break at the end
is kept and does not hide the ending. -/
def dropScriptEnding (cs : List Char) : List Char :=
  let body := Text.dropFinalBreak cs
  match scriptExtensions.findSome? (dropEnding? body) with
  | some stem => stem ++ cs.drop body.length
  | none => cs

/-- The location under which a script file is imported. -/
def target (path : String) : String :=
  String.ofList (dropScriptEnding (clean path).toList)

example : normalize "a/./b/../../../c//" = "../c" := by decide
example : normalize "" = "." := by decide
example : normalize "//a/.." = "//" := by decide
example : target "src\\api\\x.d.ts" = "src/api/x" := by decide
example : relative .root "a/s/X" "a/f/b" = "../../s/X" := by decide
example :
    relative { names := ["w"], plain := by decide } "/w/a/X" "../w/a/b" = "../X" := by
  decide
example : directory "/x" = "/" ∧ directory "a/b/c" = "a/b" := by decide

end Path

end ClientSdk
