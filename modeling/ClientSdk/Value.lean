import ClientSdk.Number.Binary64
import ClientSdk.Table

/-!
# Data values

What a data document holds: the input of every decoder and the result of every
reader.  Whole numbers and floating-point numbers are kept apart.
-/

namespace ClientSdk

/-- A value of a data document. -/
inductive Value where
  | null
  | bool (b : Bool)
  | int (n : Int)
  | float (x : Binary64)
  | text (s : String)
  | list (items : List Value)
  | map (members : List (String × Value))
deriving Inhabited, Repr

namespace Value

mutual

/-- How deep lists and mappings are nested; a value without parts has depth
zero. -/
def depth : Value → Nat
  | .list items => depthOfItems items + 1
  | .map members => depthOfMembers members + 1
  | _ => 0

def depthOfItems : List Value → Nat
  | [] => 0
  | v :: vs => max v.depth (depthOfItems vs)

def depthOfMembers : List (String × Value) → Nat
  | [] => 0
  | (_, v) :: ms => max v.depth (depthOfMembers ms)

end

def text? : Value → Option String
  | .text s => some s
  | _ => none

/-- Whether the value counts as given: not null, false, zero or empty. -/
def truthy : Value → Bool
  | .null => false
  | .bool b => b
  | .int n => n != 0
  | .float x => !x.isZero
  | .text s => !s.isEmpty
  | .list items => !items.isEmpty
  | .map members => !members.isEmpty

end Value

/-- A value without parts, which can be looked up in a set or a table. -/
inductive Scalar where
  | null
  | bool (b : Bool)
  | int (n : Int)
  | float (x : Binary64)
  | text (s : String)
deriving DecidableEq, Repr

namespace Scalar

/-- What a scalar counts as when it is looked up: a number by its value, whatever
its kind, where truth values are one and zero. -/
inductive Key where
  | null
  | integer (n : Int)
  /-- A number that is no integer. -/
  | number (x : Binary64)
  | text (s : String)
deriving DecidableEq, Repr

def key : Scalar → Key
  | .null => .null
  | .bool b => .integer (if b then 1 else 0)
  | .int n => .integer n
  | .float x =>
      match x.integer? with
      | some n => .integer n
      | none => .number x
  | .text s => .text s

/-- Only a text is looked up as that text. -/
theorem eq_text_of_key {v : Scalar} {name : String} (h : v.key = .text name) :
    v = .text name := by
  cases v with
  | null => exact absurd h (by simp [key])
  | bool b => exact absurd h (by simp [key])
  | int n => exact absurd h (by simp [key])
  | float x =>
      simp only [key] at h
      split at h
      · exact absurd h (by simp)
      · exact absurd h (by simp)
  | text s => exact congrArg Scalar.text (Key.text.inj h)

/-- Whether two scalars are the same key.  What is no number is the same as
nothing. -/
def sameKey (v w : Scalar) : Bool :=
  v.key == w.key && v.key != .number .nan

def Key.text? : Key → Option String
  | .text s => some s
  | _ => none

def value : Scalar → Value
  | .null => .null
  | .bool b => .bool b
  | .int n => .int n
  | .float x => .float x
  | .text s => .text s

@[simp] theorem key_text (s : String) : (Scalar.text s).key = .text s := rfl

@[simp] theorem sameKey_text {s t : String} :
    (Scalar.text s).sameKey (.text t) = true ↔ s = t := by
  simp [sameKey]

end Scalar

namespace Value

/-- The value as a scalar, if it has no parts. -/
def scalar? : Value → Option Scalar
  | .null => some .null
  | .bool b => some (.bool b)
  | .int n => some (.int n)
  | .float x => some (.float x)
  | .text s => some (.text s)
  | .list _ => none
  | .map _ => none

/-- Whether the value has no parts. -/
def hasKey (v : Value) : Bool :=
  v.scalar?.isSome

/-- Whether two values without parts are the same key. -/
def sameKey (v w : Value) : Bool :=
  match v.scalar?, w.scalar? with
  | some a, some b => a.sameKey b
  | _, _ => false

end Value

end ClientSdk
