import ClientSdk.Number.Reading
import ClientSdk.Number.Shortest
import ClientSdk.Text.Quoted
import ClientSdk.Value

/-!
# Values in messages

The text of a value where a message names it (`shown`, with texts between
quotes) and where it is put into other text (`display`, with texts as they
stand).  Both are for values whose integers may be written (`isTooLong`).
-/

namespace ClientSdk.Value

mutual

def shown : Value → String
  | .null => "None"
  | .bool b => if b then "True" else "False"
  | .int n => toString n
  | .float x => x.text
  | .text s => Text.quoted s
  | .list items => "[" ++ ", ".intercalate (shownItems items) ++ "]"
  | .map members => "\x7b" ++ ", ".intercalate (shownMembers members) ++ "\x7d"

def shownItems : List Value → List String
  | [] => []
  | v :: vs => v.shown :: shownItems vs

def shownMembers : List (String × Value) → List String
  | [] => []
  | (k, v) :: ms => (Text.quoted k ++ ": " ++ v.shown) :: shownMembers ms

end

mutual

/-- Whether an integer in the value has more digits than may be written. -/
def isTooLong : Value → Bool
  | .int n => decide (integerDigitLimit < (Nat.toDigits 10 n.natAbs).length)
  | .list items => anyTooLong items
  | .map members => anyMemberTooLong members
  | _ => false

def anyTooLong : List Value → Bool
  | [] => false
  | v :: vs => v.isTooLong || anyTooLong vs

def anyMemberTooLong : List (String × Value) → Bool
  | [] => false
  | (_, v) :: ms => v.isTooLong || anyMemberTooLong ms

end

def display : Value → String
  | .text s => s
  | v => v.shown

end ClientSdk.Value

namespace ClientSdk.Scalar

def shown (v : Scalar) : String :=
  v.value.shown

/-- The scalar as it reads inside other text. -/
def display (v : Scalar) : String :=
  v.value.display

@[simp] theorem display_text (s : String) : (Scalar.text s).display = s := rfl

end ClientSdk.Scalar
