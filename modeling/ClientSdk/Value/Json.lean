import ClientSdk.Number.Shortest
import ClientSdk.Text.Lines
import ClientSdk.Text.Literal
import ClientSdk.Value

/-!
# Values as JSON text

The one-line form, with a blank after commas and colons, and the form with one
member a line.  Numbers that JSON cannot write are written by name.
-/

namespace ClientSdk.Value

def jsonFloat : Binary64 → String
  | .nan => "NaN"
  | .infinite negative => if negative then "-Infinity" else "Infinity"
  | x => x.text

mutual

def json (charset : Text.Charset) : Value → String
  | .null => "null"
  | .bool b => if b then "true" else "false"
  | .int n => toString n
  | .float x => jsonFloat x
  | .text s => Text.literal charset s
  | .list items => "[" ++ ", ".intercalate (jsonItems charset items) ++ "]"
  | .map members =>
      "\x7b" ++ ", ".intercalate (jsonMembers charset members) ++ "\x7d"

def jsonItems (charset : Text.Charset) : List Value → List String
  | [] => []
  | v :: vs => v.json charset :: jsonItems charset vs

def jsonMembers (charset : Text.Charset) : List (String × Value) → List String
  | [] => []
  | (k, v) :: ms =>
      (Text.literal charset k ++ ": " ++ v.json charset) ::
        jsonMembers charset ms

end

/-- The parts between brackets, one a line and moved in; nothing between the
brackets if there are no parts. -/
def jsonBlock (opening closing : String) (parts : List String) : String :=
  if parts.isEmpty then opening ++ closing
  else opening ++ "\n" ++ Text.indent (",\n".intercalate parts) ++ "\n" ++ closing

mutual

def jsonLines : Value → String
  | .list items => jsonBlock "[" "]" (jsonLinesItems items)
  | .map members => jsonBlock "\x7b" "\x7d" (jsonLinesMembers members)
  | v => v.json .ascii

/-- The items, each in the form of `jsonLines`. -/
def jsonLinesItems : List Value → List String
  | [] => []
  | v :: vs => v.jsonLines :: jsonLinesItems vs

/-- The members, each in the form of `jsonLines`. -/
def jsonLinesMembers : List (String × Value) → List String
  | [] => []
  | (k, v) :: ms =>
      (Text.literal .ascii k ++ ": " ++ v.jsonLines) :: jsonLinesMembers ms

end

end ClientSdk.Value
