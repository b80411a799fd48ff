import ClientSdk.Comment

/-!
# Type expressions

The types of the generated code as syntax, and the text that they are written
as.  A union or an intersection inside another type is put between parentheses,
so the text groups the way the syntax does.
-/

namespace ClientSdk

/-- How an element of a tuple is marked. -/
inductive ElementMark where
  | plain
  | optional
  | rest
deriving DecidableEq, Repr

mutual

/-- A type of the generated code. -/
inductive TypeExpr where
  | keyword (word : String)
  | literal (text : String)
  /-- A declared type under its full name, arguments included. -/
  | reference (name : String)
  /-- A validation tag with its argument. -/
  | tag (name argument : String)
  /-- A text, then types each with the text behind it. -/
  | template (head : String) (spans : List (TypeExpr × String))
  | array (element : TypeExpr)
  | tuple (elements : List (ElementMark × TypeExpr))
  | object (members : List TypeMember)
  | union (members : List TypeExpr)
  | intersection (members : List TypeExpr)
  /-- A type under a comment. -/
  | documented (comment : String) (body : TypeExpr)

/-- A member of an object type, with the text of its comment. -/
inductive TypeMember where
  | property (comment name : String) (optional : Bool) (value : TypeExpr)
  /-- All members whose names are of the type `key`. -/
  | index (comment : String) (key value : TypeExpr)

end

namespace TypeExpr

/-- The union of types: the empty type if there are none, the type itself if
there is one. -/
def unionOf : List TypeExpr → TypeExpr
  | [] => .keyword "never"
  | [t] => t
  | ts => .union ts

/-- The intersection of types: the type itself if there is one. -/
def intersectionOf : List TypeExpr → TypeExpr
  | [t] => t
  | ts => .intersection ts

/-- Whether the type needs parentheses inside another one. -/
def isCompound : TypeExpr → Bool
  | .union _ => true
  | .intersection _ => true
  | .documented _ body => body.isCompound
  | _ => false

/-- The text between parentheses if the type needs them. -/
def group (t : TypeExpr) (text : String) : String :=
  if t.isCompound then "(" ++ text ++ ")" else text

/-- The text of a template as it stands between backticks.  A backslash, a
backtick and a dollar in front of a brace get a backslash. -/
def escapeTemplate : List Char → List Char
  | [] => []
  | c :: cs =>
      if c = '\\' ∨ c = '`' ∨ (c = '$' ∧ cs.head? = some '\x7b') then
        '\\' :: c :: escapeTemplate cs
      else c :: escapeTemplate cs

def templateText (s : String) : String :=
  String.ofList (escapeTemplate s.toList)

/-- The members between braces, one a line; `{}` if there are none. -/
def braced (members : List String) : String :=
  if members.isEmpty then "\x7b\x7d"
  else "\x7b\n" ++ Text.unlines (members.map Text.indent) ++ "\n\x7d"

mutual

def text : TypeExpr → String
  | .keyword word => word
  | .literal text => text
  | .reference name => name
  | .tag name argument => name ++ "<" ++ argument ++ ">"
  | .template head spans =>
      "`" ++ templateText head ++ String.join (spanTexts spans) ++ "`"
  | .array element => group element element.text ++ "[]"
  | .tuple elements => "[" ++ ", ".intercalate (elementTexts elements) ++ "]"
  | .object members => braced (memberTexts members)
  | .union members => " | ".intercalate (groupedTexts members)
  | .intersection members => " & ".intercalate (groupedTexts members)
  | .documented comment body => Comment.above comment body.text

def groupedTexts : List TypeExpr → List String
  | [] => []
  | t :: ts => group t t.text :: groupedTexts ts

def spanTexts : List (TypeExpr × String) → List String
  | [] => []
  | (t, tail) :: spans =>
      ("$\x7b" ++ t.text ++ "\x7d" ++ templateText tail) :: spanTexts spans

def elementTexts : List (ElementMark × TypeExpr) → List String
  | [] => []
  | (.plain, t) :: ts => t.text :: elementTexts ts
  | (.optional, t) :: ts => (group t t.text ++ "?") :: elementTexts ts
  | (.rest, t) :: ts => ("..." ++ group t t.text ++ "[]") :: elementTexts ts

/-- The texts of the members of an object type, comments included. -/
def memberTexts : List TypeMember → List String
  | [] => []
  | .property comment name optional value :: ms =>
      Comment.above comment
          (name ++ (if optional then "?" else "") ++ ": " ++ value.text ++ ";") ::
        memberTexts ms
  | .index comment key value :: ms =>
      Comment.above comment
          ("[key: " ++ key.text ++ "]: " ++ value.text ++ ";") ::
        memberTexts ms

end

end TypeExpr

end ClientSdk
