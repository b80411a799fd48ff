import ClientSdk.Shape
import ClientSdk.Text.Lines
import ClientSdk.Value.Access

/-!
# Documentation comments

The text of a comment from a description and documentation tags, and the block
that it becomes in the generated code.  A documentation tag that a validation
tag already expresses is left out.
-/

namespace ClientSdk.Comment

def tagLine (tag : DocTag) : String :=
  if tag.text.truthy then "@" ++ tag.name.display ++ " " ++ tag.text.display
  else "@" ++ tag.name.display

/-- The kinds of the validation tags of primitive types. -/
def kindsOf (atomics : List Atomic) : List Value :=
  (atomics.flatMap fun a => a.tags.flatten).map ValidationTag.kind

/-- The value as a key, which it has to be able to be. -/
def asKey (v : Value) : Except Fault Value :=
  if v.hasKey then .ok v else .error wrongKind

/-- The tags whose names are none of the kinds. -/
def withoutKinds (kinds : List Value) (tags : List DocTag) :
    Except Fault (List DocTag) := do
  let kinds ← kinds.mapM asKey
  tags.filterM fun tag => do
    let name ← asKey tag.name
    return !kinds.any name.sameKey

/-- The tags that the primitive types do not express. -/
def remaining (atomics : List Atomic) (tags : List DocTag) :
    Except Fault (List DocTag) :=
  if atomics.isEmpty ∨ tags.isEmpty then .ok tags
  else withoutKinds (kindsOf atomics) tags

/-- The lines of a description; none if it is not given. -/
def descriptionLines (description : Value) : Except Fault (List String) :=
  if description.truthy then Text.lines <$> description.asText else .ok []

/-- The text of a comment: the description, a blank line if both parts are
there, and the tags. -/
def body (atomics : List Atomic) (description : Value) (tags : List DocTag) :
    Except Fault String := do
  let first ← descriptionLines description
  let tags ← remaining atomics tags
  let gap := if description.truthy && !tags.isEmpty then [""] else []
  return Text.unlines (first ++ gap ++ tags.map tagLine)

def blockLine (line : String) : String :=
  if line.isEmpty then " *" else " * " ++ line

/-- The comment block of a text; nothing for the empty text. -/
def block (comment : String) : String :=
  if comment.isEmpty then ""
  else Text.unlines ("/**" :: ((Text.lines comment).map blockLine ++ [" */"]))

def above (comment declaration : String) : String :=
  let b := block comment
  if b.isEmpty then declaration else b ++ "\n" ++ declaration

end ClientSdk.Comment
