import ClientSdk.Config
import ClientSdk.Draft
import ClientSdk.Literal
import ClientSdk.Text.Blank
import ClientSdk.TypeExpr
import ClientSdk.TypeExpr.Reference

/-!
# The type of a shape

A shape becomes the union of what its slots describe, in a fixed order.  What
the type refers to, validation tags and declared types, is wanted from its
library or file as it is met.
-/

namespace ClientSdk

def atomicKeywords : Table String :=
  [("boolean", "boolean"), ("bigint", "bigint"), ("number", "number"),
   ("integer", "number"), ("float", "number"), ("string", "string")]

def atomicKeyword (kind : Value) : Except Fault String :=
  match kind with
  | .text s =>
      match Table.get? atomicKeywords s with
      | some word => .ok word
      | none => .error (.value (.missingKey kind))
  | _ => .error (if kind.hasKey then .value (.missingKey kind) else wrongKind)

namespace TypeExpr

/-- A validation tag under its name without arguments. -/
def ofTag (c : Config) (tag : ValidationTag) : Draft TypeExpr := do
  let name := tag.instanceName
  let name ← Draft.want (.fromLibrary (c.tagLibrary name) name)
  return .tag name (← tag.value.literalType .null)

def ofRow (c : Config) (row : List ValidationTag) : Draft TypeExpr :=
  intersectionOf <$> row.mapM (ofTag c)

/-- A type that satisfies one of the rows of a tag matrix.  Empty rows are left
out. -/
def withTags (c : Config) (base : TypeExpr) (tags : TagMatrix) :
    Draft TypeExpr := do
  match tags.filter fun row => !row.isEmpty with
  | [] => return base
  | [row] => return intersectionOf (base :: (← row.mapM (ofTag c)))
  | rows => return intersectionOf [base, unionOf (← rows.mapM (ofRow c))]

/-- A date in the form in which it is sent. -/
def dateTime (c : Config) : Draft TypeExpr := do
  let format ← ofTag c
    { name := "Format", kind := .text "format", value := .text "date-time" }
  return intersectionOf [.keyword "string", format]

def ofAtomic (c : Config) (a : Atomic) : Draft TypeExpr := do
  withTags c (.keyword (← atomicKeyword a.kind)) a.tags

/-- The import of a declared type, unless it is declared in the file itself. -/
def wantRoot (c : Config) (root : String) : Draft String :=
  Draft.want
    { Registration.fromFile (c.fileOfRoot root) root with unlessOwn := true }

/-- A declared type, with the types that its arguments refer to. -/
def ofName (c : Config) (name : String) : Draft TypeExpr := do
  let root ← typeRoot name
  let arguments := (Text.trimChars name.toList).drop root.length
  let _ ← (root :: TypeName.references arguments).mapM (wantRoot c)
  return .reference name

def ofAlias (c : Config) (a : Alias) : Draft TypeExpr := do
  ofName c (← a.name.asText)

def ofLiteral (kind value : Value) : Draft TypeExpr := do
  return .literal (← value.literalType kind)

def ofConstants (constants : List Constant) : Draft (List TypeExpr) :=
  (constants.flatMap fun k => k.values.map (k.kind, ·)).mapM fun (kind, v) =>
    ofLiteral kind v

def ofSwitches (any nullable required : Bool) : List TypeExpr :=
  (if any then [.keyword "any"] else []) ++
  (if nullable then [.keyword "null"] else []) ++
  (if required then [] else [.keyword "undefined"])

/-- An object type: the named members together, then every index on its own.
Without members it is the empty object. -/
def objectOf (regular dynamic : List TypeMember) : TypeExpr :=
  let named := if regular.isEmpty && !dynamic.isEmpty then [] else [.object regular]
  intersectionOf (named ++ dynamic.map fun member => .object [member])

/-- A type under a comment, if the comment says anything. -/
def withComment (comment : String) (t : TypeExpr) : TypeExpr :=
  if comment.isEmpty then t else .documented comment t

mutual

/-- The type of a shape.  `inEscape` says that the shape is the sent form of
another one, whose own escape then does not count. -/
def ofShape (c : Config) (inEscape : Bool) : TypeShape → Draft TypeExpr
  | ⟨any, required, _, nullable, escaped, constants, templates, atomics, tuples,
      arrays, objects, aliases, _, _⟩ => do
    let escaped ← if inEscape then pure [] else ofEscaped c escaped
    let constants ← ofConstants constants
    let templates ← ofTemplates c templates
    let atomics ← atomics.mapM (ofAtomic c)
    let tuples ← ofTuples c tuples
    let arrays ← ofArrays c arrays
    let objects ← ofObjects c objects
    let aliases ← aliases.mapM (ofAlias c)
    return unionOf (ofSwitches any nullable required ++ escaped ++ constants ++
      templates ++ atomics ++ tuples ++ arrays ++ objects ++ aliases)

def ofEscaped (c : Config) : Option EscapedShape → Draft (List TypeExpr)
  | none => return []
  | some ⟨declared, sent⟩ => do
      if declared.isDate then return [← dateTime c]
      else return [← ofShape c true sent]

def ofTemplates (c : Config) : List (List TypeShape) → Draft (List TypeExpr)
  | [] => return []
  | segments :: rest => do
      let (head, spans) ← ofSegments c segments
      return .template head spans :: (← ofTemplates c rest)

/-- The text that begins the segments of a template and the types behind it. -/
def ofSegments (c : Config) :
    List TypeShape → Draft (String × List (TypeExpr × String))
  | [] => return ("", [])
  | segment :: rest => do
      match segment.soleLiteral? with
      | some value =>
          let text ← value.patternText
          let (tail, spans) ← ofSegments c rest
          return (text ++ tail, spans)
      | none =>
          let type ← ofShape c false segment
          let (tail, spans) ← ofSegments c rest
          return ("", (type, tail) :: spans)

def ofTuples (c : Config) : List TupleShape → Draft (List TypeExpr)
  | [] => return []
  | ⟨elements, _⟩ :: rest => do
      let elements ← ofElements c elements
      return .tuple elements :: (← ofTuples c rest)

/-- The elements of a tuple.  One that says what it repeats is nothing else. -/
def ofElements (c : Config) :
    List TypeShape → Draft (List (ElementMark × TypeExpr))
  | [] => return []
  | ⟨_, _, _, _, _, _, _, _, _, _, _, _, _, some repeated⟩ :: rest => do
      let type ← ofShape c false repeated
      return (.rest, type) :: (← ofElements c rest)
  | element :: rest => do
      let type ← ofShape c false element
      let mark := if element.optional then .optional else .plain
      return (mark, type) :: (← ofElements c rest)

def ofArrays (c : Config) : List ArrayShape → Draft (List TypeExpr)
  | [] => return []
  | ⟨value, tags, _⟩ :: rest => do
      let element ← ofShape c false value
      let array ← withTags c (.array element) tags
      return array :: (← ofArrays c rest)

/-- The object types: written out if they have no name of their own, referred to
otherwise. -/
def ofObjects (c : Config) : List ObjectShape → Draft (List TypeExpr)
  | [] => return []
  | ⟨properties, name, description, docTags⟩ :: rest => do
      let anonymous ← ObjectShape.anonymous { name }
      let object ←
        if anonymous then do
          let regular ← ofRegular c properties
          let dynamic ← ofDynamic c properties
          let comment ← Comment.body [] description docTags
          pure (withComment comment (objectOf regular dynamic))
        else do ofName c (← name.asText)
      return object :: (← ofObjects c rest)

def ofRegular (c : Config) : List PropertyShape → Draft (List TypeMember)
  | [] => return []
  | ⟨key, value, description, docTags⟩ :: rest => do
      match key.soleLiteral? with
      | none => ofRegular c rest
      | some name =>
          let text ← name.patternText
          let type ← ofShape c false value
          let comment ← Comment.body value.atomics description docTags
          return .property comment (memberName text) (!value.required) type ::
            (← ofRegular c rest)

/-- The members whose names have a type. -/
def ofDynamic (c : Config) : List PropertyShape → Draft (List TypeMember)
  | [] => return []
  | ⟨key, value, description, docTags⟩ :: rest => do
      if key.isSoleLiteral then ofDynamic c rest
      else
        let keyType ← ofShape c false key
        let type ← ofShape c false value
        let comment ← Comment.body value.atomics description docTags
        return .index comment keyType type :: (← ofDynamic c rest)

end

end TypeExpr

end ClientSdk
