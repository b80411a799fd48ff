import ClientSdk.Schema

/-!
# The grammar of route documents

What a document has to look like before routes are read from it.  Keys that the
grammar does not name may hold anything.
-/

namespace ClientSdk.RouteDocument

/-- The places of a route document. -/
inductive Place where
  | document
  | route
  | parameter
  | namedType
  | shape
  | escaped
  | aliasName
  | object
  | property
  | tuple
  | array
  | atomic
  | constant
  | validationTag
  | literal
  | docTag
  | docText
  | docPart
  | importEntry
  | accessors
  | category
  | method
  | atomicKind
  | constantKind
  | identifier
  | boolean
  | status
  | text
  | nonEmptyText
  | optionalText
  | listOf (items : Place)
deriving DecidableEq, Repr

open Place

/-- The rule of mappings with the given places. -/
def mappingOf (required : List String) (fields : List (String × Place)) :
    Rule Place :=
  { kinds := [.object], required, fields }

def listRule (items : Place) : Rule Place :=
  { kinds := [.array], items := some items }

/-- The grammar of route documents. -/
def grammar : Grammar Place
  | document => [mappingOf ["routes"] [("routes", listOf route)]]
  | route =>
      [mappingOf ["name", "method", "path", "accessors"]
        [("name", identifier), ("method", method), ("path", text),
         ("encrypted", boolean), ("status", status),
         ("content_type", optionalText), ("symbol", optionalText),
         ("description", optionalText), ("tags", listOf docTag),
         ("accessors", accessors), ("parameters", listOf parameter),
         ("output", namedType), ("imports", listOf importEntry)]]
  | parameter =>
      [mappingOf ["name", "category", "type"]
        [("name", identifier), ("category", category), ("field", optionalText),
         ("encrypted", boolean), ("type", namedType)]]
  | namedType =>
      [mappingOf ["name"] [("name", nonEmptyText), ("metadata", shape)]]
  | shape =>
      [mappingOf []
        [("any", boolean), ("required", boolean), ("optional", boolean),
         ("nullable", boolean), ("escaped", escaped),
         ("constants", listOf constant),
         ("templates", listOf (listOf shape)), ("atomics", listOf atomic),
         ("tuples", listOf tuple), ("arrays", listOf array),
         ("objects", listOf object), ("aliases", listOf aliasName),
         ("natives", listOf text), ("rest", shape)]]
  | escaped =>
      [mappingOf ["original", "returns"]
        [("original", shape), ("returns", shape)]]
  | aliasName => [mappingOf ["name"] [("name", nonEmptyText)]]
  | object =>
      [mappingOf []
        [("name", optionalText), ("description", optionalText),
         ("jsdoc_tags", listOf docTag), ("properties", listOf property)]]
  | property =>
      [mappingOf ["key", "value"]
        [("key", shape), ("value", shape), ("description", optionalText),
         ("jsdoc_tags", listOf docTag)]]
  | tuple =>
      [mappingOf ["elements"]
        [("name", optionalText), ("elements", listOf shape)]]
  | array =>
      [mappingOf ["value"]
        [("name", optionalText), ("value", shape),
         ("tags", listOf (listOf validationTag))]]
  | atomic =>
      [mappingOf ["type"]
        [("type", atomicKind), ("tags", listOf (listOf validationTag))]]
  | constant =>
      [mappingOf ["type", "values"]
        [("type", constantKind), ("values", listOf literal)]]
  | validationTag =>
      [mappingOf ["name", "value"]
        [("name", nonEmptyText), ("kind", text), ("value", literal)]]
  | literal => [{ kinds := [.boolean, .number, .string] }]
  | docTag =>
      [mappingOf ["name"] [("name", nonEmptyText), ("text", docText)]]
  | docText =>
      [{ kinds := [.string] }, { kinds := [.null] }, listRule docPart]
  | docPart => [mappingOf [] [("text", text), ("kind", text)]]
  | importEntry =>
      [{ kinds := [.array], firstItems := [text, listOf text], minItems := 2
         maxItems := some 2 }]
  | accessors =>
      [{ kinds := [.array], minItems := 1, items := some identifier }]
  | category => [{ choices := ["path", "query", "body", "header"] }]
  | method =>
      [{ choices := ["GET", "POST", "PUT", "PATCH", "DELETE", "HEAD", "get",
          "post", "put", "patch", "delete", "head"] }]
  | atomicKind =>
      [{ choices := ["boolean", "bigint", "number", "integer", "float",
          "string"] }]
  | constantKind => [{ choices := ["boolean", "bigint", "number", "string"] }]
  | identifier => [{ kinds := [.string], identifier := true }]
  | boolean => [{ kinds := [.boolean] }]
  | status => [{ kinds := [.integer, .null] }]
  | text => [{ kinds := [.string] }]
  | nonEmptyText => [{ kinds := [.string], minLength := 1 }]
  | optionalText => [{ kinds := [.string, .null] }]
  | listOf items => [listRule items]

end ClientSdk.RouteDocument
