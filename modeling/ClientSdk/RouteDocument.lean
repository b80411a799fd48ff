import ClientSdk.Host
import ClientSdk.Route.Decode
import ClientSdk.RouteDocument.Grammar

/-!
# Route documents

From a data value to the routes that it lists.  A value that breaks the grammar
gives no routes but all its violations, if they can be put into words.
-/

namespace ClientSdk.RouteDocument

/-- The violations of a document, in the order of their places. -/
def violations (document : Value) : List Violation :=
  Grammar.sorted (grammar.violations document .document)

/-- The violations of a document in words.  While a document is checked, more is
put into words than is reported. -/
def problems (host : Host) (document : Value) : Except Fault (List String) := do
  if !host.follows document then throw (.value .endless)
  for remark in grammar.remarks document .document do
    let _ ← host.wording remark.breach remark.value
  (violations document).mapM (Violation.text host.wording)

def routes (host : Host) (document : Value) (source : String) :
    Except Fault (List Route) := do
  let problems ← problems host document
  if problems.isEmpty then
    (← (← document.member "routes").entries).mapM Route.ofValue
  else throw (.invalidDocument source problems)

end ClientSdk.RouteDocument
