import ClientSdk.Ledger.Script
import ClientSdk.ModuleTree
import ClientSdk.Value.Json

/-!
# Summaries

How many routes, modules and uses of each method an API has.
-/

namespace ClientSdk

/-- The counts of an API; methods are sorted. -/
structure Summary where
  routes : Nat
  modules : Nat
  methods : Table Nat
deriving DecidableEq, Repr

namespace Summary

def methodCounts (routes : List Route) : Table Nat :=
  Table.sorted (routes.foldl
    (fun t r => Table.alter t r.method fun n => n.getD 0 + 1) [])

def ofRoutes (routes : List Route) : Except Fault Summary :=
  return {
    routes := routes.length
    modules := (← ModuleTree.ofRoutes routes).walk.length
    methods := methodCounts routes }

def text (s : Summary) : String :=
  "\n".intercalate (("Routes: " ++ toString s.routes) ::
    ("- Modules: " ++ toString s.modules) ::
    s.methods.map fun (method, n) => "- " ++ method ++ ": " ++ toString n) ++ "\n"

def toValue (s : Summary) : Value :=
  .map [("routes", .int s.routes), ("modules", .int s.modules),
    ("methods", .map (s.methods.map fun (method, n) => (method, .int n)))]

def json (s : Summary) : String :=
  s.toValue.jsonLines ++ "\n"

end Summary

end ClientSdk
