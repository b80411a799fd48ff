import ClientSdk.Main
import ClientSdk.Proofs.Ledger.Binding
import ClientSdk.Proofs.Ledger.Canonical
import ClientSdk.Proofs.Ledger.Collision
import ClientSdk.Proofs.Ledger.Refusal
import ClientSdk.Proofs.ModuleTree.Paths
import ClientSdk.Proofs.ModuleTree.Walk
import ClientSdk.Proofs.ModuleTree.Sorting
import ClientSdk.Proofs.Draft
import ClientSdk.Proofs.Stub.Wants
import ClientSdk.Proofs.Stub.Parts
import ClientSdk.Proofs.Stub.Texts
import ClientSdk.Proofs.Stub.Members
import ClientSdk.Proofs.Stub.Agreement
import ClientSdk.Proofs.Stub.Names
import ClientSdk.Proofs.Ledger.Batch
import ClientSdk.Proofs.ModuleTree.Page
import ClientSdk.Proofs.Generation.Plan
import ClientSdk.Proofs.Path.Join
import ClientSdk.Proofs.Ledger.Value
import ClientSdk.Proofs.Ledger.Serving
import ClientSdk.Proofs.ModuleTree.Helper
import ClientSdk.Proofs.ModuleTree.Declared
import ClientSdk.Proofs.ModuleTree.Libraries
import ClientSdk.Proofs.Generation.Run
import ClientSdk.Proofs.Generation.Layout
import ClientSdk.Proofs.Generation.Exports
import ClientSdk.Proofs.Generation.Reexports
import ClientSdk.Proofs.Path.Place
import ClientSdk.Proofs.Disk
import ClientSdk.Proofs.Path.Output
import ClientSdk.Proofs.Generation.Outputs
import ClientSdk.Proofs.Generation.Faults
import ClientSdk.Proofs.CommandLine
import ClientSdk.Proofs.Generation.Failure
import ClientSdk.Proofs.RouteDocument.Reading
import ClientSdk.Proofs.RouteDocument.Names
import ClientSdk.Proofs.TypeExpr.Members
import ClientSdk.Proofs.TypeExpr.Mentions
import ClientSdk.Proofs.TypeExpr.Regrouping
import ClientSdk.Proofs.Ledger.Resolution
import ClientSdk.Proofs.Ledger.Repetition
import ClientSdk.Proofs.Stub.Comments
import ClientSdk.Proofs.RouteDocument.Validation
import ClientSdk.Proofs.Ledger.Specifier
import ClientSdk.Proofs.Stub.Location
import ClientSdk.Proofs.TypeExpr.Place
import ClientSdk.Proofs.TypeExpr.Meaning
import ClientSdk.Proofs.TypeExpr.Reference
import ClientSdk.Proofs.TypeExpr.KnownWord
import ClientSdk.Proofs.TypeExpr.DocTags
import ClientSdk.Proofs.Text.Literal
import ClientSdk.Proofs.TypeExpr.Objects
import ClientSdk.Proofs.TypeExpr.Keys
import ClientSdk.Proofs.TypeExpr.Literals
import ClientSdk.Proofs.Stub.Record
import ClientSdk.Proofs.Stub.Contract
import ClientSdk.Proofs.Config.Reloading
import ClientSdk.Proofs.Stub.Calls
