import ClientSdk.ModuleTree.Page
import ClientSdk.Proofs.TypeExpr.Wants

/-!
# What stubs want

Stubs want names from files and libraries in few ways (`Registration.Wanted`): validation
tags and declared types with the types that are written out, what the document lists, and
the names that the generator itself writes.  If they fail, the data of the route is at
fault (`Fault.OfData`).  This holds of types because it holds of the parts of their shapes
(`keeps_ofShape`), and of everything else a stub is made of because its parts are of types.

So from a file they want type imports, and never a default name; what they want as a
default is a text (`Registration.Modest`).
-/

namespace ClientSdk

/-- A registration for which its file need not be loaded, and whose name is a text if
it is a default one. -/
structure Registration.Modest (r : Registration) : Prop where
  isText : r.isDefault = true → ∃ name, r.name = .text name
  typeOnly : ∀ target, r.origin = .file target → r.typeOnly = true ∧ r.isDefault = false

namespace Registration

def typia : Registration :=
  { fromLibrary "typia" "typia" with typeOnly := false, isDefault := true }

def fetcher (c : Config) (name : String) : Registration :=
  { fromLibrary (c.fetcher ++ "/lib/" ++ name) name with typeOnly := false }

inductive Wanted (c : Config) : Registration → Prop
  | tag (name : String) : Wanted c (.fromLibrary (c.tagLibrary name) name)
  | declared (path name : String) : Wanted c { fromFile path name with unlessOwn := true }
  | listed (path : String) (name : Scalar) : Wanted c { name, origin := .ofPath path }
  | fetcher {name : String} : name ∈ ["PlainFetcher", "EncryptedFetcher"] →
      Wanted c (.fetcher c name)
  | type {name : String} : name ∈ ["IConnection", "Resolved", "Primitive", "IPropagation"] →
      Wanted c (.fromLibrary c.fetcher name)
  | typia : Wanted c .typia

theorem Wanted.modest {c : Config} {r : Registration} (h : r.Wanted c) : r.Modest := by
  cases h with
  | listed path name =>
      exact ⟨fun hdef => absurd hdef Bool.false_ne_true, fun _ _ => ⟨rfl, rfl⟩⟩
  | declared path name => exact ⟨fun _ => ⟨name, rfl⟩, fun _ _ => ⟨rfl, rfl⟩⟩
  | typia => exact ⟨fun _ => ⟨"typia", rfl⟩, fun _ horigin => nomatch horigin⟩
  | _ => exact ⟨fun _ => ⟨_, rfl⟩, fun _ horigin => nomatch horigin⟩

end Registration

open Draft (Keeps)
open Registration (Modest Wanted)

abbrev Draft.Usual {α : Type} (d : Draft α) : Prop :=
  Keeps Modest Fault.OfData d

/-- A draft that wants what stubs want, and fails as they do. -/
abbrev Draft.Regular {α : Type} (c : Config) (d : Draft α) : Prop :=
  Keeps (Wanted c) Fault.OfData d

/-! ## Data -/

section Data

open Except (FailsBy)

theorem faulty_asName (v : Value) : Faulty v.asName := by
  cases v <;> first | exact .ok _ | exact .error trivial

theorem Route.faulty_comment (r : Route) : Faulty r.comment :=
  (faulty_commentBody [] r.description r.tags).bind fun _ => .ok _

theorem Route.faulty_locationNames (r : Route) : Faulty r.locationNames :=
  FailsBy.mapM fun p _ => faulty_asName p.name

theorem Route.faulty_location (r : Route) : Faulty r.location := by
  refine FailsBy.bind ?_ fun _ => (faulty_asText r.path).bind fun _ => .ok _
  refine FailsBy.bind ?_ fun _ => .ok _
  exact FailsBy.mapM fun p _ => (faulty_asKey p.sentName).bind fun _ => .ok _

theorem Route.faulty_assertions (r : Route) : Faulty r.assertions := by
  unfold Route.assertions
  split
  · exact .ok []
  · exact r.faulty_locationNames.bind fun _ => .ok _

end Data

/-! ## Types -/

/-- What a part wants itself is what stubs want. -/
theorem ShapePart.Wants.wanted {c : Config} {part : ShapePart} {r : Registration}
    (h : part.Wants c r) : r.Wanted c := by
  cases h with
  | tag => exact .tag _
  | format => exact .tag _
  | root => exact .declared _ _
  | argument => exact .declared _ _

theorem TypeExpr.keeps_ofShape (c : Config) (inEscape : Bool) (s : TypeShape) :
    (ofShape c inEscape s).Regular c :=
  keeps_of_contained c (fun _ _ _ hr => hr.wanted) inEscape

/-! ## Stubs -/

section Stub

variable (c : Config)

theorem keeps_connectionType : (connectionType c).Regular c :=
  .want (.type (by decide))

theorem NamedType.keeps_text (inline : Bool) (t : NamedType) : (t.text c inline).Regular c := by
  unfold NamedType.text
  split
  · split
    · exact (TypeExpr.keeps_ofShape c false _).map _
    · exact .pure _
  · exact .pure _

namespace Route

variable (r : Route)

theorem keeps_inputType (body : Parameter) : (inputType c body).Regular c := by
  refine (NamedType.keeps_text c false body.type).bind fun _ => ?_
  split
  · exact (Keeps.want (.type (by decide))).bind fun _ =>
      .pure _
  · exact .pure _

theorem keeps_bindings (ps : List Parameter) : (r.bindings c ps).Regular c := by
  refine Keeps.mapM fun p _ => Keeps.bind ?_ fun _ => .pure _
  unfold parameterType
  split
  · exact .pure _
  · exact NamedType.keeps_text c _ p.type

theorem keeps_allBindings : (r.allBindings c).Regular c :=
  (keeps_connectionType c).bind fun _ =>
    (keeps_bindings c r r.parameters).bind fun _ => .pure _

theorem keeps_outputType? : (r.outputType? c).Regular c := by
  unfold outputType?
  split
  · refine (Keeps.want (.type (by decide))).bind fun _ => ?_
    exact (NamedType.keeps_text c false r.output).bind fun _ => .pure _
  · split
    · exact .pure none
    · refine (NamedType.keeps_text c false r.output).bind fun _ => ?_
      split
      · exact (Keeps.want (.type (by decide))).bind fun _ =>
          .pure _
      · exact .pure _

theorem fetcherName_mem : r.fetcherName ∈ ["PlainFetcher", "EncryptedFetcher"] := by
  unfold fetcherName
  split
  · exact List.mem_cons_of_mem _ List.mem_cons_self
  · exact List.mem_cons_self

theorem keeps_fetchCall : (r.fetchCall c).Regular c :=
  (Keeps.want (.fetcher r.fetcherName_mem)).bind fun _ =>
    (Keeps.lift r.faulty_locationNames).bind fun _ => .pure _

theorem keeps_stubFunction : (r.stubFunction c).Regular c :=
  (r.keeps_allBindings c).bind fun _ => (r.keeps_fetchCall c).bind fun _ =>
    (Keeps.lift r.faulty_comment).bind fun _ => .pure _

theorem keeps_pathFunction : (r.pathFunction c).Regular c :=
  (r.keeps_bindings c _).bind fun _ => (Keeps.lift r.faulty_location).bind fun _ => .pure _

theorem keeps_randomFunction? : (r.randomFunction? c).Regular c := by
  unfold randomFunction?
  split
  · exact .pure none
  · split
    · exact (NamedType.keeps_text c false r.output).bind fun _ => .pure _
    · exact .pure _

theorem keeps_simulateFunction : (r.simulateFunction c).Regular c :=
  (Keeps.want .typia).bind fun _ =>
    (r.keeps_allBindings c).bind fun _ =>
      (Keeps.lift r.faulty_assertions).bind fun _ => .pure _

theorem keeps_stubNamespace : (r.stubNamespace c).Regular c := by
  unfold stubNamespace
  extract_lets scope
  have hscope : ∀ input, (scope input).Regular c := by
    intro input
    refine (r.keeps_outputType? c).bind fun _ => ?_
    refine (Keeps.lift (faulty_unlessTooLong _ _)).bind fun _ => ?_
    refine (r.keeps_pathFunction c).bind fun _ => ?_
    extract_lets close
    have hclose : ∀ functions, (close functions).Regular c := fun _ => .pure _
    split
    · refine (r.keeps_randomFunction? c).bind fun _ => ?_
      exact (r.keeps_simulateFunction c).bind fun _ => (Keeps.pure _).bind hclose
    · exact (Keeps.pure _).bind hclose
  split
  · exact ((keeps_inputType c _).map some).bind hscope
  · exact (Keeps.pure none).bind hscope

theorem keeps_stub : (r.stub c).Regular c :=
  (r.keeps_stubFunction c).bind fun _ => (r.keeps_stubNamespace c).bind fun _ => .pure _

theorem keeps_wantImports : r.wantImports.Regular c := by
  refine Keeps.bind ?_ fun _ => .pure ()
  refine Keeps.forIn (fun entry _ _ => ?_) _
  refine Keeps.bind ?_ fun _ => .pure _
  refine Keeps.forIn (fun name _ _ => ?_) _
  split
  · exact (Keeps.want (.listed _ _)).bind
      fun _ => .pure _
  · exact (Keeps.fail trivial).bind fun _ => .pure _

theorem keeps_stubWithImports : (r.stubWithImports c).Regular c := by
  unfold stubWithImports
  extract_lets stub
  have hstub : ∀ u, (stub u).Regular c := fun _ => r.keeps_stub c
  split
  · exact (r.keeps_wantImports c).bind hstub
  · exact hstub ()

theorem usual_stubWithImports : (r.stubWithImports c).Usual :=
  (r.keeps_stubWithImports c).mono fun _ h => h.modest

end Route

end Stub

end ClientSdk
