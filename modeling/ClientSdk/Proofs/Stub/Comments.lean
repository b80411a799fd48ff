import ClientSdk.Proofs.Stub.Texts
import ClientSdk.Proofs.TypeExpr.Comments

/-!
# The comments in a stub

A stub begins with the comment of its route, and the types that are written out in it have
comments of their own.  The block of each of them stands in the stub, and is one comment if
and only if there is no end mark in the texts of the document that it is written with
(`documentation_closes_iff`).  Other places where texts of the document are written keep them
from ending what they stand in; a comment does not, and a path as good as any ends it too
early (`path_ends_comment`).
-/

namespace ClientSdk

open Comment (Closes HasEnd)
open Text (StandsIn)

/-- A comment in a generated text, with the texts of the document that it is written with. -/
structure Comment.WrittenIn (comment : String) (texts : List String) (s : String) : Prop where
  stands : StandsIn (block comment) s
  framed : ∃ lines, block comment = "/**\n" ++ lines ++ "\n */"
  closes : ∀ n, Closes (Text.moved (List.replicate n ' ') (block comment).toList) ↔
    ∀ text ∈ texts, ¬ HasEnd text

theorem Comment.writtenIn {comment s : String} {texts : List String} (h : comment ≠ "")
    (hstands : StandsIn (block comment) s)
    (hend : HasEnd comment ↔ ∃ text ∈ texts, HasEnd text) : WrittenIn comment texts s where
  stands := hstands
  framed := ⟨_, block_eq h⟩
  closes n := by
    rw [closes_block_iff h, hend]
    push Not
    rfl

variable {c : Config} {r : Route} {wants : List Registration} {stub : String}

theorem Route.comment_of_stubFunction {f : StubFunction}
    (h : r.stubFunction c = ⟨wants, .ok f⟩) : r.comment = .ok f.comment := by
  obtain ⟨_, bindings, _, -, hrest, -⟩ := Draft.of_bind_eq h
  obtain ⟨_, fetch, _, -, hmore, -⟩ := Draft.of_bind_eq hrest
  obtain ⟨_, comment, _, hcomment, hlast, -⟩ := Draft.of_bind_eq hmore
  obtain ⟨rfl, -⟩ := Draft.of_pure_eq hlast
  exact (Draft.of_lift_eq hcomment).1

theorem Route.exists_comment {l : Ledger} (h : (l.fulfil (r.stub c)).1 = .ok stub) :
    ∃ comment, r.comment = .ok comment ∧ StandsIn (Comment.block comment) stub := by
  obtain ⟨f, n, hwritten, hstub⟩ := exists_stubOf_fulfil h
  have hdraft : r.stubFunction c = ⟨(r.stubFunction c).wants, .ok f⟩ := by
    rw [← hwritten.function]
  have hblock : StandsIn (Comment.block f.comment) f.text := .of_mem_lines List.mem_cons_self
  exact ⟨f.comment, comment_of_stubFunction hdraft, hblock.trans hstub.standsIn_function⟩

theorem StubOf.standsIn_shape {f : StubFunction} {n : StubNamespace}
    (h : StubOf c r wants stub f n) {type : NamedType} {inline : Bool} {shape : TypeShape}
    {t : TypeExpr} (hwrites : r.WritesType c type inline) (hshape : type.shape = some shape)
    (hinline : (inline || c.clone) = true)
    (ht : (TypeExpr.ofShape c false shape).result = .ok t) : StandsIn t.text stub := by
  obtain ⟨more, declared, htext, -, hdeclared⟩ := h.exists_type hwrites
  rw [NamedType.text_of_shape hshape hinline, map_eq_pure_bind] at htext
  obtain ⟨asked, t', last, hdraft, hlast, -⟩ := Draft.of_bind_eq htext
  obtain ⟨rfl, -⟩ := Draft.of_pure_eq hlast
  rw [hdraft] at ht
  cases ht
  exact hdeclared

/-- The block of each comment in a stub or in a type is one comment if and only if there is no
end mark in what it is written with. -/
theorem documentation_closes_iff (c : Config) :
    (∀ {l : Ledger} {r : Route} {stub : String}, (l.fulfil (r.stub c)).1 = .ok stub →
      (∃ comment, r.comment = .ok comment ∧ Comment.WrittenIn comment r.texts stub) ∧
      ∀ {type : NamedType} {inline : Bool} {shape : TypeShape} {t : TypeExpr} {comment : String},
        r.WritesType c type inline → type.shape = some shape → (inline || c.clone) = true →
        (TypeExpr.ofShape c false shape).result = .ok t → t.Comments comment →
        ∃ texts, shape.Says comment texts ∧ Comment.WrittenIn comment texts stub) ∧
    ∀ {l : Ledger} {inEscape : Bool} {shape : TypeShape} {t : TypeExpr} {comment : String},
      (l.fulfil (TypeExpr.ofShape c inEscape shape)).1 = .ok t → t.Comments comment →
      ∃ texts, shape.Says comment texts ∧ Comment.WrittenIn comment texts t.text := by
  have hends : ∀ {shape : TypeShape} {comment : String} {texts : List String},
      shape.Says comment texts → (HasEnd comment ↔ ∃ text ∈ texts, HasEnd text) := by
    rintro shape comment texts ⟨part, -, hpart⟩
    exact hpart.hasEnd_iff
  constructor
  · intro l r stub h
    constructor
    · obtain ⟨comment, hcomment, hstands⟩ := Route.exists_comment h
      exact ⟨comment, hcomment, Comment.writtenIn (Route.comment_ne_empty hcomment) hstands
        (Route.hasEnd_comment_iff hcomment)⟩
    · intro type inline shape t comment hwrites hshape hinline ht hcomment
      obtain ⟨f, n, -, hstub⟩ := Route.exists_stubOf_fulfil h
      obtain ⟨texts, hsaid⟩ := TypeExpr.exists_comment_said c ht hcomment
      refine ⟨texts, hsaid, Comment.writtenIn hcomment.said ?_ (hends hsaid)⟩
      exact (TypeExpr.standsIn_of_comments hcomment).trans
        (hstub.standsIn_shape hwrites hshape hinline ht)
  · intro l inEscape shape t comment h hcomment
    have ht := (Ledger.registerAll_of_fulfil (Prod.ext h rfl)).2
    obtain ⟨texts, hsaid⟩ := TypeExpr.exists_comment_said c ht hcomment
    exact ⟨texts, hsaid, Comment.writtenIn hcomment.said
      (TypeExpr.standsIn_of_comments hcomment) (hends hsaid)⟩

/-- A route whose comment closes, with a type in which the comment of a property does not. -/
theorem documentation_closes_of_described :
    let shape : TypeShape := { objects := [
      { properties := [
          { key := { constants := [{ kind := .text "string", values := [.text "glob"] }] },
            value := { atomics := [{ kind := .text "string" }] },
            description := .text "Such as src/**/*.ts" }] }] }
    let r : Route :=
      { name := .text "watch", method := "POST", path := .text "/watch",
        accessors := [.text "watch"], output := { name := .text "void" },
        parameters := [{ name := .text "input", category := .body,
                         type := { name := .text "IWatch", shape := some shape } }],
        description := .text "Watches files." }
    let c : Config := { output := "src/api", clone := true }
    let l := Ledger.forFile .root "src/api/functional/index.ts"
    ∃ stub comment, (l.fulfil (r.stub c)).1 = .ok stub ∧ r.comment = .ok comment ∧
      StandsIn (Comment.block comment) stub ∧ Closes (Comment.block comment).toList ∧
      StandsIn (Comment.block "Such as src/**/*.ts") stub ∧
      ¬ Closes (Comment.block "Such as src/**/*.ts").toList := by
  intro shape r c l
  have hstub : (l.fulfil (r.stub c)).1.toOption.any (fun _ => true) = true := by decide +kernel
  obtain ⟨stub, hstub, -⟩ := Except.exists_of_any hstub
  obtain ⟨⟨comment, hcomment, hroute⟩, htypes⟩ := (documentation_closes_iff c).1 hstub
  have hplain : ∀ text ∈ r.texts, ¬ HasEnd text := by decide +kernel
  have hcloses := (hroute.closes 0).mpr hplain
  have ht : (TypeExpr.ofShape c false shape).result = .ok
      (.object [.property "Such as src/**/*.ts" "glob" false (.keyword "string")]) := rfl
  obtain ⟨texts, ⟨part, -, hsaid⟩, hproperty⟩ :=
    htypes (.body rfl) rfl rfl ht ⟨by decide, _, .self _, List.mem_cons_self⟩
  have hend : HasEnd "Such as src/**/*.ts" := by decide
  obtain ⟨text, htext, hend⟩ := hsaid.hasEnd_iff.mp hend
  refine ⟨stub, comment, hstub, hcomment, hroute.stands, ?_, hproperty.stands, fun h => ?_⟩
  · exact Comment.closes_moved_iff.mp hcloses
  · exact (hproperty.closes 0).mp (Comment.closes_moved_iff.mpr h) text htext hend

/-- A route with a path that ends its comment: the rest of the path and the mark of the
generator are code. -/
theorem path_ends_comment :
    let r : Route :=
      { name := .text "x", method := "GET", path := .text "/a*/b", accessors := [.text "x"],
        output := { name := .text "void" } }
    let c : Config := { output := "src/api" }
    let l := Ledger.forFile .root "src/api/functional/index.ts"
    ∃ stub comment, (l.fulfil (r.stub c)).1 = .ok stub ∧ r.comment = .ok comment ∧
      StandsIn (Comment.block comment) stub ∧
      Comment.afterEnd? (Comment.block comment).toList =
        some "b\n * @sdkgen Generated by route-sdkgen\n */".toList := by
  intro r c l
  have hstub : (l.fulfil (r.stub c)).1.toOption.any (fun _ => true) = true := by decide +kernel
  obtain ⟨stub, hstub, -⟩ := Except.exists_of_any hstub
  obtain ⟨comment, hcomment, hstands⟩ := Route.exists_comment hstub
  have hsaid : r.comment = .ok "@path GET /a*/b\n@sdkgen Generated by route-sdkgen" := rfl
  obtain rfl := Except.ok.inj (hsaid.symm.trans hcomment)
  exact ⟨stub, _, hstub, hsaid, hstands, by decide +kernel⟩

end ClientSdk
