import ClientSdk.Proofs.Ledger.Repetition
import ClientSdk.Proofs.Text.Template
import ClientSdk.Proofs.TypeExpr.Regrouping

/-!
# Template types read back

The segments of a template are literal values, whose texts run together, and others, whose
types become spans.  So a template is written segment by segment (`ofSegments_eq`), its spans
have the types of the others, with the texts of the literal values around them
(`forall₂_gather`), and its text as a literal consists of just these (`template_reads`):
whatever stands in a text, it is read up to the span or the backtick that is behind it.
-/

namespace ClientSdk

open Template (Contents Consists)

namespace TypeShape

def spanned (segments : List TypeShape) : List TypeShape :=
  segments.filter (!·.isSoleLiteral)

/-- The texts around the spans: of the literal values in front of the first one, between
neighbours, and behind the last one. -/
def literalTexts (segments : List TypeShape) : List String :=
  (segments.splitOnP (!·.isSoleLiteral)).map fun run =>
    String.join (run.filterMap fun segment => segment.soleLiteral?.map Value.patternForm)

variable {segment : TypeShape} {segments : List TypeShape}

theorem literalTexts_cons_of_some {value : Value} (h : segment.soleLiteral? = some value) :
    literalTexts (segment :: segments) =
      (literalTexts segments).modifyHead (value.patternForm ++ ·) := by
  have hsole : segment.isSoleLiteral = true := by rw [isSoleLiteral, h]; rfl
  rw [literalTexts, List.splitOnP_cons_eq_if_modifyHead, hsole, if_neg (by decide), literalTexts]
  cases segments.splitOnP (!·.isSoleLiteral) with
  | nil => rfl
  | cons run runs => simp [h, String.join_cons]

theorem literalTexts_cons_of_none (h : segment.soleLiteral? = none) :
    literalTexts (segment :: segments) = "" :: literalTexts segments := by
  have hsole : segment.isSoleLiteral = false := by rw [isSoleLiteral, h]; rfl
  rw [literalTexts, List.splitOnP_cons_eq_if_modifyHead, hsole, if_pos (by decide)]
  rfl

theorem spanned_cons_of_some {value : Value} (h : segment.soleLiteral? = some value) :
    spanned (segment :: segments) = spanned segments :=
  List.filter_cons_of_neg (by simp [isSoleLiteral, h])

theorem spanned_cons_of_none (h : segment.soleLiteral? = none) :
    spanned (segment :: segments) = segment :: spanned segments :=
  List.filter_cons_of_pos (by simp [isSoleLiteral, h])

end TypeShape

namespace TypeExpr

open TypeShape (spanned literalTexts)

/-- A segment of a template: a text, or a type that becomes a span. -/
def ofSegment (c : Config) (segment : TypeShape) : Draft (String ⊕ TypeExpr) :=
  match segment.soleLiteral? with
  | some value => do return .inl (← value.patternText)
  | none => do return .inr (← ofShape c false segment)

/-- The first text, and the types each with the text behind it. -/
def gather : List (String ⊕ TypeExpr) → String × List (TypeExpr × String)
  | [] => ("", [])
  | .inl text :: rest => (text ++ (gather rest).1, (gather rest).2)
  | .inr t :: rest => ("", (t, (gather rest).1) :: (gather rest).2)

theorem ofSegments_eq (c : Config) (segments : List TypeShape) :
    ofSegments c segments = gather <$> segments.mapM (ofSegment c) := by
  induction segments with
  | nil => rfl
  | cons segment segments ih =>
      rw [ofSegments, List.mapM_cons, ofSegment]
      cases segment.soleLiteral? <;>
        simp only [ih, map_eq_pure_bind, bind_assoc, pure_bind, gather]

/-- What the segments of a template are gathered to: types for those that become spans, and
around them the texts of the others. -/
theorem forall₂_gather {c : Config} {segments : List TypeShape} {parts : List (String ⊕ TypeExpr)}
    (h : List.Forall₂ (fun segment part => (ofSegment c segment).result = .ok part)
      segments parts) :
    List.Forall₂ (fun segment span => (ofShape c false segment).result = .ok span.1)
        (spanned segments) (gather parts).2 ∧
      (gather parts).1 :: (gather parts).2.map Prod.snd = literalTexts segments := by
  induction h with
  | nil => exact ⟨.nil, rfl⟩
  | @cons segment part segments parts hpart _ ih =>
      obtain ⟨htypes, htexts⟩ := ih
      rw [ofSegment] at hpart
      cases hsole : segment.soleLiteral? with
      | some value =>
          rw [hsole, Draft.result_bind] at hpart
          obtain ⟨text, htext, hpart⟩ := Except.bind_eq_ok_iff.mp hpart
          cases hpart
          obtain ⟨-, rfl⟩ := Value.patternText_eq_ok_iff.mp htext
          rw [TypeShape.spanned_cons_of_some hsole, TypeShape.literalTexts_cons_of_some hsole,
            ← htexts]
          exact ⟨htypes, rfl⟩
      | none =>
          rw [hsole, Draft.result_bind] at hpart
          obtain ⟨t, ht, hpart⟩ := Except.bind_eq_ok_iff.mp hpart
          cases hpart
          rw [TypeShape.spanned_cons_of_none hsole, TypeShape.literalTexts_cons_of_none hsole,
            ← htexts]
          exact ⟨.cons ht htypes, rfl⟩

theorem spans_cons (code tail : List Char) (spans : List (List Char × List Char)) :
    List.flatMap TypeText.spanChars ((code, tail) :: spans) ++ ['`'] =
      '$' :: '\x7b' :: (code ++ '\x7d' ::
        (escapeTemplate tail ++ (spans.flatMap TypeText.spanChars ++ ['`']))) := by
  simp [TypeText.spanChars]

theorem contents_of_escaped (head : List Char) (spans : List (List Char × List Char)) :
    Contents (escapeTemplate head ++ (spans.flatMap TypeText.spanChars ++ ['`'])) head spans := by
  induction spans generalizing head with
  | nil => exact .close (Template.scan_escapeTemplate head (.inl rfl))
  | cons span spans ih =>
      obtain ⟨code, tail⟩ := span
      rw [spans_cons]
      exact .span (Template.scan_escapeTemplate head (.inr ⟨rfl, rfl⟩)) (ih tail)

theorem toList_template (head : String) (spans : List (TypeExpr × String)) :
    (TypeExpr.template head spans).text.toList = '`' :: (escapeTemplate head.toList ++
      ((spans.map fun span => (span.1.text.toList, span.2.toList)).flatMap TypeText.spanChars ++
        ['`'])) := by
  rw [← toList_join_spanTexts]
  simp [text, templateText]

/-- The text of a template consists of its texts and of the texts of its types. -/
theorem consists_template (head : String) (spans : List (TypeExpr × String)) :
    Consists (TypeExpr.template head spans).text head.toList
      (spans.map fun span => (span.1.text.toList, span.2.toList)) :=
  ⟨_, toList_template head spans, contents_of_escaped _ _⟩

/-- To write a template fails only as to write its segments fails, one after the other: a
literal value that is too long, or a type.  If it does not, the spans have the types of the
other segments, the texts around them are those of the literal values, and the text of the
template is a literal that consists of them. -/
theorem template_reads (c : Config) (l l' : Ledger) (segments : List TypeShape) :
    (∀ fault, l.fulfil (ofSegments c segments) = (.error fault, l') ↔
      l.fulfil (segments.mapM (ofSegment c)) = (.error fault, l')) ∧
    ∀ head spans, l.fulfil (ofSegments c segments) = (.ok (head, spans), l') →
      List.Forall₂ (fun segment span => (ofShape c false segment).result = .ok span.1)
        (spanned segments) spans ∧
      head :: spans.map Prod.snd = literalTexts segments ∧
      Consists (TypeExpr.template head spans).text head.toList
        (spans.map fun span => (span.1.text.toList, span.2.toList)) := by
  rw [ofSegments_eq, Ledger.fulfil_map]
  refine ⟨fun fault => ?_, fun head spans hwrite => ?_⟩
  · cases l.fulfil (segments.mapM (ofSegment c)) with
    | mk result m => cases result <;> simp [Except.map]
  · obtain ⟨hresult, -⟩ := Prod.mk.inj hwrite
    cases hparts : l.fulfil (segments.mapM (ofSegment c)) with
    | mk result m =>
        cases result with
        | error fault => rw [hparts] at hresult; cases hresult
        | ok parts =>
            rw [hparts] at hresult
            have hwritten := (Ledger.registerAll_of_fulfil hparts).2
            rw [Draft.result_mapM] at hwritten
            obtain ⟨htypes, htexts⟩ := forall₂_gather (Except.forall₂_of_mapM hwritten)
            have hgathered : gather parts = (head, spans) := Except.ok.inj hresult
            rw [hgathered] at htypes htexts
            exact ⟨htypes, htexts, consists_template head spans⟩

def literalSegment (text : String) : TypeShape :=
  { constants := [{ kind := .text "string", values := [.text text] }] }

def atomicSegment (kind : String) : TypeShape :=
  { atomics := [{ kind := .text kind }] }

/-- Segments whose texts run together to a dollar in front of a brace, end in a backslash or in
a dollar in front of a span, or are left out between two spans. -/
def crowdedSegments : List TypeShape :=
  [literalSegment "a$", literalSegment "\x7bb$", atomicSegment "string", atomicSegment "number",
    literalSegment "`\\"]

/-- The statement for these segments. -/
theorem template_reads_of_crowdedSegments :
    let head := "a$\x7bb$"
    let spans := [(TypeExpr.keyword "string", ""), (.keyword "number", "`\\")]
    ((Ledger.forFile .root "api/a.ts").fulfil (ofSegments { output := "api" } crowdedSegments)).1 =
        .ok (head, spans) ∧
      literalTexts crowdedSegments = ["a$\x7bb$", "", "`\\"] ∧
      (TypeExpr.template head spans).text =
        "`a\\$\x7bb$$\x7bstring\x7d$\x7bnumber\x7d\\`\\\\`" ∧
      Consists (TypeExpr.template head spans).text head.toList
        [("string".toList, []), ("number".toList, ['`', '\\'])] := by
  intro head spans
  have hwritten : ((Ledger.forFile .root "api/a.ts").fulfil
      (ofSegments { output := "api" } crowdedSegments)).1 = .ok (head, spans) := rfl
  obtain ⟨l', hwrite⟩ := Ledger.exists_fulfil_eq hwritten
  obtain ⟨-, htexts, hconsists⟩ := (template_reads { output := "api" }
    (Ledger.forFile .root "api/a.ts") l' crowdedSegments).2 head spans hwrite
  exact ⟨hwritten, htexts.symm, by decide, hconsists⟩

end TypeExpr

end ClientSdk
