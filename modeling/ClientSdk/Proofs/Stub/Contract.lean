import ClientSdk.Proofs.Stub.Parts
import ClientSdk.Proofs.Stub.Record

/-!
# The contract read back

The contract of a route stands in the namespace of its stub as an object literal, moved in with
the rest.  In front of it stand the name of the namespace and the types (`StubNamespace.head`),
and behind its mark (`contractMark`) the literal is read back as what the route says, whatever
the texts in it are and whatever follows (`contract_read_back`).

A reader that looks for the first line with the mark finds it there, unless a line with the mark
stands in the name or in one of the types (`behind?_mark`).  Nothing in the contract can be taken
for a line of its own: each of its texts is written in visible ASCII on one line.
-/

namespace ClientSdk

open RecordText (Field objectOf recordOf)
open Text (Occurs moved)

/-! ## What a route says -/

/-- The content type of the request of a route with the body: the one that is given, or else the
one that goes with the encryption. -/
def Route.bodyType (r : Route) (body : Parameter) : String :=
  match r.contentType with
  | .text type => if type.isEmpty then contentTypeFor (r.encrypted || body.encrypted) else type
  | _ => contentTypeFor (r.encrypted || body.encrypted)

def messageRecord (type : String) (encrypted : Bool) : Value :=
  .map [("type", .text type), ("encrypted", .bool encrypted)]

def Route.record (r : Route) (path : String) : Value :=
  .map [("method", .text r.method), ("path", .text path),
    ("request", match r.body? with
      | none => .null
      | some body => messageRecord (r.bodyType body) (r.encrypted || body.encrypted)),
    ("response", messageRecord (contentTypeFor r.encrypted) r.encrypted), ("status", r.status)]

def Route.recordTexts (r : Route) (path : String) : List String :=
  [r.method, path, contentTypeFor r.encrypted] ++ (r.body?.map r.bodyType).toList

/-! ## The place of the contract -/

/-- What stands in front of the contract on the line where it begins, with the line break before
that line. -/
def contractMark : String := "\n  export const METADATA = "

/-- What stands in front of the contract: the name of the namespace, and the types, if there are
some. -/
def StubNamespace.head (n : StubNamespace) : String :=
  "export namespace " ++ n.name ++ " \x7b" ++
    String.join (n.typeBlock.map fun block => "\n" ++ Text.indent block ++ "\n")

/-- What stands behind the first place of the mark. -/
def behind? (mark : List Char) : List Char → Option (List Char)
  | [] => none
  | c :: cs =>
      if mark.isPrefixOf (c :: cs) then some ((c :: cs).drop mark.length) else behind? mark cs

def readContract? (text : String) : Option Value :=
  ((behind? contractMark.toList text.toList).bind RecordText.read?).map Prod.fst

theorem prefix_of_prefix_append_cons {sep : Char} {cs as bs : List Char} (hsep : sep ∉ cs)
    (h : cs <+: as ++ sep :: bs) : cs <+: as := by
  obtain ⟨after, hsplit⟩ := h
  rcases List.append_eq_append_iff.mp hsplit with ⟨more, has, -⟩ | ⟨more, hcs, hrest⟩
  · exact ⟨more, has.symm⟩
  · cases more with
    | nil => exact ⟨[], by rw [hcs, List.append_nil, List.append_nil]⟩
    | cons c more =>
        have hc : sep = c := (List.cons.inj hrest).1
        exact absurd (hcs ▸ hc ▸ List.mem_append_right as List.mem_cons_self) hsep

theorem behind?_mark {line front : List Char} (hline : '\n' ∉ line)
    (hfront : ¬ '\n' :: line <:+: front) (behind : List Char) :
    behind? ('\n' :: line) (front ++ ('\n' :: line ++ behind)) = some behind := by
  induction front with
  | nil =>
      rw [List.nil_append, List.cons_append, behind?, if_pos]
      · rw [← List.cons_append, List.drop_left]
      · rw [List.isPrefixOf_iff_prefix, ← List.cons_append]
        exact List.prefix_append _ _
  | cons c front ih =>
      have hnone :
          ¬ ('\n' :: line).isPrefixOf (c :: (front ++ ('\n' :: line ++ behind))) = true := by
        rw [List.isPrefixOf_iff_prefix, List.cons_prefix_cons]
        rintro ⟨rfl, hprefix⟩
        -- The line ends in front of the next line break.
        have hline' := prefix_of_prefix_append_cons hline hprefix
        exact hfront (List.cons_prefix_cons.mpr ⟨rfl, hline'⟩).isInfix
      rw [List.cons_append, behind?, if_neg hnone]
      exact ih fun h => hfront (h.trans (List.suffix_cons _ _).isInfix)

theorem StubNamespace.exists_text_eq (n : StubNamespace) :
    ∃ behind, n.text = n.head ++ ("\n" ++ (Text.indent n.contract.text ++ behind)) := by
  obtain ⟨more, hblocks⟩ : ∃ more,
      n.blocks = n.typeBlock ++ n.contract.text :: n.path.text :: more :=
    ⟨(n.random.map RandomFunction.text).toList ++ (n.simulate.map SimulateFunction.text).toList,
      by simp [blocks]⟩
  have hopen : " \x7b\n" = " \x7b" ++ "\n" := rfl
  have hgap : "\n\n" = "\n" ++ "\n" := rfl
  have htypes : n.typeBlock = [] ∨ ∃ types, n.typeBlock = [types] := by
    unfold typeBlock
    split
    · exact .inl rfl
    · exact .inr ⟨_, rfl⟩
  refine ⟨"\n\n" ++ "\n\n".intercalate (Text.indent n.path.text :: more.map Text.indent) ++
    "\n\x7d", ?_⟩
  rcases htypes with hnone | ⟨types, hsome⟩
  · unfold text head
    rw [hblocks, hnone, hopen]
    simp only [List.nil_append, List.map_cons, List.map_nil, String.intercalate_cons_cons,
      String.join_nil, String.append_empty, String.append_assoc]
  · unfold text head
    rw [hblocks, hsome, hopen, hgap]
    simp only [List.cons_append, List.nil_append, List.map_cons, List.map_nil,
      String.intercalate_cons_cons, String.join_cons, String.join_nil, String.append_empty,
      String.append_assoc]

theorem Contract.toList_indent (k : Contract) {inside : List Char}
    (hcode : k.code.text.toList = '\x7b' :: (inside ++ ['\x7d'])) :
    "\n".toList ++ (Text.indent k.text).toList = contractMark.toList ++
      (moved (List.replicate 2 ' ') k.code.text.toList ++ " as const;".toList) := by
  have hmark : contractMark.toList = "\n".toList ++ ("  ".toList ++
      "export const METADATA = ".toList) := by decide
  have hfirst : "export const METADATA = ".toList = 'e' :: "xport const METADATA = ".toList := by
    decide
  have hmargin : "  ".toList = List.replicate 2 ' ' := rfl
  have hbehind : '\n' ∉ " as const;".toList := by decide
  have hlast : k.code.text.toList.getLast? ≠ some '\n' := by
    rw [hcode, ← List.cons_append, List.getLast?_concat]
    decide
  have htext : k.text.toList = "export const METADATA = ".toList ++
      (k.code.text.toList ++ " as const;".toList) := by
    unfold text
    rw [String.toList_append, String.toList_append, List.append_assoc]
  have hfront : Text.front "  ".toList k.text.toList = "  ".toList := by
    rw [htext, hfirst, List.cons_append, Text.front, if_neg (by decide)]
  rw [Text.indent, Text.toList_indentBy, hfront, htext, hmark,
    Text.moved_append_of_not_mem (by decide), Text.moved_append_of_getLast? hlast,
    Text.moved_of_not_mem hbehind, hmargin]
  simp only [List.append_assoc]

theorem StubNamespace.exists_toList_eq (n : StubNamespace) {inside : List Char}
    (hcode : n.contract.code.text.toList = '\x7b' :: (inside ++ ['\x7d'])) :
    ∃ behind, n.text.toList = n.head.toList ++ (contractMark.toList ++
      (moved (List.replicate 2 ' ') n.contract.code.text.toList ++ behind)) := by
  obtain ⟨rest, htext⟩ := n.exists_text_eq
  refine ⟨" as const;".toList ++ rest.toList, ?_⟩
  rw [htext, String.toList_append, String.toList_append, String.toList_append,
    ← List.append_assoc "\n".toList, n.contract.toList_indent hcode]
  simp only [List.append_assoc]

/-! ## The literal -/

def valueField (key : String) (v : Value) : Field :=
  ⟨key, .value v, v⟩

def messageFields (type : String) (encrypted : Bool) : List Field :=
  [valueField "type" (.text type), valueField "encrypted" (.bool encrypted)]

def messageField (key type : String) (encrypted : Bool) : Field :=
  ⟨key, objectOf (messageFields type encrypted), messageRecord type encrypted⟩

def Route.contractFields (r : Route) (path : String) : List Field :=
  [valueField "method" (.text r.method), valueField "path" (.text path),
    match r.body? with
    | none => valueField "request" .null
    | some body => messageField "request" (r.bodyType body) (r.encrypted || body.encrypted),
    messageField "response" (contentTypeFor r.encrypted) r.encrypted,
    valueField "status" r.status]

section Literal

variable {r : Route} {path : String}

theorem recordOf_contractFields : .map (recordOf (r.contractFields path)) = r.record path := by
  unfold Route.record Route.contractFields
  cases r.body? <;> rfl

theorem requestType?_of_body {body : Parameter} (hbody : r.body? = some body)
    (htype : r.contentType = .null ∨ ∃ type, r.contentType = .text type) :
    r.requestType? = some (.text (r.bodyType body)) := by
  unfold Route.requestType? Route.bodyType
  rw [hbody]
  rcases htype with htype | ⟨type, htype⟩
  · rw [htype]
    rfl
  · rw [htype]
    cases hempty : type.isEmpty <;> simp [Value.truthy, hempty]

theorem code_contract (hpath : r.path = .text path)
    (htype : r.contentType = .null ∨ ∃ type, r.contentType = .text type) :
    r.contract.code = objectOf (r.contractFields path) := by
  unfold Contract.code Route.contract Route.contractFields Route.requestEncrypted
  rw [hpath]
  cases hbody : r.body? with
  | none =>
      have hnone : r.requestType? = none := by rw [Route.requestType?, hbody]
      rw [hnone]
      rfl
  | some body =>
      rw [requestType?_of_body hbody htype]
      rfl

theorem reads_valueField {key : String} {v : Value}
    (hkey : key.toList.all RecordText.isPlain = true)
    (hv : RecordText.ReadsAs (v.json .ascii) v) : (valueField key v).Reads :=
  ⟨hkey, hv⟩

theorem reads_messageField {key : String} (hkey : key.toList.all RecordText.isPlain = true)
    (type : String) (encrypted : Bool) : (messageField key type encrypted).Reads := by
  have hfields : ∀ f ∈ messageFields type encrypted, f.Reads := by
    intro f hf
    simp only [messageFields, List.mem_cons, List.not_mem_nil, or_false] at hf
    rcases hf with rfl | rfl
    · exact reads_valueField (by decide) (RecordText.readsAs_literal .ascii type)
    · exact reads_valueField (by decide) (RecordText.readsAs_bool encrypted)
  exact ⟨hkey, RecordText.readsAs_object hfields⟩

theorem reads_contractFields (hstatus : r.status = .null ∨ ∃ status, r.status = .int status) :
    ∀ f ∈ r.contractFields path, f.Reads := by
  have hnone : (valueField "request" .null).Reads :=
    reads_valueField (by decide) RecordText.readsAs_null
  intro f hf
  simp only [Route.contractFields, List.mem_cons, List.not_mem_nil, or_false] at hf
  rcases hf with rfl | rfl | rfl | rfl | rfl
  · exact reads_valueField (by decide) (RecordText.readsAs_literal .ascii r.method)
  · exact reads_valueField (by decide) (RecordText.readsAs_literal .ascii path)
  · cases r.body? with
    | none => exact hnone
    | some body => exact reads_messageField (by decide) _ _
  · exact reads_messageField (by decide) _ _
  · rcases hstatus with hstatus | ⟨status, hstatus⟩
    · rw [hstatus]
      exact reads_valueField (by decide) RecordText.readsAs_null
    · rw [hstatus]
      exact reads_valueField (by decide) (RecordText.readsAs_int status)

theorem occurs_field {fields : List Field} {f : Field} {part : String} (hf : f ∈ fields)
    (hbreak : '\n' ∉ part.toList) (h : Occurs part f.code.text) :
    Occurs part (objectOf fields).text :=
  Code.occurs_entry hbreak (List.mem_map_of_mem hf) (h.append_left _)

theorem occurs_recordTexts {s : String} (hs : s ∈ r.recordTexts path) :
    Occurs (Text.literal .ascii s) (objectOf (r.contractFields path)).text := by
  have hbreak := Text.not_mem_literal .ascii s
  have hmessage : ∀ key encrypted,
      Occurs (Text.literal .ascii s) (messageField key s encrypted).code.text := by
    intro key encrypted
    have htype : valueField "type" (.text s) ∈ messageFields s encrypted := List.mem_cons_self
    exact occurs_field htype hbreak (.refl _)
  simp only [Route.recordTexts, List.cons_append, List.nil_append, List.mem_cons] at hs
  rcases hs with rfl | rfl | rfl | hs
  · exact occurs_field (f := valueField "method" (.text r.method)) (by simp [Route.contractFields])
      hbreak (.refl _)
  · exact occurs_field (f := valueField "path" (.text s)) (by simp [Route.contractFields]) hbreak
      (.refl _)
  · exact occurs_field (f := messageField "response" _ r.encrypted)
      (by simp [Route.contractFields]) hbreak (hmessage _ _)
  · obtain ⟨body, hbody, rfl⟩ := Option.map_eq_some_iff.mp (Option.mem_toList.mp hs)
    have hrequest : messageField "request" (r.bodyType body) (r.encrypted || body.encrypted) ∈
        r.contractFields path := by simp [Route.contractFields, hbody]
    exact occurs_field hrequest hbreak (hmessage _ _)

end Literal

/-- In the namespace of a stub, behind the name and the types, the literal of the contract is
read back as what the route says: method, path, the content type and the encryption of request and
response, and the status, without a request if the route has no body.  It is found by its mark
unless a line with the mark is part of the name or of a type.  The texts stand in it in visible
ASCII, each on one line. -/
theorem Route.contract_read_back {c : Config} {r : Route} {l l' : Ledger} {n : StubNamespace}
    {path : String} (hwrite : l.fulfil (r.stubNamespace c) = (.ok n, l'))
    (hpath : r.path = .text path)
    (htype : r.contentType = .null ∨ ∃ type, r.contentType = .text type)
    (hstatus : r.status = .null ∨ ∃ status, r.status = .int status) :
    ∃ literal behind,
      n.text.toList = n.head.toList ++ (contractMark.toList ++ (literal ++ behind)) ∧
      RecordText.read? (literal ++ behind) = some (r.record path, behind) ∧
      (¬ Occurs contractMark n.head → readContract? n.text = some (r.record path)) ∧
      ∀ s ∈ r.recordTexts path, (Text.literal .ascii s).toList <:+: literal ∧
        ∀ d ∈ (Text.literal .ascii s).toList, Text.isVisible d = true := by
  have hresult := (Ledger.registerAll_of_fulfil hwrite).2
  have hnamespace : r.stubNamespace c = ⟨(r.stubNamespace c).wants, .ok n⟩ := by rw [← hresult]
  have hcontract := (namespaceOf hnamespace).contract
  have hcode := code_contract hpath htype
  have hfields : ∀ f ∈ r.contractFields path, f.Reads := reads_contractFields hstatus
  obtain ⟨inside, -, hinside, -, -⟩ := RecordText.exists_inside hfields
  obtain ⟨behind, hplace⟩ := n.exists_toList_eq (by rw [hcontract, hcode, hinside])
  rw [hcontract, hcode] at hplace
  have hread := RecordText.read?_object hfields 2 behind
  rw [recordOf_contractFields] at hread
  refine ⟨_, behind, hplace, hread, fun hhead => ?_, fun s hs => ⟨?_, fun d hd => ?_⟩⟩
  · have hmark : contractMark.toList = '\n' :: "  export const METADATA = ".toList := rfl
    rw [readContract?, hplace, hmark, behind?_mark (by decide) (hmark ▸ hhead), Option.bind_some,
      hread]
    rfl
  · rw [← Text.moved_of_not_mem (Text.not_mem_literal .ascii s)]
    exact Text.isInfix_moved (occurs_recordTexts hs)
  · exact Text.isVisible_literal hd

/-- A route with texts that look like code, and with an encrypted body. -/
def awkwardRoute : Route :=
  { name := .text "update", method := "P\"UT", path := .text "/a\" as const;\n\x7d\\/é😀"
    accessors := [.text "update"], output := { name := .text "void" }
    parameters := [
      { name := .text "input", category := .body, type := { name := .text "IStore" },
        encrypted := true }]
    status := .int 204, contentType := .text "a, b: \x7b\u2028" }

/-- The statement for this route. -/
theorem Route.contract_read_back_of_awkwardRoute :
    ∃ n, ((Ledger.forFile .root "src/api/functional/index.ts").fulfil
        (awkwardRoute.stubNamespace { output := "src/api" })).1 = .ok n ∧
      readContract? n.text = some (.map [
        ("method", .text "P\"UT"), ("path", .text "/a\" as const;\n\x7d\\/é😀"),
        ("request", .map [("type", .text "a, b: \x7b\u2028"), ("encrypted", .bool true)]),
        ("response", .map [("type", .text "application/json"), ("encrypted", .bool false)]),
        ("status", .int 204)]) := by
  obtain ⟨n, hn, hhead⟩ : ∃ n : StubNamespace,
      ((Ledger.forFile .root "src/api/functional/index.ts").fulfil
        (awkwardRoute.stubNamespace { output := "src/api" })).1 = .ok n ∧
        n.head = "export namespace update \x7b\n  export type Input = Resolved<IStore>;\n" :=
    ⟨_, rfl, rfl⟩
  obtain ⟨literal, behind, -, -, hread, -⟩ :=
    contract_read_back (Prod.ext hn rfl) rfl (.inr ⟨_, rfl⟩) (.inr ⟨_, rfl⟩)
  refine ⟨n, hn, hread ?_⟩
  rw [hhead, Occurs]
  decide +kernel

end ClientSdk
