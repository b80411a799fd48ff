import ClientSdk.Proofs.Stub.Members
import ClientSdk.Schema

/-!
# The function and the contract of a stub

The contract tells a client at run time what the function of a stub does: the content type
that it sends and the simulation asks for, the status of the response, and what is encrypted.
The function, the types and the simulation do not read the contract.  Each takes what it needs
from the route once more, so that they could differ.

They say the same of content types and of the status (`Route.Agrees`).  They do not of
encryption: the function is encrypted if the response is, and the contract also marks a request
whose body alone is (`Route.stub_agrees`).
-/

namespace ClientSdk

variable {c : Config} {r : Route} {wants : List Registration} {stub : String}
  {f : StubFunction} {n : StubNamespace}

/-! ## What is read from a stub -/

/-- What the entries of an object give under a key.  The last entry of the key counts; what is
spread into the object is not known. -/
def CodeEntry.valueOf? (key : String) : List CodeEntry → Option Code
  | [] => none
  | .field key' value :: es => (valueOf? key es).or (if key' = key then some value else none)
  | .spread _ :: es => valueOf? key es

/-- What a call adds to the headers of the connection. -/
def FetchCall.headers (f : FetchCall) : List CodeEntry :=
  match f.connection with
  | .object [.spread "connection",
      .field "headers" (.object (.spread "connection.headers" :: entries))] => entries
  | _ => []

def contentTypeKey : String := "\"Content-Type\""

def FetchCall.contentType? (f : FetchCall) : Option Code :=
  CodeEntry.valueOf? contentTypeKey f.headers

def Parameter.IsContentType (p : Parameter) : Prop :=
  p.field.truthy = true ∧ p.field.json .ascii = contentTypeKey

def FetchCall.encrypts (f : FetchCall) : Bool :=
  f.fetcher == "EncryptedFetcher"

def Contract.encrypts (k : Contract) : Bool :=
  k.request.any Message.encrypted || k.response.encrypted

namespace CodeEntry

variable {key : String}

theorem valueOf?_append (es es' : List CodeEntry) :
    valueOf? key (es ++ es') = (valueOf? key es').or (valueOf? key es) := by
  induction es with
  | nil => simp [valueOf?]
  | cons e es ih =>
      cases e with
      | field key' value => rw [List.cons_append, valueOf?, valueOf?, ih, Option.or_assoc]
      | spread source => rw [List.cons_append, valueOf?, valueOf?, ih]

theorem mem_of_valueOf? {es : List CodeEntry} {value : Code} (h : valueOf? key es = some value) :
    .field key value ∈ es := by
  induction es with
  | nil => cases h
  | cons e es ih =>
      cases e with
      | field key' value' =>
          rw [valueOf?, Option.or_eq_some_iff] at h
          rcases h with h | ⟨-, h⟩
          · exact List.mem_cons_of_mem _ (ih h)
          · obtain ⟨rfl, hvalue⟩ := Option.ite_none_right_eq_some.mp h
            rw [Option.some.inj hvalue]
            exact List.mem_cons_self
      | spread source => exact List.mem_cons_of_mem _ (ih h)

theorem exists_valueOf? {es : List CodeEntry} {value : Code} (h : .field key value ∈ es) :
    ∃ value', valueOf? key es = some value' := by
  induction es with
  | nil => cases h
  | cons e es ih =>
      rcases List.mem_cons.mp h with rfl | hes
      · rw [valueOf?, if_pos rfl]
        cases valueOf? key es with
        | none => exact ⟨_, rfl⟩
        | some value' => exact ⟨_, rfl⟩
      · obtain ⟨value', hvalue⟩ := ih hes
        cases e with
        | field key' _ => exact ⟨value', by rw [valueOf?, hvalue, Option.some_or]⟩
        | spread _ => exact ⟨value', hvalue⟩

end CodeEntry

/-! ## Headers -/

namespace Route

theorem headers_of_connection {f : FetchCall} (h : f.connection = r.connectionCode) :
    f.headers = r.headerEntries := by
  rw [FetchCall.headers, h, connectionCode]
  cases r.headerEntries <;> rfl

/-- A call sends the content type of the request, or what a header parameter of that name
is given. -/
theorem contentType?_of_connection {f : FetchCall} (h : f.connection = r.connectionCode) :
    f.contentType? = (r.requestType?.map Code.value).or
      (CodeEntry.valueOf? contentTypeKey ((r.parametersOf .header).map headerEntry)) := by
  rw [FetchCall.contentType?, headers_of_connection h, headerEntries,
    CodeEntry.valueOf?_append]
  cases r.requestType? <;> rfl

theorem exists_header {value : Code}
    (h : CodeEntry.valueOf? contentTypeKey ((r.parametersOf .header).map headerEntry) =
      some value) :
    ∃ p ∈ r.parametersOf .header, p.IsContentType ∧ value = .plain p.label := by
  obtain ⟨p, hp, hentry⟩ := List.mem_map.mp (CodeEntry.mem_of_valueOf? h)
  unfold headerEntry at hentry
  split at hentry
  · next hfield =>
      obtain ⟨hkey, hvalue⟩ := CodeEntry.field.inj hentry
      exact ⟨p, hp, ⟨hfield, hkey⟩, hvalue.symm⟩
  · cases hentry

theorem exists_contentType? {f : FetchCall} (h : f.connection = r.connectionCode)
    {p : Parameter} (hp : p ∈ r.parametersOf .header) (hcontent : p.IsContentType) :
    ∃ value, f.contentType? = some value := by
  have hentry : headerEntry p = .field contentTypeKey (.plain p.label) := by
    rw [headerEntry, if_pos hcontent.1, hcontent.2]
  have hmem : .field contentTypeKey (.plain p.label) ∈ f.headers := by
    rw [headers_of_connection h, headerEntries, ← hentry]
    exact List.mem_append_left _ (List.mem_map_of_mem hp)
  exact CodeEntry.exists_valueOf? hmem

theorem encrypts_contract : r.contract.encrypts =
    (r.encrypted || r.body?.any Parameter.encrypted) := by
  unfold contract Contract.encrypts requestType? requestEncrypted
  cases r.body? with
  | none => simp
  | some body =>
      dsimp only
      split <;> cases r.encrypted <;> simp

end Route

/-! ## Agreement -/

/-- What the function, the types and the simulation of a stub have in common with its
contract. -/
structure Route.Agrees (c : Config) (r : Route) (f : StubFunction) (n : StubNamespace) :
    Prop where
  /-- The content type of the request is sent. -/
  sent : ∀ m, n.contract.request = some m → f.fetch.contentType? = some (.value m.type)
  /-- Without a request, only what a header parameter of that name is given is sent. -/
  unsent : n.contract.request = none → ∀ value, f.fetch.contentType? = some value →
    ∃ p ∈ r.parametersOf .header, p.IsContentType ∧ value = .plain p.label
  /-- With such a parameter some content type is sent. -/
  given : ∀ p ∈ r.parametersOf .header, p.IsContentType →
    ∃ value, f.fetch.contentType? = some value
  /-- The content type of the request is asked for. -/
  asserted : ∀ m g, n.contract.request = some m → n.simulate = some g →
    ∃ names rest, g.assertions = assertStatement names m.type :: rest
  /-- The status of the contract is that of the envelope. -/
  statusKey : c.propagate = true → n.contract.status ≠ .null → ∃ declared,
    n.output = some (wrapped "IPropagation" (envelopeType n.contract.status.display declared))
  /-- The status of the contract is that of a simulated envelope. -/
  statusValue : c.propagate = true → n.contract.status ≠ .null → ∀ g, n.simulate = some g →
    ∃ entries, g.result = some (.object entries) ∧
      CodeEntry.valueOf? "status" entries = some (.plain n.contract.status.display)
  /-- An integer is written as it stands in the contract. -/
  statusText : Kind.integer.holds n.contract.status = true →
    n.contract.status.display = n.contract.status.json .ascii
  /-- The call encrypts if the response is marked. -/
  encryption : f.fetch.encrypts = n.contract.response.encrypted

def Route.EncryptsBodyOnly (r : Route) : Prop :=
  r.encrypted = false ∧ r.body?.any Parameter.encrypted = true

theorem Route.propagatedStatus_of_ne_null (h : r.status ≠ .null) :
    r.propagatedStatus = r.status := by
  unfold propagatedStatus
  split
  · next hnull => exact absurd hnull h
  · rfl

theorem Route.parameters_ne_nil {type : Value} (h : r.requestType? = some type) :
    r.parameters ≠ [] := by
  intro hnil
  rw [requestType?, body?, parametersOf, hnil] at h
  cases h

theorem Value.display_of_integer {v : Value} (h : Kind.integer.holds v = true) :
    v.display = v.json .ascii := by
  cases v with
  | int n => rfl
  | float x =>
      cases x with
      | finite _ _ _ => rfl
      | nan | infinite _ => cases h
  | _ => cases h

namespace StubOf

theorem encrypts_iff (h : StubOf c r wants stub f n) : f.fetch.encrypts = r.encrypted := by
  rw [FetchCall.encrypts, h.function.fetcher, Route.fetcherName]
  cases r.encrypted <;> decide

theorem agrees (h : StubOf c r wants stub f n) : r.Agrees c f n := by
  have hcontract : n.contract = r.contract := h.scope.contract
  have hrequest : ∀ m, r.contract.request = some m → r.requestType? = some m.type := by
    intro m hm
    obtain ⟨type, htype, rfl⟩ := Option.map_eq_some_iff.mp hm
    exact htype
  have hsends := Route.contentType?_of_connection h.function.connection
  refine { sent := ?_, unsent := ?_, asserted := ?_, statusKey := ?_, statusValue := ?_,
           given := fun p hp => Route.exists_contentType? h.function.connection hp,
           statusText := fun hinteger => Value.display_of_integer hinteger,
           encryption := ?_ } <;> rw [hcontract]
  · intro m hm
    rw [hsends, hrequest m hm]
    rfl
  · intro hnone value hvalue
    rw [hsends, Option.map_eq_none_iff.mp hnone] at hvalue
    exact Route.exists_header hvalue
  · intro m g hm hg
    have hassertions := (h.scope.of_simulate hg).assertions
    generalize g.assertions = statements at hassertions ⊢
    cases hassertions with
    | none hnil => exact absurd hnil (Route.parameters_ne_nil (hrequest m hm))
    | some _ _ =>
        rw [hrequest m hm]
        exact ⟨_, _, rfl⟩
  · intro hpropagate hstatus
    obtain ⟨declared, houtput, -⟩ := h.scope.exists_propagated hpropagate
    rw [Route.envelope, Route.propagatedStatus_of_ne_null hstatus] at houtput
    exact ⟨declared, houtput⟩
  · intro hpropagate hstatus g hg
    have hresult := (h.scope.of_simulate hg).result
    rw [Route.simulated?, if_pos hpropagate, Route.propagatedStatus_of_ne_null hstatus] at hresult
    exact ⟨_, hresult, rfl⟩
  · rw [h.encrypts_iff]
    rfl

end StubOf

/-- A stub that is written is a function and a namespace that agree on the content types and on
the status.  They agree on encryption if and only if it is not the body alone that is
encrypted. -/
theorem Route.stub_agrees {l : Ledger} (h : (l.fulfil (r.stub c)).1 = .ok stub) :
    ∃ f n, r.WrittenAs c stub f n ∧ r.Agrees c f n ∧
      (f.fetch.encrypts = n.contract.encrypts ↔ ¬ r.EncryptsBodyOnly) := by
  obtain ⟨f, n, hwritten, hstub⟩ := exists_stubOf_fulfil h
  refine ⟨f, n, hwritten, hstub.agrees, ?_⟩
  rw [hstub.encrypts_iff, hstub.scope.contract, encrypts_contract, EncryptsBodyOnly]
  cases r.encrypted <;> cases r.body?.any Parameter.encrypted <;> decide

/-- A route with an encrypted body, encrypted as a whole, under all options. -/
theorem Route.stub_agrees_of_encrypted :
    let r : Route :=
      { name := .text "store", method := "POST", path := .text "/secrets",
        accessors := [.text "store"], output := { name := .text "ISecret" },
        encrypted := true, status := .int 202,
        parameters := [
          { name := .text "input", category := .body, type := { name := .text "IStore" },
            encrypted := true }] }
    let c : Config := { output := "src/api", simulate := true, propagate := true }
    let l := Ledger.forFile .root "src/api/functional/index.ts"
    ∃ stub f n, (l.fulfil (r.stub c)).1 = .ok stub ∧ r.WrittenAs c stub f n ∧
      r.Agrees c f n ∧ f.fetch.encrypts = n.contract.encrypts := by
  intro r c l
  have hstub : (l.fulfil (r.stub c)).1.toOption.any (fun _ => true) = true := by decide +kernel
  obtain ⟨stub, hstub, -⟩ := Except.exists_of_any hstub
  obtain ⟨f, n, hwritten, hagrees, hencrypts⟩ := stub_agrees hstub
  refine ⟨stub, f, n, hstub, hwritten, hagrees, hencrypts.mpr ?_⟩
  rintro ⟨hplain, -⟩
  cases hplain

/-- A route whose body alone is encrypted: the contract marks the request, and the call is that
of the plain fetcher. -/
theorem Route.plain_call_of_encrypted_body :
    let r : Route :=
      { name := .text "x", method := "POST", path := .text "/x", accessors := [.text "x"],
        output := { name := .text "void" },
        parameters := [
          { name := .text "input", category := .body, type := { name := .text "IStore" },
            encrypted := true }] }
    let c : Config := { output := "src/api" }
    let l := Ledger.forFile .root "src/api/functional/index.ts"
    ∃ stub f n, (l.fulfil (r.stub c)).1 = .ok stub ∧ r.WrittenAs c stub f n ∧
      n.contract.encrypts = true ∧ f.fetch.fetcher = "PlainFetcher" := by
  intro r c l
  have hstub : (l.fulfil (r.stub c)).1.toOption.any (fun _ => true) = true := by decide +kernel
  obtain ⟨stub, hstub, -⟩ := Except.exists_of_any hstub
  obtain ⟨f, n, hwritten, hparts⟩ := exists_stubOf_fulfil hstub
  refine ⟨stub, f, n, hstub, hwritten, ?_, hparts.function.fetcher⟩
  rw [hparts.scope.contract]
  rfl

end ClientSdk
