import ClientSdk.Proofs.Stub.Parts
import ClientSdk.Proofs.Text.Margin

/-!
# The texts of a stub

What is written into a part of a stub is found in its text: in a parameter, in the call that
sends the request, in the declaration of a type or in a statement of the simulation.  Parts
are moved in on the way: they stand in the stub line by line, and texts without line breaks
stand there as they are.  The types that a stub writes (`Route.WritesType`) are found in it
together with what is wanted for them (`StubOf.exists_type`).
-/

namespace ClientSdk

open Text (Occurs StandsIn)

variable {part : String}

/-! ## Parameter lists -/

theorem Code.standsIn_listed {parts : List String} {s : String} (hs : s ∈ parts) :
    StandsIn s (listed parts) := by
  have hindented : StandsIn s (Text.indent (s ++ ",")) :=
    (StandsIn.append_right (.refl s) ",").trans (Text.standsIn_indent _)
  exact hindented.trans (.of_mem_lines (List.mem_map_of_mem hs))

theorem standsIn_signature {parameters : List String} {s : String} (hs : s ∈ parameters) :
    StandsIn s (signature parameters) := by
  have hlisted := Code.standsIn_listed hs
  unfold signature
  split
  · exact absurd hs List.not_mem_nil
  · next p =>
      split
      · exact (hlisted.append_left _).append_right _
      · rw [List.mem_singleton.mp hs]
        exact (StandsIn.append_left (.refl p) _).append_right _
  · exact (hlisted.append_left _).append_right _

theorem Code.occurs_callee (callee : String) (arguments : List Code) :
    Occurs callee (call callee arguments).text := by
  rw [text]
  split
  · exact (Occurs.refl callee).append_right _
  · exact (((Occurs.refl callee).append_right _).append_right _).append_right _

/-! ## Expressions -/

def CodeEntry.text : CodeEntry → String
  | .field key value => key ++ ": " ++ value.text
  | .spread source => "..." ++ source

namespace Code

theorem argumentTexts_eq (arguments : List Code) :
    argumentTexts arguments = arguments.map text := by
  induction arguments with
  | nil => rfl
  | cons c cs ih => rw [argumentTexts, ih, List.map_cons]

theorem entryTexts_eq (entries : List CodeEntry) :
    entryTexts entries = entries.map CodeEntry.text := by
  induction entries with
  | nil => rfl
  | cons e es ih => cases e <;> (rw [entryTexts, ih, List.map_cons]; rfl)

theorem occurs_argument {arguments : List Code} {a : Code} (hbreak : '\n' ∉ part.toList)
    (ha : a ∈ arguments) (h : Occurs part a.text) (callee : String) :
    Occurs part (call callee arguments).text := by
  have hlisted := (standsIn_listed (List.mem_map_of_mem ha)).occurs hbreak h
  have hsome : ¬ arguments.isEmpty = true := by
    rw [List.isEmpty_iff]
    exact List.ne_nil_of_mem ha
  rw [text, if_neg hsome, argumentTexts_eq]
  exact (hlisted.append_left _).append_right _

theorem occurs_entry {entries : List CodeEntry} {e : CodeEntry} (hbreak : '\n' ∉ part.toList)
    (he : e ∈ entries) (h : Occurs part e.text) : Occurs part (object entries).text := by
  have hlisted := (standsIn_listed (List.mem_map_of_mem he)).occurs hbreak h
  have hsome : ¬ entries.isEmpty = true := by
    rw [List.isEmpty_iff]
    exact List.ne_nil_of_mem he
  rw [text, if_neg hsome, entryTexts_eq]
  exact (hlisted.append_left _).append_right _

mutual

def callees : Code → List String
  | .plain _ => []
  | .call callee arguments => callee :: argumentCallees arguments
  | .object entries => entryCallees entries

def argumentCallees : List Code → List String
  | [] => []
  | c :: cs => c.callees ++ argumentCallees cs

/-- The functions that entries call. -/
def entryCallees : List CodeEntry → List String
  | [] => []
  | .field _ value :: es => value.callees ++ entryCallees es
  | .spread _ :: es => entryCallees es

end

mutual

theorem occurs_of_mem_callees {callee : String} (hbreak : '\n' ∉ (callee ++ "(").toList) :
    ∀ {code : Code}, callee ∈ code.callees → Occurs (callee ++ "(") code.text
  | .plain _, h => absurd h List.not_mem_nil
  | .call outer arguments, h => by
      rcases List.mem_cons.mp h with rfl | h
      · rw [text]
        split
        · have hopen : callee ++ "()" = callee ++ "(" ++ ")" := by
            rw [String.append_assoc]
            rfl
          rw [hopen]
          exact (Occurs.refl _).append_right _
        · have hopen : callee ++ "(\n" = callee ++ "(" ++ "\n" := by
            rw [String.append_assoc]
            rfl
          rw [hopen]
          exact (((Occurs.refl _).append_right _).append_right _).append_right _
      · obtain ⟨a, ha, hpart⟩ := exists_argument_of_mem_callees hbreak h
        exact occurs_argument hbreak ha hpart outer
  | .object _, h => by
      obtain ⟨e, he, hpart⟩ := exists_entry_of_mem_callees hbreak h
      exact occurs_entry hbreak he hpart

theorem exists_argument_of_mem_callees {callee : String}
    (hbreak : '\n' ∉ (callee ++ "(").toList) : ∀ {arguments : List Code},
    callee ∈ argumentCallees arguments → ∃ a ∈ arguments, Occurs (callee ++ "(") a.text
  | [], h => absurd h List.not_mem_nil
  | c :: cs, h => by
      rcases List.mem_append.mp h with h | h
      · exact ⟨c, List.mem_cons_self, occurs_of_mem_callees hbreak h⟩
      · obtain ⟨a, ha, hpart⟩ := exists_argument_of_mem_callees hbreak h
        exact ⟨a, List.mem_cons_of_mem _ ha, hpart⟩

theorem exists_entry_of_mem_callees {callee : String}
    (hbreak : '\n' ∉ (callee ++ "(").toList) : ∀ {entries : List CodeEntry},
    callee ∈ entryCallees entries → ∃ e ∈ entries, Occurs (callee ++ "(") e.text
  | [], h => absurd h List.not_mem_nil
  | .field key value :: es, h => by
      rcases List.mem_append.mp h with h | h
      · exact ⟨.field key value, List.mem_cons_self,
          (occurs_of_mem_callees hbreak h).append_left _⟩
      · obtain ⟨e, he, hpart⟩ := exists_entry_of_mem_callees hbreak h
        exact ⟨e, List.mem_cons_of_mem _ he, hpart⟩
  | .spread _ :: es, h => by
      have hrest : callee ∈ entryCallees es := h
      obtain ⟨e, he, hpart⟩ := exists_entry_of_mem_callees hbreak hrest
      exact ⟨e, List.mem_cons_of_mem _ he, hpart⟩

end

end Code

/-! ## The function -/

namespace StubFunction

variable {f : StubFunction}

theorem standsIn_parameter {b : Binding} (hb : b ∈ f.parameters) : StandsIn b.text f.text := by
  have hline : "export async function " ++ f.name ++
      signature (f.parameters.map Binding.text) ++ ": Promise<" ++ f.returns ++ "> \x7b" ∈
        [Comment.block f.comment, "export async function " ++ f.name ++
          signature (f.parameters.map Binding.text) ++ ": Promise<" ++ f.returns ++ "> \x7b",
         Text.indent ("return " ++ f.expression ++ ";"), "\x7d"] := by simp
  refine StandsIn.trans ?_ (.of_mem_lines hline)
  have hsignature := standsIn_signature (List.mem_map_of_mem (f := Binding.text) hb)
  exact (((hsignature.append_left _).append_right _).append_right _).append_right _

theorem occurs_parameter {b : Binding} (hbreak : '\n' ∉ part.toList) (hb : b ∈ f.parameters)
    (h : Occurs part b.text) : Occurs part f.text :=
  (standsIn_parameter hb).occurs hbreak h

theorem occurs_expression (hbreak : '\n' ∉ part.toList) (h : Occurs part f.expression) :
    Occurs part f.text := by
  have hreturn : Occurs part (Text.indent ("return " ++ f.expression ++ ";")) :=
    Text.occurs_indent hbreak ((h.append_left _).append_right _)
  exact hreturn.trans (Text.occurs_intercalate (by simp))

theorem occurs_fetch (hbreak : '\n' ∉ part.toList) (h : Occurs part f.fetch.code.text) :
    Occurs part f.text := by
  refine occurs_expression hbreak ?_
  unfold expression
  split
  · exact h
  · refine Occurs.append_left (Text.occurs_indent hbreak ?_) _
    exact (Text.occurs_hang hbreak h).append_left _

theorem occurs_simulation {code : Code} (hsimulate : f.simulate = some code)
    (hbreak : '\n' ∉ part.toList) (h : Occurs part code.text) : Occurs part f.text := by
  have hbranch : Occurs part ("? " ++ Text.hang code.text ++ "\n: " ++
      Text.hang f.fetch.code.text) := by
    have hhang := Text.occurs_hang hbreak h
    exact ((hhang.append_left _).append_right _).append_right _
  refine occurs_expression hbreak ?_
  unfold expression
  rw [hsimulate]
  exact (Text.occurs_indent hbreak hbranch).append_left _

theorem occurs_option {entries : List CodeEntry} {e : CodeEntry}
    (hoptions : f.fetch.options = .object entries) (hbreak : '\n' ∉ part.toList)
    (he : e ∈ entries) (h : Occurs part e.text) : Occurs part f.text := by
  have hobject : Occurs part f.fetch.options.text := by
    rw [hoptions]
    exact Code.occurs_entry hbreak he h
  refine occurs_fetch hbreak (Code.occurs_argument hbreak ?_ hobject _)
  exact List.mem_cons_of_mem _ List.mem_cons_self

end StubFunction

/-! ## The namespace -/

theorem SimulateFunction.occurs_statement {f : SimulateFunction} {s : String}
    (hbreak : '\n' ∉ part.toList) (hs : s ∈ f.statements) (h : Occurs part s) :
    Occurs part f.text := by
  have hsome : ¬ f.statements.isEmpty = true := by
    rw [List.isEmpty_iff]
    exact List.ne_nil_of_mem hs
  have hbody : Occurs part (Text.indent (Text.unlines f.statements)) :=
    Text.occurs_indent hbreak (h.trans (Text.occurs_intercalate hs))
  unfold text
  dsimp only
  rw [if_neg hsome]
  exact (hbody.append_left _).append_right _

namespace StubNamespace

variable {n : StubNamespace}

theorem standsIn_block {block : String} (hblock : block ∈ n.blocks) : StandsIn block n.text := by
  have hblocks : StandsIn block ("\n\n".intercalate (n.blocks.map Text.indent)) :=
    (Text.standsIn_indent block).trans (.of_mem (List.mem_map_of_mem hblock))
  exact (hblocks.append_left _).append_right _

theorem standsIn_type {declaration : String}
    (hmem : declaration ∈ (n.input.map (typeText "Input")).toList ++
      (n.output.map (typeText "Output")).toList) : StandsIn declaration n.text := by
  have hblock : n.typeBlock = [Text.unlines ((n.input.map (typeText "Input")).toList ++
      (n.output.map (typeText "Output")).toList)] := by
    unfold typeBlock
    split
    · next hnone =>
        rw [hnone] at hmem
        exact absurd hmem List.not_mem_nil
    · rfl
  refine (StandsIn.of_mem_lines hmem).trans (standsIn_block ?_)
  rw [blocks, hblock]
  exact List.mem_cons_self

theorem standsIn_input {type : String} (hinput : n.input = some type) : StandsIn type n.text := by
  have hmem : typeText "Input" type ∈ (n.input.map (typeText "Input")).toList ++
      (n.output.map (typeText "Output")).toList := by simp [hinput]
  exact ((StandsIn.append_left (.refl type) _).append_right _).trans (standsIn_type hmem)

theorem standsIn_output {type : String} (houtput : n.output = some type) :
    StandsIn type n.text := by
  have hmem : typeText "Output" type ∈ (n.input.map (typeText "Input")).toList ++
      (n.output.map (typeText "Output")).toList := by simp [houtput]
  exact ((StandsIn.append_left (.refl type) _).append_right _).trans (standsIn_type hmem)

theorem occurs_random {f : RandomFunction} (hrandom : n.random = some f)
    (hbreak : '\n' ∉ part.toList) (h : Occurs part f.text) : Occurs part n.text :=
  (standsIn_block (by simp [blocks, hrandom])).occurs hbreak h

theorem occurs_simulate {f : SimulateFunction} (hsimulate : n.simulate = some f)
    (hbreak : '\n' ∉ part.toList) (h : Occurs part f.text) : Occurs part n.text :=
  (standsIn_block (by simp [blocks, hsimulate])).occurs hbreak h

end StubNamespace

/-! ## Types -/

variable {c : Config} {r : Route}

/-- The types that a stub writes, and whether they are to be written out: those of all
parameters but the body, of which path parameters are, that of the body, and that of the
result, if there is one. -/
inductive Route.WritesType (c : Config) (r : Route) : NamedType → Bool → Prop
  | parameter {p : Parameter} : p ∈ r.parameters → p.category ≠ .body →
      WritesType c r p.type (p.category == .path)
  | body {p : Parameter} : r.body? = some p → WritesType c r p.type false
  | output : c.propagate = true ∨ r.output.void = false → WritesType c r r.output false

theorem Route.parameterType_of_not_body {p : Parameter} (h : p.category ≠ .body) :
    r.parameterType c p = p.type.text c (p.category == .path) := by
  unfold parameterType
  split
  · next hcategory => exact absurd hcategory h
  · rfl

theorem Code.standsIn_wrapped (wrapper declared : String) :
    StandsIn declared (wrapped wrapper declared) :=
  (StandsIn.append_left (.refl declared) _).append_right _

namespace StubOf

variable {wants : List Registration} {stub : String} {f : StubFunction} {n : StubNamespace}

theorem standsIn_function (h : StubOf c r wants stub f n) : StandsIn f.text stub := by
  rw [h.text]
  exact .of_mem_lines (by simp)

theorem standsIn_scope (h : StubOf c r wants stub f n) : StandsIn n.text stub := by
  rw [h.text]
  exact .of_mem_lines (by simp)

theorem occurs_function (h : StubOf c r wants stub f n) (hpart : Occurs part f.text) :
    Occurs part stub := by
  rw [h.text]
  exact hpart.trans (Text.occurs_intercalate (by simp))

theorem occurs_scope (h : StubOf c r wants stub f n) (hpart : Occurs part n.text) :
    Occurs part stub := by
  rw [h.text]
  exact hpart.trans (Text.occurs_intercalate (by simp))

/-- A type that a stub writes is found in it, and what is wanted for the type is wanted for
the stub. -/
theorem exists_type (h : StubOf c r wants stub f n) {type : NamedType} {inline : Bool}
    (hwrites : r.WritesType c type inline) :
    ∃ more declared, type.text c inline = ⟨more, .ok declared⟩ ∧ more ⊆ wants ∧
      StandsIn declared stub := by
  cases hwrites with
  | @parameter p hp hbody =>
      obtain ⟨rest, hparameters, hbindings⟩ := h.function.bindings
      obtain ⟨b, hb, -, more, htype, hmore⟩ := hbindings.exists_of_mem hp
      rw [Route.parameterType_of_not_body hbody] at htype
      have hmem : b ∈ f.parameters := by
        rw [hparameters]
        exact List.mem_cons_of_mem _ hb
      refine ⟨more, b.type, htype, hmore, ?_⟩
      have hbinding : StandsIn b.type b.text := StandsIn.append_left (.refl _) _
      exact (hbinding.trans (StubFunction.standsIn_parameter hmem)).trans h.standsIn_function
  | @body p hp =>
      obtain ⟨more, text, hinput, hmore, hsome⟩ := h.scope.input p hp
      have hstands := (StubNamespace.standsIn_input hsome).trans h.standsIn_scope
      cases hinput with
      | @resolved asked declared _ hdeclared =>
          exact ⟨asked, declared, hdeclared, (List.append_subset.mp hmore).1,
            (Code.standsIn_wrapped _ _).trans hstands⟩
      | plain _ hdeclared => exact ⟨more, text, hdeclared, hmore, hstands⟩
  | output hwritten =>
      obtain ⟨more, houtput, hmore⟩ := h.scope.output
      have hstands : ∀ type, n.output = some type → StandsIn type stub := fun type htype =>
        (StubNamespace.standsIn_output htype).trans h.standsIn_scope
      generalize n.output = output at houtput hstands
      cases houtput with
      | @propagated asked declared _ hdeclared =>
          refine ⟨asked, declared, hdeclared, (List.cons_subset.mp hmore).2, ?_⟩
          have hentry : StandsIn declared (r.propagatedStatus.display ++ ": " ++ declared ++ ";") :=
            (StandsIn.append_left (.refl _) _).append_right _
          have henvelope : StandsIn declared (r.envelope declared) :=
            ((hentry.trans (Text.standsIn_indent _)).append_left _).append_right _
          exact (henvelope.trans (Code.standsIn_wrapped _ _)).trans (hstands _ rfl)
      | void hplain hvoid =>
          rw [hplain, hvoid] at hwritten
          exact absurd hwritten (by decide)
      | @primitive asked declared _ _ _ hdeclared =>
          exact ⟨asked, declared, hdeclared, (List.append_subset.mp hmore).1,
            (Code.standsIn_wrapped _ _).trans (hstands _ rfl)⟩
      | @plain _ declared _ _ _ hdeclared =>
          exact ⟨more, declared, hdeclared, hmore, hstands _ rfl⟩

end StubOf

end ClientSdk
