import ClientSdk.Proofs.Config.Reading

/-!
# Overridden options

An override writes the options out, writes what it gives over them, and reads the outcome.  So
it does the same as to write over the mapping that the options were read from (`override_eq`),
as long as there is a root in the options, and a chain of overrides can be read at once from
that mapping, where of the values given for an option the last one counts
(`overrides_commute`).

There is one name that no override can have a value under, not even one that counts as not given:
the name of the options themselves.  It is refused in another way than a name that is of no
option (`own_name_refused_apart`).
-/

namespace ClientSdk.Config

variable {members values : Table Value} {sets : List (Table Value)} {c c' : Config}

/-! ## Single overrides -/

theorem override_ownName (hown : ownName ∈ Table.keys values) :
    c.override values = .error wrongKind :=
  if_pos (List.contains_iff_mem.mpr hown)

theorem ownName_not_mem_of_override (h : c.override values = .ok c') :
    ownName ∉ Table.keys values := by
  intro hown
  rw [override_ownName hown] at h
  exact nomatch h

theorem override_eq_of_given (hown : ownName ∉ Table.keys values) (hgiven : given values ≠ []) :
    c.override values = ofMembers (Table.insertAll c.toMembers (given values)) := by
  unfold override
  rw [if_neg fun hmem => hown (List.contains_iff_mem.mp hmem)]
  split
  · next hnone => exact absurd hnone hgiven
  · rfl

theorem override_eq_of_not_given (hown : ownName ∉ Table.keys values)
    (hgiven : given values = []) : c.override values = .ok c := by
  unfold override
  rw [if_neg fun hmem => hown (List.contains_iff_mem.mp hmem), hgiven]

/-- An override does the same to the options as to the mapping that they were read from. -/
theorem override_eq (h : ofMembers members = .ok c) (hroot : c.HasRoot)
    (hown : ownName ∉ Table.keys values) :
    c.override values = ofMembers (Table.insertAll members (given values)) := by
  by_cases hgiven : given values = []
  · rw [override_eq_of_not_given hown hgiven, hgiven]
    exact h.symm
  · rw [override_eq_of_given hown hgiven]
    exact ((alike_toMembers h hroot).insertAll (given values)).ofMembers_eq.symm

/-! ## Chains of overrides -/

/-- Whether overrides, made one after the other, lead from the one options to the other and
always leave a root. -/
inductive Overrides : Config → List (Table Value) → Config → Prop
  | nil (c : Config) : Overrides c [] c
  | cons {c c₁ c' : Config} {values : Table Value} {sets : List (Table Value)} :
      c.override values = .ok c₁ → c₁.HasRoot → Overrides c₁ sets c' →
      Overrides c (values :: sets) c'

/-- A mapping with all that overrides give written over it, in their order. -/
def updated (members : Table Value) (sets : List (Table Value)) : Table Value :=
  Table.insertAll members (sets.flatMap given)

theorem updated_cons (members values : Table Value) (sets : List (Table Value)) :
    updated members (values :: sets) =
      updated (Table.insertAll members (given values)) sets := by
  rw [updated, List.flatMap_cons, Table.insertAll_append, updated]

theorem updated_append_singleton (members : Table Value) (sets : List (Table Value))
    (values : Table Value) : updated members (sets ++ [values]) =
      Table.insertAll (updated members sets) (given values) := by
  rw [updated, List.flatMap_append, Table.insertAll_append, List.flatMap_singleton, updated]

/-- A chain of overrides leads to what is read from the mapping with all of them written over
it. -/
theorem Overrides.ofMembers_updated (hsets : Overrides c sets c')
    (h : ofMembers members = .ok c) (hroot : c.HasRoot) :
    ofMembers (updated members sets) = .ok c' ∧ c'.HasRoot := by
  induction hsets generalizing members with
  | nil c => exact ⟨h, hroot⟩
  | @cons c c₁ c' values sets hvalues hroot₁ _ ih =>
      rw [updated_cons]
      refine ih ?_ hroot₁
      rw [← override_eq h hroot (ownName_not_mem_of_override hvalues), hvalues]

def tried (c : Config) (values : Table Value) : Config :=
  (c.override values).toOption.getD c

theorem tried_eq_self {fault : Fault} (h : c.override values = .error fault) :
    c.tried values = c := by
  rw [tried, h]
  rfl

/-- Overrides commute with reading: a chain of them leads to the options of the mapping with all
that they give written over it, and each option of these has the last value that was given for
it, or the one it had.  The next override is read like that mapping with its values too: if this
is refused, so is the override, and the options stay in force.  Only an override with a value
under the name of the options is refused at once. -/
theorem overrides_commute (h : ofMembers members = .ok c) (hroot : c.HasRoot)
    (hsets : Overrides c sets c') :
    ofMembers (updated members sets) = .ok c' ∧
      (∀ name ∈ optionNames,
        ReadAlike name
          ((Table.get? (sets.flatMap given).reverse name).or (Table.get? members name))
          (Table.get? c'.toMembers name)) ∧
      ∀ values,
        (ownName ∉ Table.keys values →
          c'.override values = ofMembers (updated members (sets ++ [values])) ∧
          ∀ fault, ofMembers (updated members (sets ++ [values])) = .error fault →
            (∃ e, fault = .config e) ∧ c'.tried values = c') ∧
        (ownName ∈ Table.keys values →
          c'.override values = .error wrongKind ∧ c'.tried values = c') := by
  obtain ⟨hread, hroot'⟩ := hsets.ofMembers_updated h hroot
  refine ⟨hread, fun name hname => ?_, fun values => ⟨fun hown => ?_, fun hown => ?_⟩⟩
  · rw [← Table.get?_insertAll]
    exact (alike_toMembers hread hroot').options name hname
  · have hnext : c'.override values = ofMembers (updated members (sets ++ [values])) := by
      rw [updated_append_singleton]
      exact override_eq hread hroot' hown
    refine ⟨hnext, fun fault hfault => ⟨ofMembers_failsBy _ fault hfault, ?_⟩⟩
    exact tried_eq_self (hnext.trans hfault)
  · exact ⟨override_ownName hown, tried_eq_self (override_ownName hown)⟩

/-- Of two overrides the second one counts, what is not given stays, and a root of blanks is
refused. -/
theorem overrides_commute_of_two :
    let members : Table Value := [("output", .text "src\\api"), ("clone", .bool true)]
    let sets : List (Table Value) :=
      [[("simulate", .bool true), ("clone", .null)],
        [("output", .text "lib/"), ("simulate", .bool false)]]
    let c : Config := { output := "src/api", clone := true }
    let c' : Config := { output := "lib", clone := true }
    ofMembers members = .ok c ∧ c.HasRoot ∧ Overrides c sets c' ∧
      ofMembers (updated members sets) = .ok c' ∧
      c'.override [("output", .text " ")] = .error (.config .blankOutput) ∧
      c'.tried [("output", .text " ")] = c' := by
  intro members sets c c'
  have hread : ofMembers members = .ok c :=
    Except.toOption_eq_some_iff.mp (by decide +kernel)
  have hroot : c.HasRoot := by decide
  have hfirst : c.override [("simulate", .bool true), ("clone", .null)] =
      .ok { c with simulate := true } :=
    Except.toOption_eq_some_iff.mp (by decide +kernel)
  have hsecond : override { c with simulate := true }
      [("output", .text "lib/"), ("simulate", .bool false)] = .ok c' :=
    Except.toOption_eq_some_iff.mp (by decide +kernel)
  have hsets : Overrides c sets c' :=
    .cons hfirst (by decide) (.cons hsecond (by decide) (.nil c'))
  obtain ⟨hmerged, -, hnext⟩ := overrides_commute hread hroot hsets
  obtain ⟨hblank, hrefused⟩ := (hnext [("output", .text " ")]).1 (by decide)
  have hfault : ofMembers (updated members (sets ++ [[("output", .text " ")]])) =
      .error (.config .blankOutput) :=
    ofMembers_eq_blankOutput (by decide) (by decide)
  exact ⟨hread, hroot, hsets, hmerged, hblank.trans hfault, (hrefused _ hfault).2⟩

/-- A value under the name of the options is refused in another way than the mapping with it. -/
theorem own_name_refused_apart :
    let members : Table Value := [("output", .text "a")]
    let c : Config := { output := "a" }
    let values : Table Value := [("self", .bool true)]
    ofMembers members = .ok c ∧ c.HasRoot ∧
      ofMembers (updated members [values]) = .error (.config (.unknownOptions ["self"])) ∧
      c.override values = .error wrongKind ∧ ¬ ∃ e, wrongKind = Fault.config e := by
  intro members c values
  have hread : ofMembers members = .ok c :=
    Except.toOption_eq_some_iff.mp (by decide +kernel)
  have hunknown : unknownNames (Table.keys (updated members [values])) = ["self"] := by decide
  have hmerged : ofMembers (updated members [values]) =
      .error (.config (.unknownOptions ["self"])) := by
    rw [ofMembers_eq_unknownOptions (by rw [hunknown]; exact List.cons_ne_nil _ _), hunknown]
    exact congrArg _ (congrArg _ (congrArg _ (List.mergeSort_singleton _)))
  exact ⟨hread, by decide, hmerged, override_ownName (by decide), nofun⟩

end ClientSdk.Config
