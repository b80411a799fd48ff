import ClientSdk.Proofs.Config.Override

/-!
# Options that are read again

Options that are written out are read as the same ones if there is a root in them.  Without one
they are refused, and so is each override that leaves the root as it is (`reload_settles`).  The
root is asked for before it is cleaned, so this can happen to options that were read: cleaned,
the root `./ ` has nothing but a blank left (`blank_root_refused`).
-/

namespace ClientSdk.Config

variable {members values : Table Value} {c c' : Config}

theorem isRoot_eq_false_iff {s : String} :
    isRoot (.text s) = false ↔ ∀ ch ∈ s.toList, Text.isBlank ch = true := by
  rw [isRoot, Bool.not_eq_false', List.isEmpty_iff, Text.trimChars_eq_nil_iff]

/-- Options that were read have no root if the one that was given comes down to one step of
blanks. -/
theorem not_hasRoot_iff (h : ofMembers members = .ok c) : ¬ c.HasRoot ↔
    ∃ s step, Table.get? members "output" = some (.text s) ∧
      Path.read (Path.turnSlashes s) = ⟨0, [step]⟩ ∧
      ∀ ch ∈ step.toList, Text.isBlank ch = true := by
  obtain ⟨hfits, t, -, hc⟩ := ofMembers_eq_ok_iff.mp h
  obtain ⟨s, hs⟩ := exists_of_isRoot ((hfits "output").root rfl)
  have houtput : c.output = Path.clean s := by
    rw [hc, output_kept, hs, textOf_text]
  rw [HasRoot, Bool.not_eq_true, isRoot_eq_false_iff, houtput, Path.forall_blank_clean_iff]
  constructor
  · rintro ⟨step, hstep⟩
    exact ⟨s, step, hs, hstep⟩
  · rintro ⟨s', step, hs', hstep⟩
    obtain rfl : s = s' := by
      rw [hs] at hs'
      cases hs'
      rfl
    exact ⟨step, hstep⟩

theorem ofMembers_toMembers (h : ofMembers members = .ok c) (hroot : c.HasRoot) :
    ofMembers c.toMembers = .ok c :=
  (alike_toMembers h hroot).ofMembers_eq ▸ h

/-- Whether all that an override gives are other options than the root, with values that they
can have. -/
def LeavesRoot (values : Table Value) : Prop :=
  ∀ p ∈ given values, p.1 ≠ "output" ∧ Fits p.1 (some p.2)

theorem LeavesRoot.output_not_mem (hleaves : LeavesRoot values) :
    "output" ∉ Table.keys (given values) := by
  intro hmem
  obtain ⟨v, hv⟩ := Table.mem_keys_iff.mp hmem
  exact (hleaves _ hv).1 rfl

theorem LeavesRoot.get?_output (hleaves : LeavesRoot values) (members : Table Value) :
    Table.get? (Table.insertAll members (given values)) "output" =
      Table.get? members "output" :=
  Table.get?_insertAll_of_not_mem hleaves.output_not_mem

theorem LeavesRoot.exists_override (hleaves : LeavesRoot values)
    (hown : ownName ∉ Table.keys values) (h : ofMembers members = .ok c) (hroot : c.HasRoot) :
    ∃ c', c'.output = c.output ∧ c.override values = .ok c' := by
  obtain ⟨hfits, t, -, hc⟩ := ofMembers_eq_ok_iff.mp h
  have hmerged : ∀ name,
      Fits name (Table.get? (Table.insertAll members (given values)) name) := by
    intro name
    rw [Table.get?_insertAll]
    cases hentry : Table.get? (given values).reverse name with
    | none => exact hfits name
    | some v =>
        exact (hleaves (name, v) (List.mem_reverse.mp (Table.mem_of_get? hentry))).2
  obtain ⟨t', ht'⟩ := (hmerged "alias_files").aliases rfl
  refine ⟨kept (Table.insertAll members (given values)) t', ?_, ?_⟩
  · rw [hc, output_kept, output_kept, hleaves.get?_output]
  · rw [override_eq h hroot hown]
    exact ofMembers_eq_ok_iff.mpr ⟨hmerged, t', ht', rfl⟩

theorem LeavesRoot.ofMembers_eq (hleaves : LeavesRoot values) (hroot : ¬ c.HasRoot) :
    ofMembers (Table.insertAll c.toMembers (given values)) = .error (.config .blankOutput) := by
  refine ofMembers_eq_blankOutput (fun name hname => ?_) ?_
  · rcases Table.mem_keys_insertAll.mp hname with hname | hname
    · exact (mem_keys_toMembers c name).mp hname
    · obtain ⟨v, hv⟩ := Table.mem_keys_iff.mp hname
      exact (hleaves _ hv).2.known rfl
  · rw [hleaves.get?_output]
    exact Bool.not_eq_true _ ▸ hroot

/-- Options that were read are read again as the same ones, and stay what can be read if
another option than the root is overridden, if and only if there is a root in them.  There is
none if the one that was given comes down to one step of blanks. -/
theorem reload_settles (h : ofMembers members = .ok c) :
    ofMembers c.toMembers = (if c.HasRoot then .ok c else .error (.config .blankOutput)) ∧
      (∀ values, ownName ∉ Table.keys values → given values ≠ [] → LeavesRoot values →
        ∃ c', c'.output = c.output ∧ c.override values =
          if c.HasRoot then .ok c' else .error (.config .blankOutput)) ∧
      (¬ c.HasRoot ↔ ∃ s step, Table.get? members "output" = some (.text s) ∧
        Path.read (Path.turnSlashes s) = ⟨0, [step]⟩ ∧
        ∀ ch ∈ step.toList, Text.isBlank ch = true) := by
  refine ⟨?_, fun values hown hgiven hleaves => ?_, not_hasRoot_iff h⟩
  · split
    · next hroot => exact ofMembers_toMembers h hroot
    · next hroot =>
      have hnothing : LeavesRoot [] := fun p hp => absurd hp List.not_mem_nil
      exact hnothing.ofMembers_eq hroot
  · split
    · next hroot => exact hleaves.exists_override hown h hroot
    · next hroot =>
      refine ⟨c, rfl, ?_⟩
      rw [override_eq_of_given hown hgiven]
      exact hleaves.ofMembers_eq hroot

/-- A root that is not clean is read again, and stays if routes are to be simulated. -/
theorem reload_settles_of_api :
    let members : Table Value := [("output", .text "lib\\..\\src//api/"), ("alias_files", .null)]
    let c : Config := { output := "src/api" }
    ofMembers members = .ok c ∧ LeavesRoot [("simulate", .bool true)] ∧
      ofMembers c.toMembers = .ok c ∧
      ∃ c', c'.output = "src/api" ∧ c.override [("simulate", .bool true)] = .ok c' := by
  intro members c
  have hread : ofMembers members = .ok c :=
    Except.toOption_eq_some_iff.mp (by decide +kernel)
  have hleaves : LeavesRoot [("simulate", .bool true)] := by
    intro p hp
    obtain rfl := List.mem_singleton.mp hp
    exact ⟨by decide, {
      known := fun _ => by decide
      root := fun hname => absurd hname (by decide)
      switch := fun _ => rfl
      text := fun hname => absurd hname (by decide)
      aliases := fun hname => absurd hname (by decide) }⟩
  have hroot : c.HasRoot := by decide
  obtain ⟨hagain, hoverride, -⟩ := reload_settles hread
  obtain ⟨c', houtput, hc'⟩ := hoverride [("simulate", .bool true)] (by decide)
    (List.cons_ne_nil _ _) hleaves
  rw [if_pos hroot] at hagain hc'
  exact ⟨hread, hleaves, hagain, c', houtput, hc'⟩

/-- A root of which nothing but a blank is left is read, and refused when it is read again. -/
theorem blank_root_refused :
    let c : Config := { output := " " }
    ofMembers [("output", .text "./ ")] = .ok c ∧
      ofMembers c.toMembers = .error (.config .blankOutput) ∧
      c.override [("simulate", .bool true)] = .error (.config .blankOutput) := by
  intro c
  have hread : ofMembers [("output", .text "./ ")] = .ok c :=
    Except.toOption_eq_some_iff.mp (by decide +kernel)
  have hgiven : given [("simulate", .bool true)] ≠ [] := List.cons_ne_nil _ _
  refine ⟨hread, ofMembers_eq_blankOutput (by decide) (by decide), ?_⟩
  rw [override_eq_of_given (by decide) hgiven]
  exact ofMembers_eq_blankOutput (by decide) (by decide)

end ClientSdk.Config
