import ClientSdk.Proofs.Ledger.Resolution

/-!
# Which specifiers are relative

A file is imported under a relative specifier, so that it is not taken for a package.  The
way to it is made relative by a step in place if it does not begin with a point, and a way
begins with one also if its first step is a name that does.  So the specifier of a target
is relative unless the target is hidden: it stands below the directory of the importing
file, behind a name that begins with a point (`Path.isRelative_specifier_iff`).
-/

namespace ClientSdk

namespace Path

/-- A specifier that is taken for a path: a step in place or up, alone or in front of
more steps. -/
def IsRelative (s : String) : Prop :=
  s = "." ∨ s = ".." ∨ "./".toList <+: s.toList ∨ "../".toList <+: s.toList

instance (s : String) : Decidable (IsRelative s) :=
  inferInstanceAs (Decidable (_ ∨ _))

/-- The target stands below the directory of the file, and the first step on the way down
to it is a name that begins with a point. -/
def Hidden (here : WorkingDirectory) (file target : String) : Prop :=
  ∃ step rest, absolute here target = directoryPlace here file ++ step :: rest ∧
    step.toList.head? = some '.'

variable {start target : List String} {step : String} {rest : List String}

/-! ## The first step of a way -/

theorem dropCommon_append (start rest : List String) :
    dropCommon start (start ++ rest) = ([], rest) := by
  induction start with
  | nil => rfl
  | cons s start ih => rw [List.cons_append, dropCommon, if_pos rfl, ih]

theorem stepsFrom_eq_cons_iff (hup : step ≠ "..") :
    stepsFrom start target = step :: rest ↔ target = start ++ step :: rest := by
  constructor
  · intro h
    obtain ⟨common, hstart, htarget⟩ := dropCommon_eq start target
    rw [stepsFrom_eq] at h
    cases hback : (dropCommon start target).1 with
    | nil =>
        rw [hback, List.map_nil, List.nil_append] at h
        rw [hback, List.append_nil] at hstart
        rw [hstart, ← h]
        exact htarget
    | cons u up =>
        rw [hback, List.map_cons, List.cons_append] at h
        exact absurd (List.cons.inj h).1.symm hup
  · rintro rfl
    rw [stepsFrom_eq, dropCommon_append]
    rfl

theorem hidden_iff {here : WorkingDirectory} {file target : String} :
    Hidden here file target ↔ ∃ step rest,
      stepsFrom (directoryPlace here file) (absolute here target) = step :: rest ∧
        step.toList.head? = some '.' ∧ step ≠ ".." := by
  constructor
  · rintro ⟨step, rest, hsteps, hpoint⟩
    have hup : step ≠ ".." := by
      rintro rfl
      exact no_up_absolute here target (by simp [hsteps])
    exact ⟨step, rest, (stepsFrom_eq_cons_iff hup).mpr hsteps, hpoint, hup⟩
  · rintro ⟨step, rest, hsteps, hpoint, hup⟩
    exact ⟨step, rest, (stepsFrom_eq_cons_iff hup).mp hsteps, hpoint⟩

/-! ## The text of a way -/

theorem toList_stepsText_cons (step : String) (rest : List String) :
    (stepsText (step :: rest)).toList = Text.join '/' ((step :: rest).map String.toList) := by
  rw [stepsText_of_ne_nil (List.cons_ne_nil _ _), Text.toList_intercalate_eq_join toList_slash]

theorem head?_stepsText_cons (h : IsStep step) (rest : List String) :
    (stepsText (step :: rest)).toList.head? = step.toList.head? := by
  have hne : step.toList ≠ [] := fun hnil => h.ne_empty (String.toList_eq_nil_iff.mp hnil)
  rw [toList_stepsText_cons, List.map_cons]
  cases rest with
  | nil => rfl
  | cons next rest => rw [Text.join_cons (by simp), List.head?_append_of_ne_nil _ hne]

theorem isRelative_iff {s : String} :
    IsRelative s ↔ ∃ first rest, Text.splitAt '/' s = first :: rest ∧
      (first = "." ∨ first = "..") := by
  have hcut : ∀ (name : String) (more : List Char), Text.splitAt '/' name = [name] →
      name.toList ++ '/' :: more = s.toList →
        ∃ rest, Text.splitAt '/' s = name :: rest := by
    intro name more hname hs
    have htext : s = name ++ "/" ++ String.ofList more := by
      rw [← String.toList_inj, ← hs]
      simp
    rw [htext, Text.splitAt_append toList_slash, hname]
    exact ⟨_, rfl⟩
  constructor
  · rintro (rfl | rfl | ⟨more, hs⟩ | ⟨more, hs⟩)
    · exact ⟨".", [], by decide, .inl rfl⟩
    · exact ⟨"..", [], by decide, .inr rfl⟩
    · obtain ⟨rest, hrest⟩ := hcut "." more (by decide) hs
      exact ⟨".", rest, hrest, .inl rfl⟩
    · obtain ⟨rest, hrest⟩ := hcut ".." more (by decide) hs
      exact ⟨"..", rest, hrest, .inr rfl⟩
  · rintro ⟨first, rest, hpieces, hfirst⟩
    have htext : s.toList = Text.join '/' ((first :: rest).map String.toList) := by
      rw [← hpieces, Text.splitAt, List.map_map]
      simp [Function.comp_def]
    cases rest with
    | nil =>
        obtain rfl : s = first := String.toList_inj.mp htext
        exact hfirst.imp_right .inl
    | cons next rest =>
        rw [List.map_cons, Text.join_cons (by simp)] at htext
        rcases hfirst with rfl | rfl
        · exact .inr (.inr (.inl ⟨_, htext.symm⟩))
        · exact .inr (.inr (.inr ⟨_, htext.symm⟩))

theorem isRelative_stepsText_cons (h : ∀ s ∈ step :: rest, IsStep s) :
    IsRelative (stepsText (step :: rest)) ↔ step = ".." := by
  have hpieces : Text.splitAt '/' (stepsText (step :: rest)) = step :: rest := by
    rw [stepsText_of_ne_nil (List.cons_ne_nil _ _)]
    exact Text.splitAt_intercalate toList_slash (List.cons_ne_nil _ _) fun s hs => (h s hs).no_slash
  rw [isRelative_iff, hpieces]
  constructor
  · rintro ⟨first, others, heq, hfirst⟩
    obtain ⟨rfl, rfl⟩ := List.cons.inj heq
    exact hfirst.resolve_left (h step List.mem_cons_self).ne_dot
  · exact fun hup => ⟨step, rest, rfl, .inr hup⟩

theorem isStep_of_mem_stepsFrom (h : ∀ s ∈ target, IsStep s) {s : String}
    (hs : s ∈ stepsFrom start target) : IsStep s := by
  obtain ⟨common, -, htarget⟩ := dropCommon_eq start target
  rw [stepsFrom_eq] at hs
  rcases List.mem_append.mp hs with hs | hs
  · obtain ⟨_, -, rfl⟩ := List.mem_map.mp hs
    exact isStep_up
  · exact h s (htarget ▸ List.mem_append_right _ hs)

theorem isRelative_specifier_iff (here : WorkingDirectory) (file target : String) :
    IsRelative (specifier here file target) ↔ ¬ Hidden here file target := by
  have hstep : ∀ s ∈ stepsFrom (directoryPlace here file) (absolute here target), IsStep s :=
    fun s hs => isStep_of_mem_stepsFrom (fun s hs => isStep_of_mem_absolute hs) hs
  simp only [hidden_iff, specifier_eq, pointedText]
  cases hsteps : stepsFrom (directoryPlace here file) (absolute here target) with
  | nil =>
      have hdot : IsRelative (if (stepsText []).toList.head? = some '.' then stepsText []
          else "./" ++ stepsText []) := by decide
      exact iff_of_true hdot (by simp)
  | cons step rest =>
      rw [hsteps] at hstep
      rw [head?_stepsText_cons (hstep step List.mem_cons_self)]
      by_cases hpoint : step.toList.head? = some '.'
      · rw [if_pos hpoint, isRelative_stepsText_cons hstep]
        constructor
        · rintro hup ⟨first, others, heq, -, hne⟩
          exact hne ((List.cons.inj heq).1 ▸ hup)
        · intro hnone
          by_contra hup
          exact hnone ⟨step, rest, rfl, hpoint, hup⟩
      · rw [if_neg hpoint]
        refine iff_of_true (.inr (.inr (.inl ?_))) ?_
        · rw [String.toList_append]
          exact List.prefix_append _ _
        · rintro ⟨first, others, heq, hfirst, -⟩
          exact hpoint ((List.cons.inj heq).1 ▸ hfirst)

end Path

namespace Ledger

open Registration (IsTarget)

/-- Whatever a file asks its ledger for, the block that is written has a statement under the
specifier of each registered target and no statement for a file under any other, and a
specifier in it is relative unless the target that it names is hidden from the file. -/
theorem specifier_relative_iff (here : WorkingDirectory) (file : String)
    (qs : List LedgerRequest) :
    let l := (forFile here file).after qs
    let rs := (forFile here file).granted qs
    ∀ text, l.toScript.1 = .ok text →
      ∃ libraries files, text = blockText libraries files ∧
        (∀ target, IsTarget rs target →
          ∃ statement ∈ files, l.specifier target = .ok statement.source) ∧
        ∀ statement ∈ files,
          (∃ target, IsTarget rs target ∧ l.specifier target = .ok statement.source) ∧
          ∀ target, l.specifier target = .ok statement.source →
            (Path.IsRelative statement.source ↔ ¬ Path.Hidden l.here l.file target) := by
  intro l rs text htext
  have hrec : l.Records rs := records_after here file qs
  obtain ⟨libraries, files, hwritten, rfl⟩ := statements_of_toScript (open_of_toScript htext) htext
  have hnamed : ∀ target, IsTarget rs target → target ≠ "" := by
    rintro target htarget rfl
    exact not_mem_files_of_statements hwritten ((hrec.files.mem_keys "").mpr htarget)
  refine ⟨libraries, files, rfl, fun target htarget => ?_, fun statement hmem => ⟨?_, ?_⟩⟩
  · obtain ⟨statement, hmem, hsource⟩ := hrec.exists_statement hwritten htarget
    exact ⟨statement, hmem, specifier_eq_ok_iff.mpr ⟨hnamed target htarget, hsource⟩⟩
  · obtain ⟨target, htarget, hsource⟩ := hrec.exists_target hwritten hmem
    exact ⟨target, htarget, specifier_eq_ok_iff.mpr ⟨hnamed target htarget, hsource⟩⟩
  · intro target hspecifier
    rw [(specifier_eq_ok_iff.mp hspecifier).2]
    exact Path.isRelative_specifier_iff l.here l.file target

/-- A file beside the importing one, in a directory whose name begins with a point. -/
theorem specifier_relative_of_hidden :
    let file := "src/index.ts"
    let qs : List LedgerRequest := [.register (.fromFile "src/.generated/types.ts" "IHidden")]
    let l := (forFile .root file).after qs
    ∃ text libraries files, l.toScript.1 = .ok text ∧ text = blockText libraries files ∧
      Path.Hidden l.here l.file "src/.generated/types" ∧
      ∃ statement ∈ files, l.specifier "src/.generated/types" = .ok statement.source ∧
        ¬ Path.IsRelative statement.source := by
  intro file qs l
  have hwritten : l.toScript.1.toOption.any (fun _ => true) = true := by decide +kernel
  obtain ⟨text, htext, -⟩ := Except.exists_of_any hwritten
  have htarget : IsTarget ((forFile .root file).granted qs) "src/.generated/types" :=
    ⟨.fromFile "src/.generated/types.ts" "IHidden", by decide +kernel, by decide⟩
  have hhidden : Path.Hidden l.here l.file "src/.generated/types" :=
    ⟨".generated", ["types"], by decide +kernel, by decide⟩
  obtain ⟨libraries, files, hblock, hlisted, hfiles⟩ :=
    specifier_relative_iff .root file qs text htext
  obtain ⟨statement, hmem, hsource⟩ := hlisted _ htarget
  exact ⟨text, libraries, files, htext, hblock, hhidden, statement, hmem, hsource,
    fun hrelative => ((hfiles statement hmem).2 _ hsource).mp hrelative hhidden⟩

/-- Its specifier gets no step in place in front and reads as the name of a package. -/
theorem hidden_specifier_not_relative :
    let file := "src/index.ts"
    let path := "src/.generated/types.ts"
    Path.Inside file ∧ Path.Inside path ∧ Path.target path = "src/.generated/types" ∧
      ((forFile .root file).after [.register (.fromFile path "IHidden")]).toScript.1.toOption =
        some "import type \x7b IHidden \x7d from \".generated/types\";" ∧
      ¬ Path.IsRelative ".generated/types" :=
  ⟨⟨by decide, by decide⟩, ⟨by decide, by decide⟩, by decide, by decide +kernel, by decide⟩

end Ledger

end ClientSdk
