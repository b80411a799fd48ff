import ClientSdk.Proofs.Ledger.Canonical
import ClientSdk.Proofs.Ledger.Serving

/-!
# Where the specifiers of a block lead

The block of a file names each imported file by a specifier, and the specifier leads back:
joined to the directory of the importing file, it is a path to the target
(`Path.normalize_join_specifier`).  So targets under one specifier are one place
(`Path.normalize_eq_of_specifier`).  The specifiers in a block are those of the registered
targets, no fewer (`Records.exists_statement`) and no more (`Records.exists_target`).

The importing file and the targets have to stay below the working directory.  What leads up
goes through directories whose names are not in the path, and the way to it tells them.
-/

namespace ClientSdk

def Registration.IsTarget (rs : List Registration) (target : String) : Prop :=
  ∃ r ∈ rs, r.origin = .file target

namespace Path

variable {here : WorkingDirectory} {file target target' : String}

theorem normalize_join_specifier (hfile : Inside file) (htarget : Within target) :
    normalize (join (directory (clean file)) (specifier here (clean file) target)) =
      normalize target := by
  rw [normalize, normalize, read_join_specifier here hfile htarget]

theorem normalize_eq_of_specifier (htarget : Within target) (htarget' : Within target')
    (h : specifier here file target = specifier here file target') :
    normalize target = normalize target' := by
  rw [normalize, normalize, htarget.read_eq htarget' (specifier_eq_iff.mp h)]

end Path

open Registration (IsTarget)

/-! ## The statements of a source -/

theorem Supply.Meets.exists_statement {s : Supply} {rs : List Registration} {source : String}
    {ss : List ImportStatement} (h : s.Meets rs) (hss : s.statements source = .ok ss)
    {r : Registration} (hr : r ∈ rs) : ∃ statement ∈ ss, statement.source = source := by
  obtain ⟨flag, hflag⟩ : ∃ flag, Registration.demand rs r.isDefault r.key = some flag := by
    rw [← Option.ne_none_iff_exists']
    exact fun hnone => Registration.demand_eq_none_iff.mp hnone r hr ⟨rfl, rfl⟩
  cases hdef : r.isDefault with
  | true =>
      rw [hdef, ← h.default, defaultFlag?] at hflag
      split at hflag
      · next existing typeOnly hexisting =>
          exact ⟨_, (mem_statements hss).mpr (Or.inl ⟨_, _, hexisting, rfl⟩), rfl⟩
      · cases hflag
  | false =>
      by_cases htext : r.IsText
      · obtain ⟨name, hname⟩ := htext
        obtain ⟨statement, hmem, hsource, -⟩ := h.exists_serving hss hr hname
        exact ⟨statement, hmem, hsource⟩
      · obtain ⟨fault, hfault⟩ := Ledger.statements_of_not_text h hr hdef htext source
        cases hfault.symm.trans hss

theorem Supply.source_of_mem_statements {s : Supply} {source : String}
    {ss : List ImportStatement} (hss : s.statements source = .ok ss)
    {statement : ImportStatement} (hmem : statement ∈ ss) : statement.source = source := by
  rcases (mem_statements hss).mp hmem with ⟨_, _, -, rfl⟩ | ⟨_, _, -, -, rfl⟩ <;> rfl

namespace Ledger

variable {l : Ledger} {rs : List Registration} {libraries files : List ImportStatement}

/-! ## The specifiers of a block -/

theorem Records.exists_statement (h : l.Records rs)
    (hwritten : l.statements = .ok (libraries, files)) {target : String}
    (htarget : IsTarget rs target) :
    ∃ statement ∈ files, statement.source = Path.specifier l.here l.file target := by
  have hkey : Path.specifier l.here l.file target ∈ Table.keys (Table.insertAll [] l.listed) := by
    rw [Table.mem_keys_insertAll, keys_listed]
    exact Or.inr (List.mem_map_of_mem ((h.files.mem_keys target).mpr htarget))
  -- Of the files under this specifier some is listed, and its names were registered.
  obtain ⟨s, hentry⟩ := Table.mem_keys_iff.mp hkey
  obtain ⟨other, hfile, -⟩ :=
    exists_file_of_listed ((Table.mem_insertAll hentry).resolve_left List.not_mem_nil)
  obtain ⟨r, hr, horigin⟩ := (h.files.mem_keys other).mp (Table.mem_keys_of_mem hfile)
  obtain ⟨ss, hss, hsub⟩ := statements_of_blockOf (blockOf_of_statements hwritten) hentry
  obtain ⟨statement, hmem, hsource⟩ := (h.files.meets_of_mem hfile).exists_statement hss
    (List.mem_filter.mpr ⟨hr, decide_eq_true horigin⟩)
  exact ⟨statement, hsub hmem, hsource⟩

theorem Records.exists_target (h : l.Records rs)
    (hwritten : l.statements = .ok (libraries, files)) {statement : ImportStatement}
    (hmem : statement ∈ files) :
    ∃ target, IsTarget rs target ∧ statement.source = Path.specifier l.here l.file target := by
  obtain ⟨source, s, ss, hentry, hss, hstatement⟩ :=
    exists_entry_of_blockOf (blockOf_of_statements hwritten) hmem
  obtain ⟨target, hfile, hsource⟩ :=
    exists_file_of_listed ((Table.mem_insertAll hentry).resolve_left List.not_mem_nil)
  refine ⟨target, (h.files.mem_keys target).mp (Table.mem_keys_of_mem hfile), ?_⟩
  rw [hsource]
  exact Supply.source_of_mem_statements hss hstatement

theorem not_mem_files_of_statements (h : l.statements = .ok (libraries, files)) :
    "" ∉ Table.keys l.files := by
  obtain ⟨_, -, hrest⟩ := Except.bind_eq_ok_iff.mp h
  obtain ⟨_, hlisted, -⟩ := Except.bind_eq_ok_iff.mp hrest
  exact (bySpecifier_eq_ok_iff.mp hlisted).1

theorem open_of_toScript {text : String} (h : l.toScript.1 = .ok text) :
    l.closed = false := by
  cases hclosed : l.closed with
  | false => rfl
  | true =>
      rw [toScript, if_pos hclosed] at h
      cases h

/-- Whatever a file asks its ledger for, each registered target below the directory of the
run has a specifier that leads from the directory of the file to the target, and two of them
share it only if they are one place.  The block that is written has a statement under the
specifier of each target, and no statement for a file under any other. -/
theorem specifier_resolves (here : WorkingDirectory) {file : String} (hfile : Path.Inside file)
    (qs : List LedgerRequest) :
    let l := (forFile here file).after qs
    let rs := (forFile here file).granted qs
    (∀ target, IsTarget rs target → target ≠ "" → Path.Within target →
      ∃ s, l.specifier target = .ok s ∧
        Path.normalize (Path.join (Path.directory l.file) s) = Path.normalize target) ∧
    (∀ target target' s, IsTarget rs target → IsTarget rs target' →
      Path.Within target → Path.Within target' → l.specifier target = .ok s →
        l.specifier target' = .ok s → Path.normalize target = Path.normalize target') ∧
    ∀ text, l.toScript.1 = .ok text →
      ∃ libraries files, text = blockText libraries files ∧
        (∀ target, IsTarget rs target →
          ∃ statement ∈ files, l.specifier target = .ok statement.source) ∧
        ∀ statement ∈ files,
          ∃ target, IsTarget rs target ∧ l.specifier target = .ok statement.source := by
  intro l rs
  have hrec : l.Records rs := records_after here file qs
  have hhere : l.here = here := by rw [here_after, here_forFile]
  have hname : l.file = Path.clean file := by rw [file_after, file_forFile]
  refine ⟨?_, ?_, ?_⟩
  · intro target _ hempty hwithin
    refine ⟨_, specifier_eq_ok_iff.mpr ⟨hempty, rfl⟩, ?_⟩
    rw [hname, hhere]
    exact Path.normalize_join_specifier hfile hwithin
  · intro target target' s _ _ hwithin hwithin' hs hs'
    refine Path.normalize_eq_of_specifier hwithin hwithin' (?_ : Path.specifier l.here l.file _ = _)
    rw [← (specifier_eq_ok_iff.mp hs).2, ← (specifier_eq_ok_iff.mp hs').2]
  · intro text htext
    obtain ⟨libraries, files, hwritten, rfl⟩ :=
      statements_of_toScript (open_of_toScript htext) htext
    have hnamed : ∀ target, IsTarget rs target → target ≠ "" := by
      rintro target htarget rfl
      exact not_mem_files_of_statements hwritten ((hrec.files.mem_keys "").mpr htarget)
    refine ⟨libraries, files, rfl, fun target htarget => ?_, fun statement hmem => ?_⟩
    · obtain ⟨statement, hmem, hsource⟩ := hrec.exists_statement hwritten htarget
      exact ⟨statement, hmem, specifier_eq_ok_iff.mpr ⟨hnamed target htarget, hsource⟩⟩
    · obtain ⟨target, htarget, hsource⟩ := hrec.exists_target hwritten hmem
      exact ⟨target, htarget, specifier_eq_ok_iff.mpr ⟨hnamed target htarget, hsource⟩⟩

/-- Two files whose locations differ by a slash at the end: they share a specifier, which leads
to the one place that both of them are. -/
theorem specifier_resolves_of_shared :
    let file := "src/api/functional/index.ts"
    let qs : List LedgerRequest :=
      [.register (.fromFile "src/api/IPage.ts" "IPage"),
        .register (.fromFile "src/api/IPage/.ts" "IRequest")]
    let l := (forFile .root file).after qs
    let rs := (forFile .root file).granted qs
    Path.Inside file ∧ IsTarget rs "src/api/IPage" ∧ IsTarget rs "src/api/IPage/" ∧
      Path.Within "src/api/IPage" ∧ Path.Within "src/api/IPage/" ∧
      l.specifier "src/api/IPage" = .ok "../IPage" ∧
      l.specifier "src/api/IPage/" = .ok "../IPage" ∧
      Path.normalize (Path.join (Path.directory l.file) "../IPage") =
        Path.normalize "src/api/IPage/" ∧
      Path.normalize "src/api/IPage" = Path.normalize "src/api/IPage/" := by
  intro file qs l rs
  have hfile : Path.Inside file := ⟨by decide, by decide⟩
  have htarget : IsTarget rs "src/api/IPage" :=
    ⟨.fromFile "src/api/IPage.ts" "IPage", by decide +kernel, by decide⟩
  have htarget' : IsTarget rs "src/api/IPage/" :=
    ⟨.fromFile "src/api/IPage/.ts" "IRequest", by decide +kernel, by decide⟩
  have hwithin : Path.Within "src/api/IPage" := ⟨by decide, by decide⟩
  have hwithin' : Path.Within "src/api/IPage/" := ⟨by decide, by decide⟩
  have hs : l.specifier "src/api/IPage" = .ok "../IPage" := by
    refine specifier_eq_ok_iff.mpr ⟨by decide, ?_⟩
    decide +kernel
  have hs' : l.specifier "src/api/IPage/" = .ok "../IPage" := by
    refine specifier_eq_ok_iff.mpr ⟨by decide, ?_⟩
    decide +kernel
  obtain ⟨hleads, hshared, -⟩ := specifier_resolves .root hfile qs
  obtain ⟨s, hspecifier, hback⟩ := hleads _ htarget' (by decide) hwithin'
  obtain rfl : s = "../IPage" := Except.ok.inj (hspecifier.symm.trans hs')
  exact ⟨hfile, htarget, htarget', hwithin, hwithin', hs, hs', hback,
    hshared _ _ _ htarget htarget' hwithin hwithin' hs hs'⟩

end Ledger

end ClientSdk
