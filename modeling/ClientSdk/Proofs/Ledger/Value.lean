import ClientSdk.Proofs.Ledger.Batch
import ClientSdk.Proofs.Ledger.Binding

/-!
# Names that are imported for their value

A name is imported from a file for its value if it was registered so, and if the file
is the one that its specifier stands for: of files under one specifier the later counts
(`Records.exists_of_importsValue`).  The file that comes first among all is therefore
lost as soon as another one has its specifier (`Records.importsValue_first`).
-/

namespace ClientSdk

def ImportsValue (statements : List ImportStatement) (source name : String) : Prop :=
  ∃ names, name ∈ names ∧
    { typeOnly := false, clause := .named names, source } ∈ statements

/-! ## The statements of a supply -/

theorem mem_of_mapM_text? {keys : List Scalar.Key} {names : List String}
    (h : keys.mapM Scalar.Key.text? = some names) {name : String} :
    name ∈ names ↔ .text name ∈ keys := by
  induction keys generalizing names with
  | nil =>
      cases h
      simp
  | cons key keys ih =>
      rw [List.mapM_cons] at h
      obtain ⟨first, hfirst, hrest⟩ := Option.bind_eq_some_iff.mp h
      obtain ⟨rest, hkeys, hcons⟩ := Option.bind_eq_some_iff.mp hrest
      cases hcons
      have hkey : key = .text first := by
        cases key <;> simp_all [Scalar.Key.text?]
      rw [List.mem_cons, List.mem_cons, ih hkeys, hkey, Scalar.Key.text.injEq]

namespace Supply

variable {s : Supply} {source name : String} {flag : Bool}

theorem mem_of_namesOf {names : List String} (h : s.namesOf flag = .ok names) :
    name ∈ names ↔ (.text name, flag) ∈ s.names := by
  unfold namesOf at h
  split at h
  · next names' hnames =>
      cases h
      rw [sortTexts, (List.mergeSort_perm names' _).mem_iff, mem_of_mapM_text? hnames]
      simp
  · exact nomatch h

theorem mem_of_namedStatement {ss : List ImportStatement}
    (h : s.namedStatement source flag = .ok ss) {statement : ImportStatement} :
    statement ∈ ss ↔ ∃ names, s.namesOf flag = .ok names ∧ names ≠ [] ∧
      statement = { typeOnly := flag, clause := .named names, source } := by
  obtain ⟨names, hnames, hss⟩ := Except.bind_eq_ok_iff.mp h
  rw [hnames]
  cases names with
  | nil =>
      cases hss
      simp
  | cons first rest =>
      cases hss
      simp

theorem importsValue_of_statements {ss : List ImportStatement}
    (h : s.statements source = .ok ss) {source' : String} :
    ImportsValue ss source' name ↔ source' = source ∧ (.text name, false) ∈ s.names := by
  obtain ⟨values, hvalues, hrest⟩ := Except.bind_eq_ok_iff.mp h
  obtain ⟨types, htypes, hss⟩ := Except.bind_eq_ok_iff.mp hrest
  cases hss
  constructor
  · rintro ⟨names, hname, hmem⟩
    rcases List.mem_append.mp hmem with hmem | hmem
    swap
    · obtain ⟨_, -, -, heq⟩ := (mem_of_namedStatement htypes).mp hmem
      exact absurd heq (by simp)
    rcases List.mem_append.mp hmem with hmem | hmem
    · unfold defaultStatement at hmem
      split at hmem
      · exact absurd (List.mem_singleton.mp hmem) (by simp)
      · exact absurd hmem List.not_mem_nil
    · obtain ⟨names', hnames, -, heq⟩ := (mem_of_namedStatement hvalues).mp hmem
      simp only [ImportStatement.mk.injEq, ImportClause.named.injEq, true_and] at heq
      obtain ⟨rfl, rfl⟩ := heq
      exact ⟨rfl, (mem_of_namesOf hnames).mp hname⟩
  · rintro ⟨rfl, hmem⟩
    obtain ⟨names, hnames, -⟩ := Except.bind_eq_ok_iff.mp hvalues
    have hname : name ∈ names := (mem_of_namesOf hnames).mpr hmem
    refine ⟨names, hname, List.mem_append_left _ (List.mem_append_right _ ?_)⟩
    exact (mem_of_namedStatement hvalues).mpr
      ⟨names, hnames, List.ne_nil_of_mem hname, rfl⟩

theorem Meets.mem_names_value {rs : List Registration} (h : s.Meets rs)
    {key : Scalar.Key} :
    (key, false) ∈ s.names ↔ ∃ r ∈ rs, r.AsksFor false key ∧ r.typeOnly = false := by
  rw [Table.mem_iff_get? h.nodup, h.names, Registration.demand_eq_some_iff]
  constructor
  · rintro ⟨-, hall⟩
    by_contra hnone
    refine absurd (hall.mp fun r hr hasks => ?_) Bool.false_ne_true
    cases htype : r.typeOnly with
    | true => rfl
    | false => exact absurd ⟨r, hr, hasks, htype⟩ hnone
  · rintro ⟨r, hr, hasks, htype⟩
    refine ⟨⟨r, hr, hasks⟩, fun hall => ?_, fun hfalse => absurd hfalse Bool.false_ne_true⟩
    exact htype.symm.trans (hall r hr hasks)

end Supply

namespace Ledger

variable {l : Ledger} {rs : List Registration} {libraries files : List ImportStatement}
  {source name target : String}

/-! ## The statements of a ledger -/

theorem importsValue_of_blockOf {t : Table Supply} {ss : List ImportStatement}
    (h : blockOf t = .ok ss) :
    ImportsValue ss source name ↔ ∃ s, (source, s) ∈ t ∧ (.text name, false) ∈ s.names := by
  constructor
  · rintro ⟨names, hname, hmem⟩
    obtain ⟨source', s, ss', hentry, hs, hstatement⟩ := exists_entry_of_blockOf h hmem
    obtain ⟨rfl, hvalue⟩ :=
      (Supply.importsValue_of_statements hs).mp ⟨names, hname, hstatement⟩
    exact ⟨s, hentry, hvalue⟩
  · rintro ⟨s, hentry, hvalue⟩
    obtain ⟨ss', hs, hsub⟩ := statements_of_blockOf h hentry
    obtain ⟨names, hname, hmem⟩ := (Supply.importsValue_of_statements hs).mpr ⟨rfl, hvalue⟩
    exact ⟨names, hname, hsub hmem⟩

/-- The files of a ledger whose statements are written, by specifier. -/
theorem blockOf_of_statements (h : l.statements = .ok (libraries, files)) :
    blockOf (Table.insertAll [] l.listed) = .ok files := by
  obtain ⟨libraries', -, hrest⟩ := Except.bind_eq_ok_iff.mp h
  obtain ⟨t, hlisted, hrest⟩ := Except.bind_eq_ok_iff.mp hrest
  obtain ⟨files', hfiles, hpair⟩ := Except.bind_eq_ok_iff.mp hrest
  obtain ⟨-, rfl⟩ := bySpecifier_eq_ok_iff.mp hlisted
  obtain ⟨-, rfl⟩ := Prod.mk.inj (Except.ok.inj hpair)
  exact hfiles

/-- What is listed by specifier is the supply of a file. -/
theorem exists_file_of_listed {s : Supply} (h : (source, s) ∈ l.listed) :
    ∃ target, (target, s) ∈ l.files ∧ Path.specifier l.here l.file target = source := by
  obtain ⟨⟨target, s'⟩, hfile, heq⟩ := List.mem_map.mp h
  obtain ⟨rfl, rfl⟩ := Prod.mk.inj heq
  exact ⟨target, hfile, rfl⟩

theorem Records.mem_names_value (h : l.Records rs) {s : Supply}
    (hfile : (target, s) ∈ l.files) {key : Scalar.Key} :
    (key, false) ∈ s.names ↔
      ∃ r ∈ rs, r.origin = .file target ∧ r.AsksFor false key ∧ r.typeOnly = false := by
  rw [(h.files.meets_of_mem hfile).mem_names_value]
  simp [and_assoc]

theorem Records.exists_of_importsValue (h : l.Records rs)
    (hwritten : l.statements = .ok (libraries, files))
    (hvalue : ImportsValue files source name) :
    ∃ r ∈ rs, r.typeOnly = false ∧ r.AsksFor false (.text name) ∧
      ∃ target, r.origin = .file target ∧ Path.specifier l.here l.file target = source := by
  obtain ⟨s, hentry, hname⟩ :=
    (importsValue_of_blockOf (blockOf_of_statements hwritten)).mp hvalue
  have hlisted := (Table.mem_insertAll hentry).resolve_left List.not_mem_nil
  obtain ⟨target, hfile, hsource⟩ := exists_file_of_listed hlisted
  obtain ⟨r, hr, horigin, hasks, htype⟩ := (h.mem_names_value hfile).mp hname
  exact ⟨r, hr, htype, hasks, target, horigin, hsource⟩

/-! ## The first file -/

theorem keys_files_entered (l : Ledger) (r : Registration) :
    Table.keys l.files <+: Table.keys (l.entered r).files := by
  unfold entered
  cases r.origin with
  | library name => exact List.prefix_rfl
  | file target =>
      change _ <+: Table.keys (Table.insert l.files target _)
      rw [Table.insert, Table.keys_alter]
      split
      · exact List.prefix_rfl
      · exact List.prefix_append _ _

theorem keys_files_of_first {r : Registration} (h : l.files = [])
    (horigin : r.origin = .file target) : Table.keys (l.entered r).files = [target] := by
  have hfiles : (l.entered r).files =
      Table.insert l.files target ((l.supply (.file target)).add r) := by
    rw [entered, horigin]
    rfl
  rw [hfiles, h, Table.insert_of_not_mem _ List.not_mem_nil]
  rfl

theorem keys_files_step (l : Ledger) (q : LedgerRequest) :
    Table.keys l.files <+: Table.keys (l.step q).2.files := by
  cases q with
  | register r =>
      have hcases := l.registers r
      change _ <+: Table.keys (l.register r).2.files
      generalize l.register r = answer at hcases ⊢
      cases hcases with
      | entered _ _ _ _ => exact l.keys_files_entered r
      | _ => exact List.prefix_rfl
  | write =>
      simp only [Ledger.step, toScript]
      split <;> exact List.prefix_rfl
  | _ => exact List.prefix_rfl

theorem keys_files_after (l : Ledger) (qs : List LedgerRequest) :
    Table.keys l.files <+: Table.keys (l.after qs).files := by
  induction qs generalizing l with
  | nil => exact List.prefix_rfl
  | cons q qs ih => exact (l.keys_files_step q).trans (ih _)

theorem exists_entry_of_apart (hkey : target ∈ Table.keys l.files)
    (hapart : ∀ target' ∈ Table.keys l.files,
      Path.specifier l.here l.file target' = Path.specifier l.here l.file target →
        target' = target) :
    ∃ s, (target, s) ∈ l.files ∧
      (Path.specifier l.here l.file target, s) ∈ Table.insertAll [] l.listed := by
  have hlisted : Path.specifier l.here l.file target ∈
      Table.keys (Table.insertAll [] l.listed) := by
    rw [Table.mem_keys_insertAll, keys_listed]
    exact Or.inr (List.mem_map_of_mem hkey)
  obtain ⟨s, hentry⟩ := Table.mem_keys_iff.mp hlisted
  obtain ⟨target', hfile, hsame⟩ :=
    exists_file_of_listed ((Table.mem_insertAll hentry).resolve_left List.not_mem_nil)
  obtain rfl := hapart target' (Table.mem_keys_of_mem hfile) hsame
  exact ⟨s, hfile, hentry⟩

/-- The file that comes first, and the only one that is asked for values, gives a value
unless another file has its specifier. -/
theorem Records.importsValue_first (h : l.Records rs)
    (hwritten : l.statements = .ok (libraries, files))
    (hfirst : (Table.keys l.files).head? = some target)
    (honly : ∀ r ∈ rs, r.typeOnly = false → ∀ target', r.origin = .file target' →
      target' = target)
    {r : Registration} (hr : r ∈ rs) (horigin : r.origin = .file target)
    (hasks : r.AsksFor false (.text name)) (htype : r.typeOnly = false) :
    ImportsValue files (Path.specifier l.here l.file target) name ↔
      ∀ target' ∈ Table.keys l.files,
        Path.specifier l.here l.file target' = Path.specifier l.here l.file target →
          target' = target := by
  rw [importsValue_of_blockOf (blockOf_of_statements hwritten)]
  constructor
  · rintro ⟨s, hentry, hname⟩ target' hkey hsame
    by_contra hne
    obtain ⟨e, rest, hfiles⟩ : ∃ e rest, l.files = e :: rest := by
      cases hf : l.files with
      | nil => simp [hf, Table.keys] at hfirst
      | cons e rest => exact ⟨e, rest, rfl⟩
    obtain rfl : e.1 = target := by simpa [hfiles, Table.keys] using hfirst
    have hnodup := h.files.nodup
    rw [hfiles] at hkey hnodup
    have hnew : e.1 ∉ Table.keys rest := (List.nodup_cons.mp hnodup).1
    have hkey' : target' ∈ Table.keys rest := (List.mem_cons.mp hkey).resolve_left hne
    -- The entry that is kept is the last one under the specifier, so not the first file.
    obtain ⟨before, after, hlisted, hlast⟩ := Table.exists_last_of_mem_insertAll hentry
    rw [listed, hfiles, List.map_cons] at hlisted
    cases before with
    | nil =>
        obtain ⟨-, rfl⟩ := List.cons.inj hlisted
        obtain ⟨s', hentry'⟩ := Table.mem_keys_iff.mp hkey'
        have hmem : (Path.specifier l.here l.file target', s') ∈
            rest.map fun e => (Path.specifier l.here l.file e.1, e.2) :=
          List.mem_map.mpr ⟨(target', s'), hentry', rfl⟩
        rw [hsame] at hmem
        exact hlast (Table.mem_keys_of_mem hmem)
    | cons p before =>
        obtain ⟨-, hrest⟩ := List.cons.inj hlisted
        have hmem : (Path.specifier l.here l.file e.1, s) ∈
            rest.map fun e => (Path.specifier l.here l.file e.1, e.2) :=
          hrest ▸ List.mem_append_right _ List.mem_cons_self
        obtain ⟨e', he', heq⟩ := List.mem_map.mp hmem
        obtain ⟨-, rfl⟩ := Prod.mk.inj heq
        have hfile : (e'.1, e'.2) ∈ l.files := hfiles ▸ List.mem_cons_of_mem _ he'
        obtain ⟨r', hr', horigin', -, htype'⟩ := (h.mem_names_value hfile).mp hname
        have hsame' := honly r' hr' htype' e'.1 horigin'
        exact hnew (hsame' ▸ Table.mem_keys_of_mem he')
  · intro hapart
    have hkey : target ∈ Table.keys l.files := (h.files.mem_keys target).mpr ⟨r, hr, horigin⟩
    obtain ⟨s, hfile, hentry⟩ := exists_entry_of_apart hkey hapart
    exact ⟨s, hentry, (h.mem_names_value hfile).mpr ⟨r, hr, horigin, hasks, htype⟩⟩

end Ledger

end ClientSdk
