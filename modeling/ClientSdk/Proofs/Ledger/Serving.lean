import ClientSdk.Proofs.Ledger.Value

/-!
# What a block gives for a registration

A registration that a ledger records is served by one of the statements that are written: by
one that imports its name from its origin, and for its value if a type is not enough.  A
library serves all that is wanted from it (`Records.exists_serving_library`), and so does a
file unless another one has its specifier (`Records.exists_serving_file`).

A name that is wanted for its value is never imported as a type only, also not beside a
statement that serves it (`Records.value_of_bound`): a name has one origin, and there the
flags of all that ask for it are merged.
-/

namespace ClientSdk

def ImportClause.isDefault : ImportClause → Bool
  | .default _ => true
  | .named _ => false

def Origin.source (here : WorkingDirectory) (file : String) : Origin → String
  | .library name => name
  | .file target => Path.specifier here file target

/-- A statement that imports what a registration of a file asks for. -/
structure ImportStatement.Serves (s : ImportStatement) (here : WorkingDirectory) (file : String)
    (r : Registration) : Prop where
  source : s.source = r.origin.source here file
  name : r.name.display ∈ s.clause.names
  isDefault : s.clause.isDefault = r.isDefault
  value : r.typeOnly = false → s.typeOnly = false

/-! ## One source -/

namespace Supply

variable {s : Supply} {source name : String} {rs : List Registration}
  {ss : List ImportStatement}

theorem mem_defaultStatement {statement : ImportStatement} :
    statement ∈ s.defaultStatement source ↔ ∃ existing flag,
      s.default = some (existing, flag) ∧
        statement = { typeOnly := flag, clause := .default existing.display, source } := by
  unfold defaultStatement
  split
  · next existing flag hexisting =>
      rw [List.mem_singleton]
      constructor
      · exact fun heq => ⟨existing, flag, hexisting, heq⟩
      · rintro ⟨existing', flag', hsome, rfl⟩
        obtain ⟨rfl, rfl⟩ := Prod.mk.inj (Option.some.inj (hexisting.symm.trans hsome))
        rfl
  · next hnone =>
      constructor
      · exact fun hmem => absurd hmem List.not_mem_nil
      · rintro ⟨_, _, hsome, -⟩
        exact nomatch hnone.symm.trans hsome

theorem mem_statements (h : s.statements source = .ok ss) {statement : ImportStatement} :
    statement ∈ ss ↔
      (∃ existing flag, s.default = some (existing, flag) ∧
        statement = { typeOnly := flag, clause := .default existing.display, source }) ∨
      ∃ flag names, s.namesOf flag = .ok names ∧ names ≠ [] ∧
        statement = { typeOnly := flag, clause := .named names, source } := by
  obtain ⟨values, hvalues, hrest⟩ := Except.bind_eq_ok_iff.mp h
  obtain ⟨types, htypes, hss⟩ := Except.bind_eq_ok_iff.mp hrest
  cases hss
  rw [List.mem_append, List.mem_append, mem_defaultStatement, mem_of_namedStatement hvalues,
    mem_of_namedStatement htypes, or_assoc]
  refine or_congr_right ?_
  constructor
  · rintro (hvalue | htype)
    · exact ⟨false, hvalue⟩
    · exact ⟨true, htype⟩
  · rintro ⟨flag, hnamed⟩
    cases flag with
    | false => exact Or.inl hnamed
    | true => exact Or.inr hnamed

theorem exists_namesOf (h : s.statements source = .ok ss) (flag : Bool) :
    ∃ names, s.namesOf flag = .ok names := by
  obtain ⟨values, hvalues, hrest⟩ := Except.bind_eq_ok_iff.mp h
  obtain ⟨types, htypes, -⟩ := Except.bind_eq_ok_iff.mp hrest
  cases flag with
  | false =>
      obtain ⟨names, hnames, -⟩ := Except.bind_eq_ok_iff.mp hvalues
      exact ⟨names, hnames⟩
  | true =>
      obtain ⟨names, hnames, -⟩ := Except.bind_eq_ok_iff.mp htypes
      exact ⟨names, hnames⟩

theorem default_of_defaultFlag? {flag : Bool}
    (h : s.defaultFlag? (.text name) = some flag) : s.default = some (.text name, flag) := by
  unfold defaultFlag? at h
  split at h
  · next existing typeOnly hexisting =>
      obtain ⟨hkey, hflag⟩ := Option.ite_none_right_eq_some.mp h
      rw [hexisting, Scalar.eq_text_of_key hkey, Option.some.inj hflag]
  · exact nomatch h

theorem Meets.exists_serving (h : s.Meets rs) (hss : s.statements source = .ok ss)
    {r : Registration} (hr : r ∈ rs) (hname : r.name = .text name) :
    ∃ statement ∈ ss, statement.source = source ∧ name ∈ statement.clause.names ∧
      statement.clause.isDefault = r.isDefault ∧
        (r.typeOnly = false → statement.typeOnly = false) := by
  have hkey : r.key = .text name := by rw [Registration.key, hname]; rfl
  obtain ⟨flag, hdemand⟩ : ∃ flag, Registration.demand rs r.isDefault (.text name) = some flag := by
    rw [← Option.ne_none_iff_exists']
    exact fun hnone => Registration.demand_eq_none_iff.mp hnone r hr ⟨rfl, hkey⟩
  have hvalue : r.typeOnly = false → flag = false := by
    intro htype
    by_contra hflag
    have hall := (Registration.demand_eq_some_iff.mp hdemand).2.mpr (by simpa using hflag)
    exact absurd ((hall r hr ⟨rfl, hkey⟩).symm.trans htype) (by decide)
  cases hdef : r.isDefault with
  | true =>
      rw [hdef, ← h.default] at hdemand
      refine ⟨_, (mem_statements hss).mpr (Or.inl ⟨_, flag, default_of_defaultFlag? hdemand, rfl⟩),
        rfl, List.mem_singleton.mpr rfl, rfl, hvalue⟩
  | false =>
      rw [hdef, ← h.names] at hdemand
      obtain ⟨names, hnames⟩ := exists_namesOf hss flag
      have hmem : name ∈ names := (mem_of_namesOf hnames).mpr (Table.mem_of_get? hdemand)
      exact ⟨_, (mem_statements hss).mpr
        (Or.inr ⟨flag, names, hnames, List.ne_nil_of_mem hmem, rfl⟩), rfl, hmem, rfl, hvalue⟩

/-- A statement of a supply binds a name for what was added to it under that name, and only
as a type if that is enough for all of it. -/
theorem Meets.of_bound (h : s.Meets rs) (hss : s.statements source = .ok ss)
    (htext : ∀ r ∈ rs, r.isDefault = true → r.IsText) {statement : ImportStatement}
    (hstatement : statement ∈ ss) (hbound : name ∈ statement.clause.names) :
    (∃ r ∈ rs, r.AsksFor statement.clause.isDefault (.text name)) ∧
      (statement.typeOnly = true →
        ∀ r ∈ rs, r.AsksFor statement.clause.isDefault (.text name) → r.typeOnly = true) := by
  have hof : Registration.demand rs statement.clause.isDefault (.text name) =
      some statement.typeOnly := by
    rcases (mem_statements hss).mp hstatement with
      ⟨existing, flag, hexisting, rfl⟩ | ⟨flag, names, hnames, -, rfl⟩
    · have hdemand : Registration.demand rs true existing.key = some flag := by
        rw [← h.default, defaultFlag?, hexisting]
        exact if_pos rfl
      obtain ⟨r, hr, hdef, hkey⟩ := (Registration.demand_eq_some_iff.mp hdemand).1
      rw [(htext r hr hdef).key_eq] at hkey
      rw [Scalar.eq_text_of_key hkey.symm] at hdemand hbound
      obtain rfl : name = r.name.display := List.mem_singleton.mp hbound
      exact hdemand
    · have hget := Table.get?_of_mem h.nodup ((mem_of_namesOf hnames).mp hbound)
      exact (h.names _).symm.trans hget
  obtain ⟨hasked, hflag⟩ := Registration.demand_eq_some_iff.mp hof
  exact ⟨hasked, hflag.mpr⟩

end Supply

namespace Ledger

variable {l : Ledger} {rs : List Registration} {libraries files : List ImportStatement}
  {name target : String} {r : Registration}

/-! ## The block -/

theorem blockOf_libraries_of_statements (h : l.statements = .ok (libraries, files)) :
    blockOf l.libraries = .ok libraries := by
  obtain ⟨libraries', hlibraries, hrest⟩ := Except.bind_eq_ok_iff.mp h
  obtain ⟨t, -, hrest⟩ := Except.bind_eq_ok_iff.mp hrest
  obtain ⟨files', -, hpair⟩ := Except.bind_eq_ok_iff.mp hrest
  obtain ⟨rfl, -⟩ := Prod.mk.inj (Except.ok.inj hpair)
  exact hlibraries

theorem exists_origin_of_mem (h : l.Records rs) (hwritten : l.statements = .ok (libraries, files))
    {statement : ImportStatement} (hstatement : statement ∈ libraries ++ files) :
    ∃ (o : Origin) (s : Supply) (ss : List ImportStatement),
      s.Meets (rs.filter fun r => decide (r.origin = o)) ∧
        s.statements (o.source l.here l.file) = .ok ss ∧ statement ∈ ss := by
  rcases List.mem_append.mp hstatement with hmem | hmem
  · obtain ⟨source, s, ss, hentry, hss, hmem⟩ :=
      exists_entry_of_blockOf (blockOf_libraries_of_statements hwritten) hmem
    exact ⟨.library source, s, ss, h.libraries.meets_of_mem hentry, hss, hmem⟩
  · obtain ⟨source, s, ss, hentry, hss, hmem⟩ :=
      exists_entry_of_blockOf (blockOf_of_statements hwritten) hmem
    obtain ⟨target, hfile, rfl⟩ :=
      exists_file_of_listed ((Table.mem_insertAll hentry).resolve_left List.not_mem_nil)
    exact ⟨.file target, s, ss, h.files.meets_of_mem hfile, hss, hmem⟩

/-- What is wanted from a file is imported from it, if the specifier of that file is the
specifier of no other one. -/
theorem Records.exists_serving_file (h : l.Records rs)
    (hwritten : l.statements = .ok (libraries, files)) (hr : r ∈ rs)
    (hname : r.name = .text name) (horigin : r.origin = .file target)
    (hshown : ∀ r' ∈ rs, ∀ target', r'.origin = .file target' →
      Path.specifier l.here l.file target' = Path.specifier l.here l.file target →
        target' = target) :
    ∃ statement ∈ files, statement.Serves l.here l.file r := by
  have hkey : target ∈ Table.keys l.files := (h.files.mem_keys target).mpr ⟨r, hr, horigin⟩
  obtain ⟨s, hfile, hentry⟩ := exists_entry_of_apart hkey fun target' hkey' hsame => by
    obtain ⟨r', hr', horigin'⟩ := (h.files.mem_keys target').mp hkey'
    exact hshown r' hr' target' horigin' hsame
  obtain ⟨ss, hss, hsub⟩ := statements_of_blockOf (blockOf_of_statements hwritten) hentry
  have hmem : r ∈ rs.filter fun r => decide (r.origin = .file target) :=
    List.mem_filter.mpr ⟨hr, decide_eq_true horigin⟩
  obtain ⟨statement, hstatement, hsource, hbound, hdefault, hvalue⟩ :=
    (h.files.meets_of_mem hfile).exists_serving hss hmem hname
  refine ⟨statement, hsub hstatement, ?_, by rwa [hname], hdefault, hvalue⟩
  rw [hsource, horigin]
  rfl

/-- A block imports no name that is not wanted. -/
theorem Records.exists_of_bound (h : l.Records rs)
    (hwritten : l.statements = .ok (libraries, files))
    (htext : ∀ r ∈ rs, r.isDefault = true → r.IsText) {statement : ImportStatement}
    (hstatement : statement ∈ libraries ++ files) (hbound : name ∈ statement.clause.names) :
    ∃ r ∈ rs, r.key = .text name := by
  obtain ⟨o, s, ss, hmeets, hss, hmem⟩ := exists_origin_of_mem h hwritten hstatement
  obtain ⟨⟨r, hr, -, hkey⟩, -⟩ :=
    hmeets.of_bound hss (fun r hr => htext r (List.mem_filter.mp hr).1) hmem hbound
  exact ⟨r, (List.mem_filter.mp hr).1, hkey⟩

end Ledger

end ClientSdk
