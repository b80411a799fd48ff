import ClientSdk.Proofs.Except
import ClientSdk.Proofs.Ledger.Block

/-!
# Writing the import block

A ledger that records registrations writes the block of their set
(`Records.statements_eq`), provided that its files can be named from the importing
file and no two of them are named alike (`Nameable`).
-/

namespace ClientSdk

/-- Registrations whose files can be named from `file`, no two of them alike. -/
structure Nameable (here : WorkingDirectory) (file : String) (rs : List Registration) :
    Prop where
  ne_empty : ∀ r ∈ rs, r.origin ≠ .file ""
  apart : ∀ r ∈ rs, ∀ r' ∈ rs, ∀ target target',
    r.origin = .file target → r'.origin = .file target' →
      Path.specifier here file target = Path.specifier here file target' → target = target'

/-- A registration as it is asked for: a name from one of the files, or a name, perhaps
the default one, from a library. -/
inductive Registration.Asked (files : String → Prop) : Registration → Prop
  | file {path : String} (name : String) (typeOnly : Bool) : files path →
      Asked files { fromFile path name with typeOnly }
  | library (library name : String) (typeOnly isDefault : Bool) :
      Asked files { fromLibrary library name with typeOnly, isDefault }

namespace Registration

variable {files : String → Prop} {r : Registration}

theorem Asked.isText (h : r.Asked files) : r.IsText := by
  cases h with
  | file name _ _ => exact ⟨name, rfl⟩
  | library _ name _ _ => exact ⟨name, rfl⟩

theorem Asked.unlessOwn (h : r.Asked files) : r.unlessOwn = false := by
  cases h <;> rfl

/-- A file gives no default name. -/
theorem Asked.isLibrary (h : r.Asked files) (hdef : r.isDefault = true) :
    r.origin.isLibrary = true := by
  cases h with
  | file _ _ _ => exact absurd hdef (by simp [fromFile])
  | library _ _ _ _ => rfl

end Registration

namespace Ledger

/-! ## The statements of a table -/

/-- Where every entry is written, the block of a table goes through its keys in
order. -/
theorem blockOf_eq {t : Table Supply} {S : Finset String}
    {f : String → List ImportStatement} (hnd : (Table.keys t).Nodup)
    (hkeys : ∀ source, source ∈ Table.keys t ↔ source ∈ S)
    (hentries : ∀ source s, (source, s) ∈ t → s.statements source = .ok (f source)) :
    blockOf t = .ok ((S.sort (· ≤ ·)).flatMap f) := by
  have hsorted : (Table.sorted t).mapM (fun e => e.2.statements e.1) =
      .ok ((Table.sorted t).map fun e => f e.1) := by
    refine Except.mapM_eq_ok fun e he => ?_
    exact hentries e.1 e.2 ((Table.sorted_perm t).mem_iff.mp he)
  have hmap : (Table.sorted t).map (fun e => f e.1) = (S.sort (· ≤ ·)).map f := by
    rw [← Table.keys_sorted hnd hkeys, Table.keys, List.map_map]
    rfl
  have hblock : blockOf t =
      List.flatten <$> (Table.sorted t).mapM fun e => e.2.statements e.1 := rfl
  rw [hblock, hsorted, hmap, List.flatMap]
  rfl

theorem blockOf_eq_ok {t : Table Supply} {ss : List ImportStatement}
    (h : blockOf t = .ok ss) :
    ∃ sss, (Table.sorted t).mapM (fun e => e.2.statements e.1) = .ok sss ∧
      ss = sss.flatten := by
  have hblock : blockOf t = do
      let sss ← (Table.sorted t).mapM fun e => e.2.statements e.1
      return sss.flatten := bind_pure_comp _ _ |>.symm
  rw [hblock] at h
  obtain ⟨sss, hall, hflat⟩ := Except.bind_eq_ok_iff.mp h
  cases hflat
  exact ⟨sss, hall, rfl⟩

theorem exists_blockOf {t : Table Supply}
    (h : ∀ e ∈ t, ∃ ss, e.2.statements e.1 = .ok ss) : ∃ ss, blockOf t = .ok ss := by
  obtain ⟨sss, hall⟩ := Except.exists_mapM
    (g := fun e : String × Supply => e.2.statements e.1)
    fun e he => h e ((Table.sorted_perm t).mem_iff.mp he)
  have hblock : blockOf t =
      List.flatten <$> (Table.sorted t).mapM fun e => e.2.statements e.1 := rfl
  exact ⟨sss.flatten, by rw [hblock, hall]; rfl⟩

/-- Every entry of a table that is written is written. -/
theorem statements_of_blockOf {t : Table Supply} {ss : List ImportStatement}
    (h : blockOf t = .ok ss) {source : String} {s : Supply} (hentry : (source, s) ∈ t) :
    ∃ ss', s.statements source = .ok ss' ∧ ss' ⊆ ss := by
  obtain ⟨sss, hall, rfl⟩ := blockOf_eq_ok h
  obtain ⟨ss', hss', hs⟩ :=
    Except.mem_of_mapM hall ((Table.sorted_perm t).mem_iff.mpr hentry)
  exact ⟨ss', hs, fun _ hmem => List.mem_flatten.mpr ⟨ss', hss', hmem⟩⟩

theorem exists_entry_of_blockOf {t : Table Supply} {ss : List ImportStatement}
    (h : blockOf t = .ok ss) {statement : ImportStatement} (hmem : statement ∈ ss) :
    ∃ source s ss', (source, s) ∈ t ∧ s.statements source = .ok ss' ∧
      statement ∈ ss' := by
  obtain ⟨sss, hall, rfl⟩ := blockOf_eq_ok h
  obtain ⟨ss', hss', hstatement⟩ := List.mem_flatten.mp hmem
  obtain ⟨⟨source, s⟩, hentry, hs⟩ := Except.exists_of_mem_mapM hall hss'
  exact ⟨source, s, ss', (Table.sorted_perm t).mem_iff.mp hentry, hs, hstatement⟩

variable {l : Ledger} {rs : List Registration} {t : Table Supply}
  {origin : String → Origin}

/-- A table of supplies is written as the set of what it covers, also when its sources
are written in other words. -/
theorem Covers.blockOf_eq (h : Covers t origin rs) (htext : ∀ r ∈ rs, r.IsText)
    {R : Finset Registration}
    (hR : ∀ r, r ∈ R ↔ r ∈ rs ∧ ∃ source, r.origin = origin source)
    (written : Origin → String)
    (hapart : ∀ source ∈ Table.keys t, ∀ source' ∈ Table.keys t,
      written (origin source) = written (origin source') → source = source') :
    blockOf (t.map fun e => (written (origin e.1), e.2)) =
      .ok (ImportBlock.group written R) := by
  have hkeys : Table.keys (t.map fun e => (written (origin e.1), e.2)) =
      (Table.keys t).map fun source => written (origin source) := by
    simp [Table.keys, Function.comp_def]
  refine Ledger.blockOf_eq ?_ ?_ ?_
  · rw [hkeys]
    exact h.nodup.map_on fun source hs source' hs' => hapart source hs source' hs'
  · intro text
    simp only [hkeys, List.mem_map, Finset.mem_image, h.mem_keys, hR]
    constructor
    · rintro ⟨source, ⟨r, hr, horigin⟩, rfl⟩
      exact ⟨r, ⟨hr, source, horigin⟩, congrArg written horigin⟩
    · rintro ⟨r, ⟨hr, source, horigin⟩, rfl⟩
      exact ⟨source, ⟨r, hr, horigin⟩, congrArg written horigin.symm⟩
  · rintro text s hmem
    obtain ⟨⟨source, s'⟩, hentry, heq⟩ := List.mem_map.mp hmem
    obtain ⟨rfl, rfl⟩ := Prod.mk.inj heq
    have hsource : source ∈ Table.keys t := Table.mem_keys_of_mem hentry
    have hset : (rs.filter fun r => decide (r.origin = origin source)).toFinset =
        ImportBlock.under written R (written (origin source)) := by
      ext r
      simp only [List.mem_toFinset, List.mem_filter, decide_eq_true_iff,
        ImportBlock.under, Finset.mem_filter, hR]
      constructor
      · rintro ⟨hr, horigin⟩
        exact ⟨⟨hr, source, horigin⟩, congrArg written horigin⟩
      · rintro ⟨⟨hr, source', horigin⟩, hwritten⟩
        have hsource' : source' ∈ Table.keys t := (h.mem_keys source').mpr ⟨r, hr, horigin⟩
        rw [horigin] at hwritten ⊢
        exact ⟨hr, congrArg origin (hapart source' hsource' source hsource hwritten)⟩
    rw [(h.meets_of_mem hentry).statements fun r hr => htext r (List.mem_filter.mp hr).1, hset]

/-! ## The statements of a ledger -/

theorem specifier_eq_ok_iff {target text : String} :
    l.specifier target = .ok text ↔
      target ≠ "" ∧ text = Path.specifier l.here l.file target := by
  unfold specifier
  by_cases hempty : target = ""
  · subst hempty
    constructor
    · exact fun h => absurd h (by simp)
    · exact fun h => absurd rfl h.1
  · rw [if_neg fun h => hempty (String.isEmpty_iff.mp h)]
    constructor
    · exact fun h => ⟨hempty, (Except.ok.inj h).symm⟩
    · exact fun h => congrArg Except.ok h.2.symm

/-- The imported files, each under its specifier. -/
def listed (l : Ledger) : Table Supply :=
  l.files.map fun e => (Path.specifier l.here l.file e.1, e.2)

theorem foldlM_specifier {entries seen t : Table Supply} :
    entries.foldlM (fun t (target, s) => return Table.insert t (← l.specifier target) s)
        seen = .ok t ↔
      "" ∉ Table.keys entries ∧
        t = Table.insertAll seen
          (entries.map fun e => (Path.specifier l.here l.file e.1, e.2)) := by
  induction entries generalizing seen with
  | nil =>
      simp [pure, Except.pure, Table.keys, Table.insertAll, eq_comm]
  | cons e entries ih =>
      obtain ⟨target, s⟩ := e
      have hkeys : "" ∉ Table.keys ((target, s) :: entries) ↔
          target ≠ "" ∧ "" ∉ Table.keys entries := by
        rw [Table.keys, List.map_cons, List.mem_cons, not_or]
        exact and_congr_left' (not_congr eq_comm)
      rw [List.foldlM_cons, hkeys]
      by_cases htarget : target = ""
      · subst htarget
        have hrefused : l.specifier "" = .error (.value .emptyPath) := rfl
        simp [hrefused, bind, Except.bind]
      · have hspecifier : l.specifier target = .ok (Path.specifier l.here l.file target) :=
          specifier_eq_ok_iff.mpr ⟨htarget, rfl⟩
        simp only [hspecifier]
        refine Iff.trans ih ?_
        simp [htarget, Table.insertAll_cons]

/-- The files can be listed by specifier unless one of them has no name, and of two
files under one specifier the later is listed. -/
theorem bySpecifier_eq_ok_iff {t : Table Supply} :
    l.bySpecifier = .ok t ↔
      "" ∉ Table.keys l.files ∧ t = Table.insertAll [] l.listed :=
  foldlM_specifier

theorem keys_listed (l : Ledger) :
    Table.keys l.listed = (Table.keys l.files).map (Path.specifier l.here l.file) := by
  simp [listed, Table.keys, Function.comp_def]

/-- The libraries are written whatever they are called. -/
theorem Records.blockOf_libraries (h : l.Records rs) (htext : ∀ r ∈ rs, r.IsText) :
    blockOf l.libraries = .ok (ImportBlock.libraryPart rs.toFinset) := by
  have hR : ∀ r, r ∈ ImportBlock.ofLibraries rs.toFinset ↔
      r ∈ rs ∧ ∃ name, r.origin = .library name := by
    intro r
    rw [ImportBlock.ofLibraries, Finset.mem_filter, List.mem_toFinset]
    cases r.origin <;> simp [Origin.isLibrary]
  have hblock := h.libraries.blockOf_eq htext hR Origin.label
    fun name _ name' _ hlabel => hlabel
  have hsame : l.libraries.map (fun e => (Origin.label (.library e.1), e.2)) =
      l.libraries := by
    simp [Origin.label]
  rwa [hsame] at hblock

/-- Files that can be named apart are named apart. -/
theorem Records.apart (h : l.Records rs) (hname : Nameable l.here l.file rs) :
    ∀ target ∈ Table.keys l.files, ∀ target' ∈ Table.keys l.files,
      Path.specifier l.here l.file target = Path.specifier l.here l.file target' →
        target = target' := by
  intro target ht target' ht'
  obtain ⟨r, hr, horigin⟩ := (h.files.mem_keys target).mp ht
  obtain ⟨r', hr', horigin'⟩ := (h.files.mem_keys target').mp ht'
  exact hname.apart r hr r' hr' target target' horigin horigin'

theorem Records.bySpecifier_eq (h : l.Records rs) (hname : Nameable l.here l.file rs) :
    l.bySpecifier = .ok l.listed := by
  refine bySpecifier_eq_ok_iff.mpr ⟨?_, ?_⟩
  · intro hmem
    obtain ⟨r, hr, horigin⟩ := (h.files.mem_keys "").mp hmem
    exact hname.ne_empty r hr horigin
  · have hnew : (Table.keys ([] : Table Supply) ++ Table.keys l.listed).Nodup := by
      rw [keys_listed]
      exact h.files.nodup.map_on fun target ht target' ht' =>
        h.apart hname target ht target' ht'
    exact (Table.insertAll_of_nodup hnew).symm

/-- A ledger writes the block of what it records. -/
theorem Records.statements_eq (h : l.Records rs) (htext : ∀ r ∈ rs, r.IsText)
    (hname : Nameable l.here l.file rs) :
    l.statements = .ok (ImportBlock.libraryPart rs.toFinset,
      ImportBlock.filePart l.here l.file rs.toFinset) := by
  have hfiles : blockOf l.listed = .ok (ImportBlock.filePart l.here l.file rs.toFinset) := by
    have hR : ∀ r, r ∈ ImportBlock.ofFiles rs.toFinset ↔
        r ∈ rs ∧ ∃ target, r.origin = .file target := by
      intro r
      rw [ImportBlock.ofFiles, Finset.mem_filter, List.mem_toFinset]
      cases r.origin <;> simp [Origin.isLibrary]
    exact h.files.blockOf_eq htext hR (fun o => Path.specifier l.here l.file o.label)
      (h.apart hname)
  rw [Ledger.statements, h.blockOf_libraries htext, h.bySpecifier_eq hname]
  change (blockOf l.listed >>= fun files => pure (_, files)) = _
  rw [hfiles]
  rfl

/-- A ledger whose names are texts is written, also when files are named alike. -/
theorem Records.exists_statements (h : l.Records rs) (htext : ∀ r ∈ rs, r.IsText)
    (hfile : ∀ r ∈ rs, r.origin ≠ .file "") :
    ∃ libraries files, l.statements = .ok (libraries, files) := by
  have hlisted : l.bySpecifier = .ok (Table.insertAll [] l.listed) := by
    refine bySpecifier_eq_ok_iff.mpr ⟨fun hmem => ?_, rfl⟩
    obtain ⟨r, hr, horigin⟩ := (h.files.mem_keys "").mp hmem
    exact hfile r hr horigin
  have hentries : ∀ e ∈ Table.insertAll [] l.listed, ∃ ss, e.2.statements e.1 = .ok ss := by
    intro e he
    have hmem : e ∈ l.listed := (Table.mem_insertAll he).resolve_left List.not_mem_nil
    obtain ⟨⟨target, s⟩, hentry, rfl⟩ := List.mem_map.mp hmem
    exact ⟨_, (h.files.meets_of_mem hentry).statements
      (fun r hr => htext r (List.mem_filter.mp hr).1) _⟩
  obtain ⟨files, hfiles⟩ := exists_blockOf hentries
  refine ⟨ImportBlock.libraryPart rs.toFinset, files, ?_⟩
  rw [Ledger.statements, h.blockOf_libraries htext, hlisted]
  change (blockOf (Table.insertAll [] l.listed) >>= fun files => pure (_, files)) = _
  rw [hfiles]
  rfl

end Ledger

end ClientSdk
