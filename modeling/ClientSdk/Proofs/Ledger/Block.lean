import ClientSdk.Proofs.Ledger.History
import ClientSdk.Proofs.Path.Relative
import ClientSdk.Proofs.Sorted

/-!
# The import block of a set of registrations

What a ledger writes depends on the set of what was registered and on nothing else.
The block of a set is said here without a ledger: which sources there are, which names
each of them gives, and for which names a type import is enough, are read off the set,
and all of them are put in order by code point.

A ledger that records a list of registrations writes the block of its set
(`Records.statements_eq`), provided that each of its files can be named and no two of
them are named alike.
-/

namespace ClientSdk

def Origin.isLibrary : Origin → Bool
  | .library _ => true
  | .file _ => false

def Registration.IsText (r : Registration) : Prop :=
  ∃ name, r.name = .text name

/-- The place of a statement among those for its source: the default name first, then
values, then types. -/
def ImportStatement.rank (s : ImportStatement) : Nat :=
  match s.clause with
  | .default _ => 0
  | .named _ => if s.typeOnly then 2 else 1

def ImportStatement.Before (s s' : ImportStatement) : Prop :=
  s.source < s'.source ∨ s.source = s'.source ∧ s.rank < s'.rank

/-! ## The block -/

namespace ImportBlock

/-- The names that are asked for as a default, or on their own. -/
def names (R : Finset Registration) (isDefault : Bool) : Finset String :=
  (R.filter fun r => r.isDefault = isDefault).image fun r => r.name.display

def typeOnly (R : Finset Registration) (isDefault : Bool) (name : String) : Bool :=
  decide (∀ r ∈ R, r.AsksFor isDefault (.text name) → r.typeOnly = true)

/-- The statements for default names, of which a source has one at most. -/
def defaultStatements (R : Finset Registration) (source : String) :
    List ImportStatement :=
  ((names R true).sort (· ≤ ·)).map fun name =>
    { typeOnly := typeOnly R true name, clause := .default name, source }

/-- The names on their own for which a type import is or is not enough. -/
def namesOf (R : Finset Registration) (flag : Bool) : Finset String :=
  (names R false).filter fun name => typeOnly R false name = flag

/-- The statement for the names of one kind, if there are any. -/
def namedStatements (R : Finset Registration) (source : String) (flag : Bool) :
    List ImportStatement :=
  match (namesOf R flag).sort (· ≤ ·) with
  | [] => []
  | names => [{ typeOnly := flag, clause := .named names, source }]

def statements (R : Finset Registration) (source : String) : List ImportStatement :=
  defaultStatements R source ++ namedStatements R source false ++
    namedStatements R source true

def under (written : Origin → String) (R : Finset Registration) (source : String) :
    Finset Registration :=
  R.filter fun r => written r.origin = source

/-- The statements for all sources, by the text that a source is written as. -/
def group (written : Origin → String) (R : Finset Registration) :
    List ImportStatement :=
  ((R.image fun r => written r.origin).sort (· ≤ ·)).flatMap fun source =>
    statements (under written R source) source

def ofLibraries (R : Finset Registration) : Finset Registration :=
  R.filter fun r => r.origin.isLibrary = true

def ofFiles (R : Finset Registration) : Finset Registration :=
  R.filter fun r => r.origin.isLibrary = false

/-- The statements for libraries, each written by its name. -/
def libraryPart (R : Finset Registration) : List ImportStatement :=
  group Origin.label (ofLibraries R)

/-- The statements for files, each written as the importing file names it. -/
def filePart (here : WorkingDirectory) (file : String) (R : Finset Registration) :
    List ImportStatement :=
  group (fun o => Path.specifier here file o.label) (ofFiles R)

/-- The block of a set of registrations: libraries, one blank line if there are both
kinds, and files. -/
def text (here : WorkingDirectory) (file : String) (R : Finset Registration) : String :=
  "\n".intercalate
    ((libraryPart R).map ImportStatement.text ++
      (if (ofLibraries R).Nonempty ∧ (ofFiles R).Nonempty then [""] else []) ++
      (filePart here file R).map ImportStatement.text)

/-! ## A registration is written -/

variable {R : Finset Registration} {r : Registration}

theorem mem_names {isDefault : Bool} {name : String} :
    name ∈ names R isDefault ↔
      ∃ r ∈ R, r.isDefault = isDefault ∧ r.name.display = name := by
  simp [names, and_assoc]

theorem mem_namesOf {flag : Bool} {name : String} :
    name ∈ namesOf R flag ↔ name ∈ names R false ∧ typeOnly R false name = flag := by
  simp [namesOf]

theorem namedStatements_eq_nil_iff {source : String} {flag : Bool} :
    namedStatements R source flag = [] ↔ namesOf R flag = ∅ := by
  unfold namedStatements
  split
  · next hsort =>
      have hempty := congrArg List.toFinset hsort
      rw [Finset.sort_toFinset] at hempty
      simpa using hempty
  · next hsort =>
      constructor
      · exact fun h => absurd h (by simp)
      · intro hempty
        exact absurd (by rw [hempty, Finset.sort_empty]) hsort

theorem statements_ne_nil (hr : r ∈ R) (source : String) :
    statements R source ≠ [] := by
  intro hnil
  obtain ⟨hleft, htypes⟩ := List.append_eq_nil_iff.mp hnil
  obtain ⟨hdefaults, hvalues⟩ := List.append_eq_nil_iff.mp hleft
  have hmem : r.name.display ∈ names R r.isDefault :=
    mem_names.mpr ⟨r, hr, rfl, rfl⟩
  cases hdef : r.isDefault with
  | true =>
      rw [hdef] at hmem
      rw [← Finset.mem_sort (· ≤ ·), List.map_eq_nil_iff.mp hdefaults] at hmem
      exact List.not_mem_nil hmem
  | false =>
      rw [hdef] at hmem
      have hflag : r.name.display ∈ namesOf R (typeOnly R false r.name.display) :=
        mem_namesOf.mpr ⟨hmem, rfl⟩
      cases hkind : typeOnly R false r.name.display with
      | true =>
          rw [hkind, namedStatements_eq_nil_iff.mp htypes] at hflag
          exact absurd hflag (Finset.notMem_empty _)
      | false =>
          rw [hkind, namedStatements_eq_nil_iff.mp hvalues] at hflag
          exact absurd hflag (Finset.notMem_empty _)

theorem group_eq_nil_iff {written : Origin → String} :
    group written R = [] ↔ R = ∅ := by
  constructor
  · intro hnil
    refine Finset.eq_empty_of_forall_notMem fun r hr => ?_
    have hsource : written r.origin ∈
        (R.image fun r => written r.origin).sort (· ≤ ·) :=
      (Finset.mem_sort _).mpr (Finset.mem_image_of_mem _ hr)
    have hfrom : r ∈ under written R (written r.origin) :=
      Finset.mem_filter.mpr ⟨hr, rfl⟩
    have hnone := List.flatMap_eq_nil_iff.mp hnil _ hsource
    exact statements_ne_nil hfrom _ hnone
  · rintro rfl
    simp [group]

/-- The two parts with a blank line between them are the block. -/
theorem blockText_eq (here : WorkingDirectory) (file : String) (R : Finset Registration) :
    Ledger.blockText (libraryPart R) (filePart here file R) = text here file R := by
  have hlibraries : (libraryPart R).isEmpty = true ↔ ¬ (ofLibraries R).Nonempty := by
    rw [List.isEmpty_iff, libraryPart, group_eq_nil_iff, Finset.not_nonempty_iff_eq_empty]
  have hfiles : (filePart here file R).isEmpty = true ↔ ¬ (ofFiles R).Nonempty := by
    rw [List.isEmpty_iff, filePart, group_eq_nil_iff, Finset.not_nonempty_iff_eq_empty]
  have hone : (libraryPart R).isEmpty = true ∨ (filePart here file R).isEmpty = true ↔
      ¬ ((ofLibraries R).Nonempty ∧ (ofFiles R).Nonempty) := by
    rw [hlibraries, hfiles, not_and_or]
  unfold Ledger.blockText text
  by_cases hboth : (ofLibraries R).Nonempty ∧ (ofFiles R).Nonempty
  · rw [if_neg fun h => hone.mp h hboth, if_pos hboth, List.append_assoc]
    rfl
  · rw [if_pos (hone.mpr hboth), if_neg hboth, List.append_nil]

/-! ## The order of the statements -/

theorem mem_defaultStatements {source : String} {s : ImportStatement}
    (h : s ∈ defaultStatements R source) : s.source = source ∧ s.rank = 0 := by
  obtain ⟨name, -, rfl⟩ := List.mem_map.mp h
  exact ⟨rfl, rfl⟩

theorem mem_namedStatements {source : String} {flag : Bool} {s : ImportStatement}
    (h : s ∈ namedStatements R source flag) :
    s.source = source ∧ s.rank = if flag then 2 else 1 := by
  unfold namedStatements at h
  split at h
  · exact absurd h List.not_mem_nil
  · rw [List.mem_singleton.mp h]
    exact ⟨rfl, rfl⟩

theorem source_of_mem_statements {source : String} {s : ImportStatement}
    (h : s ∈ statements R source) : s.source = source := by
  rcases List.mem_append.mp h with h | h
  · rcases List.mem_append.mp h with h | h
    · exact (mem_defaultStatements h).1
    · exact (mem_namedStatements h).1
  · exact (mem_namedStatements h).1

end ImportBlock

/-! ## What a supply is written as -/

namespace Registration

variable {r : Registration} {rs : List Registration} {name : String}

theorem IsText.key_eq (h : r.IsText) : r.key = .text r.name.display := by
  obtain ⟨name, hname⟩ := h
  rw [key, hname]
  rfl

/-- Names that are texts are looked up by these texts. -/
theorem IsText.key_eq_key_iff (h : r.IsText) {r' : Registration} (h' : r'.IsText) :
    r.key = r'.key ↔ r.name.display = r'.name.display := by
  rw [h.key_eq, h'.key_eq, Scalar.Key.text.injEq]

theorem IsText.asksFor_iff (h : r.IsText) {isDefault : Bool} :
    r.AsksFor isDefault (.text name) ↔
      r.isDefault = isDefault ∧ r.name.display = name := by
  rw [AsksFor, h.key_eq, Scalar.Key.text.injEq]

theorem mem_names_iff (htext : ∀ r ∈ rs, r.IsText) {isDefault : Bool} :
    name ∈ ImportBlock.names rs.toFinset isDefault ↔
      ∃ r ∈ rs, r.AsksFor isDefault (.text name) := by
  simp only [ImportBlock.mem_names, List.mem_toFinset]
  constructor
  · rintro ⟨r, hr, hasks⟩
    exact ⟨r, hr, (htext r hr).asksFor_iff.mpr hasks⟩
  · rintro ⟨r, hr, hasks⟩
    exact ⟨r, hr, (htext r hr).asksFor_iff.mp hasks⟩

theorem demand_text_iff (htext : ∀ r ∈ rs, r.IsText) {isDefault flag : Bool} :
    demand rs isDefault (.text name) = some flag ↔
      name ∈ ImportBlock.names rs.toFinset isDefault ∧
        ImportBlock.typeOnly rs.toFinset isDefault name = flag := by
  have hflag : ImportBlock.typeOnly rs.toFinset isDefault name = flag ↔
      ((∀ r ∈ rs, r.AsksFor isDefault (.text name) → r.typeOnly = true) ↔
        flag = true) := by
    rw [Bool.eq_iff_iff, ImportBlock.typeOnly, decide_eq_true_iff]
    simp only [List.mem_toFinset]
  rw [demand_eq_some_iff, mem_names_iff htext, hflag]

end Registration

open Registration

namespace Supply

variable {s : Supply} {rs : List Registration}

theorem mapM_text (texts : List String) :
    (texts.map Scalar.Key.text).mapM Scalar.Key.text? = some texts := by
  induction texts with
  | nil => rfl
  | cons name texts ih =>
      rw [List.map_cons, List.mapM_cons, ih]
      rfl

theorem exists_texts {keys : List Scalar.Key} (h : ∀ key ∈ keys, ∃ name, key = .text name) :
    ∃ texts : List String, keys = texts.map Scalar.Key.text := by
  induction keys with
  | nil => exact ⟨[], rfl⟩
  | cons key keys ih =>
      obtain ⟨name, rfl⟩ := h key List.mem_cons_self
      obtain ⟨texts, rfl⟩ := ih fun key hkey => h key (List.mem_cons_of_mem _ hkey)
      exact ⟨name :: texts, rfl⟩

theorem Meets.namesOf (h : s.Meets rs) (htext : ∀ r ∈ rs, r.IsText) (flag : Bool) :
    s.namesOf flag = .ok ((ImportBlock.namesOf rs.toFinset flag).sort (· ≤ ·)) := by
  have hmem : ∀ key, key ∈ (s.names.filter fun p => p.2 == flag).map Prod.fst ↔
      demand rs false key = some flag := by
    intro key
    rw [← h.names, ← Table.mem_iff_get? h.nodup]
    simp
  have hkeys : ∀ key ∈ (s.names.filter fun p => p.2 == flag).map Prod.fst,
      ∃ name, key = .text name := by
    intro key hkey
    obtain ⟨⟨r, hr, hasks⟩, -⟩ := demand_eq_some_iff.mp ((hmem key).mp hkey)
    exact ⟨_, hasks.2.symm.trans (htext r hr).key_eq⟩
  obtain ⟨texts, htexts⟩ := exists_texts hkeys
  have hnd : texts.Nodup := by
    refine List.Nodup.of_map Scalar.Key.text ?_
    rw [← htexts]
    exact h.nodup.sublist (List.filter_sublist.map _)
  have hsort : sortTexts texts = (ImportBlock.namesOf rs.toFinset flag).sort (· ≤ ·) := by
    refine sortTexts_eq_sort hnd fun name => ?_
    rw [ImportBlock.mem_namesOf, ← demand_text_iff htext, ← hmem, htexts]
    simp
  unfold Supply.namesOf
  rw [htexts, mapM_text]
  exact congrArg Except.ok hsort

theorem Meets.namedStatement (h : s.Meets rs) (htext : ∀ r ∈ rs, r.IsText)
    (source : String) (flag : Bool) :
    s.namedStatement source flag =
      .ok (ImportBlock.namedStatements rs.toFinset source flag) := by
  simp only [Supply.namedStatement, ImportBlock.namedStatements, h.namesOf htext]
  generalize (ImportBlock.namesOf rs.toFinset flag).sort (· ≤ ·) = names
  cases names <;> rfl

/-- All registrations of a default name are for one name. -/
theorem Meets.defaultStatement (h : s.Meets rs) (htext : ∀ r ∈ rs, r.IsText)
    (source : String) :
    s.defaultStatement source = ImportBlock.defaultStatements rs.toFinset source := by
  unfold Supply.defaultStatement ImportBlock.defaultStatements
  -- A supply holds the name that was added last; it is the only one that was asked for.
  cases hdef : s.default with
  | none =>
      have hnone : ImportBlock.names rs.toFinset true = ∅ := by
        refine Finset.eq_empty_of_forall_notMem fun name hname => ?_
        obtain ⟨r, hr, hasks⟩ := (mem_names_iff htext).mp hname
        refine demand_eq_none_iff.mp ?_ r hr hasks
        rw [← h.default, defaultFlag?, hdef]
      rw [hnone, Finset.sort_empty]
      rfl
  | some p =>
      obtain ⟨existing, flag⟩ := p
      have hflag : demand rs true existing.key = some flag := by
        rw [← h.default, defaultFlag?, hdef]
        exact if_pos rfl
      obtain ⟨r, hr, hasks⟩ := (demand_eq_some_iff.mp hflag).1
      have hexisting : existing = .text r.name.display :=
        Scalar.eq_text_of_key (hasks.2.symm.trans (htext r hr).key_eq)
      subst hexisting
      have hone : ImportBlock.names rs.toFinset true = {r.name.display} := by
        ext name
        rw [Finset.mem_singleton, mem_names_iff htext]
        constructor
        · rintro ⟨r', hr', hasks'⟩
          by_contra hne
          refine demand_eq_none_iff.mp ?_ r' hr' hasks'
          rw [← h.default, defaultFlag?, hdef]
          refine if_neg fun hkey => hne ?_
          exact (Scalar.Key.text.inj hkey).symm
        · rintro rfl
          exact ⟨r, hr, hasks⟩
      rw [hone, Finset.sort_singleton, List.map_singleton,
        ((demand_text_iff htext).mp hflag).2]
      rfl

/-- A supply is written as the set of what was added to it. -/
theorem Meets.statements (h : s.Meets rs) (htext : ∀ r ∈ rs, r.IsText)
    (source : String) :
    s.statements source = .ok (ImportBlock.statements rs.toFinset source) := by
  simp only [Supply.statements, h.namedStatement htext, h.defaultStatement htext]
  rfl

end Supply

end ClientSdk
