import ClientSdk.Proofs.Ledger.Writing

/-!
# Which names an import block binds

Every name that was registered should be bound once in the block.  This is so if and
only if three things do not happen (`bindsEach_iff`): a file that is not named at all,
two files that are named alike, of which one is lost, and a name that is asked for both
as the default of its library and on its own, which is bound by two statements.
-/

namespace ClientSdk

def ImportClause.names : ImportClause → List String
  | .default name => [name]
  | .named names => names

/-- The names that statements bind, each as often as it is bound. -/
def boundNames (statements : List ImportStatement) : List String :=
  statements.flatMap fun s => s.clause.names

/-- Statements that bind the names of the registrations, each of them once, and no
other names. -/
structure BindsEach (statements : List ImportStatement) (rs : List Registration) :
    Prop where
  nodup : (boundNames statements).Nodup
  mem : ∀ name, name ∈ boundNames statements ↔ ∃ r ∈ rs, r.key = .text name

@[simp] theorem boundNames_append (ss ss' : List ImportStatement) :
    boundNames (ss ++ ss') = boundNames ss ++ boundNames ss' :=
  List.flatMap_append

namespace ImportBlock

variable {R : Finset Registration} {written : Origin → String} {name : String}

/-! ## The names of a canonical block -/

theorem boundNames_namedStatements (R : Finset Registration) (source : String)
    (flag : Bool) :
    boundNames (namedStatements R source flag) = (namesOf R flag).sort (· ≤ ·) := by
  unfold namedStatements
  split
  · next hsort => rw [hsort]; rfl
  · simp [boundNames, ImportClause.names]

theorem boundNames_defaultStatements (R : Finset Registration) (source : String) :
    boundNames (defaultStatements R source) = (names R true).sort (· ≤ ·) := by
  unfold defaultStatements boundNames
  rw [List.flatMap_map]
  exact List.flatMap_singleton' _

theorem boundNames_statements (R : Finset Registration) (source : String) :
    boundNames (statements R source) =
      (names R true).sort (· ≤ ·) ++ (namesOf R false).sort (· ≤ ·) ++
        (namesOf R true).sort (· ≤ ·) := by
  simp only [statements, boundNames_append, boundNames_namedStatements,
    boundNames_defaultStatements]

theorem mem_boundNames_statements {source : String} :
    name ∈ boundNames (statements R source) ↔ ∃ r ∈ R, r.name.display = name := by
  simp only [boundNames_statements, List.mem_append, Finset.mem_sort, mem_namesOf]
  constructor
  · rintro ((h | ⟨h, -⟩) | ⟨h, -⟩) <;>
      · obtain ⟨r, hr, -, hname⟩ := mem_names.mp h
        exact ⟨r, hr, hname⟩
  · rintro ⟨r, hr, hname⟩
    have hmem : name ∈ names R r.isDefault := mem_names.mpr ⟨r, hr, rfl, hname⟩
    cases hdef : r.isDefault with
    | true => exact Or.inl (Or.inl (hdef ▸ hmem))
    | false =>
        rw [hdef] at hmem
        cases hflag : typeOnly R false name with
        | true => exact Or.inr ⟨hmem, rfl⟩
        | false => exact Or.inl (Or.inr ⟨hmem, rfl⟩)

theorem mem_boundNames_group :
    name ∈ boundNames (group written R) ↔ ∃ r ∈ R, r.name.display = name := by
  simp only [boundNames, group, List.flatMap_assoc, List.mem_flatMap, Finset.mem_sort,
    Finset.mem_image]
  constructor
  · rintro ⟨source, -, hname⟩
    obtain ⟨r, hr, hname⟩ := mem_boundNames_statements.mp (List.mem_flatMap.mpr hname)
    exact ⟨r, (Finset.mem_filter.mp hr).1, hname⟩
  · rintro ⟨r, hr, hname⟩
    refine ⟨written r.origin, ⟨r, hr, rfl⟩, ?_⟩
    refine List.mem_flatMap.mp (mem_boundNames_statements.mpr ⟨r, ?_, hname⟩)
    exact Finset.mem_filter.mpr ⟨hr, rfl⟩

theorem mem_boundNames_parts {file : String} :
    name ∈ boundNames (libraryPart R ++ filePart here file R) ↔
      ∃ r ∈ R, r.name.display = name := by
  rw [boundNames_append, List.mem_append, libraryPart, filePart, mem_boundNames_group,
    mem_boundNames_group]
  constructor
  · rintro (⟨r, hr, hname⟩ | ⟨r, hr, hname⟩)
    · exact ⟨r, (Finset.mem_filter.mp hr).1, hname⟩
    · exact ⟨r, (Finset.mem_filter.mp hr).1, hname⟩
  · rintro ⟨r, hr, hname⟩
    cases hkind : r.origin.isLibrary with
    | true => exact Or.inl ⟨r, Finset.mem_filter.mpr ⟨hr, hkind⟩, hname⟩
    | false => exact Or.inr ⟨r, Finset.mem_filter.mpr ⟨hr, hkind⟩, hname⟩

/-! ## No name is bound twice -/

theorem nodup_boundNames_statements {source : String} :
    (boundNames (statements R source)).Nodup ↔
      ∀ name, name ∈ names R true → name ∉ names R false := by
  have hnd : ∀ S : Finset String, (S.sort (· ≤ ·)).Nodup := fun S => Finset.sort_nodup S _
  simp only [boundNames_statements, List.nodup_append, hnd, true_and,
    List.mem_append, Finset.mem_sort]
  constructor
  · rintro ⟨hvalues, htypes⟩ name hdefault hname
    cases hflag : typeOnly R false name with
    | true => exact htypes name (Or.inl hdefault) name (mem_namesOf.mpr ⟨hname, hflag⟩) rfl
    | false => exact hvalues name hdefault name (mem_namesOf.mpr ⟨hname, hflag⟩) rfl
  · intro hapart
    refine ⟨?_, ?_⟩
    · rintro name hdefault _ hname rfl
      exact hapart name hdefault (mem_namesOf.mp hname).1
    · rintro name (hdefault | hvalue) _ htype rfl
      · exact hapart name hdefault (mem_namesOf.mp htype).1
      · have hflag := (mem_namesOf.mp hvalue).2
        exact absurd (hflag.symm.trans (mem_namesOf.mp htype).2) (by decide)

theorem nodup_boundNames_group
    (hone : ∀ r ∈ R, ∀ r' ∈ R, r.name.display = r'.name.display →
      r.origin = r'.origin ∧ r.isDefault = r'.isDefault) :
    (boundNames (group written R)).Nodup := by
  simp only [boundNames, group, List.flatMap_assoc]
  refine List.nodup_flatMap.mpr ⟨fun source _ => ?_, ?_⟩
  · refine nodup_boundNames_statements.mpr fun name hdefault hname => ?_
    obtain ⟨r, hr, hdef, hdisplay⟩ := mem_names.mp hdefault
    obtain ⟨r', hr', hdef', hdisplay'⟩ := mem_names.mp hname
    have hsame := (hone r (Finset.mem_filter.mp hr).1 r' (Finset.mem_filter.mp hr').1
      (hdisplay.trans hdisplay'.symm)).2
    rw [hdef, hdef'] at hsame
    exact absurd hsame (by decide)
  · refine (Finset.sort_nodup _ _).imp ?_
    intro source source' hne name hname hname'
    obtain ⟨r, hr, hdisplay⟩ := mem_boundNames_statements.mp hname
    obtain ⟨r', hr', hdisplay'⟩ := mem_boundNames_statements.mp hname'
    obtain ⟨hmem, rfl⟩ := Finset.mem_filter.mp hr
    obtain ⟨hmem', rfl⟩ := Finset.mem_filter.mp hr'
    have hsame := (hone r hmem r' hmem' (hdisplay.trans hdisplay'.symm)).1
    exact hne (congrArg written hsame)

theorem nodup_boundNames_parts {file : String}
    (hone : ∀ r ∈ R, ∀ r' ∈ R, r.name.display = r'.name.display →
      r.origin = r'.origin ∧ r.isDefault = r'.isDefault) :
    (boundNames (libraryPart R ++ filePart here file R)).Nodup := by
  have hpart : ∀ {S : Finset Registration} {written : Origin → String}, S ⊆ R →
      (boundNames (group written S)).Nodup := fun hsub =>
    nodup_boundNames_group fun r hr r' hr' => hone r (hsub hr) r' (hsub hr')
  rw [boundNames_append]
  refine List.nodup_append.mpr ⟨hpart (Finset.filter_subset _ _),
    hpart (Finset.filter_subset _ _), ?_⟩
  rintro name hlibrary _ hfile rfl
  obtain ⟨r, hr, hdisplay⟩ := mem_boundNames_group.mp hlibrary
  obtain ⟨r', hr', hdisplay'⟩ := mem_boundNames_group.mp hfile
  obtain ⟨hr, hkind⟩ := Finset.mem_filter.mp hr
  obtain ⟨hr', hkind'⟩ := Finset.mem_filter.mp hr'
  rw [(hone r hr r' hr' (hdisplay.trans hdisplay'.symm)).1, hkind'] at hkind
  exact absurd hkind (by decide)

theorem nodup_boundNames_under {r : Registration}
    (h : (boundNames (group written R)).Nodup) (hr : r ∈ R) :
    (boundNames (statements (under written R (written r.origin))
      (written r.origin))).Nodup := by
  simp only [boundNames, group, List.flatMap_assoc] at h
  refine (List.nodup_flatMap.mp h).1 _ ?_
  exact (Finset.mem_sort _).mpr (Finset.mem_image_of_mem _ hr)

end ImportBlock

/-! ## What is granted in one go -/

theorem Supply.Meets.exists_key {s : Supply} {rs rs' : List Registration}
    (h : s.Meets rs) (h' : s.Meets rs') {r : Registration} (hr : r ∈ rs) :
    ∃ r' ∈ rs', r'.key = r.key := by
  have hsame : Registration.demand rs' r.isDefault r.key =
      Registration.demand rs r.isDefault r.key := by
    cases r.isDefault with
    | true => rw [← h.default, ← h'.default]
    | false => rw [← h.names, ← h'.names]
  by_contra hnone
  have hno : Registration.demand rs' r.isDefault r.key = none :=
    Registration.demand_eq_none_iff.mpr fun r' hr' hasks => hnone ⟨r', hr', hasks.2⟩
  exact Registration.demand_eq_none_iff.mp (hsame.symm.trans hno) r hr ⟨rfl, rfl⟩

namespace Ledger

variable {l l' : Ledger} {rs seen : List Registration}

/-- What a ledger holds when all of a batch is granted. -/
theorem Records.registerAll (h : l.Records seen)
    (hown : ∀ r ∈ rs, r.unlessOwn = false) (hall : l.registerAll rs = (.ok (), l')) :
    l'.Records (seen ++ rs) ∧ l'.closed = l.closed ∧ l'.file = l.file ∧ l'.here = l.here := by
  induction rs generalizing l seen with
  | nil =>
      obtain ⟨-, rfl⟩ := Prod.mk.inj hall
      exact ⟨by simpa using h, rfl, rfl, rfl⟩
  | cons r rs ih =>
      have hskip : l.skips r = false := by
        simp [skips, hown r List.mem_cons_self]
      have hcases := l.registers r
      rw [Ledger.registerAll] at hall
      generalize l.register r = answer at hcases hall
      cases hcases with
      | skipped h => exact absurd (h.symm.trans hskip) (by decide)
      | shut _ _ => exact absurd (Prod.mk.inj hall).1 (by simp)
      | foreign _ _ _ _ => exact absurd (Prod.mk.inj hall).1 (by simp)
      | secondDefault _ _ _ _ _ => exact absurd (Prod.mk.inj hall).1 (by simp)
      | entered _ _ hfits hsame =>
          obtain ⟨hrec, hclosed, hfile, hhere⟩ := ih (h.entered hfits hsame)
            (fun r' hr' => hown r' (List.mem_cons_of_mem _ hr')) hall
          rw [List.append_assoc] at hrec
          exact ⟨hrec, hclosed.trans (closed_entered l r), hfile.trans (file_entered l r),
            hhere.trans (here_entered l r)⟩

/-! ## What a written block tells -/

theorem exists_entry_of_mem_boundNames {t : Table Supply} {ss : List ImportStatement}
    (h : blockOf t = .ok ss) {name : String} (hname : name ∈ boundNames ss) :
    ∃ source s ss', (source, s) ∈ t ∧ s.statements source = .ok ss' ∧
      name ∈ boundNames ss' := by
  obtain ⟨statement, hstatement, hbound⟩ := List.mem_flatMap.mp hname
  obtain ⟨source, s, ss', hentry, hs, hmem⟩ := exists_entry_of_blockOf h hstatement
  exact ⟨source, s, ss', hentry, hs, List.mem_flatMap.mpr ⟨statement, hmem, hbound⟩⟩

section Written

variable {libraries files : List ImportStatement}

theorem Records.of_statements (h : l.Records rs) (htext : ∀ r ∈ rs, r.IsText)
    (hwritten : l.statements = .ok (libraries, files)) :
    libraries = ImportBlock.libraryPart rs.toFinset ∧ "" ∉ Table.keys l.files ∧
      blockOf (Table.insertAll [] l.listed) = .ok files := by
  obtain ⟨libraries', hlibraries, hrest⟩ := Except.bind_eq_ok_iff.mp hwritten
  obtain ⟨t, hlisted, hrest⟩ := Except.bind_eq_ok_iff.mp hrest
  obtain ⟨files', hfiles, hpair⟩ := Except.bind_eq_ok_iff.mp hrest
  rw [h.blockOf_libraries htext, Except.ok.injEq] at hlibraries
  obtain ⟨hne, rfl⟩ := bySpecifier_eq_ok_iff.mp hlisted
  obtain ⟨rfl, rfl⟩ := Prod.mk.inj (Except.ok.inj hpair)
  exact ⟨hlibraries.symm, hne, hfiles⟩

theorem Records.exists_listed (h : l.Records rs) (htext : ∀ r ∈ rs, r.IsText)
    (hwritten : l.statements = .ok (libraries, files))
    (hbinds : BindsEach (libraries ++ files) rs) {r : Registration} (hr : r ∈ rs)
    {target : String} (horigin : r.origin = .file target) :
    ∃ s : Supply, s.Meets (rs.filter fun r => decide (r.origin = .file target)) ∧
      (Path.specifier l.here l.file target, s) ∈ Table.insertAll [] l.listed := by
  obtain ⟨hlibraries, -, hfiles⟩ := h.of_statements htext hwritten
  have howner : ∀ r' ∈ rs, r'.name.display = r.name.display → r'.origin = r.origin := by
    intro r' hr' hdisplay
    exact h.origin_eq hr' hr (((htext r' hr').key_eq_key_iff (htext r hr)).mpr hdisplay)
  -- The name is bound by some entry; since it has one owner, that entry is the one of
  -- the file itself and not of another file under the same specifier.
  have hbound := (hbinds.mem r.name.display).mpr ⟨r, hr, (htext r hr).key_eq⟩
  rw [boundNames_append, List.mem_append] at hbound
  rcases hbound with hbound | hbound
  · rw [hlibraries] at hbound
    obtain ⟨r', hr', hdisplay⟩ := ImportBlock.mem_boundNames_group.mp hbound
    obtain ⟨hmem, hlibrary⟩ := Finset.mem_filter.mp hr'
    rw [howner r' (List.mem_toFinset.mp hmem) hdisplay, horigin] at hlibrary
    exact absurd hlibrary Bool.false_ne_true
  · obtain ⟨source, s, ss', hentry, hs, hmem⟩ :=
      exists_entry_of_mem_boundNames hfiles hbound
    have hlisted : (source, s) ∈ l.listed := by
      rcases Table.mem_insertAll hentry with hnil | hlisted
      · exact absurd hnil List.not_mem_nil
      · exact hlisted
    obtain ⟨⟨target', s'⟩, hfile, heq⟩ := List.mem_map.mp hlisted
    obtain ⟨rfl, rfl⟩ := Prod.mk.inj heq
    have hmeets := h.files.meets_of_mem hfile
    have htext' : ∀ r ∈ rs.filter fun r => decide (r.origin = .file target'),
        r.IsText := fun r hr => htext r (List.mem_filter.mp hr).1
    rw [hmeets.statements htext', Except.ok.injEq] at hs
    rw [← hs] at hmem
    obtain ⟨r', hr', hdisplay⟩ := ImportBlock.mem_boundNames_statements.mp hmem
    obtain ⟨hr', horigin'⟩ := List.mem_filter.mp (List.mem_toFinset.mp hr')
    have htarget : target' = target := by
      have hsame := (of_decide_eq_true horigin').symm.trans (howner r' hr' hdisplay)
      rw [horigin] at hsame
      exact Origin.file.inj hsame
    subst htarget
    exact ⟨s', hmeets, hentry⟩

theorem Records.nameable (h : l.Records rs) (htext : ∀ r ∈ rs, r.IsText)
    (hwritten : l.statements = .ok (libraries, files))
    (hbinds : BindsEach (libraries ++ files) rs) : Nameable l.here l.file rs where
  ne_empty r hr horigin :=
    (h.of_statements htext hwritten).2.1 ((h.files.mem_keys "").mpr ⟨r, hr, horigin⟩)
  apart r hr r' hr' target target' horigin horigin' hsame := by
    obtain ⟨s, hmeets, hlisted⟩ := h.exists_listed htext hwritten hbinds hr horigin
    obtain ⟨s', hmeets', hlisted'⟩ := h.exists_listed htext hwritten hbinds hr' horigin'
    have hempty : (Table.keys ([] : Table Supply)).Nodup := List.nodup_nil
    have hnd := Table.nodup_keys_insertAll hempty l.listed
    -- Both files are listed under one specifier, so with one supply.
    have hget := Table.get?_of_mem hnd hlisted
    rw [hsame, Table.get?_of_mem hnd hlisted', Option.some.injEq] at hget
    subst hget
    have hfrom : r ∈ rs.filter fun r => decide (r.origin = .file target) :=
      List.mem_filter.mpr ⟨hr, decide_eq_true horigin⟩
    obtain ⟨r'', hr'', hkey⟩ := hmeets.exists_key hmeets' hfrom
    obtain ⟨hr'', horigin''⟩ := List.mem_filter.mp hr''
    have hsource := h.origin_eq hr'' hr hkey
    rw [horigin, of_decide_eq_true horigin''] at hsource
    exact (Origin.file.inj hsource).symm

theorem Records.not_both (h : l.Records rs) {known : String → Prop}
    (hasked : ∀ r ∈ rs, r.Asked known)
    (hwritten : l.statements = .ok (libraries, files))
    (hbinds : BindsEach (libraries ++ files) rs) {r r' : Registration} (hr : r ∈ rs)
    (hr' : r' ∈ rs) (hkey : r.key = r'.key) (hdef : r.isDefault = true) :
    r'.isDefault = true := by
  have htext : ∀ r ∈ rs, r.IsText := fun r hr => (hasked r hr).isText
  obtain ⟨rfl, -, -⟩ := h.of_statements htext hwritten
  have horigin : r'.origin = r.origin := h.origin_eq hr' hr hkey.symm
  have hlibrary := (hasked r hr).isLibrary hdef
  have hmem : r ∈ ImportBlock.ofLibraries rs.toFinset :=
    Finset.mem_filter.mpr ⟨List.mem_toFinset.mpr hr, hlibrary⟩
  have hmem' : r' ∈ ImportBlock.ofLibraries rs.toFinset :=
    Finset.mem_filter.mpr ⟨List.mem_toFinset.mpr hr', horigin ▸ hlibrary⟩
  have hnd := hbinds.nodup
  rw [boundNames_append, List.nodup_append] at hnd
  have hapart := ImportBlock.nodup_boundNames_statements.mp
    (ImportBlock.nodup_boundNames_under hnd.1 hmem)
  cases hdef' : r'.isDefault with
  | true => rfl
  | false =>
      have hdisplay : r'.name.display = r.name.display :=
        ((htext r' hr').key_eq_key_iff (htext r hr)).mp hkey.symm
      refine absurd (ImportBlock.mem_names.mpr ⟨r', ?_, hdef', hdisplay⟩)
        (hapart r.name.display (ImportBlock.mem_names.mpr ⟨r, ?_, hdef, rfl⟩))
      · exact Finset.mem_filter.mpr ⟨hmem', congrArg Origin.label horigin⟩
      · exact Finset.mem_filter.mpr ⟨hmem, rfl⟩

end Written

/-! ## The exact condition -/

/-- When all of a batch is granted, its block is written and binds each name once if
and only if its files can be named, no two of them alike, and no name is asked for both
as a default and on its own. -/
theorem bindsEach_iff {here : WorkingDirectory} {file : String}
    (hasked : ∀ r ∈ rs, r.Asked fun _ => True)
    (hall : (forFile here file).registerAll rs = (.ok (), l)) :
    (∃ libraries files, l.statements = .ok (libraries, files) ∧
      l.toScript.1 = .ok (blockText libraries files) ∧
        BindsEach (libraries ++ files) rs) ↔
      Nameable here (Path.clean file) rs ∧
        ∀ r ∈ rs, ∀ r' ∈ rs, r.key = r'.key → r.isDefault = r'.isDefault := by
  have htext : ∀ r ∈ rs, r.IsText := fun r hr => (hasked r hr).isText
  obtain ⟨hrec, hopen, hfile, hhere⟩ := (Records.forFile here file).registerAll
    (fun r hr => (hasked r hr).unlessOwn) hall
  rw [List.nil_append] at hrec
  rw [file_forFile] at hfile
  rw [here_forFile] at hhere
  rw [← hfile, ← hhere]
  constructor
  · rintro ⟨libraries, files, hwritten, -, hbinds⟩
    refine ⟨hrec.nameable htext hwritten hbinds, fun r hr r' hr' hkey => ?_⟩
    rw [Bool.eq_iff_iff]
    exact ⟨hrec.not_both hasked hwritten hbinds hr hr' hkey,
      hrec.not_both hasked hwritten hbinds hr' hr hkey.symm⟩
  · rintro ⟨hname, hone⟩
    have hwritten := hrec.statements_eq htext hname
    have hclosed : l.closed = false := hopen
    refine ⟨_, _, hwritten, by simp [toScript, hclosed, hwritten, Except.map], ?_, ?_⟩
    · refine ImportBlock.nodup_boundNames_parts fun r hr r' hr' hdisplay => ?_
      rw [List.mem_toFinset] at hr hr'
      have hkey := ((htext r hr).key_eq_key_iff (htext r' hr')).mpr hdisplay
      exact ⟨hrec.origin_eq hr hr' hkey, hone r hr r' hr' hkey⟩
    · intro name
      rw [ImportBlock.mem_boundNames_parts]
      constructor
      · rintro ⟨r, hr, rfl⟩
        exact ⟨r, List.mem_toFinset.mp hr, (htext r (List.mem_toFinset.mp hr)).key_eq⟩
      · rintro ⟨r, hr, hkey⟩
        rw [(htext r hr).key_eq, Scalar.Key.text.injEq] at hkey
        exact ⟨r, List.mem_toFinset.mpr hr, hkey⟩

/-- A library with a default name and a file are each bound once. -/
theorem bindsEach_of_default_and_file :
    let rs : List Registration :=
      [{ Registration.fromLibrary "typia" "typia" with isDefault := true },
        .fromFile "src/b.ts" "B"]
    ∃ l, (∀ r ∈ rs, r.Asked fun _ => True) ∧
      (forFile .root "src/index.ts").registerAll rs = (.ok (), l) ∧
      ∃ libraries files, l.statements = .ok (libraries, files) ∧
        l.toScript.1 = .ok (blockText libraries files) ∧
          BindsEach (libraries ++ files) rs := by
  intro rs
  have hasked : ∀ r ∈ rs, r.Asked fun _ => True := by
    intro r hr
    simp only [rs, List.mem_cons, List.not_mem_nil, or_false] at hr
    rcases hr with rfl | rfl
    · exact .library "typia" "typia" true true
    · exact .file "B" true trivial
  have hname : Nameable .root (Path.clean "src/index.ts") rs := by
    constructor
    · decide +kernel
    · intro r hr r' hr' target target' horigin horigin' _
      simp only [rs, List.mem_cons, List.not_mem_nil, or_false] at hr hr'
      rcases hr with rfl | rfl
      · exact absurd horigin (by simp [Registration.fromLibrary])
      · rcases hr' with rfl | rfl
        · exact absurd horigin' (by simp [Registration.fromLibrary])
        · exact Origin.file.inj (horigin.symm.trans horigin')
  have hone : ∀ r ∈ rs, ∀ r' ∈ rs, r.key = r'.key → r.isDefault = r'.isDefault := by
    decide +kernel
  exact ⟨_, hasked, rfl, (bindsEach_iff hasked rfl).mpr ⟨hname, hone⟩⟩

/-- A name that is asked for in both ways is bound twice. -/
example :
    ((forFile .root "index.ts").registerAll
      [{ Registration.fromLibrary "lib" "A" with isDefault := true },
        .fromLibrary "lib" "A"]).2.toScript.1.toOption =
      some "import type A from \"lib\";\nimport type \x7b A \x7d from \"lib\";" := by
  decide +kernel

/-- The block of a file without a name is not written. -/
example :
    ((forFile .root "index.ts").registerAll [.fromFile ".ts" "X"]).2.toScript.1.toOption =
      none := by
  decide +kernel

/-- Of two files that are named alike, one is lost, and the name that it gives is not
bound. -/
theorem files_named_alike_lose_name :
    let rs : List Registration := [.fromFile "a.ts" "X", .fromFile "a/.ts" "Y"]
    let l := ((forFile .root "index.ts").registerAll rs).2
    (forFile .root "index.ts").registerAll rs = (.ok (), l) ∧
      l.toScript.1.toOption = some "import type \x7b Y \x7d from \"./a\";" ∧
      ¬ ∃ libraries files, l.statements = .ok (libraries, files) ∧
        BindsEach (libraries ++ files) rs := by
  intro rs l
  refine ⟨rfl, by decide +kernel, ?_⟩
  have hwritten : l.statements.toOption =
      some ([], [{ typeOnly := true, clause := .named ["Y"], source := "./a" }]) := by
    decide +kernel
  rintro ⟨libraries, files, hstatements, hbinds⟩
  rw [hstatements, Except.toOption, Option.some.injEq, Prod.mk.injEq] at hwritten
  obtain ⟨rfl, rfl⟩ := hwritten
  have hlost := (hbinds.mem "X").mpr ⟨_, List.mem_cons_self, rfl⟩
  exact absurd hlost (by decide)

end Ledger

end ClientSdk
