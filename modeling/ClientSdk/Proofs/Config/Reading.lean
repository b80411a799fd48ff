import ClientSdk.Config.Decode
import ClientSdk.Proofs.Except
import ClientSdk.Proofs.Path.Clean
import ClientSdk.Proofs.Table

/-!
# Options that are read alike

Options are kept in another form than they are given in: the output root is cleaned, an option
that is not given has its default, and whatever counts as nothing gives no aliases.  Two entries
of an option are `ReadAlike` if the second is what the first is kept as, and two mappings are
`Alike` if all their options are.  Alike mappings give the same options or are refused for the
same reason (`Alike.ofMembers_eq`), and stay alike if the same is written into both
(`Alike.insertAll`).

So it is enough to know that options written out are alike to the mapping they were read from
(`alike_toMembers`), which they are unless nothing but blanks is left of the root.
-/

namespace ClientSdk.Config

variable {members members' : Table Value} {c : Config} {name : String} {a b : Option Value}

/-! ## Single options -/

def refuses (accepts : Value → Bool) : Option Value → Bool
  | some v => !accepts v
  | none => false

def switchOf (default : Bool) : Option Value → Bool
  | some (.bool b) => b
  | _ => default

def textOf (default : String) : Option Value → String
  | some (.text s) => s
  | _ => default

def aliasValue (t : Table String) : Value :=
  .map (t.map fun (k, v) => (k, .text v))

/-- The options if no root and nothing else is given. -/
def unset : Config := { output := "" }

def isDefaulted (name : String) : Bool :=
  optionNames.contains name && name != "output" && name != "alias_files"

@[simp]
theorem refuses_text (s : String) : refuses isText (some (.text s)) = false := rfl

@[simp]
theorem textOf_text (default s : String) : textOf default (some (.text s)) = s := rfl

theorem firstRefused_eq (members : Table Value) (accepts : Value → Bool) (names : List String) :
    firstRefused members accepts names =
      names.find? fun name => refuses accepts (Table.get? members name) := rfl

theorem aliasTable?_map (t : Table String) :
    aliasTable? (t.map fun (k, v) => (k, .text v)) = some t := by
  induction t with
  | nil => rfl
  | cons p t ih =>
      obtain ⟨k, v⟩ := p
      rw [List.map_cons, aliasTable?, ih, Option.map_some]

theorem aliasFilesOf_aliasValue (t : Table String) : aliasFilesOf (aliasValue t) = .ok t := by
  cases t with
  | nil => rfl
  | cons p t =>
      have htable := aliasTable?_map (p :: t)
      have htruthy : (aliasValue (p :: t)).truthy = true := rfl
      unfold aliasFilesOf
      rw [if_pos htruthy]
      simp only [aliasValue, htable]

/-- Whether the second entry of an option is the first one, or what options are kept as that
are read from it. -/
inductive ReadAlike (name : String) : Option Value → Option Value → Prop
  | same (a : Option Value) : ReadAlike name a a
  | default : isDefaulted name = true →
      ReadAlike name none (Table.get? unset.toMembers name)
  | root {s : String} : name = "output" → isRoot (.text s) = true →
      isRoot (.text (Path.clean s)) = true →
      ReadAlike name (some (.text s)) (some (.text (Path.clean s)))
  | aliases {a : Option Value} {t : Table String} : name = "alias_files" →
      aliasFilesOf (a.getD .null) = .ok t → ReadAlike name a (some (aliasValue t))

namespace ReadAlike

theorem refuses_switch (h : ReadAlike name a b) (hname : name ∈ switches) :
    refuses isSwitch a = refuses isSwitch b := by
  cases h with
  | same _ => rfl
  | default _ =>
      simp only [switches, List.mem_cons, List.not_mem_nil, or_false] at hname
      rcases hname with rfl | rfl | rfl | rfl <;> rfl
  | root hroot _ _ => exact absurd (hroot ▸ hname) (by decide)
  | aliases haliases _ => exact absurd (haliases ▸ hname) (by decide)

theorem refuses_text (h : ReadAlike name a b) (hname : name ∈ textOptions) :
    refuses isText a = refuses isText b := by
  cases h with
  | same _ => rfl
  | default hdefault =>
      simp only [textOptions, List.mem_cons, List.not_mem_nil, or_false] at hname
      rcases hname with rfl | rfl | rfl | rfl
      · exact absurd hdefault (by decide)
      all_goals rfl
  | root _ _ _ => rw [Config.refuses_text, Config.refuses_text]
  | aliases haliases _ => exact absurd (haliases ▸ hname) (by decide)

theorem switchOf_eq (h : ReadAlike name a b) {default : Bool}
    (hdefault : Table.get? unset.toMembers name = some (.bool default)) :
    switchOf default a = switchOf default b := by
  cases h with
  | same _ => rfl
  | default _ => rw [hdefault]; rfl
  | root hroot _ _ => subst hroot; cases hdefault
  | aliases haliases _ => subst haliases; cases hdefault

theorem textOf_eq (h : ReadAlike name a b) {default : String} (hname : name ≠ "output")
    (hdefault : Table.get? unset.toMembers name = some (.text default)) :
    textOf default a = textOf default b := by
  cases h with
  | same _ => rfl
  | default _ => rw [hdefault]; rfl
  | root hroot _ _ => exact absurd hroot hname
  | aliases haliases _ => subst haliases; cases hdefault

theorem isRoot_eq (h : ReadAlike "output" a b) :
    isRoot (a.getD .null) = isRoot (b.getD .null) := by
  cases h with
  | same _ => rfl
  | default hdefault => exact absurd hdefault (by decide)
  | root _ hroot hclean => exact hroot.trans hclean.symm
  | aliases haliases _ => exact absurd haliases (by decide)

theorem clean_eq (h : ReadAlike "output" a b) :
    Path.clean (textOf "" a) = Path.clean (textOf "" b) := by
  cases h with
  | same _ => rfl
  | default hdefault => exact absurd hdefault (by decide)
  | root _ _ _ => rw [textOf_text, textOf_text, Path.clean_clean]
  | aliases haliases _ => exact absurd haliases (by decide)

theorem aliasFilesOf_eq (h : ReadAlike "alias_files" a b) :
    aliasFilesOf (a.getD .null) = aliasFilesOf (b.getD .null) := by
  cases h with
  | same _ => rfl
  | default hdefault => exact absurd hdefault (by decide)
  | root hroot _ _ => exact absurd hroot (by decide)
  | @aliases _ t _ haliases =>
      rw [haliases]
      exact (aliasFilesOf_aliasValue t).symm

end ReadAlike

/-! ## Mappings -/

def unknownNames (names : List String) : List String :=
  names.filter fun name => !optionNames.contains name

/-- Whether all options are read alike from two mappings, and they have the same unknown
names. -/
structure Alike (members members' : Table Value) : Prop where
  unknown : unknownNames (Table.keys members) = unknownNames (Table.keys members')
  options : ∀ name ∈ optionNames,
    ReadAlike name (Table.get? members name) (Table.get? members' name)

/-- The options that a mapping has, with the aliases that are read from it. -/
def kept (members : Table Value) (aliasFiles : Table String) : Config where
  output := Path.clean (textOf "" (Table.get? members "output"))
  simulate := switchOf false (Table.get? members "simulate")
  clone := switchOf false (Table.get? members "clone")
  propagate := switchOf false (Table.get? members "propagate")
  primitive := switchOf true (Table.get? members "primitive")
  structures := textOf "structures" (Table.get? members "structures")
  aliasFiles := aliasFiles
  fetcher := textOf "@nestia/fetcher" (Table.get? members "fetcher")
  tagsLibrary := textOf "typia/lib/tags" (Table.get? members "tags_library")

theorem output_kept (members : Table Value) (aliasFiles : Table String) :
    (kept members aliasFiles).output = Path.clean (textOf "" (Table.get? members "output")) := by
  simp only [kept]

theorem ofMembers_eq_kept (members : Table Value) : ofMembers members =
    check members >>= fun _ =>
      aliasFilesOf ((Table.get? members "alias_files").getD .null) >>= fun t =>
        .ok (kept members t) := rfl

theorem unknownNames_insert (members : Table Value) (name : String) (v : Value) :
    unknownNames (Table.keys (Table.insert members name v)) =
      if optionNames.contains name ∨ name ∈ unknownNames (Table.keys members)
      then unknownNames (Table.keys members)
      else unknownNames (Table.keys members) ++ [name] := by
  have hmem : name ∈ unknownNames (Table.keys members) ↔
      name ∈ Table.keys members ∧ (!optionNames.contains name) = true := List.mem_filter
  rw [Table.insert, Table.keys_alter]
  simp only [hmem]
  by_cases hold : name ∈ Table.keys members
  · rw [if_pos hold]
    cases optionNames.contains name <;> simp [hold]
  · rw [if_neg hold, unknownNames, List.filter_append, List.filter_singleton]
    cases optionNames.contains name <;> simp [hold, unknownNames]

theorem checkNames_eq {names names' : List String} (h : unknownNames names = unknownNames names') :
    checkNames names = checkNames names' := by
  unfold unknownNames at h
  rw [checkNames, checkNames, h]

theorem firstRefused_congr {accepts : Value → Bool} {names : List String}
    (h : ∀ name ∈ names, refuses accepts (Table.get? members name) =
      refuses accepts (Table.get? members' name)) :
    firstRefused members accepts names = firstRefused members' accepts names := by
  induction names with
  | nil => rfl
  | cons name names ih =>
      have hrest := ih fun name' hname' => h name' (List.mem_cons_of_mem _ hname')
      rw [firstRefused_eq] at hrest ⊢
      rw [List.find?_cons, h name List.mem_cons_self, hrest]
      rfl

theorem check_eq (members : Table Value) : check members =
    checkNames (Table.keys members) >>= fun _ =>
      if isRoot ((Table.get? members "output").getD .null) then
        match firstRefused members isSwitch switches with
        | some name => .error (.config (.notBoolean name))
        | none =>
            match firstRefused members isText textOptions with
            | some name => .error (.config (.notText name))
            | none => .ok ()
      else .error (.config .blankOutput) := by
  unfold check
  refine congrArg _ (funext fun _ => ?_)
  cases isRoot ((Table.get? members "output").getD .null) with
  | false => rfl
  | true =>
      cases firstRefused members isSwitch switches with
      | some name => rfl
      | none => cases firstRefused members isText textOptions <;> rfl

namespace Alike

theorem check_eq (h : Alike members members') : check members = check members' := by
  have hswitches : firstRefused members isSwitch switches =
      firstRefused members' isSwitch switches :=
    firstRefused_congr fun name hname =>
      (h.options name (by simp [optionNames, hname])).refuses_switch hname
  have htexts : firstRefused members isText textOptions =
      firstRefused members' isText textOptions :=
    firstRefused_congr fun name hname =>
      (h.options name (by simp [optionNames, hname])).refuses_text hname
  rw [Config.check_eq, Config.check_eq, checkNames_eq h.unknown,
    (h.options "output" (by decide)).isRoot_eq, hswitches, htexts]

theorem ofMembers_eq (h : Alike members members') : ofMembers members = ofMembers members' := by
  have hswitch : ∀ name ∈ optionNames, ∀ default,
      Table.get? unset.toMembers name = some (.bool default) →
        switchOf default (Table.get? members name) =
          switchOf default (Table.get? members' name) :=
    fun name hname _ hdefault => (h.options name hname).switchOf_eq hdefault
  have htext : ∀ name ∈ optionNames, name ≠ "output" → ∀ default,
      Table.get? unset.toMembers name = some (.text default) →
        textOf default (Table.get? members name) = textOf default (Table.get? members' name) :=
    fun name hname hne _ hdefault => (h.options name hname).textOf_eq hne hdefault
  have hkept : ∀ t, kept members t = kept members' t := fun t => by
    rw [kept, kept, (h.options "output" (by decide)).clean_eq,
      hswitch "simulate" (by decide) false rfl, hswitch "clone" (by decide) false rfl,
      hswitch "propagate" (by decide) false rfl, hswitch "primitive" (by decide) true rfl,
      htext "structures" (by decide) (by decide) "structures" rfl,
      htext "fetcher" (by decide) (by decide) "@nestia/fetcher" rfl,
      htext "tags_library" (by decide) (by decide) "typia/lib/tags" rfl]
  rw [ofMembers_eq_kept, ofMembers_eq_kept, h.check_eq,
    (h.options "alias_files" (by decide)).aliasFilesOf_eq]
  simp only [hkept]

theorem insert (h : Alike members members') (name : String) (v : Value) :
    Alike (Table.insert members name v) (Table.insert members' name v) where
  unknown := by rw [unknownNames_insert, unknownNames_insert, h.unknown]
  options name' hname' := by
    by_cases hne : name' = name
    · subst hne
      rw [Table.insert, Table.insert, Table.get?_alter_self, Table.get?_alter_self]
      exact .same _
    · rw [Table.insert, Table.insert, Table.get?_alter_of_ne _ _ hne,
        Table.get?_alter_of_ne _ _ hne]
      exact h.options name' hname'

theorem insertAll (h : Alike members members') (pairs : Table Value) :
    Alike (Table.insertAll members pairs) (Table.insertAll members' pairs) := by
  induction pairs generalizing members members' with
  | nil => exact h
  | cons p pairs ih => exact ih (h.insert p.1 p.2)

end Alike

/-! ## Mappings that are read -/

/-- Whether an option can have an entry. -/
structure Fits (name : String) (entry : Option Value) : Prop where
  known : entry.isSome → name ∈ optionNames
  root : name = "output" → isRoot (entry.getD .null) = true
  switch : name ∈ switches → refuses isSwitch entry = false
  text : name ∈ textOptions → refuses isText entry = false
  aliases : name = "alias_files" → ∃ t, aliasFilesOf (entry.getD .null) = .ok t

theorem firstRefused_eq_none_iff {accepts : Value → Bool} {names : List String} :
    firstRefused members accepts names = none ↔
      ∀ name ∈ names, refuses accepts (Table.get? members name) = false := by
  rw [firstRefused_eq, List.find?_eq_none]
  simp only [Bool.not_eq_true]

theorem unknownNames_eq_nil_iff {names : List String} :
    unknownNames names = [] ↔ ∀ name ∈ names, name ∈ optionNames := by
  simp [unknownNames, List.filter_eq_nil_iff]

theorem checkNames_eq_ok_iff {names : List String} :
    checkNames names = .ok () ↔ ∀ name ∈ names, name ∈ optionNames := by
  rw [← unknownNames_eq_nil_iff]
  unfold checkNames
  split
  · next hnone => exact iff_of_true rfl hnone
  · next hsome => exact iff_of_false nofun hsome

theorem check_eq_ok_iff : check members = .ok () ↔
    (∀ name ∈ Table.keys members, name ∈ optionNames) ∧
      isRoot ((Table.get? members "output").getD .null) = true ∧
      (∀ name ∈ switches, refuses isSwitch (Table.get? members name) = false) ∧
      ∀ name ∈ textOptions, refuses isText (Table.get? members name) = false := by
  rw [check_eq, Except.bind_eq_ok_iff, ← checkNames_eq_ok_iff, ← firstRefused_eq_none_iff,
    ← firstRefused_eq_none_iff]
  constructor
  · rintro ⟨_, hnames, h⟩
    split at h
    case isFalse => cases h
    next hroot =>
    split at h
    case h_1 => cases h
    next hswitches =>
    split at h
    case h_1 => cases h
    next htexts => exact ⟨hnames, hroot, hswitches, htexts⟩
  · rintro ⟨hnames, hroot, hswitches, htexts⟩
    refine ⟨(), hnames, ?_⟩
    rw [if_pos hroot, hswitches, htexts]

theorem ofMembers_eq_ok_iff : ofMembers members = .ok c ↔
    (∀ name, Fits name (Table.get? members name)) ∧
      ∃ t, aliasFilesOf ((Table.get? members "alias_files").getD .null) = .ok t ∧
        c = kept members t := by
  have hofMembers : ofMembers members = .ok c ↔ check members = .ok () ∧
      ∃ t, aliasFilesOf ((Table.get? members "alias_files").getD .null) = .ok t ∧
        c = kept members t := by
    rw [ofMembers_eq_kept]
    simp only [Except.bind_eq_ok_iff]
    constructor
    · rintro ⟨_, hcheck, t, ht, hc⟩
      exact ⟨hcheck, t, ht, (Except.ok.inj hc).symm⟩
    · rintro ⟨hcheck, t, ht, rfl⟩
      exact ⟨(), hcheck, t, ht, rfl⟩
  rw [hofMembers, check_eq_ok_iff]
  refine and_congr_left ?_
  rintro ⟨t, ht, -⟩
  constructor
  · rintro ⟨hnames, hroot, hswitches, htexts⟩ name
    exact {
      known := fun hentry => hnames name (Table.isSome_get?_iff.mp hentry)
      root := fun hname => hname ▸ hroot
      switch := hswitches name
      text := htexts name
      aliases := fun hname => hname ▸ ⟨t, ht⟩ }
  · intro h
    exact ⟨fun name hname => (h name).known (Table.isSome_get?_iff.mpr hname),
      (h "output").root rfl, fun name hname => (h name).switch hname,
      fun name hname => (h name).text hname⟩

theorem ofMembers_eq_unknownOptions (h : unknownNames (Table.keys members) ≠ []) :
    ofMembers members =
      .error (.config (.unknownOptions (sortTexts (unknownNames (Table.keys members))))) := by
  have hnames : checkNames (Table.keys members) =
      .error (.config (.unknownOptions (sortTexts (unknownNames (Table.keys members))))) := by
    unfold checkNames
    split
    · next hnone => exact absurd hnone h
    · rfl
  rw [ofMembers_eq_kept, check_eq, hnames]
  rfl

theorem ofMembers_eq_blankOutput (hnames : ∀ name ∈ Table.keys members, name ∈ optionNames)
    (hroot : isRoot ((Table.get? members "output").getD .null) = false) :
    ofMembers members = .error (.config .blankOutput) := by
  have hcheck : check members = .error (.config .blankOutput) := by
    rw [check_eq, checkNames_eq_ok_iff.mpr hnames, hroot]
    rfl
  rw [ofMembers_eq_kept, hcheck]
  rfl

/-- A mapping is refused for what is wrong with it, and for nothing else. -/
theorem ofMembers_failsBy (members : Table Value) :
    (ofMembers members).FailsBy fun fault => ∃ e, fault = .config e := by
  rw [ofMembers_eq_kept]
  refine Except.FailsBy.bind ?_ fun _ => Except.FailsBy.bind ?_ fun _ => .ok _
  · rw [check_eq]
    refine Except.FailsBy.bind ?_ fun _ => ?_
    · unfold checkNames
      split
      · exact .ok ()
      · exact .error ⟨_, rfl⟩
    · split
      · split
        · exact .error ⟨_, rfl⟩
        · split
          · exact .error ⟨_, rfl⟩
          · exact .ok ()
      · exact .error ⟨_, rfl⟩
  · unfold aliasFilesOf
    split
    · split
      · split
        · exact .ok _
        · exact .error ⟨_, rfl⟩
      · exact .error ⟨_, rfl⟩
    · exact .ok []

/-! ## Options written out -/

/-- Whether something else than blanks is left of the output root. -/
def HasRoot (c : Config) : Prop :=
  isRoot (.text c.output) = true

instance (c : Config) : Decidable c.HasRoot :=
  inferInstanceAs (Decidable (_ = true))

theorem exists_of_isRoot (h : isRoot (a.getD .null) = true) : ∃ s, a = some (.text s) := by
  rcases a with _ | v
  · exact absurd h Bool.false_ne_true
  · cases v with
    | text s => exact ⟨s, rfl⟩
    | _ => exact absurd h Bool.false_ne_true

namespace ReadAlike

theorem switchOf {default b : Bool} (hname : isDefaulted name = true)
    (hdefault : Table.get? unset.toMembers name = some (.bool default))
    (ha : refuses isSwitch a = false) (hb : b = Config.switchOf default a) :
    ReadAlike name a (some (.bool b)) := by
  subst hb
  match a with
  | none => exact hdefault ▸ .default hname
  | some (.bool b) => exact .same _

theorem textOf {default s : String} (hname : isDefaulted name = true)
    (hdefault : Table.get? unset.toMembers name = some (.text default))
    (ha : refuses isText a = false) (hs : s = Config.textOf default a) :
    ReadAlike name a (some (.text s)) := by
  subst hs
  match a with
  | none => exact hdefault ▸ .default hname
  | some (.text s) => exact .same _

theorem isRoot {s : String} (ha : isRoot (a.getD .null) = true)
    (hs : s = Path.clean (Config.textOf "" a)) (hclean : Config.isRoot (.text s) = true) :
    ReadAlike "output" a (some (.text s)) := by
  obtain ⟨s', rfl⟩ := exists_of_isRoot ha
  rw [textOf_text] at hs
  rw [hs] at hclean ⊢
  exact .root rfl ha hclean

end ReadAlike

theorem nodup_keys_toMembers (c : Config) : (Table.keys c.toMembers).Nodup := by
  have hkeys : Table.keys c.toMembers = Table.keys unset.toMembers := rfl
  rw [hkeys]
  decide

theorem mem_keys_toMembers (c : Config) (name : String) :
    name ∈ Table.keys c.toMembers ↔ name ∈ optionNames := by
  have hkeys : Table.keys c.toMembers = Table.keys unset.toMembers := rfl
  have hperm : (Table.keys unset.toMembers).Perm optionNames := by decide
  rw [hkeys]
  exact hperm.mem_iff

/-- Options written out are alike to the mapping that they were read from. -/
theorem alike_toMembers (h : ofMembers members = .ok c) (hroot : c.HasRoot) :
    Alike members c.toMembers := by
  obtain ⟨hfits, t, ht, hc⟩ := ofMembers_eq_ok_iff.mp h
  have houtput : c.output = Path.clean (textOf "" (Table.get? members "output")) := by
    rw [hc, output_kept]
  have haliases : t = c.aliasFiles := (congrArg aliasFiles hc).symm
  have hmembers : ∀ p ∈ c.toMembers, ReadAlike p.1 (Table.get? members p.1) (some p.2) := by
    simp only [toMembers, List.forall_mem_cons, List.not_mem_nil, false_imp_iff,
      implies_true, and_true]
    exact ⟨.isRoot ((hfits _).root rfl) houtput hroot,
      .switchOf rfl rfl ((hfits _).switch (by decide)) (congrArg simulate hc),
      .switchOf rfl rfl ((hfits _).switch (by decide)) (congrArg clone hc),
      .switchOf rfl rfl ((hfits _).switch (by decide)) (congrArg propagate hc),
      .switchOf rfl rfl ((hfits _).switch (by decide)) (congrArg primitive hc),
      .textOf rfl rfl ((hfits _).text (by decide)) (congrArg structures hc),
      .aliases rfl (haliases ▸ ht),
      .textOf rfl rfl ((hfits _).text (by decide)) (congrArg fetcher hc),
      .textOf rfl rfl ((hfits _).text (by decide)) (congrArg tagsLibrary hc)⟩
  refine ⟨?_, fun name hname => ?_⟩
  · have hread : unknownNames (Table.keys members) = [] :=
      unknownNames_eq_nil_iff.mpr fun name hname =>
        (hfits name).known (Table.isSome_get?_iff.mpr hname)
    have hwritten : unknownNames (Table.keys c.toMembers) = [] :=
      unknownNames_eq_nil_iff.mpr fun name => (mem_keys_toMembers c name).mp
    rw [hread, hwritten]
  · obtain ⟨v, hv⟩ := Table.mem_keys_iff.mp ((mem_keys_toMembers c name).mpr hname)
    rw [Table.get?_of_mem (nodup_keys_toMembers c) hv]
    exact hmembers (name, v) hv

end ClientSdk.Config
