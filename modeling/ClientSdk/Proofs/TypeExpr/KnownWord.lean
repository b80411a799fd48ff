import ClientSdk.Proofs.TypeExpr.Wants

/-!
# Known words as names of types

The built-in types and the words of the language are known without an import, and no file
declares them.  Among the arguments of a type name they are left out.  The first identifier of
a name is imported whatever it is.  So a known word is imported for a shape just where it
begins a name (`known_word_imports`): `Record` is not imported for `IPage<Record<string, T>>`,
and is for `Record<string, T>`.
-/

namespace ClientSdk

namespace Ledger

/-- Whether a ledger imports a name from a file, under the location of the file without its
ending. -/
def Imports (l : Ledger) (target name : String) : Prop :=
  ∃ typeOnly, Table.get? (l.supply (.file target)).names (.text name) = some typeOnly

variable {l l' : Ledger} {rs : List Registration} {target name : String}

theorem Gains.imports_iff (h : l.Gains rs l') :
    l'.Imports target name ↔ l.Imports target name ∨
      ∃ r ∈ rs, r.origin = .file target ∧ r.key = .text name := by
  rw [Imports, Imports, h.names]
  split
  · next hnew => simp [hnew]
  · next hold => simp [hold]

theorem snd_fulfil {α : Type} (l : Ledger) (d : Draft α) :
    (l.fulfil d).2 = (l.registerAll d.wants).2 := by
  unfold fulfil
  split <;> next hanswer => rw [hanswer]

end Ledger

/-- The registrations that a name needs: a validation tag its own, a declared type one for its
first identifier and one for each name in its arguments. -/
def Mention.imports (c : Config) : Mention → List Registration
  | .tag name => [.fromLibrary (c.tagLibrary name) name]
  | .declared name =>
      match typeRoot name with
      | .ok root => (root :: TypeName.references
          ((Text.trimChars name.toList).drop root.length)).map c.rootImport
      | .error _ => []

namespace TypeExpr

variable {c : Config} {word target : String}

theorem accounts_imports (c : Config) :
    Accounts c (fun _ => True) fun wants names => wants = names.flatMap (Mention.imports c) where
  nil := rfl
  append h h' := by rw [h, h', List.flatMap_append]
  tag _ := rfl
  declared {name} _ := by
    cases hroot : typeRoot name with
    | error fault =>
        unfold ofName
        rw [hroot]
        exact fun _ ht => nomatch ht
    | ok root =>
        rw [ofName_eq c hroot]
        rintro _ ⟨⟩
        simp [mentions, Mention.imports, hroot]
  format := trivial

theorem imports_ofShape (c : Config) (s : TypeShape) (inEscape : Bool) :
    (ofShape c inEscape s).Names (fun wants names => wants = names.flatMap (Mention.imports c))
      mentions := by
  refine names_accounted (accounts_imports c) (fun part _ => ?_) inEscape
  cases part <;> simp [ShapePart.NamesOf]

/-! ## Known words -/

theorem not_known_of_mem_references {cs : List Char} (h : word ∈ TypeName.references cs) :
    Text.isKnownWord word = false := by
  have hunknown := (List.mem_filter.mp h).2
  simpa using hunknown

theorem eq_of_rootImport {root : String} (horigin : (c.rootImport root).origin = .file target)
    (hkey : (c.rootImport root).key = .text word) :
    root = word ∧ target = Path.target (c.fileOfRoot root) :=
  ⟨Scalar.Key.text.inj hkey, (Origin.file.inj horigin).symm⟩

theorem names_of_wants {part : ShapePart} {r : Registration} (h : part.Wants c r)
    (hknown : Text.isKnownWord word = true) (horigin : r.origin = .file target)
    (hkey : r.key = .text word) :
    target = Path.target (c.fileOfRoot word) ∧
      ∃ name, part.Names name ∧ typeRoot name = .ok word := by
  cases h with
  | tag => cases horigin
  | format => cases horigin
  | root hnames hroot =>
      obtain ⟨rfl, htarget⟩ := eq_of_rootImport horigin hkey
      exact ⟨htarget, _, hnames, hroot⟩
  | argument _ _ hargument =>
      obtain ⟨rfl, -⟩ := eq_of_rootImport horigin hkey
      rw [not_known_of_mem_references hargument] at hknown
      cases hknown

theorem mem_imports_iff {m : Mention} {r : Registration} (hknown : Text.isKnownWord word = true) :
    r ∈ m.imports c ∧ r.origin = .file target ∧ r.key = .text word ↔
      r = c.rootImport word ∧ target = Path.target (c.fileOfRoot word) ∧
        ∃ name, m = .declared name ∧ typeRoot name = .ok word := by
  constructor
  · rintro ⟨hr, horigin, hkey⟩
    cases m with
    | tag name =>
        rw [List.mem_singleton.mp hr] at horigin
        cases horigin
    | declared name =>
        cases hroot : typeRoot name with
        | error fault => simp [Mention.imports, hroot] at hr
        | ok root =>
            rw [Mention.imports, hroot] at hr
            obtain ⟨identifier, hmem, rfl⟩ := List.mem_map.mp hr
            obtain ⟨rfl, htarget⟩ := eq_of_rootImport horigin hkey
            rcases List.mem_cons.mp hmem with rfl | hmem
            · exact ⟨rfl, htarget, name, rfl, hroot⟩
            · rw [not_known_of_mem_references hmem] at hknown
              cases hknown
  · rintro ⟨rfl, rfl, name, rfl, hroot⟩
    refine ⟨?_, rfl, rfl⟩
    rw [Mention.imports, hroot]
    exact List.mem_map.mpr ⟨word, List.mem_cons_self, rfl⟩

/-- Writing a shape imports a built-in type or a word of the language from a file only where it
begins a name in the shape, whether or not the shape can be written; as a type argument it is
never imported.  If the shape is written, the known words that are imported are just those that
begin a name in the type, but for the one that the file is said to declare itself. -/
theorem known_word_imports {s : TypeShape} {inEscape : Bool} {l l' : Ledger}
    {result : Except Fault TypeExpr} (hknown : Text.isKnownWord word = true)
    (hwrite : l.fulfil (ofShape c inEscape s) = (result, l')) :
    (l'.Imports target word → l.Imports target word ∨
        target = Path.target (c.fileOfRoot word) ∧
          ∃ part name, s.Contains part ∧ part.Names name ∧ typeRoot name = .ok word) ∧
      ∀ t, result = .ok t → (l'.Imports target word ↔ l.Imports target word ∨
        l.isOwn (c.fileOfRoot word) = false ∧ target = Path.target (c.fileOfRoot word) ∧
          ∃ name, .declared name ∈ t.mentions ∧ typeRoot name = .ok word) := by
  have horigin := (keeps_of_contained c (fun part hpart r hr => ⟨part, hpart, hr⟩ :
    ∀ part, s.Contains part → ∀ r, part.Wants c r → ∃ part, s.Contains part ∧ part.Wants c r)
      inEscape).wants
  have himports : ∀ r ∈ (ofShape c inEscape s).wants, r.IsTypeImport := by
    intro r hr
    obtain ⟨part, -, hwants⟩ := horigin r hr
    cases hwants <;> exact ⟨rfl, rfl⟩
  constructor
  · intro hword
    obtain ⟨granted, hpre, -, hgains⟩ := Ledger.exists_gains himports l
    rw [← Ledger.snd_fulfil, hwrite] at hgains
    refine (hgains.imports_iff.mp hword).imp_right ?_
    rintro ⟨r, hr, hfile, hkey⟩
    obtain ⟨part, hpart, hwants⟩ := horigin r (hpre.subset (List.mem_of_mem_filter hr))
    obtain ⟨htarget, name, hnames, hroot⟩ := names_of_wants hwants hknown hfile hkey
    exact ⟨htarget, part, name, hpart, hnames, hroot⟩
  · rintro t rfl
    obtain ⟨hgranted, hresult⟩ := Ledger.registerAll_of_fulfil hwrite
    have hgains := Ledger.gains_of_registerAll himports hgranted
    rw [imports_ofShape c s inEscape t hresult] at hgains
    rw [hgains.imports_iff, Ledger.wanted]
    refine or_congr_right ?_
    simp only [List.mem_filter, List.mem_flatMap, Bool.not_eq_true']
    constructor
    · rintro ⟨r, ⟨⟨m, hm, hr⟩, hskips⟩, hfile, hkey⟩
      obtain ⟨rfl, htarget, name, rfl, hroot⟩ := (mem_imports_iff hknown).mp ⟨hr, hfile, hkey⟩
      exact ⟨Ledger.skips_rootImport l c word ▸ hskips, htarget, name, hm, hroot⟩
    · rintro ⟨hown, htarget, name, hm, hroot⟩
      obtain ⟨hr, hfile, hkey⟩ := (mem_imports_iff hknown).mpr ⟨rfl, htarget, name, rfl, hroot⟩
      exact ⟨_, ⟨⟨_, hm, hr⟩, (Ledger.skips_rootImport l c word).trans hown⟩, hfile, hkey⟩

/-- A type name with a built-in type among its arguments. -/
def recordShape : TypeShape :=
  { aliases := [{ name := .text "IPage<Record<string, IMember>>" }] }

/-- The statement for a built-in type that is a type argument. -/
theorem known_word_imports_of_recordShape :
    ¬ ((Ledger.forFile .root "src/api/functional/index.ts").fulfil
      (ofShape { output := "src/api" } false recordShape)).2.Imports
        "src/api/structures/Record" "Record" := by
  have hknown : Text.isKnownWord "Record" = true := by decide
  have hroot : (typeRoot "IPage<Record<string, IMember>>").toOption = some "IPage" := by decide
  have hparts : recordShape.parts false =
      [.declared { name := .text "IPage<Record<string, IMember>>" }] := rfl
  generalize hwrite : (Ledger.forFile .root "src/api/functional/index.ts").fulfil
    (ofShape { output := "src/api" } false recordShape) = written
  obtain ⟨result, after⟩ := written
  intro himports
  rcases (known_word_imports hknown hwrite).1 himports with
    ⟨typeOnly, hbefore⟩ | ⟨-, part, name, hpart, hnames, hrecord⟩
  · cases hbefore
  · cases hpart with
    | part hpart =>
        rw [hparts] at hpart
        cases List.mem_singleton.mp hpart
        cases hnames with
        | declared hname =>
            cases hname
            rw [hrecord] at hroot
            exact absurd (Option.some.inj hroot) (by decide)
    | inside hpart hinner _ =>
        rw [hparts] at hpart
        cases List.mem_singleton.mp hpart
        cases hinner

/-- The first identifier is imported though it is a built-in type: for `Partial<IMember>` the
file wants `Partial` from a file of its own. -/
theorem partial_imported :
    Text.isKnownWord "Partial" = true ∧
      ((Ledger.forFile .root "src/api/functional/index.ts").fulfil
        (ofShape { output := "src/api" } false
          { aliases := [{ name := .text "Partial<IMember>" }] })).2.Imports
        "src/api/structures/Partial" "Partial" := by
  refine ⟨by decide, true, ?_⟩
  decide +kernel

end TypeExpr

end ClientSdk
