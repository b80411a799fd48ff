import ClientSdk.Proofs.Ledger.Value
import ClientSdk.Proofs.ModuleTree.Page

/-!
# The simulation helper in a page

The generator imports the helper for its value, whereas all else that a page imports
from files are types (`eq_helper_of_value`).  So a page that has such an import needs
the helper for itself, and the helper comes first among its files.  It is lost if and
only if another file has its specifier (`page_imports_helper`).
-/

namespace ClientSdk

namespace ModuleTree

variable {t : ModuleTree} {c : Config} {here : WorkingDirectory} {directory : String}

def pageFile (directory : String) : String :=
  Path.clean (Path.join directory indexFile)

theorem file_ledgerAfter (t : ModuleTree) (c : Config) (here : WorkingDirectory)
    (directory : String) :
    (t.ledgerAfter c here directory).file = pageFile directory := by
  rw [ledgerAfter, Ledger.file_after, ledgerAt, Ledger.file_forFile, pageFile]

theorem here_ledgerAfter (t : ModuleTree) (c : Config) (here : WorkingDirectory)
    (directory : String) : (t.ledgerAfter c here directory).here = here := by
  rw [ledgerAfter, Ledger.here_after, ledgerAt, Ledger.here_forFile]

/-- Whether the imports of files in a page have the helper among them, for its value. -/
def ImportsHelper (c : Config) (here : WorkingDirectory) (directory : String)
    (files : List ImportStatement) : Prop :=
  ImportsValue files (Path.specifier here (pageFile directory) (Path.target c.simulatorFile))
    "NestiaSimulator"

/-- Whether a page wants something from another file that has the specifier of the
helper. -/
def HidesHelper (t : ModuleTree) (c : Config) (here : WorkingDirectory) (directory : String) :
    Prop :=
  ∃ r ∈ t.pageWants c here directory, ∃ target, r.origin = .file target ∧
    target ≠ Path.target c.simulatorFile ∧
      Path.specifier here (pageFile directory) target =
        Path.specifier here (pageFile directory) (Path.target c.simulatorFile)

theorem eq_helper_of_value {r : Registration} (hr : r ∈ (t.stubs c).wants)
    (htype : r.typeOnly = false) {target : String} (horigin : r.origin = .file target) :
    t.needsSimulator c = true ∧ r = c.helper := by
  rcases t.helper_or_wanted c hr with hhelper | hwanted
  · exact hhelper
  · exact absurd (htype.symm.trans (hwanted.modest.typeOnly target horigin).1)
      Bool.false_ne_true

theorem origin_helper (c : Config) : c.helper.origin = .file (Path.target c.simulatorFile) :=
  rfl

theorem register_helper (c : Config) (here : WorkingDirectory) (directory : String) :
    ((ledgerAt here directory).register c.helper).2 =
      (ledgerAt here directory).entered c.helper := by
  have hcases := (ledgerAt here directory).registers c.helper
  generalize (ledgerAt here directory).register c.helper = answer at hcases ⊢
  cases hcases with
  | skipped hskips =>
      exact absurd hskips (by simp [Ledger.skips, Config.helper, Registration.fromFile])
  | shut _ hclosed => exact absurd hclosed Bool.false_ne_true
  | foreign _ _ howner _ => cases howner
  | secondDefault _ _ _ hdef _ => exact absurd hdef Bool.false_ne_true
  | entered _ _ _ _ => rfl

theorem head?_files (h : t.needsSimulator c = true) :
    (Table.keys (t.ledgerAfter c here directory).files).head? =
      some (Path.target c.simulatorFile) := by
  have hwants : (t.stubs c).wants = c.helper :: (t.routeStubs c).wants := by
    rw [stubs_eq, ownWants, if_pos h]
    rfl
  have hafter : t.ledgerAfter c here directory =
      ((ledgerAt here directory).entered c.helper).after
        ((t.routeStubs c).wants.map .register) := by
    rw [ledgerAfter, hwants, Ledger.after_batch_cons, register_helper]
  have hfirst : Table.keys ((ledgerAt here directory).entered c.helper).files =
      [Path.target c.simulatorFile] :=
    Ledger.keys_files_of_first rfl (origin_helper c)
  have hkeys := ((ledgerAt here directory).entered c.helper).keys_files_after
    ((t.routeStubs c).wants.map .register)
  rw [← hafter, hfirst] at hkeys
  obtain ⟨rest, hrest⟩ := hkeys
  rw [← hrest]
  rfl

theorem helper_mem_pageWants (h : t.needsSimulator c = true) :
    c.helper ∈ t.pageWants c here directory := by
  have hwanted : c.helper ∈ (t.stubs c).wants := by
    rw [stubs_eq, ownWants, if_pos h]
    exact List.mem_append_left _ (List.mem_singleton.mpr rfl)
  exact mem_pageWants t c here directory hwanted rfl

/-- The helper is among the imports of a page if and only if the page needs it and
wants nothing from another file that has its specifier. -/
theorem importsHelper_iff (hcol : ¬ (ledgerAt here directory).Collides (t.stubs c).wants)
    {libraries files : List ImportStatement}
    (hwritten : (t.ledgerAfter c here directory).statements = .ok (libraries, files)) :
    ImportsHelper c here directory files ↔
      t.needsSimulator c = true ∧ ¬ t.HidesHelper c here directory := by
  have hrec : (t.ledgerAfter c here directory).Records (t.pageWants c here directory) :=
    Ledger.records_of_not_collides hcol
  have hvalue : ∀ r ∈ t.pageWants c here directory, r.typeOnly = false →
      ∀ target, r.origin = .file target → t.needsSimulator c = true ∧ r = c.helper :=
    fun r hr htype target horigin =>
      eq_helper_of_value (List.mem_filter.mp hr).1 htype horigin
  have hfirst : t.needsSimulator c = true → (ImportsHelper c here directory files ↔
      ∀ target ∈ Table.keys (t.ledgerAfter c here directory).files,
        Path.specifier here (pageFile directory) target =
          Path.specifier here (pageFile directory) (Path.target c.simulatorFile) →
            target = Path.target c.simulatorFile) := by
    intro hneeds
    have honly : ∀ r ∈ t.pageWants c here directory, r.typeOnly = false → ∀ target,
        r.origin = .file target → target = Path.target c.simulatorFile := by
      intro r hr htype target horigin
      obtain ⟨-, rfl⟩ := hvalue r hr htype target horigin
      exact (Origin.file.inj horigin).symm
    have hvalued := hrec.importsValue_first hwritten (head?_files hneeds) honly
      (helper_mem_pageWants hneeds) (origin_helper c) ⟨rfl, rfl⟩ rfl
    rwa [here_ledgerAfter, file_ledgerAfter] at hvalued
  constructor
  · intro himports
    obtain ⟨r, hr, htype, -, target, horigin, -⟩ :=
      hrec.exists_of_importsValue hwritten himports
    have hneeds := (hvalue r hr htype target horigin).1
    refine ⟨hneeds, ?_⟩
    rintro ⟨r', hr', target', horigin', hne, hsame⟩
    have hkey := (hrec.files.mem_keys target').mpr ⟨r', hr', horigin'⟩
    exact hne ((hfirst hneeds).mp himports target' hkey hsame)
  · rintro ⟨hneeds, hshown⟩
    refine (hfirst hneeds).mpr fun target hkey hsame => ?_
    obtain ⟨r, hr, horigin⟩ := (hrec.files.mem_keys target).mp hkey
    by_contra hne
    exact hshown ⟨r, hr, target, horigin, hne, hsame⟩

/-- A page with stubs that is written has the imports of its ledger, among which the
helper is if and only if the page needs it and nothing hides it. -/
theorem page_imports_helper (title : String) (hroutes : t.routes ≠ []) {text : String}
    (hpage : (t.page c here title directory).1 = .ok text) :
    ∃ libraries files stubs, (t.stubs c).result = .ok stubs ∧
      (t.ledgerAfter c here directory).statements = .ok (libraries, files) ∧
      text = t.pageText title (Ledger.blockText libraries files) stubs ∧
      (ImportsHelper c here directory files ↔
        t.needsSimulator c = true ∧ ¬ t.HidesHelper c here directory) := by
  have hcol := not_collides_of_page hpage
  rw [page_eq hcol] at hpage
  obtain ⟨stubs, hstubs, hrest⟩ := Except.bind_eq_ok_iff.mp hpage
  have hne : ¬ stubs.isEmpty = true := by
    obtain ⟨r, hr⟩ := List.exists_mem_of_ne_nil _ hroutes
    rw [stubs_eq, routeStubs, Draft.result_mapM] at hstubs
    obtain ⟨stub, hstub, -⟩ := Except.mem_of_mapM hstubs hr
    rw [List.isEmpty_iff]
    exact List.ne_nil_of_mem hstub
  rw [if_neg hne] at hrest
  obtain ⟨imports, himports, hok⟩ := Except.bind_eq_ok_iff.mp hrest
  obtain ⟨libraries, files, hwritten, rfl⟩ :=
    Ledger.statements_of_toScript (Ledger.open_after_batch _ _) himports
  cases hok
  exact ⟨libraries, files, stubs, hstubs, hwritten, rfl, importsHelper_iff hcol hwritten⟩

end ModuleTree

end ClientSdk
