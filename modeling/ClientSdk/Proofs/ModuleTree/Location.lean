import ClientSdk.ModuleTree.Page
import ClientSdk.Proofs.ModuleTree.Sorting
import ClientSdk.Proofs.Path.Join
import ClientSdk.Proofs.RouteDocument.Grammar

/-!
# Where modules are written

A module has the directory that its names lead to, one step for each name, and its page
is a file in it.  In the tree of routes with proper accessors the names are identifiers
(`Identified`, `exists_tree`), so no name leads up or stays in place, and modules with
the same steps have the same names.
-/

namespace ClientSdk

namespace Route

variable {r : Route}

theorem keysOf_text (names : List String) :
    ModuleTree.keysOf (names.map .text) = (names.map .text, .ok ()) := by
  induction names with
  | nil => rfl
  | cons s names ih =>
      rw [List.map_cons, List.map_cons, ModuleTree.keysOf, ih]
      rfl

theorem Named.placed (h : r.Named) : r.Placed := by
  obtain ⟨names, hnames, -, -⟩ := h
  intro v hv
  rw [hnames] at hv
  obtain ⟨s, -, rfl⟩ := List.mem_map.mp (List.dropLast_subset _ hv)
  simp [Value.sameKey, Value.scalar?, Scalar.sameKey_iff, Scalar.key]

/-- The names of the modules of a route are identifiers. -/
theorem Named.home (h : r.Named) :
    ∀ key ∈ r.home, ∃ s, key = .text s ∧ Text.isIdentifierLine s = true := by
  obtain ⟨names, hnames, -, hall⟩ := h
  intro key hkey
  rw [Route.home, Route.names, hnames, ← List.map_dropLast, keysOf_text] at hkey
  obtain ⟨k, hk, rfl⟩ := List.mem_map.mp hkey
  obtain ⟨s, hs, rfl⟩ := List.mem_map.mp hk
  exact ⟨s, rfl, hall s (List.dropLast_subset _ hs)⟩

end Route

namespace ModuleTree

def directoryOf (directory : String) (names : List Scalar) : String :=
  names.foldl (fun d k => Path.join d k.display) directory

def pagePath (directory : String) (names : List Scalar) : String :=
  Path.join (directoryOf directory names) indexFile

def Identified (t : ModuleTree) : Prop :=
  ∀ m ∈ t.walk, ∀ k ∈ m.1, ∃ s, k = .text s ∧ Text.isIdentifierLine s = true

/-! ## Names of modules -/

theorem root_mem_walk (t : ModuleTree) : ([], t) ∈ t.walk := by
  obtain ⟨children, routes⟩ := t
  exact mem_walk_mk.mpr (Or.inr rfl)

/-- The walk comes to the modules below one that it comes to. -/
theorem mem_walk_of_child {t : ModuleTree} {m : List Scalar × ModuleTree} (hm : m ∈ t.walk)
    {key : Scalar} {child : ModuleTree} (hchild : (key, child) ∈ m.2.children) :
    (m.1 ++ [key], child) ∈ t.walk := by
  induction t using inductOn generalizing m with
  | node children routes ih =>
      rcases mem_walk_mk.mp hm with ⟨c, hc, n, hn, rfl⟩ | rfl
      · exact mem_walk_mk.mpr (Or.inl ⟨c, hc, _, ih c hc hn hchild, rfl⟩)
      · exact mem_walk_mk.mpr (Or.inl ⟨(key, child), hchild, _, root_mem_walk child, rfl⟩)

section Below

variable {children : List (Scalar × ModuleTree)} {routes : List Route}
  {child : Scalar × ModuleTree}

theorem behind_mem_walk (hchild : child ∈ children) {m : List Scalar × ModuleTree}
    (hm : m ∈ child.2.walk) : behind child.1 m ∈ walk ⟨children, routes⟩ :=
  mem_walk_mk.mpr (Or.inl ⟨child, hchild, m, hm, rfl⟩)

theorem Identified.of_mem (h : Identified ⟨children, routes⟩) (hchild : child ∈ children) :
    child.2.Identified :=
  fun m hm k hk => h (behind child.1 m) (behind_mem_walk hchild hm) k
    (List.mem_cons_of_mem _ hk)

theorem Identified.exists_text (h : Identified ⟨children, routes⟩)
    (hchild : child ∈ children) :
    ∃ s, child.1 = .text s ∧ Text.isIdentifierLine s = true :=
  h (behind child.1 ([], child.2)) (behind_mem_walk hchild (root_mem_walk _)) _
    List.mem_cons_self

end Below

theorem Sorts.identified {t : ModuleTree} {routes : List Route} (h : t.Sorts routes)
    (hnamed : ∀ r ∈ routes, r.Named) : t.Identified := by
  intro m hm k hk
  have hfound := (h.apart fun r hr => (hnamed r hr).placed).find?_of_mem_walk hm
  rcases (h.found m.1).mp (by rw [hfound]; rfl) with hnil | ⟨r, hr, hpre⟩
  · rw [hnil] at hk
    exact absurd hk List.not_mem_nil
  · have hkey : k.key ∈ r.home := hpre.subset (List.mem_map_of_mem hk)
    obtain ⟨s, hs, hident⟩ := (hnamed r hr).home _ hkey
    exact ⟨s, Scalar.eq_text_of_key hs, hident⟩

/-- Routes with proper accessors have a tree, it sorts them, and its modules have
different names, all of them identifiers. -/
theorem exists_tree {routes : List Route} (hnamed : ∀ r ∈ routes, r.Named) :
    ∃ t, ofRoutes routes = .ok t ∧ t.Sorts routes ∧ t.Apart ∧ t.Identified := by
  have hplaced : ∀ r ∈ routes, r.Placed := fun r hr => (hnamed r hr).placed
  obtain ⟨t, ht, hsorts⟩ := exists_sorts hplaced
  exact ⟨t, ht, hsorts, hsorts.apart hplaced, hsorts.identified hnamed⟩

/-! ## Directories and pages -/

theorem isEntry_indexFile : Path.IsEntry indexFile :=
  ⟨⟨by decide, by decide, by decide⟩, by decide⟩

section Identified

variable {t : ModuleTree} {m n : List Scalar × ModuleTree}

theorem Identified.isEntry (h : t.Identified) (hm : m ∈ t.walk) :
    ∀ k ∈ m.1, Path.IsEntry k.display := by
  intro k hk
  obtain ⟨s, rfl, hs⟩ := h m hm k hk
  exact Path.isEntry_of_identifier hs

/-- Modules with the same steps have the same names. -/
theorem Identified.names_eq (h : t.Identified) (hm : m ∈ t.walk) (hn : n ∈ t.walk)
    (hsteps : m.1.map Scalar.display = n.1.map Scalar.display) : m.1 = n.1 := by
  have hall : ∀ {names names' : List Scalar}, (∀ k ∈ names, ∃ s, k = .text s) →
      (∀ k ∈ names', ∃ s, k = .text s) →
        names.map Scalar.display = names'.map Scalar.display → names = names' := by
    intro names names' hnames hnames' hsame
    induction names generalizing names' with
    | nil => exact (List.map_eq_nil_iff.mp hsame.symm).symm
    | cons k names ih =>
        cases names' with
        | nil => exact absurd hsame (List.cons_ne_nil _ _)
        | cons k' names' =>
            obtain ⟨s, rfl⟩ := hnames k List.mem_cons_self
            obtain ⟨s', rfl⟩ := hnames' k' List.mem_cons_self
            obtain ⟨hfirst, hrest⟩ := List.cons.inj hsame
            have hs : s = s' := hfirst
            rw [hs, ih (fun k hk => hnames k (List.mem_cons_of_mem _ hk))
              (fun k hk => hnames' k (List.mem_cons_of_mem _ hk)) hrest]
  refine hall (fun k hk => ?_) (fun k hk => ?_) hsteps
  · obtain ⟨s, hs, -⟩ := h m hm k hk
    exact ⟨s, hs⟩
  · obtain ⟨s, hs, -⟩ := h n hn k hk
    exact ⟨s, hs⟩

end Identified

end ModuleTree

end ClientSdk
