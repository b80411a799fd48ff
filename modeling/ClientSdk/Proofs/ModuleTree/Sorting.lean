import ClientSdk.Proofs.ModuleTree.Walk
import Mathlib.Data.List.Perm.Basic

/-!
# The tree of a list of routes

Routes whose accessors can be looked up have a tree, and what they say determines all
of it (`ofRoutes_layout`): which modules there are, which routes each of them has and
in which order, which modules are below it and in which order, and the order in which
the walk comes to them.  The walk comes to every route as often as it is in the list,
for each route is in the one module that its accessors lead to (`flatMap_filter_perm`).
-/

namespace ClientSdk

/-- Sorting a list into places without repetitions loses nothing and doubles nothing,
if each member has its place. -/
theorem flatMap_filter_perm {α κ : Type} [DecidableEq κ] {places : List κ}
    (hnd : places.Nodup) {place : α → κ} {as : List α} (h : ∀ a ∈ as, place a ∈ places) :
    (places.flatMap fun k => as.filter fun a => place a = k).Perm as := by
  induction places generalizing as with
  | nil =>
      cases as with
      | nil => exact .refl []
      | cons a as => exact absurd (h a List.mem_cons_self) List.not_mem_nil
  | cons k places ih =>
      obtain ⟨hk, hrest⟩ := List.nodup_cons.mp hnd
      have hfit : ∀ a ∈ as.filter fun a => !decide (place a = k), place a ∈ places := by
        intro a ha
        obtain ⟨hmem, hne⟩ := List.mem_filter.mp ha
        exact (List.mem_cons.mp (h a hmem)).resolve_left (by simpa using hne)
      have hothers := ih hrest hfit
      have hsame : (places.flatMap fun k' =>
          (as.filter fun a => !decide (place a = k)).filter fun a => place a = k') =
          places.flatMap fun k' => as.filter fun a => place a = k' := by
        refine List.flatMap_congr fun k' hk' => ?_
        rw [List.filter_filter]
        refine List.filter_congr fun a _ => ?_
        have hne : k' ≠ k := fun heq => hk (heq ▸ hk')
        by_cases ha : place a = k'
        · simp [ha, hne]
        · simp [ha]
      rw [hsame] at hothers
      rw [List.flatMap_cons]
      exact (hothers.append_left _).trans (List.filter_append_perm _ as)

namespace ModuleTree

variable {t : ModuleTree} {routes : List Route}

theorem nodup_addKey {keys : List Scalar.Key} (h : keys.Nodup)
    (key? : Option Scalar.Key) : (addKey keys key?).Nodup := by
  cases key? with
  | none => exact h
  | some key =>
      rw [addKey]
      split
      · exact h
      · next hnew =>
          exact ((List.perm_append_singleton key keys).nodup_iff).mpr
            (List.nodup_cons.mpr ⟨hnew, h⟩)

theorem nodup_nextKeys (routes : List Route) (p : List Scalar.Key) :
    (nextKeys routes p).Nodup := by
  induction routes using List.reverseRecOn with
  | nil => exact List.nodup_nil
  | append_singleton routes r ih =>
      rw [nextKeys_concat]
      exact nodup_addKey ih _

theorem Sorts.apart (h : t.Sorts routes) (hplaced : ∀ r ∈ routes, r.Placed) :
    t.Apart := by
  intro p
  rw [h.childKeysAt]
  refine ⟨nodup_nextKeys routes _, fun hnan => ?_⟩
  obtain ⟨r, hr, hkey⟩ := List.mem_filterMap.mp (List.mem_eraseDups.mp hnan)
  have hmem : Scalar.Key.number .nan ∈ r.home :=
    List.mem_of_getElem? (Option.ite_none_right_eq_some.mp hkey).2
  obtain ⟨k, hk, hkeyk⟩ := List.mem_map.mp hmem
  exact names_of_placed (hplaced r hr) k hk hkeyk

/-- What the walk comes to at a module. -/
theorem Sorts.of_mem_walk (h : t.Sorts routes) (hapart : t.Apart)
    {m : List Scalar × ModuleTree} (hm : m ∈ t.walk) :
    (m.2.routes = routes.filter fun r => r.home = keyPath m.1) ∧
      m.2.childKeys = nextKeys routes (keyPath m.1) := by
  have hfound := hapart.find?_of_mem_walk hm
  have hroutes := h.routesAt m.1
  have hkeys := h.childKeysAt m.1
  rw [ModuleTree.routesAt, hfound] at hroutes
  rw [ModuleTree.childKeysAt, hfound] at hkeys
  exact ⟨hroutes, hkeys⟩

theorem Sorts.mem_routes_iff (h : t.Sorts routes) (hapart : t.Apart)
    {m : List Scalar × ModuleTree} (hm : m ∈ t.walk) {r : Route} :
    r ∈ m.2.routes ↔ r ∈ routes ∧ r.home = keyPath m.1 := by
  rw [(h.of_mem_walk hapart hm).1, List.mem_filter, decide_eq_true_iff]

theorem Sorts.pairwise_walk (h : t.Sorts routes) (hapart : t.Apart) :
    t.walk.Pairwise fun m n =>
      Before (nextKeys routes) (keyPath m.1) (keyPath n.1) :=
  ModuleTree.pairwise_walk fun _ hm => ((h.of_mem_walk hapart hm).2).symm

/-- The walk comes to no module twice. -/
theorem Sorts.nodup_walk (h : t.Sorts routes) (hapart : t.Apart) :
    (t.walk.map fun m => keyPath m.1).Nodup := by
  refine List.pairwise_map.mpr ((h.pairwise_walk hapart).imp fun hbefore => ?_)
  exact hbefore.ne (nodup_nextKeys routes)

theorem Sorts.prefix_mem_walk (h : t.Sorts routes) {r : Route} (hr : r ∈ routes)
    {p : List Scalar.Key} (hp : p <+: r.home) : p ∈ t.walk.map fun m => keyPath m.1 := by
  have hkeys : keyPath (r.names.take p.length) = p := by
    rw [keyPath, List.map_take]
    exact (List.prefix_iff_eq_take.mp hp).symm
  obtain ⟨node, hnode⟩ := Option.isSome_iff_exists.mp
    ((h.found (r.names.take p.length)).mpr (Or.inr ⟨r, hr, hkeys.symm ▸ hp⟩))
  obtain ⟨names, hnames, hmem⟩ := exists_mem_walk hnode
  exact List.mem_map.mpr ⟨(names, node), hmem, hnames.trans hkeys⟩

/-- The module of every route is one that the walk comes to. -/
theorem Sorts.home_mem_walk (h : t.Sorts routes) {r : Route} (hr : r ∈ routes) :
    r.home ∈ t.walk.map fun m => keyPath m.1 :=
  h.prefix_mem_walk hr List.prefix_rfl

theorem Sorts.exists_module (h : t.Sorts routes) (hapart : t.Apart) {r : Route}
    (hr : r ∈ routes) : ∃ m ∈ t.walk, keyPath m.1 = r.home ∧ r ∈ m.2.routes := by
  obtain ⟨m, hm, hhome⟩ := List.mem_map.mp (h.home_mem_walk hr)
  exact ⟨m, hm, hhome, (h.mem_routes_iff hapart hm).mpr ⟨hr, hhome.symm⟩⟩

theorem Sorts.flatMap_routes_perm (h : t.Sorts routes) (hapart : t.Apart) :
    (t.walk.flatMap fun m => m.2.routes).Perm routes := by
  have hsorted : (t.walk.flatMap fun m => m.2.routes) =
      (t.walk.map fun m => keyPath m.1).flatMap fun home =>
        routes.filter fun r => r.home = home := by
    rw [List.flatMap_map]
    exact List.flatMap_congr fun m hm => (h.of_mem_walk hapart hm).1
  rw [hsorted]
  exact flatMap_filter_perm (h.nodup_walk hapart) fun r hr => h.home_mem_walk hr

/-! ## Names of modules -/

theorem intercalate_cons_eq (sep first : String) (rest : List String) :
    sep.intercalate (first :: rest) = first ++ String.join (rest.map (sep ++ ·)) := by
  apply String.toList_injective
  rw [String.toList_intercalate, String.toList_append, String.toList_join]
  induction rest generalizing first with
  | nil => simp [List.intercalate]
  | cons s rest ih =>
      have hrest := ih s
      simp only [List.map_cons, List.intercalate] at hrest ⊢
      rw [List.intersperse_cons_cons]
      simp [hrest]

theorem moduleName_eq (root : String) (names : List Scalar) :
    moduleName root names =
      "api." ++ root ++ String.join (names.map fun k => "." ++ k.display) := by
  have hroot : "api" ++ ("." ++ root) = "api." ++ root := by
    rw [← String.append_assoc]
    rfl
  rw [moduleName, intercalate_cons_eq, List.map_cons, List.map_map, String.join_cons,
    ← String.append_assoc, hroot]
  rfl

/-! ## The tree -/

/-- The tree of routes, as the routes determine it: the modules, their routes, the
modules below each of them, and the walk. -/
theorem ofRoutes_layout (routes : List Route) (h : ∀ r ∈ routes, r.Placed)
    (root : String) :
    ∃ t, ofRoutes routes = .ok t ∧
      (∀ p, (t.find? p).isSome = true ↔
        p = [] ∨ ∃ r ∈ routes, keyPath p <+: r.home) ∧
      (∀ p node, t.find? p = some node →
        (node.routes = routes.filter fun r => r.home = keyPath p) ∧
        node.childKeys = nextKeys routes (keyPath p)) ∧
      (∀ p node, t.find? p = some node ↔
        ∃ names, keyPath names = keyPath p ∧ (names, node) ∈ t.walk) ∧
      (∀ m ∈ t.walk, moduleName root m.1 =
        "api." ++ root ++ String.join (m.1.map fun k => "." ++ k.display)) ∧
      (t.walk.map fun m => keyPath m.1).Nodup ∧
      (t.walk.Pairwise fun m n =>
        Before (nextKeys routes) (keyPath m.1) (keyPath n.1)) ∧
      (t.walk.flatMap fun m => m.2.routes).Perm routes := by
  obtain ⟨t, ht, hsorts⟩ := exists_sorts h
  have hapart := hsorts.apart h
  refine ⟨t, ht, hsorts.found, ?_, fun p node => hapart.find?_eq_some_iff,
    fun m _ => moduleName_eq root m.1, hsorts.nodup_walk hapart,
    hsorts.pairwise_walk hapart, hsorts.flatMap_routes_perm hapart⟩
  intro p node hnode
  obtain ⟨names, hnames, hmem⟩ := exists_mem_walk hnode
  rw [← hnames]
  exact hsorts.of_mem_walk hapart hmem

/-- Five routes, one of them twice, in a tree of five modules: the module `a` has
routes and modules below it, and comes after them. -/
theorem ofRoutes_layout_of_shared_prefixes :
    let route (accessors : List String) : Route :=
      { name := .text "r", method := "GET", path := .text "/",
        accessors := accessors.map .text, output := { name := .text "void" } }
    let routes := [route ["a", "b", "x"], route ["c", "y"], route ["a", "z"],
      route ["a", "b", "x"], route ["a", "d", "w"]]
    (∀ r ∈ routes, r.Placed) ∧
      ∃ t, ofRoutes routes = .ok t ∧
        t.walk.map Prod.fst = [[.text "a", .text "b"], [.text "a", .text "d"],
          [.text "a"], [.text "c"], []] ∧
        (t.walk.map fun m => keyPath m.1).Nodup ∧
        (t.find? [.text "a", .text "d"]).isSome = true ∧
        (t.walk.flatMap fun m => m.2.routes).Perm routes := by
  intro route routes
  have hplaced : ∀ r ∈ routes, r.Placed := by
    intro r hr v hv
    have hall : ∀ r ∈ routes, ∀ v ∈ r.accessors.dropLast, v.sameKey v = true := by
      decide
    exact hall r hr v hv
  obtain ⟨t, ht, hfound, -, -, -, hnodup, -, hperm⟩ :=
    ofRoutes_layout routes hplaced rootName
  refine ⟨hplaced, t, ht, ?_, hnodup, (hfound _).mpr (Or.inr ?_), hperm⟩
  · have hwalk : (ofRoutes routes).toOption.map (fun t => t.walk.map Prod.fst) =
        some [[.text "a", .text "b"], [.text "a", .text "d"], [.text "a"], [.text "c"],
          []] := by decide
    rw [ht] at hwalk
    exact Option.some.inj hwalk
  · exact ⟨route ["a", "d", "w"], by simp [routes], by decide⟩

end ModuleTree

end ClientSdk
