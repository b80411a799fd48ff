import ClientSdk.ModuleTree
import ClientSdk.Proofs.Table
import Mathlib.Data.List.Induction

/-!
# What a module tree holds under a path

A module is found in a tree by the keys that lead to it.  What one more route changes
is said for every path at once (`find?_emplace`): the modules on the way to the route
are there, the last of them holds the route behind those it held before, and each of
the others knows the next key of the way.  From this step a tree that `Sorts` a list
of routes sorts one more (`Sorts.emplace`), and the tree of all routes sorts them
(`exists_sorts`).

Names are compared as keys: a path leads to the same module however it is spelled.
-/

namespace ClientSdk

def keyPath (names : List Scalar) : List Scalar.Key :=
  names.map Scalar.key

@[simp] theorem keyPath_nil : keyPath [] = [] := rfl

@[simp] theorem keyPath_cons (k : Scalar) (names : List Scalar) :
    keyPath (k :: names) = k.key :: keyPath names := rfl

namespace Scalar

theorem sameKey_iff {v w : Scalar} :
    v.sameKey w = true ↔ v.key = w.key ∧ v.key ≠ .number .nan := by
  simp [sameKey]

/-- A name that can be looked up again. -/
def Names (v : Scalar) : Prop := v.key ≠ .number .nan

theorem Names.sameKey_iff {v w : Scalar} (h : v.Names) :
    v.sameKey w = true ↔ v.key = w.key := by
  rw [Scalar.sameKey_iff]
  exact and_iff_left h

theorem sameKey_eq_of_key_eq {v w : Scalar} (h : v.key = w.key) :
    v.sameKey = w.sameKey := by
  funext u
  simp [sameKey, h]

end Scalar

namespace Route

def names (r : Route) : List Scalar :=
  (ModuleTree.keysOf r.accessors.dropLast).1

/-- The module of a route, by the keys that lead to it. -/
def home (r : Route) : List Scalar.Key :=
  keyPath r.names

/-- A route whose accessors but the last can be looked up: texts, or other values that
are the same key as themselves. -/
def Placed (r : Route) : Prop :=
  ∀ v ∈ r.accessors.dropLast, v.sameKey v = true

end Route

namespace ModuleTree

variable {t : ModuleTree} {r : Route} {ks p : List Scalar} {k : Scalar}

def childKeys (t : ModuleTree) : List Scalar.Key :=
  keyPath (Table.keys t.children)

/-- The routes of the module under a path; none if it is missing. -/
def routesAt (t : ModuleTree) (p : List Scalar) : List Route :=
  ((t.find? p).map ModuleTree.routes).getD []

/-- The keys below the module under a path; none if it is missing. -/
def childKeysAt (t : ModuleTree) (p : List Scalar) : List Scalar.Key :=
  ((t.find? p).map childKeys).getD []

/-! ## One more route -/

theorem find?_empty_getD (p : List Scalar) :
    ((({} : ModuleTree).find? p).getD {}) = {} := by
  cases p with
  | nil => rfl
  | cons k p => rfl

theorem find?_cons (t : ModuleTree) (k : Scalar) (p : List Scalar) :
    t.find? (k :: p) = (t.child? k).bind fun m => m.2.find? p := rfl

theorem find?_of_children_eq {t' : ModuleTree} (h : t.children = t'.children)
    (hp : p ≠ []) : t.find? p = t'.find? p := by
  cases p with
  | nil => exact absurd rfl hp
  | cons k p => rw [find?_cons, find?_cons, child?, child?, h]

theorem find?_congr (t : ModuleTree) {p' : List Scalar} (h : keyPath p = keyPath p') :
    t.find? p = t.find? p' := by
  induction p generalizing t p' with
  | nil =>
      cases p' with
      | nil => rfl
      | cons k' p' => exact absurd h.symm (List.cons_ne_nil _ _)
  | cons k p ih =>
      cases p' with
      | nil => exact absurd h (List.cons_ne_nil _ _)
      | cons k' p' =>
          obtain ⟨hkey, hrest⟩ := List.cons.inj h
          rw [find?_cons, find?_cons, child?, child?, Scalar.sameKey_eq_of_key_eq hkey]
          congr 1
          funext m
          exact ih m.2 hrest

theorem emplace_cons (t : ModuleTree) (k : Scalar) (ks : List Scalar) (r : Route) :
    t.emplace (k :: ks) r =
      { t with
        children := Table.alterWhere k.sameKey k
          (fun child => (child.getD {}).emplace ks r) t.children } := by
  rw [emplace, alterAt]
  rfl

/-- The child on the way to a new route is the one that was there, or a new one; the
others are as they were. -/
theorem child?_emplace_cons (hk : k.Names) (k' : Scalar) :
    (t.emplace (k :: ks) r).child? k' =
      if k.key = k'.key then
        some (((t.child? k').map Prod.fst).getD k,
          (((t.child? k').map Prod.snd).getD {}).emplace ks r)
      else t.child? k' := by
  rw [emplace_cons]
  unfold child?
  by_cases hkey : k.key = k'.key
  · rw [if_pos hkey, ← Scalar.sameKey_eq_of_key_eq hkey]
    exact Table.find?_alterWhere_self (hk.sameKey_iff.mpr rfl)
  · rw [if_neg hkey]
    refine Table.find?_alterWhere_of_apart (hk.sameKey_iff.mpr rfl) fun w hw => ?_
    rw [← Bool.not_eq_true, Scalar.sameKey_iff]
    exact fun hw' => hkey ((hk.sameKey_iff.mp hw).trans hw'.1.symm)

/-- What one more route changes: the modules on the way to it get the rest of the way,
and all others are as they were. -/
theorem find?_emplace (hks : ∀ k ∈ ks, k.Names) (p : List Scalar) :
    (t.emplace ks r).find? p =
      if keyPath p <+: keyPath ks then
        some (((t.find? p).getD {}).emplace (ks.drop p.length) r)
      else t.find? p := by
  induction p generalizing t ks with
  | nil => simp [find?]
  | cons k' p ih =>
      cases ks with
      | nil =>
          rw [if_neg (by simp)]
          exact find?_of_children_eq rfl (List.cons_ne_nil k' p)
      | cons k ks =>
          have hrest := fun t => ih (t := t) fun k hk => hks k (List.mem_cons_of_mem _ hk)
          rw [find?_cons, child?_emplace_cons (hks k List.mem_cons_self), find?_cons]
          simp only [keyPath_cons, List.cons_prefix_cons, List.drop_succ_cons,
            List.length_cons]
          by_cases hkey : k.key = k'.key
          · rw [if_pos hkey, Option.bind_some, hrest]
            simp only [hkey, true_and]
            cases hchild : t.child? k' with
            | some m => rfl
            | none =>
                simp only [Option.map_none, Option.getD_none, Option.bind_none,
                  find?_empty_getD]
                split
                · rfl
                · next hp =>
                    cases p with
                    | nil => exact absurd List.nil_prefix hp
                    | cons _ _ => rfl
          · rw [if_neg hkey, if_neg fun h => hkey h.1.symm]

theorem isSome_find?_emplace (hks : ∀ k ∈ ks, k.Names) (p : List Scalar) :
    ((t.emplace ks r).find? p).isSome = true ↔
      (t.find? p).isSome = true ∨ keyPath p <+: keyPath ks := by
  rw [find?_emplace hks]
  split
  · next hp => simp [hp]
  · next hp => simp [hp]

theorem routesAt_emplace (hks : ∀ k ∈ ks, k.Names) (p : List Scalar) :
    (t.emplace ks r).routesAt p =
      t.routesAt p ++ if keyPath ks = keyPath p then [r] else [] := by
  have hold : ((t.find? p).getD {}).routes = t.routesAt p := by
    unfold routesAt
    cases t.find? p <;> rfl
  rw [routesAt, find?_emplace hks]
  split
  · next hp =>
      rw [Option.map_some, Option.getD_some]
      cases hrest : ks.drop p.length with
      | nil =>
          have hlen : (keyPath ks).length ≤ (keyPath p).length := by
            simpa [keyPath] using List.drop_eq_nil_iff.mp hrest
          rw [if_pos (hp.eq_of_length_le hlen).symm, emplace, alterAt, hold]
      | cons k rest =>
          have hne : keyPath ks ≠ keyPath p := by
            intro heq
            have hlen : ks.length = p.length := by
              simpa [keyPath] using congrArg List.length heq
            rw [List.drop_of_length_le (Nat.le_of_eq hlen)] at hrest
            exact List.cons_ne_nil k rest hrest.symm
          rw [if_neg hne, emplace_cons, List.append_nil]
          exact hold
  · next hp =>
      have hne : keyPath ks ≠ keyPath p := fun heq => hp (heq ▸ List.prefix_rfl)
      rw [if_neg hne, List.append_nil, routesAt]

/-- The key behind a path on the way to `home`, if the way goes on. -/
def nextKey? (p home : List Scalar.Key) : Option Scalar.Key :=
  if p.isPrefixOf home then home[p.length]? else none

/-- Keys with one more at the end, if it is new. -/
def addKey (keys : List Scalar.Key) : Option Scalar.Key → List Scalar.Key
  | some key => if key ∈ keys then keys else keys ++ [key]
  | none => keys

theorem isSome_child?_iff (hk : k.Names) :
    (t.child? k).isSome = true ↔ k.key ∈ t.childKeys := by
  rw [child?, childKeys, keyPath, List.mem_map]
  constructor
  · intro h
    obtain ⟨⟨w, child⟩, hfound⟩ := Option.isSome_iff_exists.mp h
    obtain ⟨hmem, hw⟩ := Table.mem_of_find? hfound
    exact ⟨w, Table.mem_keys_of_mem hmem, (hk.sameKey_iff.mp hw).symm⟩
  · rintro ⟨w, hw, hkey⟩
    rw [Option.isSome_iff_ne_none]
    intro hnone
    have hfit := Table.find?_eq_none_iff.mp hnone w hw
    rw [hk.sameKey_iff.mpr hkey.symm] at hfit
    exact absurd hfit (by decide)

theorem childKeys_emplace_cons (hk : k.Names) :
    (t.emplace (k :: ks) r).childKeys = addKey t.childKeys (some k.key) := by
  have hfound := isSome_child?_iff (t := t) hk
  unfold child? at hfound
  rw [emplace_cons, childKeys, Table.keys_alterWhere, addKey]
  by_cases hmem : k.key ∈ t.childKeys
  · rw [if_pos (hfound.mpr hmem), if_pos hmem]
    rfl
  · rw [if_neg fun h => hmem (hfound.mp h), if_neg hmem, keyPath, List.map_append]
    rfl

/-- A module on the way to a new route gets the next module of the way behind those
that it has, unless it has it. -/
theorem childKeysAt_emplace (hks : ∀ k ∈ ks, k.Names) (p : List Scalar) :
    (t.emplace ks r).childKeysAt p =
      addKey (t.childKeysAt p) (nextKey? (keyPath p) (keyPath ks)) := by
  have hold : ((t.find? p).getD {}).childKeys = t.childKeysAt p := by
    unfold childKeysAt
    cases t.find? p <;> rfl
  have hnext : (keyPath ks)[(keyPath p).length]? =
      (ks.drop p.length).head?.map Scalar.key := by
    simp [keyPath]
  rw [childKeysAt, find?_emplace hks, nextKey?]
  simp only [List.isPrefixOf_iff_prefix]
  split
  · rw [Option.map_some, Option.getD_some, hnext]
    cases hrest : ks.drop p.length with
    | nil => exact hold
    | cons k rest =>
        have hk : k.Names := hks k (List.mem_of_mem_drop (hrest ▸ List.mem_cons_self))
        rw [childKeys_emplace_cons hk, hold]
        rfl
  · rfl

/-! ## All routes -/

/-- The keys below a path, in the order in which routes first need them. -/
def nextKeys (routes : List Route) (p : List Scalar.Key) : List Scalar.Key :=
  (routes.filterMap fun r => nextKey? p r.home).eraseDups

/-- A tree that holds the routes and nothing else. -/
structure Sorts (t : ModuleTree) (routes : List Route) : Prop where
  found : ∀ p, (t.find? p).isSome = true ↔
    p = [] ∨ ∃ r ∈ routes, keyPath p <+: r.home
  routesAt : ∀ p, t.routesAt p = routes.filter fun r => r.home = keyPath p
  childKeysAt : ∀ p, t.childKeysAt p = nextKeys routes (keyPath p)

theorem eraseDups_concat (keys : List Scalar.Key) (key : Scalar.Key) :
    (keys ++ [key]).eraseDups = addKey keys.eraseDups (some key) := by
  rw [List.eraseDups_append, addKey]
  by_cases hmem : key ∈ keys
  · simp [List.removeAll, hmem]
  · rw [if_neg fun h => hmem (List.mem_eraseDups.mp h)]
    simp [List.removeAll, hmem, List.eraseDups_cons]

theorem nextKeys_concat (routes : List Route) (r : Route) (p : List Scalar.Key) :
    nextKeys (routes ++ [r]) p = addKey (nextKeys routes p) (nextKey? p r.home) := by
  unfold nextKeys
  have hlast : [r].filterMap (fun r => nextKey? p r.home) =
      (nextKey? p r.home).toList := by
    cases hkey : nextKey? p r.home <;> simp [hkey]
  rw [List.filterMap_append, hlast]
  cases nextKey? p r.home with
  | none => rw [Option.toList_none, List.append_nil, addKey]
  | some key => exact eraseDups_concat _ key

theorem Sorts.empty : ({} : ModuleTree).Sorts [] where
  found p := by cases p <;> simp [find?, child?, Table.find?]
  routesAt p := by cases p <;> rfl
  childKeysAt p := by cases p <;> rfl

/-- What one more route preserves. -/
theorem Sorts.emplace {routes : List Route} (h : t.Sorts routes)
    (hr : ∀ k ∈ r.names, k.Names) : (t.emplace r.names r).Sorts (routes ++ [r]) where
  found p := by
    rw [isSome_find?_emplace hr, h.found]
    simp only [List.mem_append, List.mem_singleton, or_and_right, exists_or,
      exists_eq_left, or_assoc]
    rfl
  routesAt p := by
    rw [routesAt_emplace hr, h.routesAt, List.filter_append]
    congr 1
    by_cases hp : keyPath r.names = keyPath p <;> simp [Route.home, hp]
  childKeysAt p := by
    rw [childKeysAt_emplace hr, h.childKeysAt, nextKeys_concat]
    rfl

/-! ## The tree of routes -/

theorem keysOf_of_sameKey {vs : List Value} (h : ∀ v ∈ vs, v.sameKey v = true) :
    (keysOf vs).2 = .ok () ∧ ∀ k ∈ (keysOf vs).1, k.Names := by
  induction vs with
  | nil => exact ⟨rfl, fun k hk => absurd hk List.not_mem_nil⟩
  | cons v vs ih =>
      obtain ⟨hok, hnames⟩ := ih fun w hw => h w (List.mem_cons_of_mem _ hw)
      have hv := h v List.mem_cons_self
      unfold Value.sameKey at hv
      cases hscalar : v.scalar? with
      | none => simp [hscalar] at hv
      | some k =>
          simp only [hscalar, Scalar.sameKey_iff] at hv
          simp only [keysOf, hscalar]
          refine ⟨hok, fun w hw => ?_⟩
          rcases List.mem_cons.mp hw with rfl | hw
          · exact hv.2
          · exact hnames w hw

theorem add_of_placed (t : ModuleTree) (h : r.Placed) :
    t.add r = (.ok (t.spelled r.names), t.emplace r.names r) := by
  obtain ⟨hok, -⟩ := keysOf_of_sameKey h
  simp only [add, follow, hok]
  rfl

theorem names_of_placed (h : r.Placed) : ∀ k ∈ r.names, k.Names :=
  (keysOf_of_sameKey h).2

/-- Routes whose accessors can be looked up have a tree, which sorts them. -/
theorem exists_sorts {routes : List Route} (h : ∀ r ∈ routes, r.Placed) :
    ∃ t, ofRoutes routes = .ok t ∧ t.Sorts routes := by
  induction routes using List.reverseRecOn with
  | nil => exact ⟨{}, rfl, .empty⟩
  | append_singleton routes r ih =>
      obtain ⟨t, ht, hsorts⟩ := ih fun r' hr' => h r' (List.mem_append_left _ hr')
      have hr : r.Placed := h r (by simp)
      refine ⟨t.emplace r.names r, ?_, hsorts.emplace (names_of_placed hr)⟩
      unfold ofRoutes at ht ⊢
      rw [List.foldlM_append, ht]
      simp [add_of_placed t hr, bind, Except.bind, Except.map, pure, Except.pure]

end ModuleTree

end ClientSdk
