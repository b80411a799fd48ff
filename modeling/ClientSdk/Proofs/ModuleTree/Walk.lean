import ClientSdk.Proofs.ModuleTree.Paths
import Mathlib.Data.List.Basic

/-!
# The walk through a module tree

A walk lists the modules of a tree in post-order: those below a module in the order of
its children, then the module itself (`walk_mk`).  So whatever is said of the walk is
proved by going down the tree (`inductOn`).

Where the modules below a module have different names (`Apart`), the walk lists under
each path the module that is found under it (`mem_walk_iff`), and it lists no path
twice, for of two paths that it lists the first is `Before` the second.
-/

namespace ClientSdk

/-! ## Post-order -/

section PostOrder

variable {κ : Type} {order : List κ → List κ} {p q : List κ} {k k' : κ}

/-- Whether the first path comes before the second in post-order: it leads further
down from the second, or both lead through one place and the first goes on with an
earlier key, where `order` lists the keys below a path. -/
def Before (order : List κ → List κ) (p q : List κ) : Prop :=
  (q <+: p ∧ q ≠ p) ∨
    ∃ base k k', [k, k'].Sublist (order base) ∧ base ++ [k] <+: p ∧ base ++ [k'] <+: q

theorem Before.cons (h : Before (fun p => order (k :: p)) p q) :
    Before order (k :: p) (k :: q) := by
  rcases h with ⟨hpre, hne⟩ | ⟨base, a, b, hab, hp, hq⟩
  · exact Or.inl ⟨List.cons_prefix_cons.mpr ⟨rfl, hpre⟩, fun h => hne (List.cons.inj h).2⟩
  · exact Or.inr ⟨k :: base, a, b, hab, List.cons_prefix_cons.mpr ⟨rfl, hp⟩,
      List.cons_prefix_cons.mpr ⟨rfl, hq⟩⟩

theorem Before.of_sublist (h : [k, k'].Sublist (order [])) :
    Before order (k :: p) (k' :: q) :=
  Or.inr ⟨[], k, k', h, List.cons_prefix_cons.mpr ⟨rfl, List.nil_prefix⟩,
    List.cons_prefix_cons.mpr ⟨rfl, List.nil_prefix⟩⟩

theorem Before.nil (k : κ) (p : List κ) : Before order (k :: p) [] :=
  Or.inl ⟨List.nil_prefix, (List.cons_ne_nil k p).symm⟩

theorem Before.ne (horder : ∀ base, (order base).Nodup) (h : Before order p q) :
    p ≠ q := by
  rintro rfl
  rcases h with ⟨-, hne⟩ | ⟨base, a, b, hab, ha, hb⟩
  · exact hne rfl
  · have hlen : (base ++ [a]).length = (base ++ [b]).length := by simp
    have heq := (List.prefix_of_prefix_length_le ha hb (Nat.le_of_eq hlen)).eq_of_length hlen
    obtain rfl : a = b := by simpa using heq
    have htwice := (horder base).sublist hab
    exact absurd htwice (by simp)

end PostOrder

namespace ModuleTree

/-! ## Going down a tree -/

mutual

/-- What holds of a module if it does of those below it holds of all. -/
theorem inductOn {motive : ModuleTree → Prop}
    (node : ∀ children routes, (∀ m ∈ children, motive m.2) →
      motive ⟨children, routes⟩) : ∀ t : ModuleTree, motive t
  | ⟨children, routes⟩ => node children routes (inductOnChildren node children)

theorem inductOnChildren {motive : ModuleTree → Prop}
    (node : ∀ children routes, (∀ m ∈ children, motive m.2) →
      motive ⟨children, routes⟩) :
    ∀ children : List (Scalar × ModuleTree), ∀ m ∈ children, motive m.2
  | [], _, hm => absurd hm List.not_mem_nil
  | (_, child) :: rest, m, hm => by
      rcases List.mem_cons.mp hm with rfl | hm
      · exact inductOn node child
      · exact inductOnChildren node rest m hm

end

def behind (k : Scalar) (m : List Scalar × ModuleTree) : List Scalar × ModuleTree :=
  (k :: m.1, m.2)

theorem walkChildren_eq (keys : List Scalar) (children : List (Scalar × ModuleTree)) :
    walkChildren keys children =
      children.flatMap fun m => walkFrom (keys ++ [m.1]) m.2 := by
  induction children with
  | nil => rfl
  | cons m rest ih => rw [walkChildren, ih, List.flatMap_cons]

theorem walkFrom_eq (t : ModuleTree) (keys : List Scalar) :
    walkFrom keys t = t.walk.map fun m => (keys ++ m.1, m.2) := by
  induction t using inductOn generalizing keys with
  | node children routes ih =>
      have hchildren : ∀ keys, walkChildren keys children =
          children.flatMap fun m => m.2.walk.map fun n => (keys ++ m.1 :: n.1, n.2) := by
        intro keys
        rw [walkChildren_eq]
        refine List.flatMap_congr fun m hm => ?_
        rw [ih m hm]
        simp
      rw [walk, walkFrom, walkFrom, hchildren, hchildren, List.map_append, List.map_flatMap]
      simp [Function.comp_def]

theorem walk_mk (children : List (Scalar × ModuleTree)) (routes : List Route) :
    walk ⟨children, routes⟩ =
      children.flatMap (fun m => m.2.walk.map (behind m.1)) ++
        [([], ⟨children, routes⟩)] := by
  rw [walk, walkFrom, walkChildren_eq]
  congr 1
  refine List.flatMap_congr fun m hm => ?_
  rw [walkFrom_eq]
  rfl

theorem mem_walk_mk {children : List (Scalar × ModuleTree)} {routes : List Route}
    {m : List Scalar × ModuleTree} :
    m ∈ walk ⟨children, routes⟩ ↔
      (∃ c ∈ children, ∃ n ∈ c.2.walk, behind c.1 n = m) ∨
        m = ([], ⟨children, routes⟩) := by
  rw [walk_mk, List.mem_append, List.mem_singleton]
  simp only [List.mem_flatMap, List.mem_map]

/-! ## The order of the walk -/

/-- The modules stand in post-order, by the keys below each of them. -/
theorem pairwise_walk {t : ModuleTree} {order : List Scalar.Key → List Scalar.Key}
    (horder : ∀ m ∈ t.walk, order (keyPath m.1) = m.2.childKeys) :
    t.walk.Pairwise fun m n => Before order (keyPath m.1) (keyPath n.1) := by
  induction t using inductOn generalizing order with
  | node children routes ih =>
      have hroot : order [] = keyPath (Table.keys children) :=
        horder ([], ⟨children, routes⟩) (mem_walk_mk.mpr (Or.inr rfl))
      rw [walk_mk]
      refine List.pairwise_append.mpr ⟨List.pairwise_flatMap.mpr ⟨?_, ?_⟩,
        List.pairwise_singleton _ _, ?_⟩
      · intro c hc
        rw [List.pairwise_map]
        have hbelow : ∀ m ∈ c.2.walk,
            order (c.1.key :: keyPath m.1) = m.2.childKeys := fun m hm =>
          horder (behind c.1 m) (mem_walk_mk.mpr (Or.inl ⟨c, hc, m, hm, rfl⟩))
        exact (ih c hc hbelow).imp Before.cons
      · -- Two children stand in the order in which the keys of the module do.
        refine List.pairwise_iff_forall_sublist.mpr fun {c c'} hsub => ?_
        intro m hm n hn
        obtain ⟨m', -, rfl⟩ := List.mem_map.mp hm
        obtain ⟨n', -, rfl⟩ := List.mem_map.mp hn
        refine Before.of_sublist ?_
        rw [hroot]
        simpa [keyPath, Table.keys] using (hsub.map Prod.fst).map Scalar.key
      · intro m hm n hn
        obtain ⟨c, -, hm⟩ := List.mem_flatMap.mp hm
        obtain ⟨m', -, rfl⟩ := List.mem_map.mp hm
        rw [List.mem_singleton.mp hn]
        exact Before.nil _ _

/-! ## What the walk lists -/

theorem exists_mem_walk {t node : ModuleTree} {p : List Scalar}
    (h : t.find? p = some node) :
    ∃ names, keyPath names = keyPath p ∧ (names, node) ∈ t.walk := by
  induction p generalizing t with
  | nil =>
      obtain ⟨children, routes⟩ := t
      cases h
      exact ⟨[], rfl, mem_walk_mk.mpr (Or.inr rfl)⟩
  | cons k p ih =>
      obtain ⟨⟨name, child⟩, hchild, hrest⟩ := Option.bind_eq_some_iff.mp h
      obtain ⟨names, hnames, hmem⟩ := ih hrest
      obtain ⟨children, routes⟩ := t
      obtain ⟨hc, hkey⟩ := Table.mem_of_find? hchild
      refine ⟨name :: names, ?_, mem_walk_mk.mpr (Or.inl ⟨_, hc, _, hmem, rfl⟩)⟩
      rw [keyPath_cons, keyPath_cons, hnames, (Scalar.sameKey_iff.mp hkey).1]

/-- A tree in which the modules below a module have different names that can be looked
up. -/
def Apart (t : ModuleTree) : Prop :=
  ∀ p, (t.childKeysAt p).Nodup ∧ .number .nan ∉ t.childKeysAt p

section Apart

variable {children : List (Scalar × ModuleTree)} {routes : List Route}
  {c : Scalar × ModuleTree}

theorem Apart.names (h : Apart ⟨children, routes⟩) (hc : c ∈ children) : c.1.Names := by
  intro hnan
  refine (h []).2 ?_
  rw [← hnan]
  exact List.mem_map.mpr ⟨c.1, List.mem_map.mpr ⟨c, hc, rfl⟩, rfl⟩

/-- A child is found under its name. -/
theorem Apart.child? (h : Apart ⟨children, routes⟩) (hc : c ∈ children) :
    child? ⟨children, routes⟩ c.1 = some c := by
  have hname := h.names hc
  refine Table.find?_of_mem hc (hname.sameKey_iff.mpr rfl) ?_
  have hkeys : (children.map fun m => m.1.key).Nodup := by
    simpa [childKeysAt, find?, childKeys, keyPath, Table.keys, Function.comp_def] using
      (h []).1
  refine (List.pairwise_map.mp hkeys).imp fun hne hboth => hne ?_
  rw [← hname.sameKey_iff.mp hboth.1, ← hname.sameKey_iff.mp hboth.2]

theorem Apart.find?_behind (h : Apart ⟨children, routes⟩) (hc : c ∈ children)
    (p : List Scalar) : find? ⟨children, routes⟩ (c.1 :: p) = c.2.find? p := by
  rw [find?_cons, h.child? hc, Option.bind_some]

theorem Apart.of_mem (h : Apart ⟨children, routes⟩) (hc : c ∈ children) : c.2.Apart := by
  intro p
  have hp := h (c.1 :: p)
  unfold childKeysAt at hp ⊢
  rwa [h.find?_behind hc] at hp

end Apart

/-- Every module that is listed is found. -/
theorem Apart.find?_of_mem_walk {t : ModuleTree} (h : t.Apart)
    {m : List Scalar × ModuleTree} (hm : m ∈ t.walk) : t.find? m.1 = some m.2 := by
  induction t using inductOn generalizing m with
  | node children routes ih =>
      rcases mem_walk_mk.mp hm with ⟨c, hc, n, hn, rfl⟩ | rfl
      · exact (h.find?_behind hc n.1).trans (ih c hc (h.of_mem hc) hn)
      · rfl

/-- A module is found under a path if and only if the walk lists it there. -/
theorem Apart.find?_eq_some_iff {t node : ModuleTree} (h : t.Apart) {p : List Scalar} :
    t.find? p = some node ↔
      ∃ names, keyPath names = keyPath p ∧ (names, node) ∈ t.walk := by
  constructor
  · exact exists_mem_walk
  · rintro ⟨names, hnames, hmem⟩
    rw [← h.find?_of_mem_walk hmem]
    exact (find?_congr t hnames).symm

end ModuleTree

end ClientSdk
