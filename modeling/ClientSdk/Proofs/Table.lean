import ClientSdk.Table
import Mathlib.Data.List.Induction

/-!
# Tables as finite maps

A table holds each key once as soon as it is built by writing to keys alone
(`nodup_keys_alter`).  For such a table, membership of an entry and look-up of its
key say the same (`mem_iff_get?`), which is what every invariant over a table is
stated in.  Tables that are written and looked up by a test of their keys have the same
laws, as long as the test tells the keys apart.
-/

namespace ClientSdk.Table

variable {κ α : Type} [DecidableEq κ]

/-! ## Keys -/

theorem mem_keys_iff {κ α : Type} {t : List (κ × α)} {key : κ} :
    key ∈ keys t ↔ ∃ a, (key, a) ∈ t := by
  simp only [keys, List.mem_map]
  constructor
  · rintro ⟨⟨k, a⟩, hmem, rfl⟩
    exact ⟨a, hmem⟩
  · rintro ⟨a, hmem⟩
    exact ⟨(key, a), hmem, rfl⟩

theorem mem_keys_of_mem {κ α : Type} {t : List (κ × α)} {key : κ} {a : α}
    (h : (key, a) ∈ t) : key ∈ keys t :=
  mem_keys_iff.mpr ⟨a, h⟩

theorem nodup_keys_alter {t : List (κ × α)} (h : (keys t).Nodup) (key : κ)
    (f : Option α → α) : (keys (alter t key f)).Nodup := by
  rw [keys_alter]
  split
  · exact h
  · next hnew =>
      refine List.nodup_append.mpr ⟨h, List.pairwise_singleton _ key, ?_⟩
      intro k hk k' hk' heq
      rw [List.mem_singleton] at hk'
      exact hnew (hk' ▸ heq ▸ hk)

theorem mem_keys_alter {t : List (κ × α)} {key key' : κ} {f : Option α → α} :
    key' ∈ keys (alter t key f) ↔ key' ∈ keys t ∨ key' = key := by
  rw [keys_alter]
  split
  · next hold =>
      constructor
      · exact Or.inl
      · rintro (h | rfl)
        · exact h
        · exact hold
  · simp

/-! ## Look-up -/

theorem mem_of_get? {t : List (κ × α)} {key : κ} {a : α}
    (h : get? t key = some a) : (key, a) ∈ t := by
  induction t with
  | nil => simp [get?] at h
  | cons p rest ih =>
      obtain ⟨k, b⟩ := p
      by_cases hk : k = key
      · subst hk
        rw [get?, if_pos rfl, Option.some.injEq] at h
        exact h ▸ List.mem_cons_self
      · simp only [get?, if_neg hk] at h
        exact List.mem_cons_of_mem _ (ih h)

theorem get?_of_mem {t : List (κ × α)} (hnd : (keys t).Nodup) {key : κ} {a : α}
    (h : (key, a) ∈ t) : get? t key = some a := by
  induction t with
  | nil => exact absurd h List.not_mem_nil
  | cons p rest ih =>
      obtain ⟨k, b⟩ := p
      obtain ⟨hfresh, hrest⟩ : k ∉ keys rest ∧ (keys rest).Nodup :=
        List.nodup_cons.mp hnd
      rcases List.mem_cons.mp h with heq | hmem
      · cases heq
        simp [get?]
      · have hk : k ≠ key := fun hk => hfresh (hk ▸ mem_keys_of_mem hmem)
        simp only [get?, if_neg hk]
        exact ih hrest hmem

theorem isSome_get?_iff {t : List (κ × α)} {key : κ} :
    (get? t key).isSome ↔ key ∈ keys t := by
  induction t with
  | nil => simp [get?, keys]
  | cons p rest ih =>
      obtain ⟨k, b⟩ := p
      by_cases hk : k = key
      · simp [get?, keys, hk]
      · rw [get?, if_neg hk, ih]
        simp [keys, Ne.symm hk]

theorem get?_append (t t' : List (κ × α)) (key : κ) :
    get? (t ++ t') key = (get? t key).or (get? t' key) := by
  induction t with
  | nil => rfl
  | cons p rest ih =>
      obtain ⟨k, b⟩ := p
      rw [List.cons_append, get?, get?, ih]
      split <;> rfl

/-- In a table with each key once, an entry is what its key is looked up as. -/
theorem mem_iff_get? {t : List (κ × α)} (hnd : (keys t).Nodup) {key : κ} {a : α} :
    (key, a) ∈ t ↔ get? t key = some a :=
  ⟨get?_of_mem hnd, mem_of_get?⟩

/-! ## Writing -/

theorem insert_of_not_mem {t : List (κ × α)} {key : κ} (a : α)
    (h : key ∉ keys t) : insert t key a = t ++ [(key, a)] := by
  unfold insert
  induction t with
  | nil => rfl
  | cons p rest ih =>
      obtain ⟨k, b⟩ := p
      have hk : k ≠ key := fun hk => h (hk ▸ List.mem_cons_self)
      have hrest : key ∉ keys rest := fun hmem => h (List.mem_cons_of_mem _ hmem)
      simp [alter, hk, ih hrest]

theorem alter_eq_self {t : List (κ × α)} {key : κ} {a : α} {f : Option α → α}
    (h : get? t key = some a) (hf : f (some a) = a) : alter t key f = t := by
  induction t with
  | nil => cases h
  | cons p rest ih =>
      obtain ⟨k, b⟩ := p
      by_cases hk : k = key
      · rw [get?, if_pos hk, Option.some.injEq] at h
        rw [alter, if_pos hk, h, hf]
      · rw [get?, if_neg hk] at h
        rw [alter, if_neg hk, ih h]

theorem mem_insert {t : List (κ × α)} {key key' : κ} {a b : α}
    (h : (key', b) ∈ insert t key a) : (key', b) = (key, a) ∨ (key', b) ∈ t := by
  unfold insert at h
  induction t with
  | nil => exact Or.inl (List.mem_singleton.mp h)
  | cons p rest ih =>
      obtain ⟨k, c⟩ := p
      by_cases hk : k = key
      · subst hk
        rw [alter, if_pos rfl] at h
        rcases List.mem_cons.mp h with heq | hmem
        · exact Or.inl heq
        · exact Or.inr (List.mem_cons_of_mem _ hmem)
      · rw [alter, if_neg hk] at h
        rcases List.mem_cons.mp h with heq | hmem
        · exact Or.inr (heq ▸ List.mem_cons_self)
        · exact (ih hmem).imp_right (List.mem_cons_of_mem _)

/-! ## Tables of pairs -/

/-- A table of pairs, written behind the entries of another one. -/
def insertAll (t pairs : List (κ × α)) : List (κ × α) :=
  pairs.foldl (fun t p => insert t p.1 p.2) t

theorem insertAll_cons (t : List (κ × α)) (p : κ × α) (pairs : List (κ × α)) :
    insertAll t (p :: pairs) = insertAll (insert t p.1 p.2) pairs := rfl

theorem nodup_keys_insertAll {t : List (κ × α)} (h : (keys t).Nodup)
    (pairs : List (κ × α)) : (keys (insertAll t pairs)).Nodup := by
  induction pairs generalizing t with
  | nil => exact h
  | cons p pairs ih => exact ih (nodup_keys_alter h _ _)

theorem mem_insertAll {t pairs : List (κ × α)} {p : κ × α} (h : p ∈ insertAll t pairs) :
    p ∈ t ∨ p ∈ pairs := by
  induction pairs generalizing t with
  | nil => exact Or.inl h
  | cons q pairs ih =>
      rcases ih h with hp | hp
      · rcases mem_insert hp with heq | hp
        · have hpq : p = q := heq
          exact Or.inr (hpq ▸ List.mem_cons_self)
        · exact Or.inl hp
      · exact Or.inr (List.mem_cons_of_mem _ hp)

theorem insertAll_append (t pairs pairs' : List (κ × α)) :
    insertAll t (pairs ++ pairs') = insertAll (insertAll t pairs) pairs' :=
  List.foldl_append

theorem mem_keys_insertAll {t pairs : List (κ × α)} {key : κ} :
    key ∈ keys (insertAll t pairs) ↔ key ∈ keys t ∨ key ∈ keys pairs := by
  induction pairs generalizing t with
  | nil => simp [insertAll, keys]
  | cons p pairs ih =>
      have hpairs : key ∈ keys (p :: pairs) ↔ key = p.1 ∨ key ∈ keys pairs :=
        List.mem_cons
      rw [insertAll_cons, ih, insert, mem_keys_alter, hpairs, or_assoc]

theorem get?_insertAll_of_not_mem {t pairs : List (κ × α)} {key : κ}
    (h : key ∉ keys pairs) : get? (insertAll t pairs) key = get? t key := by
  induction pairs generalizing t with
  | nil => rfl
  | cons p pairs ih =>
      obtain ⟨hfirst, hrest⟩ := not_or.mp fun hmem => h (List.mem_cons.mpr hmem)
      rw [insertAll_cons, ih hrest, insert, get?_alter_of_ne _ _ hfirst]

/-- Of the pairs with a key the last one counts. -/
theorem get?_insertAll (t pairs : List (κ × α)) (key : κ) :
    get? (insertAll t pairs) key = (get? pairs.reverse key).or (get? t key) := by
  induction pairs generalizing t with
  | nil => rfl
  | cons p pairs ih =>
      obtain ⟨k, a⟩ := p
      rw [insertAll_cons, ih, List.reverse_cons, get?_append, Option.or_assoc]
      refine congrArg _ ?_
      by_cases hk : key = k
      · subst hk
        rw [insert, get?_alter_self, get?, if_pos rfl, Option.some_or]
      · rw [insert, get?_alter_of_ne _ _ hk, get?, if_neg (Ne.symm hk), get?, Option.none_or]

theorem exists_last_of_mem_insertAll {pairs : List (κ × α)} {key : κ} {a : α}
    (h : (key, a) ∈ insertAll [] pairs) :
    ∃ before after, pairs = before ++ (key, a) :: after ∧ key ∉ keys after := by
  induction pairs using List.reverseRecOn with
  | nil => exact absurd h List.not_mem_nil
  | append_singleton pairs p ih =>
      obtain ⟨k, b⟩ := p
      rw [insertAll_append] at h
      change (key, a) ∈ insert (insertAll [] pairs) k b at h
      by_cases hkey : key = k
      · subst hkey
        have hnil : (keys ([] : List (κ × α))).Nodup := List.nodup_nil
        have hget := get?_of_mem (nodup_keys_alter (nodup_keys_insertAll hnil pairs) _ _) h
        rw [get?_alter_self, Option.some.injEq] at hget
        subst hget
        exact ⟨pairs, [], rfl, List.not_mem_nil⟩
      · rcases mem_insert h with heq | hold
        · exact absurd (Prod.mk.inj heq).1 hkey
        · obtain ⟨before, after, rfl, hlast⟩ := ih hold
          refine ⟨before, after ++ [(k, b)], by simp, ?_⟩
          have hkeys : keys (after ++ [(k, b)]) = keys after ++ [k] := by simp [keys]
          simpa [hkeys, hkey] using hlast

theorem insertAll_of_nodup {t pairs : List (κ × α)}
    (h : (keys t ++ keys pairs).Nodup) : insertAll t pairs = t ++ pairs := by
  induction pairs generalizing t with
  | nil => exact (List.append_nil t).symm
  | cons p pairs ih =>
      have hnew : p.1 ∉ keys t := fun hmem =>
        (List.nodup_append.mp h).2.2 _ hmem _ List.mem_cons_self rfl
      have hkeys : keys (t ++ [p]) = keys t ++ [p.1] := by simp [keys]
      rw [insertAll_cons, insert_of_not_mem p.2 hnew, ih, List.append_assoc]
      · rfl
      · rw [hkeys, List.append_assoc]
        exact h

/-! ## Entries by a test of their keys -/

section ByTest

variable {κ α : Type} {fits fits' : κ → Bool} {key : κ} {f : Option α → α}
  {t : List (κ × α)}

theorem find?_cons (fits : κ → Bool) (k : κ) (a : α) (t : List (κ × α)) :
    find? fits ((k, a) :: t) = if fits k then some (k, a) else find? fits t := by
  unfold find?
  cases h : fits k <;> simp [h]

theorem find?_eq_none_iff : find? fits t = none ↔ ∀ k ∈ keys t, fits k = false := by
  simp [find?, keys]

theorem mem_of_find? {k : κ} {a : α} (h : find? fits t = some (k, a)) :
    (k, a) ∈ t ∧ fits k = true := by
  unfold find? at h
  exact ⟨List.mem_of_find?_eq_some h,
    List.find?_some (p := fun p : κ × α => fits p.1) h⟩

theorem keys_alterWhere (fits : κ → Bool) (key : κ) (f : Option α → α)
    (t : List (κ × α)) :
    keys (alterWhere fits key f t) =
      if (find? fits t).isSome then keys t else keys t ++ [key] := by
  induction t with
  | nil => rfl
  | cons p rest ih =>
      obtain ⟨k, a⟩ := p
      rw [find?_cons]
      by_cases hk : fits k = true
      · simp [alterWhere, keys, hk]
      · unfold keys at ih ⊢
        rw [alterWhere, if_neg hk, if_neg hk, List.map_cons, ih, List.map_cons]
        split <;> rfl

theorem find?_alterWhere_self (h : fits key = true) :
    find? fits (alterWhere fits key f t) =
      some (((find? fits t).map Prod.fst).getD key, f ((find? fits t).map Prod.snd)) := by
  induction t with
  | nil => simp [alterWhere, find?, h]
  | cons p rest ih =>
      obtain ⟨k, a⟩ := p
      rw [find?_cons]
      by_cases hk : fits k = true
      · simp [alterWhere, find?, hk]
      · rw [alterWhere, if_neg hk, if_neg hk, find?_cons, if_neg hk, ih]

/-- A test that no key passes together with the one written under finds what it found
before. -/
theorem find?_alterWhere_of_apart (h : fits key = true)
    (hapart : ∀ k, fits k = true → fits' k = false) :
    find? fits' (alterWhere fits key f t) = find? fits' t := by
  induction t with
  | nil => simp [alterWhere, find?, hapart key h]
  | cons p rest ih =>
      obtain ⟨k, a⟩ := p
      rw [find?_cons]
      by_cases hk : fits k = true
      · simp [alterWhere, find?_cons, hk, hapart k hk]
      · rw [alterWhere, if_neg hk, find?_cons, ih]

theorem find?_of_mem {k : κ} {a : α} (h : (k, a) ∈ t) (hk : fits k = true)
    (hone : t.Pairwise fun p q => ¬ (fits p.1 = true ∧ fits q.1 = true)) :
    find? fits t = some (k, a) := by
  induction t with
  | nil => exact absurd h List.not_mem_nil
  | cons p rest ih =>
      obtain ⟨k', b⟩ := p
      obtain ⟨hfirst, hrest⟩ := List.pairwise_cons.mp hone
      rw [find?_cons]
      rcases List.mem_cons.mp h with heq | hmem
      · cases heq
        exact if_pos hk
      · rw [if_neg fun hk' => hfirst _ hmem ⟨hk', hk⟩]
        exact ih hmem hrest

end ByTest

end ClientSdk.Table
