import Mathlib.Data.List.Forall2

/-!
# Computations that can be refused

A chain of computations has a result if each of them has one (`bind_eq_ok_iff`), and so
has the list of them (`mapM_eq_ok`, `exists_mapM`).  The results in the list are those of its
members (`exists_of_mem_mapM`, `mem_of_mapM`), and if a member has none, neither has the list
(`exists_error_of_mem`).  A chain fails in no other way than one of its members
does (`FailsBy.bind`, `FailsBy.mapM`).  Both are said at once of computations of which it is
known when they have a result: a chain has one if all conditions of its members hold
(`Settles.bind`, `Settles.mapM`).
-/

/-- A member of the one list stands in the relation to a member of the other. -/
theorem List.Forall₂.exists_of_mem {α β : Type} {R : α → β → Prop} {as : List α}
    {bs : List β} (h : List.Forall₂ R as bs) {a : α} (ha : a ∈ as) : ∃ b ∈ bs, R a b := by
  induction h with
  | nil => exact absurd ha List.not_mem_nil
  | @cons _ b _ _ hab _ ih =>
      rcases List.mem_cons.mp ha with rfl | ha
      · exact ⟨b, List.mem_cons_self, hab⟩
      · obtain ⟨b', hb', hab'⟩ := ih ha
        exact ⟨b', List.mem_cons_of_mem _ hb', hab'⟩

theorem List.Forall₂.map_eq {α β : Type} {f : α → β} {as : List α} {bs : List β}
    (h : List.Forall₂ (fun a b => f a = b) as bs) : as.map f = bs := by
  have heq : List.Forall₂ Eq (as.map f) bs := List.forall₂_map_left_iff.mpr h
  rwa [List.forall₂_eq_eq_eq] at heq

namespace Except

variable {α β ε : Type}

theorem bind_eq_ok_iff {x : Except ε α} {f : α → Except ε β} {b : β} :
    x >>= f = .ok b ↔ ∃ a, x = .ok a ∧ f a = .ok b := by
  cases x with
  | error fault =>
      constructor
      · exact fun h => nomatch h
      · rintro ⟨a, h, -⟩
        exact nomatch h
  | ok a =>
      constructor
      · exact fun h => ⟨a, rfl, h⟩
      · rintro ⟨a', h, hf⟩
        cases h
        exact hf

/-- A result that passes a test is there. -/
theorem exists_of_any {x : Except ε α} {test : α → Bool}
    (h : x.toOption.any test = true) : ∃ a, x = .ok a ∧ test a = true := by
  cases x with
  | error fault => exact absurd h Bool.false_ne_true
  | ok a => exact ⟨a, rfl, h⟩

theorem exists_of_isNone {x : Except ε α} (h : x.toOption.isNone = true) :
    ∃ fault, x = .error fault := by
  cases x with
  | error fault => exact ⟨fault, rfl⟩
  | ok a => exact absurd h Bool.false_ne_true

theorem toOption_eq_some_iff {x : Except ε α} {a : α} : x.toOption = some a ↔ x = .ok a := by
  cases x with
  | error fault => exact iff_of_false nofun nofun
  | ok b => exact Option.some_inj.trans ⟨congrArg _, Except.ok.inj⟩

variable {g : α → Except ε β} {as : List α}

theorem mapM_eq_ok {f : α → β} (h : ∀ a ∈ as, g a = .ok (f a)) :
    as.mapM g = .ok (as.map f) := by
  induction as with
  | nil => rfl
  | cons a as ih =>
      rw [List.mapM_cons, h a List.mem_cons_self,
        ih fun b hb => h b (List.mem_cons_of_mem _ hb)]
      rfl

theorem exists_mapM (h : ∀ a ∈ as, ∃ b, g a = .ok b) : ∃ bs, as.mapM g = .ok bs := by
  induction as with
  | nil => exact ⟨[], rfl⟩
  | cons a as ih =>
      obtain ⟨b, hb⟩ := h a List.mem_cons_self
      obtain ⟨bs, hbs⟩ := ih fun a' ha' => h a' (List.mem_cons_of_mem _ ha')
      exact ⟨b :: bs, by rw [List.mapM_cons, hb, hbs]; rfl⟩

theorem forall₂_of_mapM {bs : List β} (h : as.mapM g = .ok bs) :
    List.Forall₂ (fun a b => g a = .ok b) as bs := by
  induction as generalizing bs with
  | nil =>
      cases h
      exact .nil
  | cons a as ih =>
      rw [List.mapM_cons] at h
      obtain ⟨b, hb, hrest⟩ := bind_eq_ok_iff.mp h
      obtain ⟨bs', hbs', hcons⟩ := bind_eq_ok_iff.mp hrest
      cases hcons
      exact .cons hb (ih hbs')

theorem exists_of_mem_mapM {bs : List β} (h : as.mapM g = .ok bs) {b : β} (hb : b ∈ bs) :
    ∃ a ∈ as, g a = .ok b :=
  (forall₂_of_mapM h).flip.exists_of_mem hb

theorem mem_of_mapM {bs : List β} (h : as.mapM g = .ok bs) {a : α} (ha : a ∈ as) :
    ∃ b ∈ bs, g a = .ok b :=
  (forall₂_of_mapM h).exists_of_mem ha

theorem exists_error_of_mem {a : α} {fault : ε} (ha : a ∈ as) (h : g a = .error fault) :
    ∃ fault, as.mapM g = .error fault := by
  induction as with
  | nil => exact absurd ha List.not_mem_nil
  | cons a' as ih =>
      rw [List.mapM_cons]
      cases hfirst : g a' with
      | error fault' => exact ⟨fault', rfl⟩
      | ok b =>
          rcases List.mem_cons.mp ha with rfl | ha
          · exact nomatch h.symm.trans hfirst
          · obtain ⟨fault', hrest⟩ := ih ha
            exact ⟨fault', by rw [hrest]; rfl⟩

theorem forIn_eq_mapM :
    (forIn as PUnit.unit fun a _ => do let _ ← g a; pure (ForInStep.yield PUnit.unit) :
      Except ε PUnit) = (do let _ ← as.mapM g; pure PUnit.unit) := by
  induction as with
  | nil => rfl
  | cons a as ih =>
      rw [List.forIn_cons, List.mapM_cons]
      cases g a with
      | error fault => rfl
      | ok b =>
          show (forIn as PUnit.unit _ : Except ε PUnit) = _
          rw [ih]
          cases as.mapM g <;> rfl

theorem eq_of_filterAuxM {test : α → Except ε Bool} {passes : α → Bool}
    (h : ∀ a ∈ as, ∀ b, test a = .ok b → b = passes a) {kept bs : List α}
    (hbs : List.filterAuxM test as kept = .ok bs) : bs = (as.filter passes).reverse ++ kept := by
  induction as generalizing kept with
  | nil =>
      cases hbs
      rfl
  | cons a as ih =>
      obtain ⟨b, hb, hbs⟩ := bind_eq_ok_iff.mp hbs
      obtain rfl := h a List.mem_cons_self b hb
      rw [ih (fun a' ha' => h a' (List.mem_cons_of_mem _ ha')) hbs, List.filter_cons]
      cases passes a <;> simp

theorem eq_filter_of_filterM {test : α → Except ε Bool} {passes : α → Bool}
    (h : ∀ a ∈ as, ∀ b, test a = .ok b → b = passes a) {bs : List α}
    (hbs : as.filterM test = .ok bs) : bs = as.filter passes := by
  obtain ⟨kept, hkept, hbs⟩ := bind_eq_ok_iff.mp hbs
  cases hbs
  simp [eq_of_filterAuxM h hkept]

/-! ## How computations fail -/

/-- A computation that fails, if at all, in one of the given ways. -/
def FailsBy (ways : ε → Prop) (x : Except ε α) : Prop :=
  ∀ fault, x = .error fault → ways fault

variable {ways : ε → Prop}

theorem FailsBy.ok (a : α) : FailsBy ways (.ok a) :=
  fun _ h => nomatch h

theorem FailsBy.error {fault : ε} (h : ways fault) :
    FailsBy ways (.error fault : Except ε α) := by
  rintro _ ⟨⟩
  exact h

theorem FailsBy.bind {x : Except ε α} {f : α → Except ε β} (hx : FailsBy ways x)
    (hf : ∀ a, FailsBy ways (f a)) : FailsBy ways (x >>= f) := by
  cases x with
  | error fault => exact .error (hx fault rfl)
  | ok a => exact hf a

theorem FailsBy.map {x : Except ε α} (hx : FailsBy ways x) (f : α → β) :
    FailsBy ways (f <$> x) := by
  cases x with
  | error fault => exact .error (hx fault rfl)
  | ok a => exact .ok (f a)

theorem FailsBy.mapM (h : ∀ a ∈ as, FailsBy ways (g a)) : FailsBy ways (as.mapM g) := by
  induction as with
  | nil => exact .ok []
  | cons a as ih =>
      rw [List.mapM_cons]
      refine (h a List.mem_cons_self).bind fun b => ?_
      exact (ih fun a' ha' => h a' (List.mem_cons_of_mem _ ha')).bind fun bs => .ok (b :: bs)

theorem mapM_eq_error {fault : ε} (h : ∀ a ∈ as, FailsBy (· = fault) (g a)) {a : α} (ha : a ∈ as)
    (hfails : g a = .error fault) : as.mapM g = .error fault := by
  obtain ⟨first, hfirst⟩ := exists_error_of_mem ha hfails
  rw [hfirst, FailsBy.mapM h first hfirst]

theorem FailsBy.foldlM {f : β → α → Except ε β}
    (h : ∀ a ∈ as, ∀ b, FailsBy ways (f b a)) (b : β) : FailsBy ways (as.foldlM f b) := by
  induction as generalizing b with
  | nil => exact .ok b
  | cons a as ih =>
      rw [List.foldlM_cons]
      refine (h a List.mem_cons_self b).bind fun b' => ?_
      exact ih (fun a' ha' => h a' (List.mem_cons_of_mem _ ha')) b'

theorem FailsBy.filterAuxM {test : α → Except ε Bool}
    (h : ∀ a ∈ as, FailsBy ways (test a)) (kept : List α) :
    FailsBy ways (List.filterAuxM test as kept) := by
  induction as generalizing kept with
  | nil => exact .ok kept
  | cons a as ih =>
      refine (h a List.mem_cons_self).bind fun b => ?_
      exact ih (fun a' ha' => h a' (List.mem_cons_of_mem _ ha')) _

theorem FailsBy.filterM {test : α → Except ε Bool}
    (h : ∀ a ∈ as, FailsBy ways (test a)) : FailsBy ways (as.filterM test) :=
  (FailsBy.filterAuxM h []).bind fun kept => .ok kept.reverse

/-! ## When computations have a result -/

/-- A computation that has a result if and only if `good` holds, and that fails, if at
all, in one of the given ways. -/
structure Settles (ways : ε → Prop) (good : Prop) (x : Except ε α) : Prop where
  exists_iff : (∃ a, x = .ok a) ↔ good
  fails : FailsBy ways x

variable {good good' : Prop}

theorem Settles.ok (a : α) : Settles ways True (.ok a : Except ε α) where
  exists_iff := ⟨fun _ => trivial, fun _ => ⟨a, rfl⟩⟩
  fails := .ok a

theorem Settles.congr {x : Except ε α} (hx : Settles ways good x) (h : good ↔ good') :
    Settles ways good' x where
  exists_iff := hx.exists_iff.trans h
  fails := hx.fails

theorem Settles.bind {x : Except ε α} {f : α → Except ε β} (hx : Settles ways good x)
    (hf : ∀ a, Settles ways good' (f a)) : Settles ways (good ∧ good') (x >>= f) where
  exists_iff := by
    simp only [bind_eq_ok_iff]
    constructor
    · rintro ⟨b, a, ha, hb⟩
      exact ⟨hx.exists_iff.mp ⟨a, ha⟩, (hf a).exists_iff.mp ⟨b, hb⟩⟩
    · rintro ⟨hgood, hgood'⟩
      obtain ⟨a, ha⟩ := hx.exists_iff.mpr hgood
      obtain ⟨b, hb⟩ := (hf a).exists_iff.mpr hgood'
      exact ⟨b, a, ha, hb⟩
  fails := hx.fails.bind fun a => (hf a).fails

theorem Settles.map {x : Except ε α} (hx : Settles ways good x) (f : α → β) :
    Settles ways good (f <$> x) :=
  (hx.bind fun a => .ok (f a)).congr (and_iff_left trivial)

theorem Settles.mapM {good : α → Prop} (h : ∀ a ∈ as, Settles ways (good a) (g a)) :
    Settles ways (∀ a ∈ as, good a) (as.mapM g) where
  exists_iff := by
    constructor
    · rintro ⟨bs, hbs⟩ a ha
      obtain ⟨b, -, hb⟩ := mem_of_mapM hbs ha
      exact (h a ha).exists_iff.mp ⟨b, hb⟩
    · exact fun hall => exists_mapM fun a ha => (h a ha).exists_iff.mpr (hall a ha)
  fails := .mapM fun a ha => (h a ha).fails

end Except
