import ClientSdk.Draft
import ClientSdk.Proofs.Except

/-!
# What drafts want and how they fail

A draft is put together from smaller ones, so what all parts keep to, the whole keeps
to (`Keeps.bind`, `Keeps.mapM`): which registrations may be wanted, and which faults
may come up.

A draft that gives something is taken apart into the drafts it is made of (`of_bind_eq`,
`forall₂_of_mapM`).

A list of drafts has the results of its members and wants what they want, one after
the other, if all of them have a result (`mapM_of_ok`), and fails if one of them does
(`mapM_of_error`).  Which of these it is does not depend on the order.
-/

namespace ClientSdk.Draft

variable {α β : Type}

/-- A draft that wants and fails, if at all, in the given ways. -/
structure Keeps (wanted : Registration → Prop) (failed : Fault → Prop) (d : Draft α) :
    Prop where
  wants : ∀ r ∈ d.wants, wanted r
  fails : d.result.FailsBy failed

section Keeps

variable {wanted : Registration → Prop} {failed : Fault → Prop}

theorem Keeps.mono {wanted' : Registration → Prop} {d : Draft α} (hd : Keeps wanted failed d)
    (h : ∀ r, wanted r → wanted' r) : Keeps wanted' failed d where
  wants r hr := h r (hd.wants r hr)
  fails := hd.fails

theorem Keeps.pure (a : α) : Keeps wanted failed (pure a : Draft α) where
  wants _ hr := absurd hr List.not_mem_nil
  fails := .ok a

theorem Keeps.lift {x : Except Fault α} (h : x.FailsBy failed) :
    Keeps wanted failed (liftM x : Draft α) where
  wants _ hr := absurd hr List.not_mem_nil
  fails := h

theorem Keeps.fail {fault : Fault} (h : failed fault) :
    Keeps wanted failed (fail fault : Draft α) where
  wants _ hr := absurd hr List.not_mem_nil
  fails := .error h

theorem Keeps.want {r : Registration} (h : wanted r) : Keeps wanted failed (want r) where
  wants r' hr' := by
    rw [List.mem_singleton.mp hr']
    exact h
  fails := .ok _

theorem Keeps.bind {d : Draft α} {f : α → Draft β} (hd : Keeps wanted failed d)
    (hf : ∀ a, Keeps wanted failed (f a)) : Keeps wanted failed (d >>= f) := by
  cases hresult : d.result with
  | error fault =>
      rw [bind_error hresult]
      exact ⟨hd.wants, .error (hd.fails fault hresult)⟩
  | ok a =>
      rw [bind_ok hresult]
      refine ⟨fun r hr => ?_, (hf a).fails⟩
      rcases List.mem_append.mp hr with hr | hr
      · exact hd.wants r hr
      · exact (hf a).wants r hr

theorem Keeps.lift_bind {x : Except Fault α} {f : α → Draft β} (hx : x.FailsBy failed)
    (hf : ∀ a, x = .ok a → Keeps wanted failed (f a)) :
    Keeps wanted failed ((liftM x : Draft α) >>= f) := by
  cases x with
  | error fault => exact .fail (hx fault rfl)
  | ok a =>
      have hbind : (liftM (Except.ok a : Except Fault α) : Draft α) >>= f = f a :=
        Draft.pure_bind a f
      rw [hbind]
      exact hf a rfl

theorem Keeps.map {d : Draft α} (hd : Keeps wanted failed d) (f : α → β) :
    Keeps wanted failed (f <$> d) := by
  rw [map_eq_pure_bind]
  exact hd.bind fun a => .pure (f a)

theorem Keeps.mapM {as : List α} {f : α → Draft β}
    (h : ∀ a ∈ as, Keeps wanted failed (f a)) : Keeps wanted failed (as.mapM f) := by
  induction as with
  | nil => exact .pure []
  | cons a as ih =>
      rw [List.mapM_cons]
      refine (h a List.mem_cons_self).bind fun b => ?_
      exact (ih fun a' ha' => h a' (List.mem_cons_of_mem _ ha')).bind fun bs =>
        .pure (b :: bs)

theorem Keeps.forIn {as : List α} {f : α → β → Draft (ForInStep β)}
    (h : ∀ a ∈ as, ∀ b, Keeps wanted failed (f a b)) (b : β) :
    Keeps wanted failed (forIn as b f) := by
  induction as generalizing b with
  | nil => exact .pure b
  | cons a as ih =>
      rw [List.forIn_cons]
      refine (h a List.mem_cons_self b).bind fun step => ?_
      cases step with
      | done b => exact .pure b
      | yield b => exact ih (fun a' ha' => h a' (List.mem_cons_of_mem _ ha')) b

end Keeps

/-! ## What comes out -/

/-- A draft whose result, if it has one, stands in a relation to what is wanted for
it. -/
def Yields (P : List Registration → α → Prop) (d : Draft α) : Prop :=
  ∀ a, d.result = .ok a → P d.wants a

section Yields

variable {P : List Registration → α → Prop} {Q : List Registration → β → Prop}

theorem Yields.pure {a : α} (h : P [] a) : Yields P (pure a : Draft α) := by
  intro a' ha'
  cases ha'
  exact h

theorem Yields.lift {x : Except Fault α} (h : ∀ a, x = .ok a → P [] a) :
    Yields P (liftM x : Draft α) :=
  h

theorem Yields.bind {d : Draft α} {f : α → Draft β} (hd : Yields P d)
    (hf : ∀ wants a, P wants a → Yields (fun more b => Q (wants ++ more) b) (f a)) :
    Yields Q (d >>= f) := by
  intro b hb
  cases hresult : d.result with
  | error fault =>
      rw [bind_error hresult] at hb
      cases hb
  | ok a =>
      rw [bind_ok hresult] at hb ⊢
      exact hf d.wants a (hd a hresult) b hb

/-- What comes out whatever the first draft gives. -/
theorem Yields.after {P : β → Prop} {d : Draft α} {f : α → Draft β}
    (hf : ∀ a, Yields (fun _ b => P b) (f a)) : Yields (fun _ b => P b) (d >>= f) :=
  Yields.bind (P := fun _ _ => True) (fun _ _ => trivial) fun _ a _ => hf a

theorem Yields.map {d : Draft α} {f : α → β} (hd : Yields P d)
    (hf : ∀ wants a, P wants a → Q wants (f a)) : Yields Q (f <$> d) := by
  rw [map_eq_pure_bind]
  refine hd.bind fun wants a ha => .pure ?_
  rw [List.append_nil]
  exact hf wants a ha

theorem Yields.mapM {P : β → Prop} {as : List α} {f : α → Draft β}
    (h : ∀ a ∈ as, Yields (fun _ b => P b) (f a)) :
    Yields (fun _ bs => bs.length = as.length ∧ ∀ b ∈ bs, P b) (as.mapM f) := by
  induction as with
  | nil => exact .pure ⟨rfl, fun b hb => absurd hb List.not_mem_nil⟩
  | cons a as ih =>
      rw [List.mapM_cons]
      refine (h a List.mem_cons_self).bind fun _ b hb => ?_
      refine (ih fun a' ha' => h a' (List.mem_cons_of_mem _ ha')).bind
        fun _ bs ⟨hlength, hbs⟩ => .pure ⟨by simp [hlength], fun b' hb' => ?_⟩
      rcases List.mem_cons.mp hb' with rfl | hb'
      · exact hb
      · exact hbs b' hb'

end Yields

/-! ## Drafts taken apart -/

section Apart

variable {wants : List Registration}

/-- A chain that gives something is made of parts that do. -/
theorem of_bind_eq {d : Draft α} {f : α → Draft β} {b : β}
    (h : d >>= f = ⟨wants, .ok b⟩) : ∃ first a rest, d = ⟨first, .ok a⟩ ∧
      f a = ⟨rest, .ok b⟩ ∧ wants = first ++ rest := by
  obtain ⟨first, result⟩ := d
  cases result with
  | error fault =>
      rw [bind_error rfl] at h
      exact nomatch h
  | ok a =>
      rw [bind_ok rfl, Draft.mk.injEq] at h
      obtain ⟨hwants, hresult⟩ := h
      exact ⟨first, a, (f a).wants, rfl, by rw [← hresult], hwants.symm⟩

theorem of_lift_eq {x : Except Fault α} {a : α}
    (h : (liftM x : Draft α) = ⟨wants, .ok a⟩) : x = .ok a ∧ wants = [] := by
  obtain ⟨hwants, hresult⟩ := (Draft.mk.injEq _ _ _ _).mp h
  exact ⟨hresult, hwants.symm⟩

theorem of_pure_eq {a b : α} (h : (pure a : Draft α) = ⟨wants, .ok b⟩) :
    a = b ∧ wants = [] := by
  obtain ⟨hwants, hresult⟩ := (Draft.mk.injEq _ _ _ _).mp h
  exact ⟨Except.ok.inj hresult, hwants.symm⟩

theorem of_want_eq {r : Registration} {name : String}
    (h : want r = ⟨wants, .ok name⟩) : name = r.name.display ∧ wants = [r] := by
  obtain ⟨hwants, hresult⟩ := (Draft.mk.injEq _ _ _ _).mp h
  exact ⟨(Except.ok.inj hresult).symm, hwants.symm⟩

/-- What a list of drafts gives, each member by its own draft. -/
theorem forall₂_of_mapM {as : List α} {f : α → Draft β} {bs : List β}
    (h : as.mapM f = ⟨wants, .ok bs⟩) :
    List.Forall₂ (fun a b => ∃ more, f a = ⟨more, .ok b⟩ ∧ more ⊆ wants) as bs := by
  induction as generalizing wants bs with
  | nil =>
      obtain ⟨rfl, -⟩ := of_pure_eq h
      exact .nil
  | cons a as ih =>
      rw [List.mapM_cons] at h
      obtain ⟨first, b, rest, hb, hrest, rfl⟩ := of_bind_eq h
      obtain ⟨more, bs', last, hbs, hlast, rfl⟩ := of_bind_eq hrest
      obtain ⟨rfl, rfl⟩ := of_pure_eq hlast
      refine .cons ⟨first, hb, List.subset_append_left _ _⟩ ((ih hbs).imp ?_)
      rintro a' b' ⟨more', hb', hsub⟩
      refine ⟨more', hb', List.Subset.trans hsub ?_⟩
      rw [List.append_nil]
      exact List.subset_append_right _ _

end Apart

/-! ## Lists of drafts -/

section Lists

variable {as : List α} {f : α → Draft β}

theorem result_bind (d : Draft α) (f : α → Draft β) :
    (d >>= f).result = d.result >>= fun a => (f a).result := by
  cases hresult : d.result with
  | error fault => rw [bind_error hresult]; rfl
  | ok a => rw [bind_ok hresult]; rfl

theorem mapM_of_ok {g : α → β} (h : ∀ a ∈ as, (f a).result = .ok (g a)) :
    as.mapM f = ⟨as.flatMap fun a => (f a).wants, .ok (as.map g)⟩ := by
  induction as with
  | nil => rfl
  | cons a as ih =>
      rw [List.mapM_cons, bind_ok (h a List.mem_cons_self),
        ih fun b hb => h b (List.mem_cons_of_mem _ hb)]
      simp [bind_ok, pure_def]

theorem result_mapM (f : α → Draft β) (as : List α) :
    (as.mapM f).result = as.mapM fun a => (f a).result := by
  induction as with
  | nil => rfl
  | cons a as ih =>
      rw [List.mapM_cons, List.mapM_cons, ← ih, result_bind]
      simp only [result_bind]
      rfl

theorem mapM_of_error {a : α} {fault : Fault} (ha : a ∈ as)
    (h : (f a).result = .error fault) : ∃ fault, (as.mapM f).result = .error fault := by
  rw [result_mapM]
  exact Except.exists_error_of_mem ha h

theorem exists_results (f : α → Draft β) (as : List α) [Inhabited β] :
    (∃ g : α → β, ∀ a ∈ as, (f a).result = .ok (g a)) ∨
      ∃ a ∈ as, ∃ fault, (f a).result = .error fault := by
  by_cases h : ∃ a ∈ as, ∃ fault, (f a).result = .error fault
  · exact Or.inr h
  · refine Or.inl ⟨fun a => (f a).result.toOption.getD default, fun a ha => ?_⟩
    cases hresult : (f a).result with
    | error fault => exact absurd ⟨a, ha, fault, hresult⟩ h
    | ok b =>
        show Except.ok b = .ok ((f a).result.toOption.getD default)
        rw [hresult]
        rfl

end Lists

end ClientSdk.Draft
