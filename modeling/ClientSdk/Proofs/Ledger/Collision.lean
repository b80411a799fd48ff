import ClientSdk.Proofs.Ledger.History

/-!
# When registrations collide

Whether a batch of registrations collides somewhere is a question about the batch
and not about its order (`collides_iff_clashes`): it does if and only if two of its
members clash, which is said of two registrations alone.

* From a collision to a clash: what a ledger holds a registration against was
  brought in by an earlier one, granted or not (`Backed`).
* From a clash to a collision: if nothing collides, everything is granted, and the
  registrations that a ledger records do not clash (`Records.not_clashes`).
-/

namespace ClientSdk

/-- Two registrations that no file can hold together: one name from two sources, or
two default names of one source. -/
def Registration.Clashes (r r' : Registration) : Prop :=
  (r.key = r'.key ∧ r.origin ≠ r'.origin) ∨
    (r.origin = r'.origin ∧ r.isDefault = true ∧ r'.isDefault = true ∧
      r.key ≠ r'.key)

/-- Whether a fault says that two registrations collide. -/
def Fault.IsCollision (fault : Fault) : Prop :=
  ∃ file name existing incoming,
    fault = .importCollision file name existing incoming

namespace Ledger

/-- Whether one of the registrations, made in order, is refused as a collision. -/
def Collides (l : Ledger) (rs : List Registration) : Prop :=
  ∃ answer ∈ l.run (rs.map .register), ∃ fault,
    answer.1 = .error fault ∧ fault.IsCollision

/-- The registrations that have to be entered: all of them, but for those that are
not wanted from the importing file itself. -/
def wanted (l : Ledger) (rs : List Registration) : List Registration :=
  rs.filter fun r => !l.skips r

theorem collides_cons {l : Ledger} {r : Registration} {rs : List Registration} :
    l.Collides (r :: rs) ↔
      (∃ fault, (l.register r).1 = .error fault ∧ fault.IsCollision) ∨
        (l.register r).2.Collides rs := by
  have hreply : ∀ fault, (l.step (.register r)).1 = .error fault ↔
      (l.register r).1 = .error fault := by
    intro fault
    simp only [step]
    cases (l.register r).1 <;> simp [Except.map]
  simp only [Collides, List.map_cons, run_cons, List.mem_cons, exists_eq_or_imp, hreply]
  rfl

/-! ## What a registration leaves alone -/

@[simp] theorem wanted_register (l : Ledger) (r : Registration)
    (rs : List Registration) : (l.register r).2.wanted rs = l.wanted rs := by
  simp [wanted, skips]

theorem wanted_cons (l : Ledger) (r : Registration) (rs : List Registration) :
    l.wanted (r :: rs) = l.wanted [r] ++ l.wanted rs :=
  List.filter_append (p := fun r => !l.skips r) [r] rs

theorem wanted_singleton {l : Ledger} {r : Registration} (h : l.skips r = false) :
    l.wanted [r] = [r] := by
  simp [wanted, h]

theorem supply_entered (l : Ledger) (r : Registration) (o : Origin) :
    (l.entered r).supply o =
      if o = r.origin then (l.supply r.origin).add r else l.supply o := by
  cases horigin : r.origin with
  | file target =>
      cases o with
      | file target' =>
          by_cases heq : target' = target
          · subst heq
            simp [entered, setSupply, horigin, supply, Table.insert, noteOwner]
          · simp [entered, setSupply, horigin, supply, Table.insert, noteOwner, heq,
              Table.get?_alter_of_ne _ _ heq]
      | library name => simp [entered, setSupply, horigin, supply, noteOwner]
  | library name =>
      cases o with
      | file target => simp [entered, setSupply, horigin, supply, noteOwner]
      | library name' =>
          by_cases heq : name' = name
          · subst heq
            simp [entered, setSupply, horigin, supply, Table.insert, noteOwner]
          · simp [entered, setSupply, horigin, supply, Table.insert, noteOwner, heq,
              Table.get?_alter_of_ne _ _ heq]

/-! ## From a collision to a clash -/

/-- A ledger in which every owner and every default name was brought in by one of
the registrations. -/
structure Backed (l : Ledger) (rs : List Registration) : Prop where
  owner : ∀ key o, Table.get? l.owners key = some o →
    ∃ r ∈ rs, r.key = key ∧ r.origin = o
  default : ∀ o name typeOnly, (l.supply o).default = some (name, typeOnly) →
    ∃ r ∈ rs, r.isDefault = true ∧ r.origin = o ∧ r.key = name.key

variable {l : Ledger} {rs seen : List Registration} {r : Registration}

theorem Backed.forFile (here : WorkingDirectory) (path : String) :
    (forFile here path).Backed [] where
  owner key o h := by simp [Ledger.forFile, Table.get?] at h
  default o name typeOnly h := by
    cases o <;> simp [Ledger.forFile, Ledger.supply, Table.get?] at h

theorem Backed.mono {rs' : List Registration} (h : l.Backed rs) (hsub : rs ⊆ rs') :
    l.Backed rs' where
  owner key o hkey := by
    obtain ⟨r, hr, hrest⟩ := h.owner key o hkey
    exact ⟨r, hsub hr, hrest⟩
  default o name typeOnly hdef := by
    obtain ⟨r, hr, hrest⟩ := h.default o name typeOnly hdef
    exact ⟨r, hsub hr, hrest⟩

theorem Backed.owner_noteOwner (h : l.Backed rs) {key : Scalar.Key} {o : Origin}
    (ho : Table.get? (l.noteOwner r).owners key = some o) :
    ∃ r' ∈ rs ++ [r], r'.key = key ∧ r'.origin = o := by
  rw [owners_noteOwner] at ho
  split at ho
  · next hkey =>
      cases howner : Table.get? l.owners r.key with
      | none =>
          rw [howner, Option.getD_none, Option.some.injEq] at ho
          exact ⟨r, by simp, hkey.symm, ho⟩
      | some owner =>
          rw [howner, Option.getD_some, Option.some.injEq] at ho
          obtain ⟨r', hr', hkey', horigin⟩ := h.owner _ _ howner
          exact ⟨r', List.mem_append_left _ hr', hkey'.trans hkey.symm,
            horigin.trans ho⟩
  · obtain ⟨r', hr', hrest⟩ := h.owner _ _ ho
    exact ⟨r', List.mem_append_left _ hr', hrest⟩

theorem Backed.noteOwner (h : l.Backed rs) (r : Registration) :
    (l.noteOwner r).Backed (rs ++ [r]) where
  owner _ _ ho := h.owner_noteOwner ho
  default o name typeOnly hdef := by
    have hsupply : (l.noteOwner r).supply o = l.supply o := by cases o <;> rfl
    rw [hsupply] at hdef
    obtain ⟨r', hr', hrest⟩ := h.default o name typeOnly hdef
    exact ⟨r', List.mem_append_left _ hr', hrest⟩

theorem Backed.entered (h : l.Backed rs) (r : Registration) :
    (l.entered r).Backed (rs ++ [r]) where
  owner _ _ ho := h.owner_noteOwner (owners_entered l r ▸ ho)
  default o name typeOnly hdef := by
    have hold : (l.supply o).default = some (name, typeOnly) →
        ∃ r' ∈ rs ++ [r], r'.isDefault = true ∧ r'.origin = o ∧
          r'.key = name.key := by
      intro hdef
      obtain ⟨r', hr', hrest⟩ := h.default o name typeOnly hdef
      exact ⟨r', List.mem_append_left _ hr', hrest⟩
    rw [supply_entered] at hdef
    split at hdef
    · next horigin =>
        cases hr : r.isDefault with
        | true =>
            simp only [Supply.add, hr, if_true, Option.some.injEq,
              Prod.mk.injEq] at hdef
            exact ⟨r, by simp, hr, horigin.symm, congrArg Scalar.key hdef.1⟩
        | false =>
            refine hold ?_
            simpa [Supply.add, hr, horigin] using hdef
    · exact hold hdef

/-- What one registration preserves, refused ones included. -/
theorem Backed.register (h : l.Backed rs) (r : Registration) :
    (l.register r).2.Backed (rs ++ l.wanted [r]) := by
  have hcases := l.registers r
  generalize l.register r = answer at hcases ⊢
  cases hcases with
  | skipped _ => exact h.mono (List.subset_append_left _ _)
  | shut _ _ => exact h.mono (List.subset_append_left _ _)
  | foreign _ _ _ _ => exact h.mono (List.subset_append_left _ _)
  | secondDefault hskip _ _ _ _ =>
      rw [wanted_singleton hskip]
      exact h.noteOwner r
  | entered hskip _ _ _ =>
      rw [wanted_singleton hskip]
      exact h.entered r

theorem Backed.clashes (h : l.Backed seen) {fault : Fault}
    (hreply : (l.register r).1 = .error fault) (hfault : fault.IsCollision) :
    l.skips r = false ∧ ∃ r' ∈ seen, r'.Clashes r := by
  have hcases := l.registers r
  generalize l.register r = answer at hcases hreply
  cases hcases with
  | skipped _ => exact absurd hreply (by simp)
  | shut _ _ =>
      obtain ⟨file, name, existing, incoming, rfl⟩ := hfault
      exact absurd hreply (by simp)
  | foreign hskip _ howner hne =>
      obtain ⟨r', hr', hkey, horigin⟩ := h.owner _ _ howner
      exact ⟨hskip, r', hr', Or.inl ⟨hkey, horigin ▸ hne⟩⟩
  | @secondDefault existing hskip _ _ hdef hother =>
      refine ⟨hskip, ?_⟩
      unfold Supply.otherDefault? at hother
      split at hother
      · next name typeOnly hdefault =>
          split at hother
          · exact absurd hother (by simp)
          · next hkey =>
              obtain ⟨r', hr', hdef', horigin, hkey'⟩ :=
                h.default _ _ _ hdefault
              refine ⟨r', hr', Or.inr ⟨horigin, hdef', hdef, ?_⟩⟩
              exact fun heq => hkey (hkey'.symm.trans heq)
      · exact absurd hother (by simp)
  | entered _ _ _ _ => exact absurd hreply (by simp)

theorem Backed.exists_clashes (h : l.Backed seen) (hcol : l.Collides rs) :
    ∃ r ∈ seen ++ l.wanted rs, ∃ r' ∈ l.wanted rs, r.Clashes r' := by
  induction rs generalizing l seen with
  | nil =>
      obtain ⟨answer, hmem, -⟩ := hcol
      exact absurd hmem List.not_mem_nil
  | cons r rs ih =>
      rw [wanted_cons]
      rcases collides_cons.mp hcol with ⟨fault, hreply, hfault⟩ | hrest
      · obtain ⟨hskip, r', hr', hclash⟩ := h.clashes hreply hfault
        refine ⟨r', List.mem_append_left _ hr', r, ?_, hclash⟩
        simp [wanted_singleton hskip]
      · obtain ⟨r₁, hr₁, r₂, hr₂, hclash⟩ := ih (h.register r) hrest
        rw [wanted_register] at hr₁ hr₂
        refine ⟨r₁, ?_, r₂, List.mem_append_right _ hr₂, hclash⟩
        rwa [List.append_assoc] at hr₁

/-! ## From a clash to a collision -/

theorem defaultFlag?_unique {s : Supply} {key key' : Scalar.Key} {t t' : Bool}
    (h : s.defaultFlag? key = some t) (h' : s.defaultFlag? key' = some t') :
    key = key' := by
  unfold Supply.defaultFlag? at h h'
  split at h
  · next name typeOnly hdef =>
      simp only [hdef, Option.ite_none_right_eq_some] at h h'
      exact h.1.symm.trans h'.1
  · exact absurd h (by simp)

/-- The default name of a supply is that of any registration of it as a default. -/
theorem Records.defaultFlag? (h : l.Records rs) (hr : r ∈ rs)
    (hdef : r.isDefault = true) :
    ∃ t, (l.supply r.origin).defaultFlag? r.key = some t := by
  rw [(h.supply r.origin).default, ← Option.ne_none_iff_exists']
  intro hnone
  refine Registration.demand_eq_none_iff.mp hnone r ?_ ⟨hdef, rfl⟩
  exact List.mem_filter.mpr ⟨hr, by simp⟩

theorem Records.not_clashes (h : l.Records rs) {r r' : Registration} (hr : r ∈ rs)
    (hr' : r' ∈ rs) : ¬ r.Clashes r' := by
  rintro (⟨hkey, horigin⟩ | ⟨horigin, hdef, hdef', hkey⟩)
  · exact horigin (h.origin_eq hr hr' hkey)
  · obtain ⟨t, ht⟩ := h.defaultFlag? hr hdef
    obtain ⟨t', ht'⟩ := h.defaultFlag? hr' hdef'
    rw [← horigin] at ht'
    exact hkey (defaultFlag?_unique ht ht')

/-- An open ledger in which nothing collides grants all it is asked for. -/
theorem granted_of_not_collides (hopen : l.closed = false) (h : ¬ l.Collides rs) :
    l.granted (rs.map .register) = l.wanted rs := by
  induction rs generalizing l with
  | nil => rfl
  | cons r rs ih =>
      rw [collides_cons, not_or] at h
      obtain ⟨hfirst, hrest⟩ := h
      have hnext := ih (by rwa [closed_register]) hrest
      rw [wanted_register] at hnext
      have hgrants : l.grants (.register r) = l.wanted [r] := by
        have hcases := l.registers r
        cases hanswer : l.register r with
        | mk result l' =>
            rw [hanswer] at hcases hfirst
            simp only [grants, hanswer]
            cases hcases with
            | skipped hskip => simp [hskip, wanted]
            | shut _ hclosed => exact absurd (hclosed.symm.trans hopen) (by decide)
            | foreign _ _ _ _ => exact absurd ⟨_, rfl, _, _, _, _, rfl⟩ hfirst
            | secondDefault _ _ _ _ _ => exact absurd ⟨_, rfl, _, _, _, _, rfl⟩ hfirst
            | entered hskip _ _ _ => simp [hskip, wanted]
      rw [wanted_cons, ← hgrants, ← hnext]
      rfl

/-! ## The order is no matter -/

/-- A batch of registrations of a fresh ledger collides if and only if two of its
members clash; in particular it does not matter in which order they are made. -/
theorem collides_iff_clashes (here : WorkingDirectory) (file : String)
    (rs : List Registration) :
    ((forFile here file).Collides rs ↔
      ∃ r ∈ (forFile here file).wanted rs, ∃ r' ∈ (forFile here file).wanted rs,
        r.Clashes r') ∧
    ∀ rs', rs.Perm rs' → ((forFile here file).Collides rs ↔ (forFile here file).Collides rs') := by
  have hiff : ∀ rs, (forFile here file).Collides rs ↔
      ∃ r ∈ (forFile here file).wanted rs, ∃ r' ∈ (forFile here file).wanted rs,
        r.Clashes r' := by
    intro rs
    constructor
    · intro hcol
      simpa using (Backed.forFile here file).exists_clashes hcol
    · rintro ⟨r, hr, r', hr', hclash⟩
      by_contra hno
      have hrec := records_after here file (rs.map .register)
      rw [granted_of_not_collides rfl hno] at hrec
      exact hrec.not_clashes hr hr' hclash
  refine ⟨hiff rs, fun rs' hperm => ?_⟩
  have hmem : ∀ r, r ∈ (forFile here file).wanted rs ↔ r ∈ (forFile here file).wanted rs' :=
    fun _ => (hperm.filter _).mem_iff
  simp only [hiff, hmem]

end Ledger

end ClientSdk
