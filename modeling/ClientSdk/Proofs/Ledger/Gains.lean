import ClientSdk.Draft
import ClientSdk.Proofs.Ledger.Collision

/-!
# What type imports add

Registrations of type imports that all succeed leave a ledger with just those names
more: each is there under its source, as a type import unless it was there before, is
owned by its source and stands in the journal, and all else is as it was
(`gains_of_registerAll`).
-/

namespace ClientSdk

structure Registration.IsTypeImport (r : Registration) : Prop where
  typeOnly : r.typeOnly = true
  named : r.isDefault = false

namespace Ledger

/-- What a ledger has become by type imports that were entered. -/
structure Gains (l : Ledger) (rs : List Registration) (l' : Ledger) : Prop where
  file : l'.file = l.file
  closed : l'.closed = l.closed
  journal : l'.journal = (rs.map fun r => (r.name, r.origin)).reverse ++ l.journal
  /-- The default names are as they were. -/
  default : ∀ o, (l'.supply o).default = (l.supply o).default
  /-- The names of a source are those it had, as they were, and the new ones. -/
  names : ∀ o key, Table.get? (l'.supply o).names key =
    if ∃ r ∈ rs, r.origin = o ∧ r.key = key then
      some ((Table.get? (l.supply o).names key).getD true)
    else Table.get? (l.supply o).names key
  /-- A name belongs to the source that it was first imported from. -/
  owners : ∀ key, Table.get? l'.owners key =
    (Table.get? l.owners key).or ((rs.find? fun r => r.key = key).map Registration.origin)

variable {l l' l'' : Ledger} {r : Registration} {rs rs' : List Registration}

theorem Gains.refl (l : Ledger) : l.Gains [] l where
  file := rfl
  closed := rfl
  journal := rfl
  default _ := rfl
  names _ _ := by simp
  owners _ := by simp

theorem gains_entered (h : r.IsTypeImport) : l.Gains [r] (l.entered r) where
  file := file_entered l r
  closed := closed_entered l r
  journal := by cases horigin : r.origin <;> simp [entered, setSupply, noteOwner, horigin]
  default o := by
    rw [supply_entered]
    split
    · next heq => simp [Supply.add, h.named, heq]
    · rfl
  names o key := by
    rw [supply_entered]
    by_cases horigin : o = r.origin
    · subst horigin
      by_cases hkey : r.key = key
      · subst hkey
        simp [Supply.add, h.named, h.typeOnly]
      · simp [Supply.add, h.named, hkey, Table.get?_alter_of_ne _ _ (Ne.symm hkey)]
    · simp [horigin, Ne.symm horigin]
  owners key := by
    rw [owners_entered, owners_noteOwner]
    by_cases hkey : key = r.key
    · subst hkey
      cases Table.get? l.owners r.key <;> simp
    · simp [hkey, Ne.symm hkey]

theorem Gains.append (h : l.Gains rs l') (h' : l'.Gains rs' l'') :
    l.Gains (rs ++ rs') l'' where
  file := h'.file.trans h.file
  closed := h'.closed.trans h.closed
  journal := by simp [h'.journal, h.journal]
  default o := (h'.default o).trans (h.default o)
  names o key := by
    rw [h'.names, h.names]
    simp only [List.mem_append, or_and_right, exists_or]
    by_cases hfirst : ∃ r ∈ rs, r.origin = o ∧ r.key = key
    · simp [hfirst]
    · simp [hfirst]
  owners key := by
    rw [h'.owners, h.owners]
    simp [List.find?_append, Option.or_assoc, Option.map_or]

/-- What is gained of type imports, however far they come: those up to some point, but for those
from the file itself, and all of them if none is refused. -/
theorem exists_gains (himports : ∀ r ∈ rs, r.IsTypeImport) (l : Ledger) :
    ∃ granted, granted <+: rs ∧ ((l.registerAll rs).1 = .ok () → granted = rs) ∧
      l.Gains (l.wanted granted) (l.registerAll rs).2 := by
  induction rs generalizing l with
  | nil => exact ⟨[], List.prefix_refl [], fun _ => rfl, .refl l⟩
  | cons r rs ih =>
      have hcases := l.registers r
      rw [registerAll]
      cases hanswer : l.register r with
      | mk result m =>
          rw [hanswer] at hcases
          obtain ⟨granted, hpre, hall, hgains⟩ :=
            ih (fun r' hr' => himports r' (List.mem_cons_of_mem _ hr')) m
          have hmore : r :: granted <+: r :: rs := (List.prefix_cons_inj r).mpr hpre
          have hcons : (m.registerAll rs).1 = .ok () → r :: granted = r :: rs := fun hok => by
            rw [hall hok]
          -- A refused type import leaves the ledger as it is.
          have hrefused : ∀ fault : Fault, ∃ granted, granted <+: r :: rs ∧
              ((.error fault : Except Fault Unit) = .ok () → granted = r :: rs) ∧
                l.Gains (l.wanted granted) l := fun _ =>
            ⟨[], List.nil_prefix, (nomatch ·), .refl l⟩
          cases hcases with
          | skipped hskip =>
              have hwanted : l.wanted (r :: granted) = l.wanted granted := by
                simp [wanted, hskip]
              exact ⟨r :: granted, hmore, hcons, hwanted ▸ hgains⟩
          | shut => exact hrefused _
          | foreign => exact hrefused _
          | secondDefault _ _ _ hdefault =>
              rw [(himports r List.mem_cons_self).named] at hdefault
              cases hdefault
          | entered hskip =>
              have hwanted : l.wanted (r :: granted) = [r] ++ (l.entered r).wanted granted := by
                rw [wanted_cons, wanted_singleton hskip]
                simp [wanted, skips]
              exact ⟨r :: granted, hmore, hcons,
                hwanted ▸ (gains_entered (himports r List.mem_cons_self)).append hgains⟩

/-- Type imports that are all registered are gained, but for those from the file itself. -/
theorem gains_of_registerAll (himports : ∀ r ∈ rs, r.IsTypeImport)
    (h : l.registerAll rs = (.ok (), l')) : l.Gains (l.wanted rs) l' := by
  obtain ⟨granted, -, hall, hgains⟩ := exists_gains himports l
  rw [h] at hall hgains
  rwa [hall rfl] at hgains

/-- A draft that is granted was registered as a whole. -/
theorem registerAll_of_fulfil {α : Type} {d : Draft α} {a : α}
    (h : l.fulfil d = (.ok a, l')) : l.registerAll d.wants = (.ok (), l') ∧ d.result = .ok a := by
  unfold fulfil at h
  split at h
  · next hgranted =>
    obtain ⟨hresult, rfl⟩ := Prod.mk.inj h
    exact ⟨hgranted, hresult⟩
  · cases h

end Ledger

end ClientSdk
