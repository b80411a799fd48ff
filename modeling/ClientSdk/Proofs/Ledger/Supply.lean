import ClientSdk.Ledger
import ClientSdk.Proofs.Table
import Mathlib.Data.List.Induction
import Mathlib.Tactic.ByContra

/-!
# What registrations of one source add up to

A supply is written to by one registration after the other, and the flag of a name
is merged each time.  What comes out is said here without the merging: `demand`
reads off a list of registrations whether a name is among them and whether they are
all content with a type import, and a supply that `Meets` the list holds exactly
these answers.  Adding one more registration keeps this (`Supply.Meets.add`),
provided it is no second default name.
-/

namespace ClientSdk

namespace Registration

/-- Whether the registration is for the name `key`, as a default or on its own. -/
def AsksFor (r : Registration) (isDefault : Bool) (key : Scalar.Key) : Prop :=
  r.isDefault = isDefault ∧ r.key = key

instance (r : Registration) (isDefault : Bool) (key : Scalar.Key) :
    Decidable (r.AsksFor isDefault key) :=
  inferInstanceAs (Decidable (_ ∧ _))

/-- What registrations ask of a name: nothing, if it is not among them, or whether a
type import is enough for all of them. -/
def demand (rs : List Registration) (isDefault : Bool) (key : Scalar.Key) :
    Option Bool :=
  rs.foldl (fun d r =>
    if r.AsksFor isDefault key then some (d.getD true && r.typeOnly) else d) none

variable {rs : List Registration} {isDefault : Bool} {key : Scalar.Key}

@[simp] theorem demand_nil : demand [] isDefault key = none := rfl

theorem demand_concat (rs : List Registration) (r : Registration) (isDefault : Bool)
    (key : Scalar.Key) :
    demand (rs ++ [r]) isDefault key =
      if r.AsksFor isDefault key then
        some ((demand rs isDefault key).getD true && r.typeOnly)
      else demand rs isDefault key := by
  simp [demand, List.foldl_append]

theorem demand_eq_none_iff :
    demand rs isDefault key = none ↔ ∀ r ∈ rs, ¬ r.AsksFor isDefault key := by
  induction rs using List.reverseRecOn with
  | nil => simp
  | append_singleton rs r ih =>
      rw [demand_concat]
      by_cases hr : r.AsksFor isDefault key
      · rw [if_pos hr]
        constructor
        · exact fun h => absurd h (by simp)
        · exact fun h => absurd hr (h r (by simp))
      · rw [if_neg hr, ih]
        constructor
        · intro h r' hr'
          rcases List.mem_append.mp hr' with hr' | hr'
          · exact h r' hr'
          · exact List.mem_singleton.mp hr' ▸ hr
        · exact fun h r' hr' => h r' (List.mem_append_left _ hr')

theorem demand_getD_iff :
    (demand rs isDefault key).getD true = true ↔
      ∀ r ∈ rs, r.AsksFor isDefault key → r.typeOnly = true := by
  induction rs using List.reverseRecOn with
  | nil => simp
  | append_singleton rs r ih =>
      rw [demand_concat]
      by_cases hr : r.AsksFor isDefault key
      · rw [if_pos hr, Option.getD_some, Bool.and_eq_true, ih]
        constructor
        · rintro ⟨hall, hlast⟩ r' hr' hasks
          rcases List.mem_append.mp hr' with hr' | hr'
          · exact hall r' hr' hasks
          · exact List.mem_singleton.mp hr' ▸ hlast
        · intro h
          exact ⟨fun r' hr' => h r' (List.mem_append_left _ hr'), h r (by simp) hr⟩
      · rw [if_neg hr, ih]
        constructor
        · intro h r' hr' hasks
          rcases List.mem_append.mp hr' with hr' | hr'
          · exact h r' hr' hasks
          · exact absurd (List.mem_singleton.mp hr' ▸ hasks) hr
        · exact fun h r' hr' => h r' (List.mem_append_left _ hr')

/-- A name is asked for, and a type import is enough for it or not. -/
theorem demand_eq_some_iff {typeOnly : Bool} :
    demand rs isDefault key = some typeOnly ↔
      (∃ r ∈ rs, r.AsksFor isDefault key) ∧
        ((∀ r ∈ rs, r.AsksFor isDefault key → r.typeOnly = true) ↔
          typeOnly = true) := by
  rw [← demand_getD_iff]
  cases hd : demand rs isDefault key with
  | none =>
      have hno := demand_eq_none_iff.mp hd
      constructor
      · exact fun h => absurd h (by simp)
      · rintro ⟨⟨r, hr, hasks⟩, -⟩
        exact absurd hasks (hno r hr)
  | some flag =>
      have hasked : ∃ r ∈ rs, r.AsksFor isDefault key := by
        by_contra hnone
        have hno : ∀ r ∈ rs, ¬ r.AsksFor isDefault key := fun r hr hasks =>
          hnone ⟨r, hr, hasks⟩
        rw [demand_eq_none_iff.mpr hno] at hd
        exact absurd hd (by simp)
      simp [hasked]

end Registration

open Registration

namespace Supply

def defaultFlag? (s : Supply) (key : Scalar.Key) : Option Bool :=
  match s.default with
  | some (name, typeOnly) => if name.key = key then some typeOnly else none
  | none => none

/-- What was added to a supply: its flags are what the registrations ask for. -/
structure Meets (s : Supply) (rs : List Registration) : Prop where
  nodup : (Table.keys s.names).Nodup
  names : ∀ key, Table.get? s.names key = demand rs false key
  default : ∀ key, s.defaultFlag? key = demand rs true key

theorem Meets.empty : ({} : Supply).Meets [] where
  nodup := List.nodup_nil
  names _ := rfl
  default _ := rfl

theorem otherDefault?_eq_none_iff {s : Supply} {name : Scalar} :
    s.otherDefault? name = none ↔
      ∀ existing typeOnly, s.default = some (existing, typeOnly) →
        existing.key = name.key := by
  unfold otherDefault?
  cases hd : s.default with
  | none => simp
  | some p =>
      obtain ⟨existing, typeOnly⟩ := p
      by_cases hkey : existing.key = name.key
      · simp [hkey]
      · simp [hkey]

theorem defaultFlag?_add_default {s : Supply} {r : Registration}
    (hr : r.isDefault = true) (hsame : s.otherDefault? r.name = none)
    (key : Scalar.Key) :
    (s.add r).defaultFlag? key =
      if r.key = key then some ((s.defaultFlag? key).getD true && r.typeOnly)
      else s.defaultFlag? key := by
  rw [otherDefault?_eq_none_iff] at hsame
  cases hd : s.default with
  | none => simp [add, hr, defaultFlag?, hd, Registration.key]
  | some p =>
      obtain ⟨existing, typeOnly⟩ := p
      have hkey : existing.key = r.key := hsame existing typeOnly hd
      by_cases hk : r.key = key
      · have hname : r.name.key = key := hk
        simp [add, hr, defaultFlag?, hd, hkey, hk, hname]
      · have hname : ¬ r.name.key = key := hk
        simp [add, hr, defaultFlag?, hd, hkey, hk, hname]

theorem Meets.add {s : Supply} {rs : List Registration} (h : s.Meets rs)
    {r : Registration}
    (hsame : r.isDefault = true → s.otherDefault? r.name = none) :
    (s.add r).Meets (rs ++ [r]) := by
  cases hr : r.isDefault with
  | true =>
      refine ⟨?_, ?_, ?_⟩
      · simpa [Supply.add, hr] using h.nodup
      · intro key
        have hno : ¬ r.AsksFor false key := fun hasks =>
          absurd (hr.symm.trans hasks.1) (by decide)
        rw [demand_concat, if_neg hno, ← h.names]
        simp [Supply.add, hr]
      · intro key
        rw [defaultFlag?_add_default hr (hsame hr), demand_concat, h.default]
        simp [AsksFor, hr]
  | false =>
      refine ⟨?_, ?_, ?_⟩
      · simpa [Supply.add, hr] using Table.nodup_keys_alter h.nodup _ _
      · intro key
        rw [demand_concat, ← h.names]
        by_cases hk : r.key = key
        · subst hk
          simp [Supply.add, hr, AsksFor]
        · have hk' : key ≠ r.key := fun heq => hk heq.symm
          simp [Supply.add, hr, AsksFor, hk, Table.get?_alter_of_ne _ _ hk']
      · intro key
        have hno : ¬ r.AsksFor true key := fun hasks =>
          absurd (hr.symm.trans hasks.1) (by decide)
        rw [demand_concat, if_neg hno, ← h.default]
        simp [Supply.add, hr, defaultFlag?]

end Supply

end ClientSdk
