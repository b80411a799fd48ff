import ClientSdk.Ledger.Run
import ClientSdk.Proofs.Ledger.Supply

/-!
# What a ledger remembers of a run

A registration ends in one of five ways, and `Registers` lists them with all that
each of them checks and changes; nothing below looks into `register` again.

A ledger that `Records` a list of registrations holds what they add up to and
nothing else: its two tables are keyed by the sources among them, each supply meets
the registrations of its source, and the owner of each name is its source.  One step
keeps this, where the list grows by what the step grants (`Records.step`), and so
does a run (`Records.after`): the ledger after a run records the registrations that
were granted in it.
-/

namespace ClientSdk

namespace Ledger

/-! ## One registration -/

/-- Whether a registration is answered and not entered: nothing is wanted from the
importing file itself. -/
def skips (l : Ledger) (r : Registration) : Bool :=
  r.unlessOwn && r.origin == .ofPath l.file

def Fits (l : Ledger) (r : Registration) : Prop :=
  ∀ owner, Table.get? l.owners r.key = some owner → owner = r.origin

def entered (l : Ledger) (r : Registration) : Ledger :=
  (l.noteOwner r).setSupply ((l.supply r.origin).add r) r.origin

/-- The ways in which a registration ends. -/
inductive Registers (l : Ledger) (r : Registration) :
    Except Fault Unit × Ledger → Prop
  | skipped : l.skips r = true → Registers l r (.ok (), l)
  | shut : l.skips r = false → l.closed = true →
      Registers l r (.error (.ledgerClosed l.file), l)
  | foreign {owner : Origin} : l.skips r = false → l.closed = false →
      Table.get? l.owners r.key = some owner → owner ≠ r.origin →
      Registers l r (.error (.importCollision l.file r.name (.text owner.label)
        (.text r.origin.label)), l)
  | secondDefault {existing : Scalar} : l.skips r = false → l.closed = false →
      l.Fits r → r.isDefault = true →
      (l.supply r.origin).otherDefault? r.name = some existing →
      Registers l r (.error (.importCollision l.file
        (.text ("default of " ++ r.origin.label)) existing r.name), l.noteOwner r)
  | entered : l.skips r = false → l.closed = false → l.Fits r →
      (r.isDefault = true → (l.supply r.origin).otherDefault? r.name = none) →
      Registers l r (.ok (), l.entered r)

theorem registers_enter {l : Ledger} {r : Registration} (hskip : l.skips r = false)
    (hopen : l.closed = false) (hfits : l.Fits r) : l.Registers r (l.enter r) := by
  unfold enter
  cases hdef : r.isDefault with
  | false => exact .entered hskip hopen hfits (fun h => absurd (hdef ▸ h) (by decide))
  | true =>
      dsimp only
      rw [if_pos rfl]
      cases hother : (l.supply r.origin).otherDefault? r.name with
      | some existing => exact .secondDefault hskip hopen hfits hdef hother
      | none => exact .entered hskip hopen hfits (fun _ => hother)

theorem registers (l : Ledger) (r : Registration) : l.Registers r (l.register r) := by
  unfold register
  cases hskip : r.unlessOwn && r.origin == .ofPath l.file with
  | true => exact .skipped hskip
  | false =>
      cases hclosed : l.closed with
      | true => exact .shut hskip hclosed
      | false =>
          cases howner : Table.get? l.owners r.key with
          | none =>
              exact registers_enter hskip hclosed
                fun owner h => absurd (howner.symm.trans h) (by simp)
          | some owner =>
              by_cases heq : owner = r.origin
              · simp only [Bool.false_eq_true, if_false, if_pos heq]
                refine registers_enter hskip hclosed fun owner' h => ?_
                rw [howner, Option.some.injEq] at h
                exact h ▸ heq
              · simp only [Bool.false_eq_true, if_false, if_neg heq]
                exact .foreign hskip hclosed howner heq

/-! ## What writing a source changes -/

section Fields

variable (l : Ledger) (r : Registration)

theorem file_forFile (here : WorkingDirectory) (path : String) :
    (forFile here path).file = Path.clean path := by
  rw [forFile]

theorem here_forFile (here : WorkingDirectory) (path : String) :
    (forFile here path).here = here := by
  rw [forFile]

@[simp] theorem here_noteOwner : (l.noteOwner r).here = l.here := rfl
@[simp] theorem file_noteOwner : (l.noteOwner r).file = l.file := rfl
@[simp] theorem closed_noteOwner : (l.noteOwner r).closed = l.closed := rfl

@[simp] theorem here_entered : (l.entered r).here = l.here := by
  cases horigin : r.origin <;> simp [entered, setSupply, horigin]

@[simp] theorem file_entered : (l.entered r).file = l.file := by
  cases horigin : r.origin <;> simp [entered, setSupply, horigin]

@[simp] theorem closed_entered : (l.entered r).closed = l.closed := by
  cases horigin : r.origin <;> simp [entered, setSupply, horigin]

@[simp] theorem owners_entered : (l.entered r).owners = (l.noteOwner r).owners := by
  cases horigin : r.origin <;> simp [entered, setSupply, horigin]

/-- The first origin of a name stays its owner. -/
theorem owners_noteOwner (key : Scalar.Key) :
    Table.get? (l.noteOwner r).owners key =
      if key = r.key then some ((Table.get? l.owners r.key).getD r.origin)
      else Table.get? l.owners key := by
  by_cases hkey : key = r.key
  · subst hkey
    simp [noteOwner]
  · rw [if_neg hkey]
    exact Table.get?_alter_of_ne _ _ hkey

end Fields

theorem owner_noteOwner {l : Ledger} {r : Registration} (h : l.Fits r) :
    Table.get? (l.noteOwner r).owners r.key = some r.origin := by
  rw [owners_noteOwner, if_pos rfl]
  cases howner : Table.get? l.owners r.key with
  | none => rfl
  | some owner => rw [Option.getD_some, h owner howner]

theorem owners_noteOwner_of_some {l : Ledger} {r : Registration} {key : Scalar.Key}
    {owner : Origin} (h : Table.get? l.owners key = some owner) :
    Table.get? (l.noteOwner r).owners key = some owner := by
  rw [owners_noteOwner]
  split
  · next heq => rw [← heq, h, Option.getD_some]
  · exact h

@[simp] theorem here_register (l : Ledger) (r : Registration) :
    (l.register r).2.here = l.here := by
  have hcases := l.registers r
  generalize l.register r = answer at hcases ⊢
  cases hcases <;> simp

@[simp] theorem file_register (l : Ledger) (r : Registration) :
    (l.register r).2.file = l.file := by
  have hcases := l.registers r
  generalize l.register r = answer at hcases ⊢
  cases hcases <;> simp

@[simp] theorem closed_register (l : Ledger) (r : Registration) :
    (l.register r).2.closed = l.closed := by
  have hcases := l.registers r
  generalize l.register r = answer at hcases ⊢
  cases hcases <;> simp

/-! ## Tables of supplies -/

/-- A table that is keyed by the sources of one kind and holds what the
registrations of each of them add up to. -/
structure Covers (t : Table Supply) (origin : String → Origin)
    (rs : List Registration) : Prop where
  nodup : (Table.keys t).Nodup
  mem_keys : ∀ source, source ∈ Table.keys t ↔ ∃ r ∈ rs, r.origin = origin source
  meets : ∀ source, ((Table.get? t source).getD {}).Meets
    (rs.filter fun r => decide (r.origin = origin source))

variable {t : Table Supply} {origin : String → Origin} {rs : List Registration}

/-- An entry is what the registrations of its source add up to. -/
theorem Covers.meets_of_mem (h : Covers t origin rs) {source : String} {s : Supply}
    (hentry : (source, s) ∈ t) :
    s.Meets (rs.filter fun r => decide (r.origin = origin source)) := by
  have hmeets := h.meets source
  rwa [Table.get?_of_mem h.nodup hentry, Option.getD_some] at hmeets

theorem Covers.empty (origin : String → Origin) : Covers [] origin [] where
  nodup := List.nodup_nil
  mem_keys source := by simp [Table.keys]
  meets source := Supply.Meets.empty

/-- The supply of a source that is written to grows by the registration; all others
stay. -/
theorem Covers.insert (h : Covers t origin rs) (hinj : Function.Injective origin)
    {r : Registration} {source : String} (hr : r.origin = origin source)
    (hsame : r.isDefault = true →
      ((Table.get? t source).getD {}).otherDefault? r.name = none) :
    Covers (Table.insert t source (((Table.get? t source).getD {}).add r)) origin
      (rs ++ [r]) where
  nodup := Table.nodup_keys_alter h.nodup _ _
  mem_keys source' := by
    rw [Table.insert, Table.mem_keys_alter, h.mem_keys]
    constructor
    · rintro (⟨r', hr', horigin⟩ | rfl)
      · exact ⟨r', List.mem_append_left _ hr', horigin⟩
      · exact ⟨r, by simp, hr⟩
    · rintro ⟨r', hr', horigin⟩
      rcases List.mem_append.mp hr' with hr' | hr'
      · exact Or.inl ⟨r', hr', horigin⟩
      · rw [List.mem_singleton.mp hr', hr] at horigin
        exact Or.inr (hinj horigin).symm
  meets source' := by
    rw [List.filter_append]
    by_cases hsource : source' = source
    · subst hsource
      have hlast : [r].filter (fun r => decide (r.origin = origin source')) = [r] := by
        simp [hr]
      rw [Table.insert, Table.get?_alter_self, hlast]
      exact (h.meets source').add hsame
    · have hlast : [r].filter (fun r => decide (r.origin = origin source')) = [] := by
        have hne : ¬ r.origin = origin source' := fun heq =>
          hsource (hinj (hr.symm.trans heq)).symm
        simp [hne]
      rw [Table.insert, Table.get?_alter_of_ne _ _ hsource, hlast, List.append_nil]
      exact h.meets source'

/-- A registration of another kind of source leaves a table as it is. -/
theorem Covers.skip (h : Covers t origin rs) {r : Registration}
    (hr : ∀ source, r.origin ≠ origin source) : Covers t origin (rs ++ [r]) where
  nodup := h.nodup
  mem_keys source := by
    rw [h.mem_keys]
    constructor
    · rintro ⟨r', hr', horigin⟩
      exact ⟨r', List.mem_append_left _ hr', horigin⟩
    · rintro ⟨r', hr', horigin⟩
      rcases List.mem_append.mp hr' with hr' | hr'
      · exact ⟨r', hr', horigin⟩
      · exact absurd (List.mem_singleton.mp hr' ▸ horigin) (hr source)
  meets source := by
    have hlast : [r].filter (fun r => decide (r.origin = origin source)) = [] := by
      simp [hr source]
    rw [List.filter_append, hlast, List.append_nil]
    exact h.meets source

/-! ## The whole ledger -/

/-- A ledger that holds what registrations add up to. -/
structure Records (l : Ledger) (rs : List Registration) : Prop where
  libraries : Covers l.libraries .library rs
  files : Covers l.files .file rs
  owners : ∀ r ∈ rs, Table.get? l.owners r.key = some r.origin

theorem Records.forFile (here : WorkingDirectory) (path : String) :
    (forFile here path).Records [] where
  libraries := .empty _
  files := .empty _
  owners _ hr := absurd hr List.not_mem_nil

/-- A name has one origin. -/
theorem Records.origin_eq {l : Ledger} (h : l.Records rs) {r r' : Registration}
    (hr : r ∈ rs) (hr' : r' ∈ rs) (hkey : r.key = r'.key) : r.origin = r'.origin := by
  have howner := h.owners r hr
  rw [hkey, h.owners r' hr', Option.some.injEq] at howner
  exact howner.symm

theorem Records.supply {l : Ledger} (h : l.Records rs) (o : Origin) :
    (l.supply o).Meets (rs.filter fun r => decide (r.origin = o)) := by
  cases o with
  | file target => exact h.files.meets target
  | library name => exact h.libraries.meets name

theorem Records.noteOwner {l : Ledger} (h : l.Records rs) (r : Registration) :
    (l.noteOwner r).Records rs where
  libraries := h.libraries
  files := h.files
  owners r' hr' := owners_noteOwner_of_some (h.owners r' hr')

theorem Records.entered {l : Ledger} (h : l.Records rs) {r : Registration}
    (hfits : l.Fits r)
    (hsame : r.isDefault = true → (l.supply r.origin).otherDefault? r.name = none) :
    (l.entered r).Records (rs ++ [r]) := by
  have howners : ∀ r' ∈ rs ++ [r],
      Table.get? (l.entered r).owners r'.key = some r'.origin := by
    intro r' hr'
    rw [owners_entered]
    rcases List.mem_append.mp hr' with hr' | hr'
    · exact owners_noteOwner_of_some (h.owners r' hr')
    · rw [List.mem_singleton.mp hr']
      exact owner_noteOwner hfits
  cases horigin : r.origin with
  | file target =>
      rw [horigin] at hsame
      refine ⟨?_, ?_, howners⟩
      · rw [Ledger.entered, horigin]
        exact h.libraries.skip fun name heq => by simp [horigin] at heq
      · rw [Ledger.entered, horigin]
        exact h.files.insert (fun _ _ heq => Origin.file.inj heq) horigin hsame
  | library name =>
      rw [horigin] at hsame
      refine ⟨?_, ?_, howners⟩
      · rw [Ledger.entered, horigin]
        exact h.libraries.insert (fun _ _ heq => Origin.library.inj heq) horigin hsame
      · rw [Ledger.entered, horigin]
        exact h.files.skip fun target heq => by simp [horigin] at heq

/-! ## Runs -/

def grants (l : Ledger) : LedgerRequest → List Registration
  | .register r =>
      if l.skips r then []
      else match (l.register r).1 with
        | .ok _ => [r]
        | .error _ => []
  | _ => []

/-- The registrations among requests that are granted, in order. -/
def granted (l : Ledger) : List LedgerRequest → List Registration
  | [] => []
  | q :: qs => l.grants q ++ (l.step q).2.granted qs

theorem Records.register {l : Ledger} (h : l.Records rs) (r : Registration) :
    (l.register r).2.Records (rs ++ l.grants (.register r)) := by
  have hcases := l.registers r
  cases hanswer : l.register r with
  | mk result l' =>
      rw [hanswer] at hcases
      simp only [grants, hanswer]
      cases hcases with
      | skipped hskip => simpa [hskip] using h
      | shut hskip _ => simpa [hskip] using h
      | foreign hskip _ _ _ => simpa [hskip] using h
      | secondDefault hskip _ _ _ _ => simpa [hskip] using h.noteOwner r
      | entered hskip _ hfits hsame => simpa [hskip] using h.entered hfits hsame

/-- What one step preserves. -/
theorem Records.step {l : Ledger} (h : l.Records rs) (q : LedgerRequest) :
    (l.step q).2.Records (rs ++ l.grants q) := by
  have hclose : l.close.Records rs := ⟨h.libraries, h.files, h.owners⟩
  cases q with
  | register r => exact h.register r
  | isOwn path => simpa [Ledger.step, grants] using h
  | opening => simpa [Ledger.step, grants] using h
  | close => simpa [Ledger.step, grants] using hclose
  | write =>
      simp only [Ledger.step, grants, List.append_nil, toScript]
      cases l.closed with
      | true => exact h
      | false => exact hclose

/-- What a run preserves. -/
theorem Records.after {l : Ledger} (h : l.Records rs) (qs : List LedgerRequest) :
    (l.after qs).Records (rs ++ l.granted qs) := by
  induction qs generalizing l rs with
  | nil => simpa [granted] using h
  | cons q qs ih =>
      have hnext := ih (h.step q)
      rwa [List.append_assoc] at hnext

/-- The ledger of a file records what was granted since it was made. -/
theorem records_after (here : WorkingDirectory) (file : String) (qs : List LedgerRequest) :
    ((Ledger.forFile here file).after qs).Records ((Ledger.forFile here file).granted qs) :=
  (Records.forFile here file).after qs

end Ledger

end ClientSdk
