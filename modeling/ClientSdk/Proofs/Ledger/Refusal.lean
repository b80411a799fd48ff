import ClientSdk.Proofs.Ledger.History

/-!
# What a refused registration leaves behind

A ledger is seen through its replies, and through whether it is empty and closed.
Two ledgers that differ in their journals alone, and in how their owners are listed,
look the same for ever (`SameView.observe`).

A refused registration should leave nothing behind.  A closed ledger and a name of
another source are noticed before anything is written, so these refusals keep the
ledger as it is.  A second default name is noticed too late: its owner has been
noted.  This is seen later if and only if the name had no owner before
(`refused_unseen_iff`).
-/

namespace ClientSdk

namespace Ledger

/-- What can be seen of a run: the replies, and after each of them whether the ledger
is empty and closed. -/
def observe (l : Ledger) (qs : List LedgerRequest) :
    List (Except Fault LedgerReply × Bool × Bool) :=
  (l.run qs).map fun answer => (answer.1, answer.2.empty, answer.2.closed)

theorem observe_cons (l : Ledger) (q : LedgerRequest) (qs : List LedgerRequest) :
    l.observe (q :: qs) =
      ((l.step q).1, (l.step q).2.empty, (l.step q).2.closed) ::
        (l.step q).2.observe qs := rfl

/-- Two ledgers that give the same answers now. -/
structure SameView (l l' : Ledger) : Prop where
  here : l'.here = l.here
  file : l'.file = l.file
  libraries : l'.libraries = l.libraries
  files : l'.files = l.files
  owners : ∀ key, Table.get? l'.owners key = Table.get? l.owners key
  closed : l'.closed = l.closed

variable {l l' : Ledger} {r : Registration}

/-- A registration ends in one way only. -/
theorem Registers.eq {answer : Except Fault Unit × Ledger} (h : l.Registers r answer) :
    l.register r = answer := by
  have hskips : l.skips r = (r.unlessOwn && r.origin == .ofPath l.file) := rfl
  cases h with
  | skipped hskip => rw [register, ← hskips, if_pos hskip]
  | shut hskip hclosed => simp [register, ← hskips, hskip, hclosed]
  | foreign hskip hopen howner hne =>
      simp [register, ← hskips, hskip, hopen, howner, hne]
  | @secondDefault existing hskip hopen hfits hdef hother =>
      have henter : l.enter r = (.error (.importCollision l.file
          (.text ("default of " ++ r.origin.label)) existing r.name),
            l.noteOwner r) := by
        simp [enter, hdef, hother]
      cases howner : Table.get? l.owners r.key with
      | none => simp [register, ← hskips, hskip, hopen, howner, henter]
      | some owner =>
          simp [register, ← hskips, hskip, hopen, howner, henter, hfits owner howner]
  | entered hskip hopen hfits hsame =>
      have henter : l.enter r = (.ok (), l.entered r) := by
        cases hdef : r.isDefault with
        | false => simp [enter, hdef, Ledger.entered]
        | true => simp [enter, hdef, hsame hdef, Ledger.entered]
      cases howner : Table.get? l.owners r.key with
      | none => simp [register, ← hskips, hskip, hopen, howner, henter]
      | some owner =>
          simp [register, ← hskips, hskip, hopen, howner, henter, hfits owner howner]

namespace SameView

theorem skips (h : SameView l l') (r : Registration) : l'.skips r = l.skips r := by
  simp [Ledger.skips, h.file]

theorem supply (h : SameView l l') (o : Origin) : l'.supply o = l.supply o := by
  cases o <;> simp [Ledger.supply, h.libraries, h.files]

theorem fits (h : SameView l l') (hfits : l.Fits r) : l'.Fits r :=
  fun owner howner => hfits owner ((h.owners r.key).symm.trans howner)

theorem close (h : SameView l l') : SameView l.close l'.close :=
  ⟨h.here, h.file, h.libraries, h.files, h.owners, rfl⟩

theorem noteOwner (h : SameView l l') (r : Registration) :
    SameView (l.noteOwner r) (l'.noteOwner r) where
  here := h.here
  file := h.file
  libraries := h.libraries
  files := h.files
  owners key := by simp only [owners_noteOwner, h.owners]
  closed := h.closed

theorem entered (h : SameView l l') (r : Registration) :
    SameView (l.entered r) (l'.entered r) := by
  have hnoted := h.noteOwner r
  unfold Ledger.entered
  rw [h.supply]
  cases r.origin with
  | file target =>
      exact ⟨hnoted.here, hnoted.file, hnoted.libraries,
        congrArg (Table.insert · target _) hnoted.files, hnoted.owners, hnoted.closed⟩
  | library name =>
      exact ⟨hnoted.here, hnoted.file, congrArg (Table.insert · name _) hnoted.libraries,
        hnoted.files, hnoted.owners, hnoted.closed⟩

/-- A registration that ends in one way with one of the ledgers ends in the same way
with the other. -/
theorem registers (h : SameView l l') {reply : Except Fault Unit} {m : Ledger}
    (hcases : l.Registers r (reply, m)) :
    ∃ m', l'.Registers r (reply, m') ∧ SameView m m' := by
  have hskips := h.skips r
  cases hcases with
  | skipped hskip => exact ⟨l', .skipped (hskips.trans hskip), h⟩
  | shut hskip hclosed =>
      refine ⟨l', ?_, h⟩
      rw [← h.file]
      exact .shut (hskips.trans hskip) (h.closed.trans hclosed)
  | foreign hskip hopen howner hne =>
      refine ⟨l', ?_, h⟩
      rw [← h.file]
      exact .foreign (hskips.trans hskip) (h.closed.trans hopen)
        ((h.owners r.key).trans howner) hne
  | secondDefault hskip hopen hfits hdef hother =>
      refine ⟨l'.noteOwner r, ?_, h.noteOwner r⟩
      rw [← h.file]
      refine .secondDefault (hskips.trans hskip) (h.closed.trans hopen) (h.fits hfits)
        hdef ?_
      rwa [h.supply]
  | entered hskip hopen hfits hsame =>
      refine ⟨l'.entered r, ?_, h.entered r⟩
      refine .entered (hskips.trans hskip) (h.closed.trans hopen) (h.fits hfits) ?_
      rwa [h.supply]

theorem register (h : SameView l l') (r : Registration) :
    (l'.register r).1 = (l.register r).1 ∧
      SameView (l.register r).2 (l'.register r).2 := by
  obtain ⟨m', hcases, hview⟩ := h.registers (l.registers r)
  rw [hcases.eq]
  exact ⟨rfl, hview⟩

theorem toScript (h : SameView l l') : l'.toScript.1 = l.toScript.1 ∧
    SameView l.toScript.2 l'.toScript.2 := by
  have hstatements : l'.statements = l.statements := by
    simp [Ledger.statements, bySpecifier, specifier, h.here, h.file, h.libraries, h.files]
  simp only [Ledger.toScript, h.closed, h.file, hstatements]
  cases l.closed with
  | true => exact ⟨rfl, h⟩
  | false => exact ⟨rfl, h.close⟩

/-- What one step preserves. -/
theorem step (h : SameView l l') (q : LedgerRequest) :
    (l'.step q).1 = (l.step q).1 ∧ SameView (l.step q).2 (l'.step q).2 := by
  cases q with
  | register r =>
      obtain ⟨hreply, hview⟩ := h.register r
      exact ⟨congrArg (Except.map fun _ => _) hreply, hview⟩
  | isOwn path => exact ⟨by simp [Ledger.step, isOwn, h.file], h⟩
  | opening => exact ⟨rfl, h⟩
  | close => exact ⟨rfl, h.close⟩
  | write =>
      obtain ⟨hreply, hview⟩ := h.toScript
      exact ⟨congrArg (Except.map _) hreply, hview⟩

/-- Ledgers that give the same answers now give the same answers for ever. -/
theorem observe (h : SameView l l') (qs : List LedgerRequest) :
    l'.observe qs = l.observe qs := by
  induction qs generalizing l l' with
  | nil => rfl
  | cons q qs ih =>
      obtain ⟨hreply, hview⟩ := h.step q
      have hempty : (l'.step q).2.empty = (l.step q).2.empty := by
        simp [empty, hview.libraries, hview.files]
      rw [observe_cons, observe_cons, hreply, hempty, hview.closed, ih hview]

end SameView

theorem sameView_noteOwner {owner : Origin}
    (howner : Table.get? l.owners r.key = some owner) :
    SameView l (l.noteOwner r) where
  here := rfl
  file := rfl
  libraries := rfl
  files := rfl
  owners key := by
    rw [owners_noteOwner]
    split
    · next hkey => rw [hkey, howner, Option.getD_some]
    · rfl
  closed := rfl

/-! ## The trace of a second default name -/

def otherOrigin : Origin → Origin
  | .file target => .library target
  | .library name => .file name

theorem otherOrigin_ne (o : Origin) : otherOrigin o ≠ o := by
  cases o <;> simp [otherOrigin]

theorem observe_noteOwner_ne (hopen : l.closed = false)
    (howner : Table.get? l.owners r.key = none) :
    ∃ qs, (l.noteOwner r).observe qs ≠ l.observe qs := by
  have hfits : ∀ r' : Registration, r'.key = r.key → l.Fits r' := by
    intro r' hkey owner h
    rw [hkey, howner] at h
    exact absurd h (by simp)
  -- The probe asks for the name from a source that the refused registration is not from.
  generalize hprobe : Registration.mk r.name (otherOrigin r.origin) true false false =
    probe
  have hkey : probe.key = r.key := by rw [← hprobe]; rfl
  have horigin : probe.origin = otherOrigin r.origin := by rw [← hprobe]
  have hskip : ∀ m : Ledger, m.skips probe = false := by
    intro m
    rw [← hprobe]
    rfl
  have hgranted : l.Registers probe (.ok (), l.entered probe) := by
    refine .entered (hskip l) hopen (hfits probe hkey) ?_
    rw [← hprobe]
    exact fun h => absurd h Bool.false_ne_true
  have hrefused : (l.noteOwner r).Registers probe (.error (.importCollision l.file
      probe.name (.text r.origin.label) (.text probe.origin.label)),
        l.noteOwner r) := by
    refine .foreign (hskip _) hopen (hkey ▸ owner_noteOwner (hfits r rfl)) ?_
    exact horigin ▸ (otherOrigin_ne r.origin).symm
  refine ⟨[.register probe], ?_⟩
  simp [observe_cons, step, hgranted.eq, hrefused.eq, Except.map]

/-- A refused registration is never seen again, if the ledger was closed or the name
had an owner; else it is. -/
theorem refused_unseen_iff {fault : Fault}
    (h : l.register r = (.error fault, l')) :
    (∀ qs, l'.observe qs = l.observe qs) ↔
      l.closed = true ∨ ∃ owner, Table.get? l.owners r.key = some owner := by
  have hcases := l.registers r
  rw [h] at hcases
  cases hcases with
  | shut _ hclosed => exact ⟨fun _ => Or.inl hclosed, fun _ _ => rfl⟩
  | foreign _ _ howner _ => exact ⟨fun _ => Or.inr ⟨_, howner⟩, fun _ _ => rfl⟩
  | secondDefault _ hopen _ _ _ =>
      constructor
      · intro hsame
        cases howner : Table.get? l.owners r.key with
        | some owner => exact Or.inr ⟨owner, rfl⟩
        | none =>
            obtain ⟨qs, hne⟩ := observe_noteOwner_ne hopen howner
            exact absurd (hsame qs) hne
      · rintro (hclosed | ⟨owner, howner⟩) qs
        · exact absurd (hclosed.symm.trans hopen) (by decide)
        · exact (sameView_noteOwner howner).observe qs

/-- A library that has a default name is refused another one, which it gives under
its own name already: nothing is seen of it. -/
theorem known_second_default_unseen :
    let l := (forFile .root "src/index.ts").after
      [.register { name := .text "A", origin := .library "lib", isDefault := true },
        .register (.fromLibrary "lib" "B")]
    let r : Registration :=
      { name := .text "B", origin := .library "lib", isDefault := true }
    (l.register r).1 = .error (.importCollision "src/index.ts"
        (.text "default of lib") (.text "A") (.text "B")) ∧
      ∀ qs, (l.register r).2.observe qs = l.observe qs := by
  intro l r
  have hrefused : l.register r = (.error (.importCollision "src/index.ts"
      (.text "default of lib") (.text "A") (.text "B")), (l.register r).2) := rfl
  exact ⟨rfl, (refused_unseen_iff hrefused).mpr (Or.inr ⟨.library "lib", rfl⟩)⟩

/-- A second default name is refused, and yet its name is taken: a file that could
give it before cannot any more. -/
theorem second_default_leaves_trace :
    let l := (forFile .root "src/index.ts").after
      [.register { name := .text "A", origin := .library "lib", isDefault := true }]
    let r : Registration :=
      { name := .text "B", origin := .library "lib", isDefault := true }
    (l.register r).1 = .error (.importCollision "src/index.ts"
        (.text "default of lib") (.text "A") (.text "B")) ∧
      l.observe [.register (.fromFile "src/b.ts" "B")] =
        [(.ok (.registered "B"), false, false)] ∧
      (l.register r).2.observe [.register (.fromFile "src/b.ts" "B")] =
        [(.error (.importCollision "src/index.ts" (.text "B") (.text "lib")
          (.text "src/b")), false, false)] :=
  ⟨rfl, rfl, rfl⟩

end Ledger

end ClientSdk
