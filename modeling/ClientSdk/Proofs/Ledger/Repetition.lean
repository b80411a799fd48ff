import ClientSdk.Proofs.Ledger.Gains
import ClientSdk.Proofs.Ledger.Refusal
import ClientSdk.Proofs.Stub.Wants

/-!
# Writing a second time

A draft is granted as a whole, and this is to grant its parts as they come (`fulfil_bind`).
What it gives does not depend on the ledger that grants it.  What it leaves there is left
once: a ledger `Holds` all that it has granted, and keeps holding it whatever else it
grants (`Holds.registerAll`), and what it holds it grants again with nothing to be seen of
it (`Holds.register_again`).  So a draft that was granted is granted again, as if it were not
(`fulfil_again`).

Default names have to be texts: an integer and the float equal to it would be one name, and
the later of them the one that is written.  The names that stubs want are of this kind.
-/

namespace ClientSdk

/-! ## What a source supplies already -/

/-- What a supply does not get from a registration, because it has it. -/
inductive Supply.Has (s : Supply) (r : Registration) : Prop
  | default {typeOnly : Bool} : r.isDefault = true → s.default = some (r.name, typeOnly) →
      (typeOnly && r.typeOnly) = typeOnly → Has s r
  | named {typeOnly : Bool} : r.isDefault = false → Table.get? s.names r.key = some typeOnly →
      (typeOnly && r.typeOnly) = typeOnly → Has s r

namespace Supply

variable {s : Supply} {r r' : Registration}

theorem has_add (s : Supply) (r : Registration) : (s.add r).Has r := by
  have hself : ∀ flag : Bool, ((flag && r.typeOnly) && r.typeOnly) = (flag && r.typeOnly) :=
    fun flag => by rw [Bool.and_assoc, Bool.and_self]
  cases hdef : r.isDefault with
  | true =>
      cases hs : s.default with
      | none =>
          have hdefault : (s.add r).default = some (r.name, r.typeOnly) := by
            simp [add, hdef, hs]
          exact .default hdef hdefault (Bool.and_self _)
      | some p =>
          have hdefault : (s.add r).default = some (r.name, p.2 && r.typeOnly) := by
            simp [add, hdef, hs]
          exact .default hdef hdefault (hself _)
  | false =>
      refine .named hdef ?_ (hself ((Table.get? s.names r.key).getD true))
      simp [add, hdef]

theorem Has.add_eq (h : s.Has r) : s.add r = s := by
  obtain ⟨default, names⟩ := s
  cases h with
  | default hdef hs hflag =>
      dsimp only at hs
      simp [add, hdef, hs, hflag]
  | named hdef hs hflag =>
      have hnames := Table.alter_eq_self (f := fun t => t.getD true && r.typeOnly) hs hflag
      simp [add, hdef, hnames]

theorem Has.otherDefault? (h : s.Has r) (hdef : r.isDefault = true) :
    s.otherDefault? r.name = none := by
  cases h with
  | default _ hs _ => simp [Supply.otherDefault?, hs]
  | named hnamed _ _ => exact absurd (hnamed.symm.trans hdef) (by decide)

theorem and_and_eq {a b c : Bool} (h : (a && b) = a) : ((a && c) && b) = (a && c) := by
  rw [Bool.and_right_comm, h]

/-- What a supply has, it keeps. -/
theorem Has.add (h : s.Has r) (htext : r.isDefault = true → ∃ name, r.name = .text name)
    (hsame : r'.isDefault = true → s.otherDefault? r'.name = none) : (s.add r').Has r := by
  cases h with
  | @default typeOnly hdef hs hflag =>
      cases hdef' : r'.isDefault with
      | false => exact .default hdef (by simp [Supply.add, hdef', hs]) hflag
      | true =>
          obtain ⟨name, hname⟩ := htext hdef
          have hkey := otherDefault?_eq_none_iff.mp (hsame hdef') _ _ hs
          have hname' : r'.name = r.name := by
            rw [hname] at hkey ⊢
            exact Scalar.eq_text_of_key hkey.symm
          have hdefault : (s.add r').default = some (r.name, typeOnly && r'.typeOnly) := by
            simp [Supply.add, hdef', hs, hname']
          exact .default hdef hdefault (and_and_eq hflag)
  | @named typeOnly hdef hs hflag =>
      cases hdef' : r'.isDefault with
      | true => exact .named hdef (by simp [Supply.add, hdef', hs]) hflag
      | false =>
          by_cases hkey : r.key = r'.key
          · have hnamed : Table.get? (s.add r').names r.key = some (typeOnly && r'.typeOnly) := by
              rw [hkey] at hs ⊢
              simp [Supply.add, hdef', hs]
            exact .named hdef hnamed (and_and_eq hflag)
          · refine .named hdef ?_ hflag
            simp [Supply.add, hdef', Table.get?_alter_of_ne _ _ hkey, hs]

theorem not_has_empty : ¬ ({} : Supply).Has r := by
  intro h
  cases h with
  | default _ hs _ => cases hs
  | named _ hs _ => cases hs

end Supply

namespace Ledger

variable {l l' : Ledger} {r r' : Registration} {rs : List Registration}

/-! ## What a ledger holds -/

/-- A registration that a ledger has nothing to do for. -/
inductive Holds (l : Ledger) (r : Registration) : Prop
  | skipped : l.skips r = true → Holds l r
  | entered : l.skips r = false → l.closed = false →
      Table.get? l.owners r.key = some r.origin → (l.supply r.origin).Has r → Holds l r

theorem holds_of_register (h : l.register r = (.ok (), l')) : l'.Holds r := by
  have hcases := l.registers r
  rw [h] at hcases
  cases hcases with
  | skipped hskip => exact .skipped hskip
  | entered hskip hopen hfits _ =>
      refine .entered (by simpa [skips] using hskip) (by simpa using hopen) ?_ ?_
      · rw [owners_entered]
        exact owner_noteOwner hfits
      · rw [supply_entered, if_pos rfl]
        exact Supply.has_add _ r

/-- What one registration preserves. -/
theorem Holds.register (h : l.Holds r)
    (htext : r.isDefault = true → ∃ name, r.name = .text name)
    (hgranted : l.register r' = (.ok (), l')) : l'.Holds r := by
  have hcases := l.registers r'
  rw [hgranted] at hcases
  cases hcases with
  | skipped _ => exact h
  | entered _ _ _ hsame =>
      cases h with
      | skipped hskip => exact .skipped (by simpa [skips] using hskip)
      | entered hskip hopen howner hhas =>
          refine .entered (by simpa [skips] using hskip) (by simpa using hopen) ?_ ?_
          · rw [owners_entered]
            exact owners_noteOwner_of_some howner
          · rw [supply_entered]
            split
            · next heq =>
                rw [heq] at hhas
                exact hhas.add htext hsame
            · exact hhas

theorem registerAll_cons_eq_ok :
    l.registerAll (r :: rs) = (.ok (), l') ↔
      ∃ m, l.register r = (.ok (), m) ∧ m.registerAll rs = (.ok (), l') := by
  rw [registerAll]
  cases hanswer : l.register r with
  | mk result m =>
      cases result with
      | ok u => simp
      | error fault => simp

/-- What a run of registrations preserves. -/
theorem Holds.registerAll (h : l.Holds r)
    (htext : r.isDefault = true → ∃ name, r.name = .text name)
    (hgranted : l.registerAll rs = (.ok (), l')) : l'.Holds r := by
  induction rs generalizing l with
  | nil =>
      cases hgranted
      exact h
  | cons r' rs ih =>
      obtain ⟨m, hfirst, hrest⟩ := registerAll_cons_eq_ok.mp hgranted
      exact ih (h.register htext hfirst) hrest

theorem holds_of_registerAll
    (htext : ∀ r ∈ rs, r.isDefault = true → ∃ name, r.name = .text name)
    (hgranted : l.registerAll rs = (.ok (), l')) : ∀ r ∈ rs, l'.Holds r := by
  induction rs generalizing l with
  | nil => exact fun r hr => absurd hr List.not_mem_nil
  | cons r' rs ih =>
      obtain ⟨m, hfirst, hrest⟩ := registerAll_cons_eq_ok.mp hgranted
      intro r hr
      rcases List.mem_cons.mp hr with rfl | hr
      · exact (holds_of_register hfirst).registerAll (htext r List.mem_cons_self) hrest
      · exact ih (fun r hr => htext r (List.mem_cons_of_mem _ hr)) hrest r hr

/-! ## What is held is granted again -/

theorem setSupply_eq_self {o : Origin} (hhas : (l.supply o).Has r) :
    l.setSupply (l.supply o) o = l := by
  have hkept : ∀ (t : Table Supply) (source : String), ((Table.get? t source).getD {}).Has r →
      Table.insert t source ((Table.get? t source).getD {}) = t := by
    intro t source hhas
    cases hs : Table.get? t source with
    | none =>
        rw [hs] at hhas
        exact absurd hhas Supply.not_has_empty
    | some s => exact Table.alter_eq_self hs rfl
  cases o with
  | file target => rw [supply, setSupply, hkept l.files target hhas]
  | library name => rw [supply, setSupply, hkept l.libraries name hhas]

theorem entered_eq_noteOwner (hhas : (l.supply r.origin).Has r) : l.entered r = l.noteOwner r := by
  have hsupply : (l.noteOwner r).supply r.origin = l.supply r.origin := by
    cases r.origin <;> rfl
  rw [entered, hhas.add_eq, ← hsupply]
  exact setSupply_eq_self (hsupply ▸ hhas)

theorem SameView.refl (l : Ledger) : SameView l l :=
  ⟨rfl, rfl, rfl, rfl, fun _ => rfl, rfl⟩

theorem SameView.trans {l'' : Ledger} (h : SameView l l') (h' : SameView l' l'') :
    SameView l l'' where
  here := h'.here.trans h.here
  file := h'.file.trans h.file
  libraries := h'.libraries.trans h.libraries
  files := h'.files.trans h.files
  owners key := (h'.owners key).trans (h.owners key)
  closed := h'.closed.trans h.closed

theorem Holds.of_sameView (h : l.Holds r) (hview : SameView l l') : l'.Holds r := by
  cases h with
  | skipped hskip => exact .skipped ((hview.skips r).trans hskip)
  | entered hskip hopen howner hhas =>
      refine .entered ((hview.skips r).trans hskip) (hview.closed.trans hopen)
        ((hview.owners _).trans howner) ?_
      rwa [hview.supply]

theorem Holds.register_again (h : l.Holds r) :
    ∃ l', l.register r = (.ok (), l') ∧ SameView l l' := by
  cases h with
  | skipped hskip => exact ⟨l, (Registers.skipped hskip).eq, .refl l⟩
  | entered hskip hopen howner hhas =>
      have hfits : l.Fits r := fun owner h => Option.some.inj (h.symm.trans howner)
      refine ⟨l.entered r, (Registers.entered hskip hopen hfits hhas.otherDefault?).eq, ?_⟩
      rw [entered_eq_noteOwner hhas]
      exact sameView_noteOwner howner

theorem registerAll_again (h : ∀ r ∈ rs, l.Holds r) :
    ∃ l', l.registerAll rs = (.ok (), l') ∧ SameView l l' := by
  induction rs generalizing l with
  | nil => exact ⟨l, rfl, .refl l⟩
  | cons r rs ih =>
      obtain ⟨m, hfirst, hview⟩ := (h r List.mem_cons_self).register_again
      obtain ⟨l', hrest, hview'⟩ :=
        ih fun r' hr' => (h r' (List.mem_cons_of_mem _ hr')).of_sameView hview
      exact ⟨l', registerAll_cons_eq_ok.mpr ⟨m, hfirst, hrest⟩, hview.trans hview'⟩

/-! ## Drafts -/

theorem registerAll_append (l : Ledger) (rs rs' : List Registration) :
    l.registerAll (rs ++ rs') =
      match l.registerAll rs with
      | (.ok (), m) => m.registerAll rs'
      | (.error fault, m) => (.error fault, m) := by
  induction rs generalizing l with
  | nil => rfl
  | cons r rs ih =>
      rw [List.cons_append, registerAll, registerAll]
      cases l.register r with
      | mk result m =>
          cases result with
          | ok u => exact ih m
          | error fault => rfl

/-- Of two drafts, the second one is granted by the ledger that the first one leaves: to
collect all that is wanted and grant it at the end is to grant it as it comes. -/
theorem fulfil_bind {α β : Type} (l : Ledger) (d : Draft α) (f : α → Draft β) :
    l.fulfil (d >>= f) =
      match l.fulfil d with
      | (.ok a, m) => m.fulfil (f a)
      | (.error fault, m) => (.error fault, m) := by
  cases hresult : d.result with
  | error fault =>
      rw [Draft.bind_error hresult]
      simp only [fulfil, hresult]
      split <;> rfl
  | ok a =>
      rw [Draft.bind_ok hresult]
      simp only [fulfil, registerAll_append, hresult]
      cases l.registerAll d.wants with
      | mk result m => cases result <;> rfl

theorem fulfil_map {α β : Type} (l : Ledger) (f : α → β) (d : Draft α) :
    l.fulfil (f <$> d) = ((l.fulfil d).1.map f, (l.fulfil d).2) := by
  rw [map_eq_pure_bind, fulfil_bind]
  cases l.fulfil d with
  | mk result m => cases result <;> rfl

theorem exists_fulfil_eq {α : Type} {d : Draft α} {a : α} (h : (l.fulfil d).1 = .ok a) :
    ∃ l', l.fulfil d = (.ok a, l') :=
  ⟨_, Prod.ext h rfl⟩

theorem fulfil_again {α : Type} {d : Draft α} {a : α} (hwants : ∀ r ∈ d.wants, r.Modest)
    (h : l.fulfil d = (.ok a, l')) :
    ∃ l'', l'.fulfil d = (.ok a, l'') ∧ SameView l' l'' := by
  obtain ⟨hgranted, hresult⟩ := registerAll_of_fulfil h
  obtain ⟨l'', hagain, hview⟩ :=
    registerAll_again (holds_of_registerAll (fun r hr => (hwants r hr).isText) hgranted)
  refine ⟨l'', ?_, hview⟩
  rw [fulfil, hagain, hresult]

end Ledger

/-! ## Stubs and types -/

/-- A draft that gives the same whatever ledger grants it, and that can be granted again
without a trace. -/
structure Draft.Repeats {α : Type} (d : Draft α) : Prop where
  same : ∀ {l l' : Ledger} {a a' : α}, (l.fulfil d).1 = .ok a → (l'.fulfil d).1 = .ok a' →
    a = a'
  again : ∀ {l l' : Ledger} {a : α}, l.fulfil d = (.ok a, l') →
    ∃ l'', l'.fulfil d = (.ok a, l'') ∧ ∀ qs, l''.observe qs = l'.observe qs

theorem Draft.Usual.repeats {α : Type} {d : Draft α} (hd : d.Usual) : d.Repeats where
  same h h' := by
    obtain ⟨m, hm⟩ := Ledger.exists_fulfil_eq h
    obtain ⟨m', hm'⟩ := Ledger.exists_fulfil_eq h'
    have hresult := (Ledger.registerAll_of_fulfil hm).2
    exact Except.ok.inj (hresult.symm.trans (Ledger.registerAll_of_fulfil hm').2)
  again h := by
    obtain ⟨l'', hagain, hview⟩ := Ledger.fulfil_again hd.wants h
    exact ⟨l'', hagain, hview.observe⟩

/-- The stub of a route and the text of a type depend on the data and the options alone, and
to write them a second time into a file changes nothing. -/
theorem stub_and_type_repeat (c : Config) :
    (∀ r : Route, (r.stub c).Repeats) ∧
      ∀ (inEscape : Bool) (shape : TypeShape),
        (TypeExpr.text <$> TypeExpr.ofShape c inEscape shape).Repeats := by
  constructor
  · intro r
    exact Draft.Usual.repeats ((r.keeps_stub c).mono fun _ h => h.modest)
  · intro inEscape shape
    have hkeeps := (TypeExpr.keeps_ofShape c inEscape shape).map TypeExpr.text
    exact Draft.Usual.repeats (hkeeps.mono fun _ h => h.modest)

/-- A route that refers to a type of its own file in one ledger and to that of another file
in the other, where much of what it wants is there already. -/
theorem stub_repeats_of_declared :
    let r : Route :=
      { name := .text "store", method := "POST", path := .text "/notes",
        accessors := [.text "store"], output := { name := .text "INote" },
        parameters := [
          { name := .text "input", category := .body,
            type := { name := .text "IStore", shape := some { objects := [
              { properties := [
                  { key := { constants := [{ kind := .text "string", values := [.text "note"] }] },
                    value := { aliases := [{ name := .text "INote" }] } },
                  { key := { constants := [{ kind := .text "string", values := [.text "id"] }] },
                    value := { atomics := [{ kind := .text "string", tags := [[
                      { name := "Format<\"uuid\">", kind := .text "format",
                        value := .text "uuid" }]] }] } }] }] } } }] }
    let c : Config := { output := "src/api", simulate := true, clone := true }
    let l := Ledger.forFile .root "src/api/structures/INote.ts"
    let l' := (Ledger.forFile .root "src/api/functional/index.ts").after
      [.register .typia, .register (.fromLibrary c.fetcher "IConnection"),
        .register (.fromFile "src/api/structures/INote.ts" "INote")]
    ∃ text m m', l.fulfil (r.stub c) = (.ok text, m) ∧ (l'.fulfil (r.stub c)).1 = .ok text ∧
      m.fulfil (r.stub c) = (.ok text, m') ∧ ∀ qs, m'.observe qs = m.observe qs := by
  intro r c l l'
  have hrepeats := (stub_and_type_repeat c).1 r
  have hfirst : (l.fulfil (r.stub c)).1.toOption.any (fun _ => true) = true := by decide +kernel
  have hother : (l'.fulfil (r.stub c)).1.toOption.any (fun _ => true) = true := by
    decide +kernel
  obtain ⟨text, hfirst, -⟩ := Except.exists_of_any hfirst
  obtain ⟨text', hother, -⟩ := Except.exists_of_any hother
  obtain rfl := hrepeats.same hfirst hother
  obtain ⟨m, hgranted⟩ := Ledger.exists_fulfil_eq hfirst
  obtain ⟨m', hagain, hview⟩ := hrepeats.again hgranted
  exact ⟨text, m, m', hgranted, hother, hagain, hview⟩

end ClientSdk
