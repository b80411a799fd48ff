import ClientSdk.Ledger

/-!
# Drafts

Text on its way into a file: what it needs imported, in order, and what comes
out, or why nothing does.  A draft is written without a ledger; `Ledger.fulfil`
grants its wants one after the other, so a refusal comes before any fault that
the draft itself runs into later.
-/

namespace ClientSdk

/-- A result together with the registrations that are wanted before it. -/
structure Draft (α : Type) where
  wants : List Registration
  result : Except Fault α

namespace Draft

variable {α β : Type}

protected def pure (a : α) : Draft α :=
  ⟨[], .ok a⟩

protected def bind (d : Draft α) (f : α → Draft β) : Draft β :=
  match d.result with
  | .ok a => ⟨d.wants ++ (f a).wants, (f a).result⟩
  | .error fault => ⟨d.wants, .error fault⟩

instance : Monad Draft where
  pure := Draft.pure
  bind := Draft.bind

/-- A result or fault without wants. -/
def ofExcept (r : Except Fault α) : Draft α :=
  ⟨[], r⟩

instance : MonadLift (Except Fault) Draft where
  monadLift := ofExcept

def fail (fault : Fault) : Draft α :=
  ⟨[], .error fault⟩

def want (r : Registration) : Draft String :=
  ⟨[r], .ok r.name.display⟩

theorem pure_def (a : α) : (pure a : Draft α) = ⟨[], .ok a⟩ := rfl

theorem bind_ok {d : Draft α} {a : α} (h : d.result = .ok a)
    (f : α → Draft β) :
    d >>= f = ⟨d.wants ++ (f a).wants, (f a).result⟩ := by
  show Draft.bind d f = _
  simp [Draft.bind, h]

theorem bind_error {d : Draft α} {fault : Fault}
    (h : d.result = .error fault) (f : α → Draft β) :
    d >>= f = ⟨d.wants, .error fault⟩ := by
  show Draft.bind d f = _
  simp [Draft.bind, h]

theorem id_map (d : Draft α) : id <$> d = d := by
  obtain ⟨w, r⟩ := d
  cases r <;> simp [Functor.map, Draft.bind, Draft.pure]

theorem pure_bind (a : α) (f : α → Draft β) : (pure a >>= f) = f a := by
  simp [Bind.bind, Pure.pure, Draft.bind, Draft.pure]

theorem bind_assoc {γ : Type} (d : Draft α) (f : α → Draft β)
    (g : β → Draft γ) : d >>= f >>= g = d >>= fun a => f a >>= g := by
  obtain ⟨w, r⟩ := d
  cases r with
  | error fault => simp [Bind.bind, Draft.bind]
  | ok a =>
    simp only [Bind.bind, Draft.bind]
    cases (f a).result <;> simp [List.append_assoc]

instance : LawfulMonad Draft :=
  LawfulMonad.mk' _ id_map pure_bind bind_assoc

end Draft

/-- Grants the wants of a draft and gives its result. -/
def Ledger.fulfil {α : Type} (l : Ledger) (d : Draft α) :
    Except Fault α × Ledger :=
  match l.registerAll d.wants with
  | (.ok (), l') => (d.result, l')
  | (.error fault, l') => (.error fault, l')

end ClientSdk
