import ClientSdk.Ledger.Script

/-!
# Runs of a ledger

A ledger as a machine: what it can be asked, what it replies, and how a list of
requests is answered one after the other.  A refused request is answered with
its fault, and the run goes on.
-/

namespace ClientSdk

/-- What a ledger is asked. -/
inductive LedgerRequest where
  | register (r : Registration)
  /-- Whether a script file is the one that the ledger is for. -/
  | isOwn (path : String)
  | opening
  | close
  | write
deriving DecidableEq, Repr

/-- What a ledger replies to a request that it grants. -/
inductive LedgerReply where
  | registered (name : String)
  | own (answer : Bool)
  | opened
  | closed
  | block (text : String)
deriving DecidableEq, Repr

namespace Ledger

def step (l : Ledger) : LedgerRequest → Except Fault LedgerReply × Ledger
  | .register r =>
      let (result, l') := l.register r
      (result.map fun _ => .registered r.name.display, l')
  | .isOwn path => (.ok (.own (l.isOwn path)), l)
  | .opening => (.ok .opened, l)
  | .close => (.ok .closed, l.close)
  | .write =>
      let (result, l') := l.toScript
      (result.map .block, l')

/-- The replies to requests in order, each with the ledger after it. -/
def run (l : Ledger) :
    List LedgerRequest → List (Except Fault LedgerReply × Ledger)
  | [] => []
  | q :: qs =>
      let answer := l.step q
      answer :: answer.2.run qs

def after (l : Ledger) (qs : List LedgerRequest) : Ledger :=
  qs.foldl (fun l q => (l.step q).2) l

@[simp] theorem run_nil (l : Ledger) : l.run [] = [] := rfl

@[simp] theorem run_cons (l : Ledger) (q : LedgerRequest)
    (qs : List LedgerRequest) :
    l.run (q :: qs) = l.step q :: (l.step q).2.run qs := rfl

@[simp] theorem after_nil (l : Ledger) : l.after [] = l := rfl

@[simp] theorem after_cons (l : Ledger) (q : LedgerRequest)
    (qs : List LedgerRequest) :
    l.after (q :: qs) = (l.step q).2.after qs := rfl

/-- Every request is answered. -/
@[simp] theorem length_run (l : Ledger) (qs : List LedgerRequest) :
    (l.run qs).length = qs.length := by
  induction qs generalizing l with
  | nil => rfl
  | cons q qs ih => simp [ih]

end Ledger

end ClientSdk
